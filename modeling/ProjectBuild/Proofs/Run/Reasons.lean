import ProjectBuild.Proofs.Run.Footprint
import ProjectBuild.Proofs.Staleness

/-! # The reasons that a run keeps

    The reason of a project is set by the decision on it, together with its
    status (`Progress.Ruled`).  After the work of a crew it is set once more,
    and only for a project that was to be built and was given up
    (`Progress.reasonOf_build`).

    A reason agrees with the status of its project (`Progress.Agrees`).  It may
    name a reference, and the statuses of references are final by then, since
    they lie in earlier levels. -/

namespace ProjectBuild

variable {σ : Type}

namespace Progress

/-- The reason that a run has kept for a project. -/
def reasonOf (s : Progress σ) (i : Nat) : Reason :=
  s.reasons.getD i .noPriorBuild

/-! ## Decisions -/

section
variable [FileSystem σ]

theorem decide_reasons (g : Graph) (options : BuildOptions) (s : Progress σ) (i : Nat) :
    (decide g options s i).reasons = s.reasons.set i (ruling options (ground g s i)).2 := rfl

/-- A decision gives its reason. -/
theorem reasonOf_decide (g : Graph) (options : BuildOptions) {s : Progress σ} {i : Nat}
    (hi : i < s.reasons.length) :
    (decide g options s i).reasonOf i = (ruling options (ground g s i)).2 := by
  unfold reasonOf
  rw [decide_reasons, List.getD_eq_getElem?_getD, List.getElem?_set_self hi, Option.getD_some]

/-- A decision leaves the reasons of other projects. -/
theorem reasonOf_decide_ne (g : Graph) (options : BuildOptions) (s : Progress σ) {i j : Nat}
    (h : j ≠ i) : (decide g options s i).reasonOf j = s.reasonOf j := by
  unfold reasonOf
  rw [decide_reasons, List.getD_eq_getElem?_getD, List.getElem?_set_ne h.symm,
    ← List.getD_eq_getElem?_getD]

/-- A decision on a project with the statuses that it was based on.  It sets
    status and reason at once, and gives a project up as cancelled only if
    somebody has cancelled the run. -/
def Ruled (g : Graph) (options : BuildOptions) (s s' : Progress σ) (interruptions : List Bool)
    (level : List Nat) (i : Nat) : Prop :=
  ∃ (statuses : StatusTable) (reason : Reason),
    (∀ j, j ∉ level → statuses.get j = s.run.statuses.get j) ∧
    (s'.run.statuses.get i, s'.reasonOf i) = ruling options reason ∧
    (reason = .cancelled ∧ (s.run.site.cancelled = true ∨ true ∈ interruptions) ∨
      reason = Staleness.check s.run.site.files g statuses s.records i)

/-- What the decisions of a level make of the reasons, with `front` decided
    on. -/
structure Reasoned (g : Graph) (options : BuildOptions) (interruptions : List Bool)
    (level : List Nat) (s : Progress σ) (front : List Nat) (s' : Progress σ) : Prop where
  length : s'.reasons.length = s.reasons.length
  cancelled : s'.run.site.cancelled = true →
    s.run.site.cancelled = true ∨ true ∈ interruptions
  others : ∀ j, j ∉ front → s'.reasonOf j = s.reasonOf j
  ruled : ∀ i ∈ front, Ruled g options s s' interruptions level i

/-- **The decisions of a level set reasons** that go with the statuses. -/
theorem decideEach_reasons (g : Graph) (options : BuildOptions) {level : List Nat}
    (hnodup : level.Nodup) (s : Progress σ) (hlt : ∀ i ∈ level, i < s.run.statuses.size)
    (hreasons : ∀ i ∈ level, i < s.reasons.length) (interruptions : List Bool) :
    Reasoned g options interruptions level s level
      (decideEach g options s interruptions level) := by
  have h := decideEach_induct_nodup g options s interruptions hnodup
    (P := fun front s' => Opened s s' front ∧
      Reasoned g options interruptions level s front s') ?_ ?_ ?_
  · exact h.2
  · rintro hmem front s' ⟨hopened, hreasoned⟩
    exact ⟨hopened.interrupt,
      ⟨hreasoned.length, fun _ => Or.inr hmem, hreasoned.others, hreasoned.ruled⟩⟩
  · rintro front i s' hi hnew hfront ⟨hopened, hreasoned⟩
    have hfresh : ∀ j ∈ front, j ≠ i := fun j hj heq => hnew (heq ▸ hj)
    refine ⟨hopened.decide i, ?_, ?_, ?_, ?_⟩
    · rw [decide_reasons, List.length_set]
      exact hreasoned.length
    · rw [decide_site]
      exact hreasoned.cancelled
    · intro j hj
      rw [List.mem_append, List.mem_singleton, not_or] at hj
      rw [reasonOf_decide_ne g options s' hj.2]
      exact hreasoned.others j hj.1
    · intro j hj
      rcases List.mem_append.mp hj with hj | hj
      · obtain ⟨statuses, reason, hstatuses, hpair, hreason⟩ := hreasoned.ruled j hj
        refine ⟨statuses, reason, hstatuses, ?_, hreason⟩
        rw [decide_get_ne g options s' (hfresh j hj), reasonOf_decide_ne g options s' (hfresh j hj)]
        exact hpair
      · rw [List.mem_singleton.mp hj]
        -- decided just now, on the statuses of before the decision
        refine ⟨s'.run.statuses, ground g s' i, ?_, ?_, ?_⟩
        · exact fun j hj => hopened.others j fun hmem => hj (hfront hmem)
        · rw [decide_statuses, StatusTable.get_publish (hopened.size.symm ▸ hlt i hi),
            reasonOf_decide g options (hreasoned.length.symm ▸ hreasons i hi)]
        · refine (hopened.ground_cases i).imp_left ?_
          exact fun ⟨hcancelled, hground⟩ => ⟨hground, hreasoned.cancelled hcancelled⟩
  · exact ⟨Opened.refl s, rfl, Or.inl, fun _ _ => rfl, fun i hi => nomatch hi⟩

/-- Decisions without an interruption do not cancel the run. -/
theorem Reasoned.running {g : Graph} {options : BuildOptions} {s s' : Progress σ}
    {interruptions : List Bool} {level front : List Nat}
    (h : Reasoned g options interruptions level s front s')
    (hrunning : s.run.site.cancelled = false) (hquiet : true ∉ interruptions) :
    s'.run.site.cancelled = false := by
  refine Bool.eq_false_iff.mpr fun hcancelled => ?_
  rcases h.cancelled hcancelled with hbefore | hmem
  · rw [hrunning] at hbefore
    exact nomatch hbefore
  · exact hquiet hmem

/-- A decision in a run that nobody cancels is a check. -/
theorem Ruled.checked {g : Graph} {options : BuildOptions} {s s' : Progress σ}
    {interruptions : List Bool} {level : List Nat} {i : Nat}
    (h : Ruled g options s s' interruptions level i) (hrunning : s.run.site.cancelled = false)
    (hquiet : true ∉ interruptions) :
    ∃ statuses : StatusTable, (∀ j, j ∉ level → statuses.get j = s.run.statuses.get j) ∧
      (s'.run.statuses.get i, s'.reasonOf i)
        = ruling options (Staleness.check s.run.site.files g statuses s.records i) := by
  obtain ⟨statuses, reason, hstatuses, hpair, ⟨-, hcancelled | hmem⟩ | rfl⟩ := h
  · rw [hrunning] at hcancelled
    exact nomatch hcancelled
  · exact absurd hmem hquiet
  · exact ⟨statuses, hstatuses, hpair⟩

end

/-! ## After the work of a crew -/

theorem collect_reasons (s : Progress σ) (worker : Worker σ) :
    (s.collect worker).reasons = if s.run.statuses.get worker.index = .skipped
      then s.reasons.set worker.index .cancelled else s.reasons := by
  unfold collect
  by_cases hskipped : s.run.statuses.get worker.index = .skipped
  · simp only [if_pos hskipped]
    cases worker.record? <;> rfl
  · simp only [if_neg hskipped]
    cases worker.record? <;> rfl

theorem collect_reasons_length (s : Progress σ) (worker : Worker σ) :
    (s.collect worker).reasons.length = s.reasons.length := by
  rw [collect_reasons]
  by_cases hskipped : s.run.statuses.get worker.index = .skipped
  · rw [if_pos hskipped, List.length_set]
  · rw [if_neg hskipped]

/-- A worker that was cancelled gives that as the reason. -/
theorem reasonOf_collect (s : Progress σ) (worker : Worker σ) {j : Nat}
    (hj : j < s.reasons.length) :
    (s.collect worker).reasonOf j
      = if s.run.statuses.get j = .skipped ∧ j = worker.index then .cancelled
        else s.reasonOf j := by
  unfold reasonOf
  rw [collect_reasons]
  by_cases hindex : j = worker.index
  · subst hindex
    by_cases hskipped : s.run.statuses.get worker.index = .skipped
    · rw [if_pos hskipped, if_pos ⟨hskipped, rfl⟩, List.getD_eq_getElem?_getD,
        List.getElem?_set_self hj, Option.getD_some]
    · rw [if_neg hskipped, if_neg fun h => hskipped h.1]
  · rw [if_neg (c := _ ∧ j = worker.index) fun h => hindex h.2]
    by_cases hskipped : s.run.statuses.get worker.index = .skipped
    · rw [if_pos hskipped, List.getD_eq_getElem?_getD, List.getElem?_set_ne (Ne.symm hindex),
        ← List.getD_eq_getElem?_getD]
    · rw [if_neg hskipped]

/-- **What a crew leaves behind of the reasons**: its projects that ended as
    skipped were cancelled. -/
theorem foldl_collect_reasons (crew : Crew σ) (s : Progress σ) :
    (crew.foldl collect s).reasons.length = s.reasons.length ∧
      ∀ j < s.reasons.length, (crew.foldl collect s).reasonOf j
        = if s.run.statuses.get j = .skipped ∧ j ∈ crew.map Worker.index then .cancelled
          else s.reasonOf j := by
  induction crew generalizing s with
  | nil => exact ⟨rfl, fun j _ => (if_neg fun h => nomatch h.2).symm⟩
  | cons worker rest ih =>
      obtain ⟨hlength, hreasons⟩ := ih (s.collect worker)
      rw [collect_reasons_length] at hlength hreasons
      rw [List.foldl_cons]
      refine ⟨hlength, fun j hj => ?_⟩
      rw [hreasons j hj, collect_run, reasonOf_collect s worker hj, List.map_cons]
      by_cases hskipped : s.run.statuses.get j = .skipped
      · by_cases hrest : j ∈ rest.map Worker.index
        · rw [if_pos ⟨hskipped, hrest⟩, if_pos ⟨hskipped, List.mem_cons_of_mem _ hrest⟩]
        · rw [if_neg fun h => hrest h.2]
          simp only [List.mem_cons, hrest, or_false]
      · rw [if_neg fun h => hskipped h.1, if_neg fun h => hskipped h.1,
          if_neg fun h => hskipped h.1]

section
variable [FileSystem σ]

theorem build_reasons_length (g : Graph) (compiler : Compiler σ) (turns : List Turn)
    (s : Progress σ) (part : List Nat) :
    (build g compiler turns s part).reasons.length = s.reasons.length := by
  rw [build_eq]
  exact (foldl_collect_reasons _ _).1

/-- **Building keeps the reasons**, but those of the projects that are given
    up. -/
theorem reasonOf_build (g : Graph) (compiler : Compiler σ) (turns : List Turn) {s : Progress σ}
    (part : List Nat) {j : Nat} (hj : j < s.reasons.length) :
    (build g compiler turns s part).reasonOf j
      = if (build g compiler turns s part).run.statuses.get j = .skipped ∧ j ∈ s.stale part
        then .cancelled else s.reasonOf j := by
  have hcollected := (foldl_collect_reasons
    (Crew.work ⟨g, compiler, s.records⟩ (s.stale part) turns s.run).1
    { s with run := (Crew.work ⟨g, compiler, s.records⟩ (s.stale part) turns s.run).2 }).2 j hj
  rw [Crew.work_indices] at hcollected
  rw [build_run, build_eq]
  exact hcollected

theorem start_reasons_length (site : Site σ) (g : Graph) :
    (start site g).reasons.length = g.size :=
  List.length_replicate

end

/-! ## Reasons that agree with statuses -/

/-- The status in which a project is found that is rebuilt in a run. -/
def rebuiltStatus (options : BuildOptions) : Status :=
  if options.dryRun then .stale else .built

/-- The reason of a project agrees with its status, and with those of the
    references that it names. -/
structure Agrees (g : Graph) (options : BuildOptions) (status : Nat → Status)
    (reason : Nat → Reason) (i : Nat) : Prop where
  skipped : status i = .skipped ↔
    reason i = .cancelled ∨ ∃ p, reason i = .upstreamBlocked p
  upToDate : status i = .upToDate ↔ reason i = .upToDate
  blocked : ∀ p, reason i = .upstreamBlocked p → ∃ j ∈ g.dependencies i,
    (g.node j).configPath = p ∧ (status j = .failed ∨ status j = .skipped)
  rebuilt : ∀ p, reason i = .upstreamRebuilt p → ∃ j ∈ g.dependencies i,
    (g.node j).configPath = p ∧ status j = rebuiltStatus options

section agrees

variable {g : Graph} {options : BuildOptions} {status status' : Nat → Status}
  {reason reason' : Nat → Reason} {i : Nat}

/-- Whether a reason agrees depends on it, on the status, and on those of the
    references. -/
theorem Agrees.congr (h : Agrees g options status reason i) (hstatus : status' i = status i)
    (hreason : reason' i = reason i) (hreferences : ∀ j ∈ g.dependencies i, status' j = status j) :
    Agrees g options status' reason' i := by
  constructor
  case skipped =>
    rw [hstatus, hreason]
    exact h.skipped
  case upToDate =>
    rw [hstatus, hreason]
    exact h.upToDate
  case blocked =>
    rw [hreason]
    intro p hp
    obtain ⟨j, hj, hpath, hst⟩ := h.blocked p hp
    exact ⟨j, hj, hpath, (hreferences j hj).symm ▸ hst⟩
  case rebuilt =>
    rw [hreason]
    intro p hp
    obtain ⟨j, hj, hpath, hst⟩ := h.rebuilt p hp
    exact ⟨j, hj, hpath, (hreferences j hj).trans hst⟩

/-- Cancellation agrees with being skipped. -/
theorem agrees_of_cancelled (hstatus : status i = .skipped) (hreason : reason i = .cancelled) :
    Agrees g options status reason i := by
  refine ⟨⟨fun _ => Or.inl hreason, fun _ => hstatus⟩, ⟨fun h => ?_, fun h => ?_⟩, ?_, ?_⟩
  · exact nomatch hstatus.symm.trans h
  · exact nomatch hreason.symm.trans h
  · exact fun p hp => nomatch hreason.symm.trans hp
  · exact fun p hp => nomatch hreason.symm.trans hp

/-- Being found up to date agrees with ending so. -/
theorem agrees_of_upToDate (hstatus : status i = .upToDate) (hreason : reason i = .upToDate) :
    Agrees g options status reason i := by
  refine ⟨⟨fun h => ?_, ?_⟩, ⟨fun _ => hreason, fun _ => hstatus⟩, ?_, ?_⟩
  · exact nomatch hstatus.symm.trans h
  · rintro (h | ⟨p, h⟩) <;> exact nomatch hreason.symm.trans h
  · exact fun p hp => nomatch hreason.symm.trans hp
  · exact fun p hp => nomatch hreason.symm.trans hp

/-- A reference that blocks agrees with being skipped. -/
theorem agrees_of_blocked {j : Nat} (hj : j ∈ g.dependencies i)
    (hblocks : status j = .failed ∨ status j = .skipped) (hstatus : status i = .skipped)
    (hreason : reason i = .upstreamBlocked (g.node j).configPath) :
    Agrees g options status reason i := by
  refine ⟨⟨fun _ => Or.inr ⟨_, hreason⟩, fun _ => hstatus⟩, ⟨fun h => ?_, fun h => ?_⟩, ?_, ?_⟩
  · exact nomatch hstatus.symm.trans h
  · exact nomatch hreason.symm.trans h
  · intro p hp
    exact ⟨j, hj, Reason.upstreamBlocked.inj (hreason.symm.trans hp), hblocks⟩
  · exact fun p hp => nomatch hreason.symm.trans hp

/-- Whether a reason calls for a project to be built. -/
def calls : Reason → Bool
  | .upToDate => false
  | .upstreamBlocked _ => false
  | .cancelled => false
  | _ => true

/-- A project that is to be built, or has been, or has failed. -/
theorem agrees_of_calls (hskipped : status i ≠ .skipped) (hup : status i ≠ .upToDate)
    (hcalls : calls (reason i) = true)
    (hrebuilt : ∀ p, reason i = .upstreamRebuilt p → ∃ j ∈ g.dependencies i,
      (g.node j).configPath = p ∧ status j = rebuiltStatus options) :
    Agrees g options status reason i := by
  refine ⟨⟨fun h => absurd h hskipped, ?_⟩, ⟨fun h => absurd h hup, ?_⟩, ?_, hrebuilt⟩
  · rintro (h | ⟨p, h⟩) <;> rw [h] at hcalls <;> exact nomatch hcalls
  · intro h
    rw [h] at hcalls
    exact nomatch hcalls
  · intro p h
    rw [h] at hcalls
    exact nomatch hcalls

/-- A project that agrees is built for its reason, if it is stale. -/
theorem Agrees.ended (h : Agrees g options status reason i)
    (hcalls : calls (reason i) = true)
    (hreferences : ∀ j ∈ g.dependencies i, status' j = status j)
    (hend : status' i = .skipped ∧ reason' i = .cancelled ∨
      (status' i = .built ∨ status' i = .failed) ∧ reason' i = reason i) :
    Agrees g options status' reason' i := by
  rcases hend with ⟨hstatus, hreason⟩ | ⟨hstatus, hreason⟩
  · exact agrees_of_cancelled hstatus hreason
  · refine agrees_of_calls ?_ ?_ (hreason.symm ▸ hcalls) ?_
    · rcases hstatus with hst | hst <;> rw [hst] <;> exact fun h => nomatch h
    · rcases hstatus with hst | hst <;> rw [hst] <;> exact fun h => nomatch h
    · rw [hreason]
      intro p hp
      obtain ⟨j, hj, hpath, hst⟩ := h.rebuilt p hp
      exact ⟨j, hj, hpath, (hreferences j hj).trans hst⟩

end agrees

section
variable [FileSystem σ] {g : Graph} {options : BuildOptions}

/-- A ground among a project's own files calls for a rebuild. -/
theorem calls_of_own {reason : Reason} (h : Staleness.isOwn reason = true) :
    calls reason = true := by
  cases reason with
  | upToDate => exact nomatch h
  | upstreamBlocked p => exact nomatch h
  | cancelled => exact nomatch h
  | _ => rfl

/-- **A decision sets a status and a reason that agree.** -/
theorem Ruled.agrees {s s' : Progress σ} {interruptions : List Bool} {level : List Nat} {i : Nat}
    (h : Ruled g options s s' interruptions level i)
    (hreferences : ∀ j ∈ g.dependencies i,
      j ∉ level ∧ s'.run.statuses.get j = s.run.statuses.get j)
    (hrebuilt : ∀ j ∈ g.dependencies i, (s.run.statuses.get j).isRebuild = true →
      s.run.statuses.get j = rebuiltStatus options) :
    Agrees g options s'.run.statuses.get s'.reasonOf i ∧
      (s'.run.statuses.get i = .stale → calls (s'.reasonOf i) = true) := by
  obtain ⟨statuses, reason, hstatuses, hpair, hreason⟩ := h
  have hstatus : s'.run.statuses.get i = (ruling options reason).1 := congrArg Prod.fst hpair
  have hkept : s'.reasonOf i = (ruling options reason).2 := congrArg Prod.snd hpair
  have hseen : ∀ j ∈ g.dependencies i, statuses.get j = s'.run.statuses.get j :=
    fun j hj => (hstatuses j (hreferences j hj).1).trans (hreferences j hj).2.symm
  -- what is said of a project that is to be built
  have hstale : ∀ {found : Reason}, ruling options reason = (.stale, found) →
      calls found = true →
      (∀ p, found = .upstreamRebuilt p → ∃ j ∈ g.dependencies i,
        (g.node j).configPath = p ∧ s'.run.statuses.get j = rebuiltStatus options) →
      Agrees g options s'.run.statuses.get s'.reasonOf i ∧
        (s'.run.statuses.get i = .stale → calls (s'.reasonOf i) = true) := by
    intro found hruling hcalls hnamed
    have hst : s'.run.statuses.get i = .stale := hstatus.trans (congrArg Prod.fst hruling)
    have hfound : s'.reasonOf i = found := hkept.trans (congrArg Prod.snd hruling)
    rw [← hfound] at hcalls hnamed
    refine ⟨agrees_of_calls ?_ ?_ hcalls hnamed, fun _ => hcalls⟩
    · rw [hst]
      decide
    · rw [hst]
      decide
  -- the run was cancelled, or the check says why
  rcases hreason with ⟨rfl, -⟩ | rfl
  · have hskipped : s'.run.statuses.get i = .skipped := hstatus
    refine ⟨agrees_of_cancelled hskipped hkept, fun hst => ?_⟩
    cases hskipped.symm.trans hst
  · rcases Staleness.check_cases s.run.site.files g statuses s.records i with
      ⟨j, hj, hblocks, hcheck⟩ | ⟨-, hown | ⟨j, hj, hre, hcheck⟩ | ⟨j, hj, hcheck⟩ | hcheck⟩
    · rw [hcheck] at hstatus hkept
      have hskipped : s'.run.statuses.get i = .skipped := hstatus
      refine ⟨agrees_of_blocked hj ?_ hskipped hkept, fun hst => ?_⟩
      · rw [hseen j hj] at hblocks
        cases hst : s'.run.statuses.get j with
        | failed => exact Or.inl rfl
        | skipped => exact Or.inr rfl
        | _ =>
            rw [hst] at hblocks
            cases hblocks
      · cases hskipped.symm.trans hst
    · refine hstale (Staleness.ruling_own options hown) (calls_of_own hown) fun p hp => ?_
      rw [hp] at hown
      cases hown
    · rw [hcheck] at hstale
      refine hstale rfl rfl fun p hp => ?_
      obtain rfl := Reason.upstreamRebuilt.inj hp
      refine ⟨j, hj, rfl, ?_⟩
      rw [hseen j hj, (hreferences j hj).2] at hre
      exact (hreferences j hj).2.trans (hrebuilt j hj hre)
    · rw [hcheck] at hstale
      refine hstale rfl rfl fun p hp => ?_
      cases hp
    · rw [hcheck] at hstale hstatus hkept
      by_cases hforce : options.force = true
      · have hforced : ruling options .upToDate = (.stale, .forced) := by
          simp only [ruling, if_pos hforce]
        refine hstale hforced rfl fun p hp => ?_
        cases hp
      · have hleft : ruling options .upToDate = (.upToDate, .upToDate) := by
          simp only [ruling, if_neg hforce]
        rw [hleft] at hstatus hkept
        refine ⟨agrees_of_upToDate hstatus hkept, fun hst => ?_⟩
        cases hstatus.symm.trans hst

end

/-! ## The report -/

/-- What a run reports of a project. -/
def outcomeOf (g : Graph) (s : Progress σ) (i : Nat) : Outcome where
  project := (g.node i).configPath
  status := s.run.statuses.get i
  reason := s.reasonOf i
  level := g.levelOf i

/-- **A report lists the projects in the order of the levels.** -/
theorem report_projects (g : Graph) (options : BuildOptions) (s : Progress σ) :
    (s.report g options).projects = g.levels.flatten.map (s.outcomeOf g) := by
  show (g.levels.zipIdx.map fun part => s.outcomes g part.2 part.1).flatten = _
  rw [List.map_flatten]
  congr 1
  refine List.ext_getElem (by rw [List.length_map, List.length_map, List.length_zipIdx]) ?_
  intro n hn hn'
  rw [List.length_map] at hn'
  simp only [List.getElem_map, List.getElem_zipIdx, Nat.zero_add]
  refine List.map_congr_left fun i hi => ?_
  show (⟨(g.node i).configPath, s.run.statuses.get i, s.reasonOf i, n⟩ : Outcome) = _
  rw [← ((Graph.mem_levels_getElem hn').mp hi).2]
  rfl

end Progress

end ProjectBuild
