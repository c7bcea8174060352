import Mathlib.Data.List.Find
import ProjectBuild.Proofs.Compile.Contract
import ProjectBuild.Proofs.Record.Store
import ProjectBuild.Run.Level
import ProjectBuild.Staleness

/-! # What a check finds

    A check gives a project up only for the sake of a reference that did not
    build (`ruling_check`).  It finds a project up to date if all its clauses
    hold at once (`check_upToDate_iff`), and a record that has just been taken
    of a finished build meets those that concern the project's own files
    (`ownReason?_capture`). -/

namespace ProjectBuild

variable {σ : Type}

namespace Staleness

/-! ## Giving up -/

variable [FileSystem σ]

/-- The search for the oldest output fails only for a missing one. -/
theorem oldestOutput_error {fs : σ} {oldest : Oldest} {outputs : List Path} {reason : Reason}
    (h : oldestOutput fs oldest outputs = .error reason) : ∃ p, reason = .outputMissing p := by
  induction outputs generalizing oldest with
  | nil => exact nomatch h
  | cons output rest ih =>
      unfold oldestOutput at h
      cases hmod : FileSystem.modified? fs output with
      | none =>
          rw [hmod] at h
          exact ⟨output, (Except.error.inj h).symm⟩
      | some time =>
          rw [hmod] at h
          cases oldest with
          | none => exact ih h
          | some least => exact ih h

/-- An input is a ground by being newer than an output, or than its time on record.
    -/
theorem inputReason?_some {r : BuildRecord} {oldest : Oldest} {input : Path} {time : Time}
    {reason : Reason} (h : inputReason? r oldest input time = some reason) :
    (∃ p, reason = .inputNewer input p) ∨ reason = .inputChanged input := by
  unfold inputReason? at h
  cases oldest with
  | none =>
      by_cases hget : r.inputs.get? input = some time
      · simp only [if_pos hget] at h
        exact nomatch h
      · simp only [if_neg hget] at h
        exact Or.inr (Option.some.inj h).symm
  | some least =>
      by_cases hlt : least.2 < time
      · simp only [if_pos hlt] at h
        exact Or.inl ⟨least.1, (Option.some.inj h).symm⟩
      · simp only [if_neg hlt] at h
        exact nomatch h

/-- What the inputs give as a ground: one is missing, newer, or changed. -/
theorem inputsReason?_some {fs : σ} {r : BuildRecord} {oldest : Oldest} {inputs : List Path}
    {reason : Reason} (h : inputsReason? fs r oldest inputs = some reason) :
    reason = .inputSetChanged ∨ (∃ p q, reason = .inputNewer p q) ∨
      ∃ p, reason = .inputChanged p := by
  induction inputs with
  | nil => exact nomatch h
  | cons input rest ih =>
      unfold inputsReason? at h
      cases hmod : FileSystem.modified? fs input with
      | none =>
          rw [hmod] at h
          exact Or.inl (Option.some.inj h).symm
      | some time =>
          rw [hmod] at h
          cases hreason : inputReason? r oldest input time with
          | none =>
              simp only [hreason] at h
              exact ih h
          | some found =>
              simp only [hreason] at h
              obtain rfl := Option.some.inj h
              rcases inputReason?_some hreason with ⟨q, hq⟩ | hq
              · exact Or.inr (Or.inl ⟨input, q, hq⟩)
              · exact Or.inr (Or.inr ⟨input, hq⟩)

/-- The grounds that a project's own record and files can give. -/
def isOwn : Reason → Bool
  | .noPriorBuild => true
  | .configChanged => true
  | .inputSetChanged => true
  | .outputMissing _ => true
  | .inputNewer _ _ => true
  | .inputChanged _ => true
  | _ => false

/-- A ground among a project's own files makes it stale, whatever the options. -/
theorem ruling_own (options : BuildOptions) {reason : Reason} (h : isOwn reason = true) :
    Progress.ruling options reason = (.stale, reason) := by
  cases reason with
  | upToDate => exact nomatch h
  | upstreamRebuilt p => exact nomatch h
  | upstreamChanged p => exact nomatch h
  | upstreamBlocked p => exact nomatch h
  | forced => exact nomatch h
  | cancelled => exact nomatch h
  | _ => rfl

/-- What a project's own files give as a ground is one of their own. -/
theorem ownReason?_own {fs : σ} {p : Project} {r : BuildRecord} {reason : Reason}
    (h : ownReason? fs p r = some reason) : isOwn reason = true := by
  unfold ownReason? at h
  by_cases hconfig : r.configFingerprint ≠ p.configFingerprint
  · rw [if_pos hconfig] at h
    obtain rfl := Option.some.inj h
    rfl
  · rw [if_neg hconfig] at h
    by_cases hinputs : (!r.hasInputs p.inputs) = true
    · rw [if_pos hinputs] at h
      obtain rfl := Option.some.inj h
      rfl
    · rw [if_neg hinputs] at h
      cases hout : oldestOutput fs none r.outputs.keys with
      | error found =>
          simp only [hout] at h
          obtain rfl := Option.some.inj h
          obtain ⟨q, rfl⟩ := oldestOutput_error hout
          rfl
      | ok oldest =>
          simp only [hout] at h
          rcases inputsReason?_some h with rfl | ⟨q, q', rfl⟩ | ⟨q, rfl⟩
          · rfl
          · rfl
          · rfl

/-- A project's own files are a ground to rebuild it, never to give it up. -/
theorem ruling_ownReason? {fs : σ} {p : Project} {r : BuildRecord} {reason : Reason}
    (options : BuildOptions) (h : ownReason? fs p r = some reason) :
    (Progress.ruling options reason).1 = .stale :=
  congrArg Prod.fst (ruling_own options (ownReason?_own h))

/-- Whether a direct reference did not build. -/
def Blocked (g : Graph) (statuses : StatusTable) (i : Nat) : Prop :=
  ∃ j ∈ g.dependencies i, (statuses.get j).blocksDependents = true

/-- A blocking reference is found if there is one. -/
theorem blocked?_isSome {g : Graph} {statuses : StatusTable} {i : Nat} :
    (blocked? g statuses i).isSome = true ↔ Blocked g statuses i := by
  unfold blocked? Blocked
  rw [List.find?_isSome]

/-- None is found if no direct reference blocks. -/
theorem blocked?_eq_none {g : Graph} {statuses : StatusTable} {i : Nat} :
    blocked? g statuses i = none ↔ ¬ Blocked g statuses i := by
  rw [← blocked?_isSome, Bool.not_eq_true, Option.isSome_eq_false_iff, Option.isNone_iff_eq_none]

/-- No reference is found rebuilt if none of the direct ones is. -/
theorem rebuilt?_eq_none {g : Graph} {statuses : StatusTable} {i : Nat} :
    rebuilt? g statuses i = none ↔
      ∀ j ∈ g.dependencies i, (statuses.get j).isRebuild = false := by
  unfold rebuilt?
  rw [List.find?_eq_none]
  simp only [Bool.not_eq_true]

/-- No reference is found changed if each has the stamp on record. -/
theorem changed?_eq_none {g : Graph} {records : Records} {r : BuildRecord} {i : Nat} :
    changed? g records r i = none ↔
      ∀ j ∈ g.dependencies i, r.references.get? (g.node j).configPath = stampOf? records j := by
  unfold changed?
  rw [List.find?_eq_none]
  simp only [bne_iff_ne, ne_eq, Decidable.not_not]

/-- Whether a project is blocked depends on the statuses of its direct references.
    -/
theorem Blocked.congr {g : Graph} {before after : StatusTable} {i : Nat}
    (h : ∀ j ∈ g.dependencies i, after.get j = before.get j) :
    Blocked g after i ↔ Blocked g before i := by
  constructor
  · rintro ⟨j, hj, hb⟩
    exact ⟨j, hj, h j hj ▸ hb⟩
  · rintro ⟨j, hj, hb⟩
    exact ⟨j, hj, (h j hj).symm ▸ hb⟩

/-- **What a check can find**: a reference that blocks, or a ground in the
    project's own files, or one among its references, or nothing to do. -/
theorem check_cases (fs : σ) (g : Graph) (statuses : StatusTable) (records : Records) (i : Nat) :
    (∃ j ∈ g.dependencies i, (statuses.get j).blocksDependents = true ∧
      check fs g statuses records i = .upstreamBlocked (g.node j).configPath) ∨
    ¬ Blocked g statuses i ∧
      (isOwn (check fs g statuses records i) = true ∨
        (∃ j ∈ g.dependencies i, (statuses.get j).isRebuild = true ∧
          check fs g statuses records i = .upstreamRebuilt (g.node j).configPath) ∨
        (∃ j ∈ g.dependencies i,
          check fs g statuses records i = .upstreamChanged (g.node j).configPath) ∨
        check fs g statuses records i = .upToDate) := by
  -- one case for each question that the check asks, in its order
  unfold check
  cases hblocked : blocked? g statuses i with
  | some j =>
      have hblocks : (statuses.get j).blocksDependents = true :=
        List.find?_some (p := fun j => (statuses.get j).blocksDependents) hblocked
      exact Or.inl ⟨j, List.mem_of_find?_eq_some hblocked, hblocks, rfl⟩
  | none =>
      refine Or.inr ⟨blocked?_eq_none.mp hblocked, ?_⟩
      cases recordOf? records i with
      | none => exact Or.inl rfl
      | some r =>
          cases hown : ownReason? fs (g.node i) r with
          | some reason =>
              simp only [hown]
              exact Or.inl (ownReason?_own hown)
          | none =>
              simp only [hown]
              cases hrebuilt : rebuilt? g statuses i with
              | some j =>
                  have hrebuild : (statuses.get j).isRebuild = true :=
                    List.find?_some (p := fun j => (statuses.get j).isRebuild) hrebuilt
                  exact Or.inr (Or.inl
                    ⟨j, List.mem_of_find?_eq_some hrebuilt, hrebuild, rfl⟩)
              | none =>
                  cases hchanged : changed? g records r i with
                  | some j =>
                      exact Or.inr (Or.inr (Or.inl
                        ⟨j, List.mem_of_find?_eq_some hchanged, rfl⟩))
                  | none => exact Or.inr (Or.inr (Or.inr rfl))

/-- Nothing but a blocked reference makes a check give a project up. -/
theorem ruling_check (options : BuildOptions) (fs : σ) (g : Graph) (statuses : StatusTable)
    (records : Records) (i : Nat) :
    (Blocked g statuses i →
      (Progress.ruling options (check fs g statuses records i)).1 = .skipped) ∧
    (¬ Blocked g statuses i →
      (Progress.ruling options (check fs g statuses records i)).1 = .stale ∨
      (Progress.ruling options (check fs g statuses records i)).1 = .upToDate) := by
  rcases check_cases fs g statuses records i with ⟨j, hj, hblocks, hcheck⟩ | ⟨hb, hfound⟩
  · rw [hcheck]
    exact ⟨fun _ => rfl, fun h => absurd ⟨j, hj, hblocks⟩ h⟩
  · refine ⟨fun h => absurd h hb, fun _ => ?_⟩
    rcases hfound with hown | ⟨j, -, -, hcheck⟩ | ⟨j, -, hcheck⟩ | hcheck
    · exact Or.inl (congrArg Prod.fst (ruling_own options hown))
    · exact Or.inl (congrArg (fun reason => (Progress.ruling options reason).1) hcheck)
    · exact Or.inl (congrArg (fun reason => (Progress.ruling options reason).1) hcheck)
    · rw [hcheck]
      by_cases hforce : options.force = true
      · exact Or.inl (by simp only [Progress.ruling, if_pos hforce])
      · exact Or.inr (by simp only [Progress.ruling, if_neg hforce])

/-- **What a check looks at**: the project's own record and files; of its
    references, whether they block and whether they are rebuilt; and if none
    is, the stamps of their records. -/
theorem check_congr {fs fs' : σ} {g : Graph} {statuses statuses' : StatusTable}
    {records records' : Records} {i : Nat}
    (hblocks : ∀ j ∈ g.dependencies i,
      (statuses'.get j).blocksDependents = (statuses.get j).blocksDependents)
    (hrebuild : ∀ j ∈ g.dependencies i,
      (statuses'.get j).isRebuild = (statuses.get j).isRebuild)
    (hrecord : recordOf? records' i = recordOf? records i)
    (hown : ∀ r, recordOf? records i = some r →
      ownReason? fs' (g.node i) r = ownReason? fs (g.node i) r)
    (hstamps : ∀ j ∈ g.dependencies i, (statuses.get j).isRebuild = false →
      stampOf? records' j = stampOf? records j) :
    check fs' g statuses' records' i = check fs g statuses records i := by
  have hblocked : blocked? g statuses' i = blocked? g statuses i := List.find?_congr hblocks
  have hrebuilt : rebuilt? g statuses' i = rebuilt? g statuses i := List.find?_congr hrebuild
  unfold check
  rw [hblocked, hrecord]
  cases hr : recordOf? records i with
  | none => rfl
  | some r =>
      simp only [hown r hr, hrebuilt]
      cases hre : rebuilt? g statuses i with
      | some j => rfl
      | none =>
          have hquiet := rebuilt?_eq_none.mp hre
          have hchanged : changed? g records' r i = changed? g records r i :=
            List.find?_congr fun j hj => by rw [hstamps j hj (hquiet j hj)]
          rw [hchanged]

/-- Of the statuses only those of the references count. -/
theorem check_statuses_congr (fs : σ) {g : Graph} {statuses statuses' : StatusTable}
    (records : Records) {i : Nat}
    (h : ∀ j ∈ g.dependencies i, statuses'.get j = statuses.get j) :
    check fs g statuses' records i = check fs g statuses records i :=
  check_congr (fun j hj => by rw [h j hj]) (fun j hj => by rw [h j hj]) rfl (fun _ _ => rfl)
    (fun _ _ _ => rfl)

/-! ## Up to date -/

/-- **A project is up to date if all clauses hold at once.** -/
theorem check_upToDate_iff {fs : σ} {g : Graph} {statuses : StatusTable} {records : Records}
    {i : Nat} :
    check fs g statuses records i = .upToDate ↔
      ¬ Blocked g statuses i ∧
      (∀ j ∈ g.dependencies i, (statuses.get j).isRebuild = false) ∧
      ∃ r, recordOf? records i = some r ∧ ownReason? fs (g.node i) r = none ∧
        ∀ j ∈ g.dependencies i, r.references.get? (g.node j).configPath = stampOf? records j := by
  constructor
  · intro h
    unfold check at h
    -- every search but that for the record has to come back with nothing
    split at h
    · exact nomatch h
    rename_i hb
    split at h
    · exact nomatch h
    rename_i r hr
    split at h
    · rename_i reason hown
      have hstale := ruling_ownReason? {} hown
      rw [h] at hstale
      exact nomatch hstale
    rename_i hown
    split at h
    · exact nomatch h
    rename_i hre
    split at h
    · exact nomatch h
    rename_i hch
    exact ⟨blocked?_eq_none.mp hb, rebuilt?_eq_none.mp hre, r, hr, hown, changed?_eq_none.mp hch⟩
  · rintro ⟨hb, hre, r, hr, hown, hch⟩
    unfold check
    rw [blocked?_eq_none.mpr hb, hr]
    simp only [hown, rebuilt?_eq_none.mpr hre, changed?_eq_none.mpr hch]

/-! ## When a project's own files fit its record -/

/-- What the search for the oldest output finds: one that is missing, or none
    among none, or one than which no other is older. -/
theorem oldestOutput_spec (fs : σ) (outputs : List Path) (oldest : Oldest) :
    (∃ reason, oldestOutput fs oldest outputs = .error reason ∧
      ∃ o ∈ outputs, FileSystem.modified? fs o = none) ∨
    (oldestOutput fs oldest outputs = .ok none ∧ outputs = [] ∧ oldest = none) ∨
    ∃ q time, oldestOutput fs oldest outputs = .ok (some (q, time)) ∧
      (oldest = some (q, time) ∨ q ∈ outputs ∧ FileSystem.modified? fs q = some time) ∧
      (∀ x, oldest = some x → ¬ x.2 < time) ∧
      ∀ o ∈ outputs, ∃ t, FileSystem.modified? fs o = some t ∧ ¬ t < time := by
  induction outputs generalizing oldest with
  | nil =>
      cases oldest with
      | none => exact Or.inr (Or.inl ⟨rfl, rfl, rfl⟩)
      | some x =>
          refine Or.inr (Or.inr ⟨x.1, x.2, rfl, Or.inl rfl, ?_, fun o ho => nomatch ho⟩)
          rintro x' hx'
          obtain rfl := Option.some.inj hx'
          exact Int.lt_irrefl _
  | cons output rest ih =>
      cases hmod : FileSystem.modified? fs output with
      | none =>
          refine Or.inl ⟨.outputMissing output, ?_, output, List.mem_cons_self, hmod⟩
          unfold oldestOutput
          rw [hmod]
      | some time =>
          -- the output is taken up, unless an older one is at hand
          have hnext : ∃ next : Path × Time, oldestOutput fs oldest (output :: rest)
                = oldestOutput fs (some next) rest ∧
              (oldest = some next ∨ next = (output, time)) ∧
              (∀ x, oldest = some x → ¬ x.2 < next.2) ∧ ¬ time < next.2 := by
            simp only [oldestOutput, hmod]
            cases oldest with
            | none =>
                exact ⟨_, rfl, Or.inr rfl, fun x hx => (nomatch hx), Int.lt_irrefl _⟩
            | some least =>
                by_cases hlt : time < least.2
                · refine ⟨_, by simp only [if_pos hlt], Or.inr rfl, ?_, Int.lt_irrefl _⟩
                  rintro x hx
                  obtain rfl := Option.some.inj hx
                  exact Int.lt_asymm hlt
                · refine ⟨least, by simp only [if_neg hlt], Or.inl rfl, ?_, hlt⟩
                  rintro x hx
                  obtain rfl := Option.some.inj hx
                  exact Int.lt_irrefl _
          obtain ⟨next, heq, hwhich, hold, hown⟩ := hnext
          rw [heq]
          have hle : ∀ {t u : Time}, ¬ t < next.2 → ¬ next.2 < u → ¬ t < u := by
            intro t u h1 h2 h3
            have h1' : ¬ t.nanos < next.2.nanos := h1
            have h2' : ¬ next.2.nanos < u.nanos := h2
            have h3' : t.nanos < u.nanos := h3
            omega
          rcases ih (some next) with ⟨reason, herror, o, ho, hmissing⟩ | ⟨-, -, hnone⟩ |
              ⟨q, least, hok, horigin, hleast, hothers⟩
          · exact Or.inl ⟨reason, herror, o, List.mem_cons_of_mem _ ho, hmissing⟩
          · exact nomatch hnone
          · have hnext := hleast next rfl
            refine Or.inr (Or.inr ⟨q, least, hok, ?_, fun x hx => hle (hold x hx) hnext, ?_⟩)
            · rcases horigin with hq | ⟨hq, htime⟩
              · rcases hwhich with hwhich | rfl
                · exact Or.inl (hwhich.trans hq)
                · obtain ⟨rfl, rfl⟩ := Prod.mk.inj (Option.some.inj hq)
                  exact Or.inr ⟨List.mem_cons_self, hmod⟩
              · exact Or.inr ⟨List.mem_cons_of_mem _ hq, htime⟩
            · intro o ho
              rcases List.mem_cons.mp ho with rfl | ho
              · exact ⟨time, hmod, hle hown hnext⟩
              · exact hothers o ho

/-- The inputs give no ground if each is there and none gives one. -/
theorem inputsReason?_none_iff {fs : σ} {r : BuildRecord} {oldest : Oldest} {inputs : List Path} :
    inputsReason? fs r oldest inputs = none ↔ ∀ q ∈ inputs, ∃ time,
      FileSystem.modified? fs q = some time ∧ inputReason? r oldest q time = none := by
  induction inputs with
  | nil => exact ⟨fun _ q hq => (nomatch hq), fun _ => rfl⟩
  | cons q rest ih =>
      rw [List.forall_mem_cons, ← ih]
      cases hmod : FileSystem.modified? fs q with
      | none =>
          have hfound : inputsReason? fs r oldest (q :: rest) = some .inputSetChanged := by
            simp only [inputsReason?, hmod]
          rw [hfound]
          constructor
          · exact fun h => nomatch h
          · rintro ⟨⟨time, htime, -⟩, -⟩
            exact nomatch htime
      | some time =>
          have hfound : inputsReason? fs r oldest (q :: rest)
              = (inputReason? r oldest q time).or (inputsReason? fs r oldest rest) := by
            simp only [inputsReason?, hmod]
            cases inputReason? r oldest q time <;> rfl
          rw [hfound, Option.or_eq_none_iff]
          constructor
          · exact fun h => ⟨⟨time, rfl, h.1⟩, h.2⟩
          · rintro ⟨⟨time', htime, hnone⟩, hrest⟩
            obtain rfl := Option.some.inj htime
            exact ⟨hnone, hrest⟩

/-- An input's time is covered by a record: no recorded output is older, and if
    none is recorded the input has the time on record. -/
def Covers (fs : σ) (r : BuildRecord) (input : Path) (time : Time) : Prop :=
  (r.outputs.keys = [] → r.inputs.get? input = some time) ∧
    ∀ o ∈ r.outputs.keys, ∀ t, FileSystem.modified? fs o = some t → ¬ t < time

/-- **A project's own files fit its record** if the configuration and the set
    of inputs are those on record, all recorded outputs exist, and every
    input's time is covered. -/
theorem ownReason?_none_iff {fs : σ} {p : Project} {r : BuildRecord} :
    ownReason? fs p r = none ↔
      r.configFingerprint = p.configFingerprint ∧ r.hasInputs p.inputs = true ∧
      (∀ o ∈ r.outputs.keys, (FileSystem.modified? fs o).isSome = true) ∧
      ∀ q ∈ p.inputs, ∃ time, FileSystem.modified? fs q = some time ∧ Covers fs r q time := by
  unfold ownReason?
  by_cases hconfig : r.configFingerprint = p.configFingerprint
  · rw [if_neg (not_not.mpr hconfig)]
    cases hinputs : r.hasInputs p.inputs with
    | false =>
        constructor
        · exact fun h => nomatch h
        · exact fun h => nomatch h.2.1
    | true =>
        simp only [Bool.not_true, Bool.false_eq_true, if_false, hconfig, true_and]
        -- an output is missing, none is on record, or there is an oldest one
        rcases oldestOutput_spec fs r.outputs.keys none with ⟨reason, herror, o, ho, hmissing⟩ |
            ⟨hok, hnil, -⟩ | ⟨q, least, hok, horigin, -, hothers⟩
        · rw [herror]
          constructor
          · exact fun h => nomatch h
          · intro h
            have := h.1 o ho
            rw [hmissing] at this
            exact nomatch this
        · rw [hok]
          simp only [hnil, List.not_mem_nil, false_implies, implies_true, true_and,
            inputsReason?_none_iff]
          refine forall₂_congr fun q _ => exists_congr fun time => and_congr_right fun _ => ?_
          unfold Covers inputReason?
          rw [hnil]
          by_cases hget : r.inputs.get? q = some time
          · rw [if_pos hget]
            exact ⟨fun _ => ⟨fun _ => hget, fun o ho => nomatch ho⟩, fun _ => rfl⟩
          · rw [if_neg hget]
            exact ⟨fun h => (nomatch h), fun h => absurd (h.1 rfl) hget⟩
        · have hq : q ∈ r.outputs.keys ∧ FileSystem.modified? fs q = some least :=
            horigin.resolve_left fun h => nomatch h
          -- time is compared with the oldest output alone, which stands for all
          have hpresent : ∀ o ∈ r.outputs.keys, (FileSystem.modified? fs o).isSome = true := by
            intro o ho
            obtain ⟨t, ht, -⟩ := hothers o ho
            rw [ht]
            rfl
          simp only [hok, inputsReason?_none_iff]
          rw [and_iff_right hpresent]
          refine forall₂_congr fun input _ => exists_congr fun time => and_congr_right fun _ => ?_
          unfold Covers inputReason?
          by_cases hlt : least < time
          · simp only [if_pos hlt]
            exact ⟨fun h => (nomatch h), fun h => absurd hlt (h.2 q hq.1 least hq.2)⟩
          · simp only [if_neg hlt, true_iff]
            refine ⟨fun hnil => ?_, fun o ho t ht ht' => ?_⟩
            · rw [hnil] at hq
              exact nomatch hq.1
            · obtain ⟨t', ht'', hnot⟩ := hothers o ho
              obtain rfl := Option.some.inj (ht.symm.trans ht'')
              have h1 : ¬ t.nanos < least.nanos := hnot
              have h2 : ¬ least.nanos < time.nanos := hlt
              have h3 : t.nanos < time.nanos := ht'
              omega
  · rw [if_pos hconfig]
    constructor
    · exact fun h => nomatch h
    · exact fun h => absurd h.1 hconfig

/-- A project whose own files give no ground to rebuild it has the configuration
    on record, and its recorded outputs exist. -/
theorem ownReason?_none {fs : σ} {p : Project} {r : BuildRecord} (h : ownReason? fs p r = none) :
    r.configFingerprint = p.configFingerprint ∧
      ∀ q ∈ r.outputs.keys, (FileSystem.modified? fs q).isSome = true := by
  obtain ⟨hconfig, -, hpresent, -⟩ := ownReason?_none_iff.mp h
  exact ⟨hconfig, hpresent⟩

/-- Of the files' times only those of the project's inputs and of its recorded
    outputs count. -/
theorem ownReason?_congr_times {fs fs' : σ} {p : Project} {r : BuildRecord}
    (h : ∀ q ∈ p.inputs ++ r.outputs.keys,
      FileSystem.modified? fs' q = FileSystem.modified? fs q) :
    ownReason? fs' p r = ownReason? fs p r := by
  have holdest : ∀ (outputs : List Path) (oldest : Oldest),
      (∀ q ∈ outputs, FileSystem.modified? fs' q = FileSystem.modified? fs q) →
      oldestOutput fs' oldest outputs = oldestOutput fs oldest outputs := by
    intro outputs
    induction outputs with
    | nil => exact fun oldest _ => rfl
    | cons q rest ih =>
        intro oldest hq
        have hrest := fun oldest => ih oldest fun q' hq' => hq q' (List.mem_cons_of_mem q hq')
        unfold oldestOutput
        simp only [hq q List.mem_cons_self, hrest]
  have hinputs : ∀ (inputs : List Path) (oldest : Oldest),
      (∀ q ∈ inputs, FileSystem.modified? fs' q = FileSystem.modified? fs q) →
      inputsReason? fs' r oldest inputs = inputsReason? fs r oldest inputs := by
    intro inputs oldest
    induction inputs with
    | nil => exact fun _ => rfl
    | cons q rest ih =>
        intro hq
        unfold inputsReason?
        rw [hq q List.mem_cons_self, ih fun q' hq' => hq q' (List.mem_cons_of_mem q hq')]
  unfold ownReason?
  rw [holdest r.outputs.keys none fun q hq => h q (List.mem_append_right _ hq)]
  simp only [hinputs p.inputs _ fun q hq => h q (List.mem_append_left _ hq)]

end Staleness

/-! ## Records of finished builds -/

namespace Staleness

variable {fs : MemoryFs} {p : Project} {r : BuildRecord}

/-- **A record that has just been taken fits its project's files**, if all
    inputs are older than all outputs. -/
theorem ownReason?_capture {moment : Nat} {references : PathMap String}
    (hinputs : ∀ q ∈ p.inputs, ∃ f, fs.file? q = some f ∧
      ∃ n, n ≤ moment ∧ f.modified = .ofEpoch n 0)
    (hdistinct : p.inputs.Pairwise fun p q => p.components ≠ q.components)
    (hnew : fs.Delivered moment p.expectedOutputs [])
    (hpresent : fs.Present p.expectedOutputs []) :
    ownReason? fs p (BuildRecord.capture fs p references) = none := by
  -- no input is newer than the moment that all outputs are newer than
  have hmod : ∀ q ∈ p.inputs, ∃ n, n ≤ moment ∧
      FileSystem.modified? fs q = some (.ofEpoch n 0) := by
    intro q hq
    obtain ⟨f, hf, n, hn, htime⟩ := hinputs q hq
    refine ⟨n, hn, ?_⟩
    rw [MemoryFs.modified?_eq, hf, ← htime]
    rfl
  -- distinct inputs all have times, so the record has as many as there are inputs
  have hhas : (BuildRecord.capture fs p references).hasInputs p.inputs = true := by
    unfold BuildRecord.hasInputs
    rw [BuildRecord.capture_inputs, Bool.and_eq_true, beq_iff_eq, List.all_eq_true]
    constructor
    · refine BuildRecord.times_size hdistinct fun q hq => ?_
      obtain ⟨n, -, htime⟩ := hmod q hq
      rw [htime]
      rfl
    · intro q hq
      obtain ⟨n, -, htime⟩ := hmod q hq
      rw [PathMap.contains_eq, BuildRecord.times_get?, if_pos ⟨q, hq, rfl⟩, htime]
      rfl
  have hkeys : ∀ q ∈ (BuildRecord.capture fs p references).outputs.keys,
      q ∈ p.expectedOutputs := by
    intro q hq
    obtain ⟨entry, hentry, rfl⟩ := List.mem_map.mp hq
    exact (BuildRecord.mem_times hentry).1
  refine ownReason?_none_iff.mpr ⟨rfl, hhas, ?_, ?_⟩
  · intro o ho
    rw [MemoryFs.modified?_eq, Option.isSome_map]
    exact hpresent o (hkeys o ho) List.not_mem_nil
  · intro q hq
    obtain ⟨n, hn, htime⟩ := hmod q hq
    refine ⟨_, htime, fun _ => ?_, ?_⟩
    · rw [BuildRecord.capture_inputs, BuildRecord.times_get?, if_pos ⟨q, hq, rfl⟩, htime]
    · intro o ho t ht
      obtain ⟨f, hf, rfl⟩ := Option.map_eq_some_iff.mp ht
      obtain ⟨m, hm, hfm⟩ := hnew o (hkeys o ho) List.not_mem_nil f hf
      rw [hfm, Time.ofEpoch_lt]
      omega

/-- Whether a project's own files fit its record depends on those files
    alone. -/
theorem ownReason?_congr {fs' : MemoryFs}
    (h : ∀ q ∈ p.inputs ++ r.outputs.keys, fs'.file? q = fs.file? q) :
    ownReason? fs' p r = ownReason? fs p r := by
  refine ownReason?_congr_times fun q hq => ?_
  rw [MemoryFs.modified?_eq, MemoryFs.modified?_eq, h q hq]

/-- Newer outputs do not call for a rebuild. -/
theorem ownReason?_later {fs' : MemoryFs} (htimely : fs.Timely) (hlater : fs.Later fs')
    (hinputs : ∀ q ∈ p.inputs, fs'.file? q = fs.file? q)
    (houtputs : ∀ o ∈ r.outputs.keys, (fs'.file? o).isSome = true)
    (h : ownReason? fs p r = none) : ownReason? fs' p r = none := by
  obtain ⟨hconfig, hhas, -, hcovered⟩ := ownReason?_none_iff.mp h
  refine ownReason?_none_iff.mpr ⟨hconfig, hhas, ?_, ?_⟩
  · intro o ho
    rw [MemoryFs.modified?_eq, Option.isSome_map]
    exact houtputs o ho
  · intro q hq
    obtain ⟨time, htime, hnil, hnewer⟩ := hcovered q hq
    refine ⟨time, ?_, hnil, fun o ho t ht => ?_⟩
    · rw [MemoryFs.modified?_eq, hinputs q hq]
      exact htime
    · obtain ⟨f, hf, rfl⟩ := Option.map_eq_some_iff.mp ht
      rcases hlater.fresh o f hf with hsame | ⟨n, hn, -, hfn⟩
      · exact hnewer o ho _ (Option.map_eq_some_iff.mpr ⟨f, hsame, rfl⟩)
      · obtain ⟨f', hf', rfl⟩ := Option.map_eq_some_iff.mp htime
        obtain ⟨m, hm, hfm⟩ := htimely q f' hf'
        rw [hfn, hfm, Time.ofEpoch_lt]
        omega

/-- **A newer input calls for a rebuild**, if the recorded outputs have not
    changed since it was covered. -/
theorem ownReason?_newer {fs' : MemoryFs} (htimely : fs.Timely) {q : Path} (hq : q ∈ p.inputs)
    (hnew : fs'.NewSince fs.clock q)
    (houtputs : ∀ o ∈ r.outputs.keys, fs'.file? o = fs.file? o)
    (h : ownReason? fs p r = none) : ownReason? fs' p r ≠ none := by
  intro h'
  obtain ⟨-, -, hpresent, hcovered⟩ := ownReason?_none_iff.mp h
  obtain ⟨-, -, -, hcovered'⟩ := ownReason?_none_iff.mp h'
  obtain ⟨time, htime, hnil, -⟩ := hcovered q hq
  obtain ⟨time', htime', hnil', hnewer'⟩ := hcovered' q hq
  obtain ⟨f, hf, rfl⟩ := Option.map_eq_some_iff.mp htime
  obtain ⟨f', hf', rfl⟩ := Option.map_eq_some_iff.mp htime'
  obtain ⟨m, hm, hfm⟩ := htimely q f hf
  obtain ⟨n, hn, hfn⟩ := hnew f' hf'
  cases hkeys : r.outputs.keys with
  | nil =>
      -- without outputs both times are the one on record
      have hsame := Option.some.inj ((hnil hkeys).symm.trans (hnil' hkeys))
      rw [hfm, hfn] at hsame
      have hlt : Time.ofEpoch m 0 < Time.ofEpoch n 0 := Time.ofEpoch_lt.mpr (by omega)
      rw [hsame] at hlt
      exact Int.lt_irrefl _ hlt
  | cons o rest =>
      have ho : o ∈ r.outputs.keys := by
        rw [hkeys]
        exact List.mem_cons_self
      obtain ⟨t, ht⟩ := Option.isSome_iff_exists.mp (hpresent o ho)
      obtain ⟨g, hg, rfl⟩ := Option.map_eq_some_iff.mp ht
      obtain ⟨k, hk, hgk⟩ := htimely o g hg
      -- the output is of before, and the input is newer than that
      refine hnewer' o ho g.modified ?_ ?_
      · rw [MemoryFs.modified?_eq, houtputs o ho]
        exact ht
      · rw [hgk, hfn, Time.ofEpoch_lt]
        omega

end Staleness

end ProjectBuild
