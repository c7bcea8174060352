import ProjectBuild.Proofs.Run.Halt
import ProjectBuild.Proofs.Run.Idempotence

/-! # Cancelling a run

    A run may be cancelled between any two steps: before a decision, before a
    turn of a worker, or from within a compile.  `Progress.runAt` is what the
    run has come to at such a moment, and a cancelled run halts there: whatever
    the moment is, the rest of its level and all later levels keep to what is
    settled (`Progress.levels_halted`). -/

namespace ProjectBuild

variable {σ : Type}

/-! ## Moments of a level -/

/-- A moment of a level. -/
inductive Juncture where
  /-- So many projects have been decided on, and if somebody cancels the run before
      the next is, it has happened. -/
  | deciding (front : Nat)
  /-- All projects have been decided on, and the crew has taken so many turns of its
      course. -/
  | building (turns : Nat)

namespace Progress

variable [FileSystem σ] {β : Type} {see : σ → Nat → β} {g : Graph} {options : BuildOptions}

/-- The decisions of a level up to a project. -/
def decideFirst (g : Graph) (options : BuildOptions) (s : Progress σ) (interruptions : List Bool)
    (level : List Nat) (front : Nat) : Progress σ :=
  (decideEach g options s interruptions (level.take front)).interrupt
    (if front < level.length then interruptions.getD front false else false)

/-- A level is decided on in parts. -/
theorem decideEach_append (g : Graph) (options : BuildOptions) (s : Progress σ)
    (interruptions : List Bool) (front back : List Nat) :
    decideEach g options s interruptions (front ++ back)
      = decideEach g options (decideEach g options s interruptions front)
          (interruptions.drop front.length) back := by
  induction front generalizing s interruptions with
  | nil => rfl
  | cons i front ih =>
      rw [List.length_cons, ← List.drop_tail]
      exact ih _ _

omit [FileSystem σ] in
@[simp]
theorem interrupt_statuses (s : Progress σ) (cancelled : Bool) :
    (s.interrupt cancelled).run.statuses = s.run.statuses := by
  cases cancelled <;> rfl

omit [FileSystem σ] in
@[simp]
theorem interrupt_reasons (s : Progress σ) (cancelled : Bool) :
    (s.interrupt cancelled).reasons = s.reasons := by
  cases cancelled <;> rfl

omit [FileSystem σ] in
@[simp]
theorem interrupt_journal (s : Progress σ) (cancelled : Bool) :
    (s.interrupt cancelled).run.journal = s.run.journal := by
  cases cancelled <;> rfl

omit [FileSystem σ] in
/-- A run is cancelled once. -/
theorem interrupt_interrupt (s : Progress σ) (cancelled : Bool) :
    (s.interrupt cancelled).interrupt cancelled = s.interrupt cancelled := by
  cases cancelled <;> rfl

/-- **The decisions of a level go on** from any of them. -/
theorem decideEach_decideFirst (g : Graph) (options : BuildOptions) (s : Progress σ)
    (interruptions : List Bool) (level : List Nat) (front : Nat) :
    decideEach g options s interruptions level
      = decideEach g options (decideFirst g options s interruptions level front)
          (interruptions.drop front) (level.drop front) := by
  unfold decideFirst
  by_cases hfront : front < level.length
  · have hlength : (level.take front).length = front :=
      List.length_take_of_le (Nat.le_of_lt hfront)
    have hhead : (interruptions.drop front).headD false = interruptions.getD front false := by
      rw [List.headD_eq_head?_getD, List.head?_drop, List.getD_eq_getElem?_getD]
    have hsplit := decideEach_append g options s interruptions (level.take front)
      (level.drop front)
    rw [List.take_append_drop, hlength] at hsplit
    rw [hsplit, if_pos hfront, List.drop_eq_getElem_cons hfront]
    -- the run is cancelled once, whether before the moment or after it
    show decideEach g options (decide g options (interrupt _ _) _) _ _
      = decideEach g options (decide g options (interrupt _ _) _) _ _
    rw [hhead, interrupt_interrupt]
  · have hle := Nat.le_of_not_lt hfront
    rw [if_neg hfront, List.take_of_length_le hle, List.drop_eq_nil_of_le hle]
    rfl

/-- What a run has come to at a moment of a level. -/
def during (g : Graph) (options : BuildOptions) (compiler : Compiler σ)
    (schedule : LevelSchedule) (s : Progress σ) (part : List Nat) : Juncture → Run σ
  | .deciding front => (decideFirst g options s schedule.interruptions part front).run
  | .building turns =>
    let s := decideEach g options s schedule.interruptions part
    let w : Workplace σ := ⟨g, compiler, s.records⟩
    (Crew.interleave w ((s.stale part).map fun i => { index := i }) s.run
      ((Crew.course w (s.stale part) schedule.turns s.run).take turns)).2

/-- What a run has come to at a moment of the level `n`; behind the last level, at
    the end. -/
def runAt (g : Graph) (options : BuildOptions) (compiler : Compiler σ) (site : Site σ)
    (schedules : List LevelSchedule) (n : Nat) (juncture : Juncture) : Run σ :=
  let s := reach g options compiler site schedules n
  if n < g.levels.length then
    during g options compiler (schedules.getD n {}) s (g.levels.getD n []) juncture
  else s.run

section
variable (hg : g.WellFormed) (hdry : options.dryRun = false) {compiler : Compiler σ}
  (hsees : g.SeesApart see) (hcompiler : ∀ i < g.size, (compiler g i).Always (g.Harmless see))
include hdry hcompiler

include hg in
/-- The first levels of a run. -/
theorem reach_orderly (site : Site σ) (schedules : List LevelSchedule) {n : Nat}
    (hn : n ≤ g.levels.length) :
    (reach g options compiler site schedules n).Proceeds g options n ∧
      (reach g options compiler site schedules n).run.Orderly := by
  refine reach_induct g options compiler site schedules n
    (P := fun k s => s.Proceeds g options k ∧ s.run.Orderly) ?_ ?_ hn
  · rintro k hk schedule s ⟨hproceeds, horderly⟩
    exact ⟨hproceeds.level hg compiler hk schedule,
      level_orderly hdry hcompiler hk schedule hproceeds horderly⟩
  · exact ⟨start_proceeds site g, fun i _ => ⟨fun he => (nomatch he), fun he => (nomatch he)⟩⟩

include hsees in
/-- **The level of the cancellation**, from a moment among its decisions on. -/
theorem level_halted_deciding {n : Nat} (hn : n < g.levels.length) (schedule : LevelSchedule)
    {s : Progress σ} (hproceeds : s.Proceeds g options n) (horderly : s.run.Orderly)
    (front : Nat)
    (hcancelled : (decideFirst g options s schedule.interruptions g.levels[n]
      front).run.site.cancelled = true) :
    (Progress.level g options compiler schedule s g.levels[n]).Halted g see
      (decideFirst g options s schedule.interruptions g.levels[n] front).run := by
  have hlt : ∀ i ∈ g.levels[n], i < g.size := fun i hi => ((Graph.mem_levels_getElem hn).mp hi).1
  have hnodup := Graph.levels_getElem_nodup hn
  have htake : ∀ i ∈ g.levels[n].take front, i ∈ g.levels[n] := fun i => List.mem_of_mem_take
  have hdrop : ∀ i ∈ g.levels[n].drop front, i ∈ g.levels[n] := fun i => List.mem_of_mem_drop
  have hfirst := hnodup.sublist (List.take_sublist front _)
  have hstart : ∀ i ∈ g.levels[n].take front, i < s.run.statuses.size :=
    fun i hi => hproceeds.size.symm ▸ hlt i (htake i hi)
  -- what the decisions before the moment have kept
  obtain ⟨hopened, -⟩ := decideEach_spec g options hfirst s hstart schedule.interruptions
  have hreasons := (decideEach_reasons g options hfirst s hstart
    (fun i hi => hproceeds.reasons.symm ▸ hlt i (htake i hi)) schedule.interruptions).length
  have horderly' := decideEach_orderly g options hfirst
    (fun i hi => hproceeds.pending hn (htake i hi)) horderly schedule.interruptions
  have hnow : (decideFirst g options s schedule.interruptions g.levels[n] front).Halted g see
      (decideFirst g options s schedule.interruptions g.levels[n] front).run := by
    refine ⟨.refl ?_ hcancelled ?_, ?_, ?_⟩
    · unfold decideFirst
      rw [interrupt_statuses]
      exact hopened.size.trans hproceeds.size
    · unfold decideFirst Run.Orderly Run.Untouched
      rw [interrupt_statuses, interrupt_journal]
      exact horderly'
    · unfold decideFirst
      rw [interrupt_reasons]
      exact hreasons.trans hproceeds.reasons
    · intro i _ hi hskipped
      rw [hskipped] at hi
      exact nomatch hi
  rw [level_eq hdry, decideEach_decideFirst g options s schedule.interruptions g.levels[n] front]
  refine (hnow.decideEach options (hnodup.sublist (List.drop_sublist front _))
    (fun i hi => hlt i (hdrop i hi)) (fun i hi => ?_)
    (schedule.interruptions.drop front)).work hsees hcompiler hn schedule.turns
  unfold decideFirst
  rw [interrupt_statuses, hopened.others i fun hi' =>
    List.disjoint_take_drop hnodup (Nat.le_refl front) hi' hi]
  exact hproceeds.pending hn (hdrop i hi)

include hsees in
/-- **The level of the cancellation**, from a moment among the turns of its crew
    on. -/
theorem level_halted_building {n : Nat} (hn : n < g.levels.length) (schedule : LevelSchedule)
    {s : Progress σ} (hproceeds : s.Proceeds g options n) (horderly : s.run.Orderly)
    (turns : Nat)
    (hcancelled : (during g options compiler schedule s g.levels[n]
      (.building turns)).site.cancelled = true) :
    (Progress.level g options compiler schedule s g.levels[n]).Halted g see
      (during g options compiler schedule s g.levels[n] (.building turns)) := by
  have hlt : ∀ i ∈ g.levels[n], i < g.size := fun i hi => ((Graph.mem_levels_getElem hn).mp hi).1
  have hnodup := Graph.levels_getElem_nodup hn
  have hstart : ∀ i ∈ g.levels[n], i < s.run.statuses.size :=
    fun i hi => hproceeds.size.symm ▸ hlt i hi
  have hsize := (decideEach_spec g options hnodup s hstart schedule.interruptions).1.size
  have hreasons := (decideEach_reasons g options hnodup s hstart
    (fun i hi => hproceeds.reasons.symm ▸ hlt i hi) schedule.interruptions).length
  have horderly' := decideEach_orderly g options hnodup
    (fun i hi => hproceeds.pending hn hi) horderly schedule.interruptions
  rw [level_eq hdry]
  unfold during at hcancelled ⊢
  generalize Progress.decideEach g options s schedule.interruptions g.levels[n] = s'
    at hsize hreasons horderly' hcancelled ⊢
  have hstale : ∀ i ∈ s'.stale g.levels[n], i < g.size :=
    fun i hi => ((mem_stale_level hn).mp hi).1
  obtain ⟨hindices, ⟨hsize', hnow, hothers⟩, hworkers⟩ :=
    Crew.interleave_orderly (w := ⟨g, compiler, s'.records⟩) hcompiler (stale_nodup hnodup s')
      hstale ((Crew.course ⟨g, compiler, s'.records⟩ (s'.stale g.levels[n]) schedule.turns
        s'.run).take turns) (hsize.trans hproceeds.size) horderly'
      (fun i hi => (mem_stale.mp hi).2)
  refine Halted.build hnodup (fun i hi => (hsize.trans hproceeds.size).symm ▸ hlt i hi)
    (hreasons.trans hproceeds.reasons) ?_ ?_
  · -- who had been skipped before the crew set to work is not pending now
    intro i _ hi hskipped
    have hmem : i ∉ s'.stale g.levels[n] := fun hmem =>
      nomatch hskipped.symm.trans (mem_stale.mp hmem).2
    rw [hothers i hmem, hskipped] at hi
    exact nomatch hi
  · -- the crew works on from the moment, with what is left of the turns
    have hrest := Crew.interleave_halted (w := ⟨g, compiler, s'.records⟩) hcompiler
      (stale_nodup hnodup s') hstale hsees ((Crew.course ⟨g, compiler, s'.records⟩
        (s'.stale g.levels[n]) schedule.turns s'.run).drop turns)
      ⟨hindices, Run.Halted.refl hsize' hcancelled hnow, hworkers⟩
    rw [← Crew.interleave_append, List.take_append_drop, ← Crew.work_eq_interleave] at hrest
    exact hrest

include hsees in
/-- **The level of the cancellation.** -/
theorem level_halted {n : Nat} (hn : n < g.levels.length) (schedule : LevelSchedule)
    {s : Progress σ} (hproceeds : s.Proceeds g options n) (horderly : s.run.Orderly)
    (juncture : Juncture)
    (hcancelled : (during g options compiler schedule s g.levels[n]
      juncture).site.cancelled = true) :
    (Progress.level g options compiler schedule s g.levels[n]).Halted g see
      (during g options compiler schedule s g.levels[n] juncture) := by
  cases juncture with
  | deciding front =>
      exact level_halted_deciding hdry hsees hcompiler hn schedule hproceeds horderly front
        hcancelled
  | building turns =>
      exact level_halted_building hdry hsees hcompiler hn schedule hproceeds horderly turns
        hcancelled

end

/-! ## Whole runs -/

/-- A run goes on from any of its levels. -/
theorem levels_eq_reach (g : Graph) (options : BuildOptions) (compiler : Compiler σ)
    (site : Site σ) (schedules : List LevelSchedule) {n : Nat} (hn : n < g.levels.length) :
    levels g options compiler (start site g) schedules g.levels
      = levels g options compiler
          (level g options compiler (schedules.getD n {})
            (reach g options compiler site schedules n) g.levels[n])
          (schedules.drop n).tail (g.levels.drop (n + 1)) := by
  have hsplit := levels_append g options compiler (start site g) schedules (g.levels.take (n + 1))
    (g.levels.drop (n + 1))
  rw [List.take_append_drop, List.length_take_of_le hn, ← List.tail_drop] at hsplit
  rw [← reach_succ g options compiler site schedules n hn]
  exact hsplit

/-- **A cancelled run halts**, whatever the moment was. -/
theorem levels_halted (hg : g.WellFormed) (hdry : options.dryRun = false)
    {compiler : Compiler σ} (hsees : g.SeesApart see)
    (hcompiler : ∀ i < g.size, (compiler g i).Always (g.Harmless see)) (site : Site σ)
    (schedules : List LevelSchedule) (n : Nat) (juncture : Juncture)
    (hcancelled : (runAt g options compiler site schedules n juncture).site.cancelled = true) :
    (levels g options compiler (start site g) schedules g.levels).Proceeds g options
        g.levels.length ∧
      (levels g options compiler (start site g) schedules g.levels).Halted g see
        (runAt g options compiler site schedules n juncture) := by
  unfold runAt at hcancelled ⊢
  by_cases hn : n < g.levels.length
  · have hpart : g.levels.getD n [] = g.levels[n] := by
      rw [List.getD_eq_getElem?_getD, List.getElem?_eq_getElem hn, Option.getD_some]
    obtain ⟨hproceeds, horderly⟩ :=
      reach_orderly hg hdry hcompiler site schedules (Nat.le_of_lt hn)
    simp only [if_pos hn, hpart] at hcancelled ⊢
    generalize hnow : during g options compiler (schedules.getD n {})
      (reach g options compiler site schedules n) g.levels[n] juncture = now at hcancelled ⊢
    have hlevel := level_halted hdry hsees hcompiler hn (schedules.getD n {}) hproceeds horderly
      juncture (hnow ▸ hcancelled)
    rw [hnow] at hlevel
    -- by induction on the levels that are left
    have hrest := levels_induct g options compiler
      (level g options compiler (schedules.getD n {})
        (reach g options compiler site schedules n) g.levels[n])
      (schedules.drop n).tail (g.levels.drop (n + 1))
      (P := fun k s => s.Proceeds g options (n + 1 + k) ∧ s.Halted g see now) ?_
      ⟨hproceeds.level hg compiler hn _, hlevel⟩
    · rw [levels_eq_reach g options compiler site schedules hn]
      have hlength : n + 1 + (g.levels.drop (n + 1)).length = g.levels.length := by
        rw [List.length_drop]
        omega
      rw [hlength] at hrest
      exact hrest
    · rintro k hk schedule s - ⟨hproceeds', hhalted⟩
      rw [List.length_drop] at hk
      have hk' : n + 1 + k < g.levels.length := by omega
      rw [List.getElem_drop]
      exact ⟨hproceeds'.level hg compiler hk' schedule,
        hhalted.level hdry hsees hcompiler hk' schedule hproceeds'⟩
  · obtain ⟨hproceeds, horderly⟩ :=
      reach_orderly hg hdry hcompiler site schedules (Nat.le_refl g.levels.length)
    have hend := reach_of_le g options compiler site schedules _ (Nat.le_refl g.levels.length)
    rw [hend] at hproceeds horderly
    simp only [if_neg hn, reach_of_le g options compiler site schedules n (Nat.le_of_not_lt hn)]
      at hcancelled ⊢
    refine ⟨hproceeds, .refl hproceeds.size hcancelled horderly, hproceeds.reasons, ?_⟩
    intro i _ hi hskipped
    rw [hskipped] at hi
    exact nomatch hi

end Progress

/-- Every course ends in a terminal status, unless the run is dry. -/
theorem Status.courses_terminal :
    ∀ course ∈ Status.courses false, (course.getLast?.getD .unknown).isTerminal = true := by
  decide

/-- What has come of a project, with the reason that is reported, in a run that was
    cancelled `now`.  If its check or the entry of its worker was still to come, the
    project was left alone; if it was being built, that has come to an end; and if it
    was final, it has stayed so. -/
def Run.Settles (run now : Run σ) (reason : Reason) (i : Nat) : Prop :=
  match now.statuses.get i with
  | .unknown => run.Untouched i ∧ run.statuses.get i = .skipped ∧ reason = .cancelled
  | .stale => run.Untouched i ∧ run.statuses.get i = .skipped ∧ reason = .cancelled
  | .building => (run.statuses.get i).isResult = true
  | status => run.statuses.get i = status

/-- **A project with a terminal status is settled** when a run is halted. -/
theorem Progress.Halted.settles {β : Type} {g : Graph} {see : σ → Nat → β} {s : Progress σ}
    {now : Run σ} (h : s.Halted g see now) {i : Nat} (hi : i < g.size)
    (hterminal : (s.run.statuses.get i).isTerminal = true) :
    s.run.Settles now (s.reasonOf i) i := by
  have hpending : (now.statuses.get i).isPending = true →
      s.run.Untouched i ∧ s.run.statuses.get i = .skipped ∧ s.reasonOf i = .cancelled := by
    intro hnow
    have hskipped : s.run.statuses.get i = .skipped := by
      refine (h.run.pending i hnow).resolve_left fun hsame => ?_
      rw [hsame] at hterminal
      revert hnow hterminal
      cases now.statuses.get i <;> decide
    exact ⟨h.run.untouched i hnow, hskipped, h.reason i hi hnow hskipped⟩
  have hinFlight : now.statuses.get i = .building → (s.run.statuses.get i).isResult = true := by
    intro hnow
    refine (h.run.inFlight i hnow).resolve_left fun hbuilding => ?_
    rw [hbuilding] at hterminal
    exact nomatch hterminal
  have hfinal := h.run.terminal i
  unfold Run.Settles
  cases hnow : now.statuses.get i with
  | unknown => exact hpending (by rw [hnow]; rfl)
  | stale => exact hpending (by rw [hnow]; rfl)
  | building => exact hinFlight hnow
  | upToDate => exact (hfinal (by rw [hnow]; rfl)).trans hnow
  | built => exact (hfinal (by rw [hnow]; rfl)).trans hnow
  | failed => exact (hfinal (by rw [hnow]; rfl)).trans hnow
  | skipped => exact (hfinal (by rw [hnow]; rfl)).trans hnow

/-- **Cancelling is safe.**  Let somebody cancel a run, at whatever moment.  Then
    projects whose check or whose worker's entry was still to come are neither
    compiled nor is their record removed, and they end as skipped because the run was
    cancelled.  Projects that were final keep their status, and a compile in flight
    decides on the status of its own project only.  Every project comes to its end,
    and the report says that the run was cancelled.  If no compile touches records and
    all of these lie apart, only the records of projects in flight can have changed. -/
theorem buildGraph_cancelled [FileSystem σ] {g : Graph} (hg : g.WellFormed)
    {options : BuildOptions} (hdry : options.dryRun = false) {compiler : Compiler σ}
    (hcompiler : ∀ i < g.size, (compiler g i).Always Site.StaysCancelled) (site : Site σ)
    (schedules : List LevelSchedule) (n : Nat) (juncture : Juncture)
    (hcancelled : (Progress.runAt g options compiler site schedules n
      juncture).site.cancelled = true) :
    let now := Progress.runAt g options compiler site schedules n juncture
    let result := buildGraph options compiler schedules g site
    (∃ reason : Nat → Reason,
      result.1.projects = (g.levels.flatten.map fun i => {
        project := (g.node i).configPath
        status := result.2.statuses.get i
        reason := reason i
        level := g.levelOf i }) ∧
      ∀ i < g.size, (result.2.statuses.get i).isTerminal = true ∧
        result.2.Settles now (reason i) i) ∧
      (∀ {β : Type} (look : σ → Path → β), FileSystem.Observes look → g.DistinctRecords →
        (∀ i < g.size, (compiler g i).Always fun s s' =>
          ∀ j < g.size, look s'.files (g.node j).recordPath = look s.files (g.node j).recordPath) →
        ∀ i < g.size, now.statuses.get i ≠ .building →
          look result.2.site.files (g.node i).recordPath
            = look now.site.files (g.node i).recordPath) ∧
      result.1.cancelled = true ∧ result.1.exitCode = .cancelled ∧
      result.1.exitCode.toNat = 130 := by
  intro now result
  have hhalted {β : Type} (see : σ → Nat → β) (hsees : g.SeesApart see)
      (hharmless : ∀ i < g.size, (compiler g i).Always (g.Harmless see)) :=
    Progress.levels_halted hg hdry hsees hharmless site schedules n juncture hcancelled
  -- nothing need be seen of any record but for the last part
  obtain ⟨hproceeds, h⟩ := hhalted (fun _ _ => ())
    ⟨fun _ _ _ _ _ _ _ => rfl, fun _ _ _ _ _ _ => rfl⟩
    (fun i hi => (hcompiler i hi).imp fun _ _ hstays => ⟨hstays, fun _ _ => rfl⟩)
  have hreport : result.1.cancelled = true := h.run.cancelled
  have hexit : result.1.exitCode = .cancelled := if_pos hreport
  refine ⟨⟨_, Progress.report_projects g options _, fun i hi => ?_⟩, ?_, hreport, hexit,
    congrArg ExitCode.toNat hexit⟩
  · obtain ⟨course, hcourse, -, hstatus⟩ := hproceeds.told i hi (Graph.levelOf_lt_length hi)
    rw [hdry] at hcourse
    have hterminal := Status.courses_terminal course hcourse
    rw [← hstatus] at hterminal
    exact ⟨hterminal, h.settles hi hterminal⟩
  · intro β look hlook hrecords hkeeps i hi hrest
    have hsees : g.SeesApart fun fs j => look fs (g.node j).recordPath :=
      ⟨fun i hi j hj hij fs text => hlook.replace fs _ _ text (hrecords i hi j hj hij),
        fun i hi j hj hij fs => hlook.remove fs _ _ (hrecords i hi j hj hij)⟩
    exact (hhalted _ hsees fun i hi => (hcompiler i hi).and (hkeeps i hi)).2.run.seen i hi hrest

/-! ## A compile that cancels its own run -/

/-- Four projects without files, of which the last references the others. -/
def emptyFour : Graph where
  nodes := [emptyProject "/a", emptyProject "/b", emptyProject "/c", emptyProject "/d"]
  edges := [(3, 0), (3, 1), (3, 2)]

/-- The compile of the first project cancels the run. -/
def cancellingScript : CompileScript where
  cancelling := [⟨"/a/tsconfig.json"⟩]

/-- The second of the workers comes to its end before the first one enters. -/
def cancellingTurns : List Turn :=
  List.replicate 7 (.worker 1) ++ List.replicate 4 (.worker 0)

/-- The first of four projects cancels the run from within its compile, when the second
    has been built, and the third and the fourth are still to come. -/
theorem buildGraph_cancelled_four :
    let site : Site MemoryFs := ⟨{}, false, []⟩
    let schedules : List LevelSchedule := [⟨[], cancellingTurns⟩]
    let now := Progress.runAt emptyFour {} cancellingScript.compiler site schedules 0
      (.building 11)
    let result := buildGraph {} cancellingScript.compiler schedules emptyFour site
    now.statuses.slots = [.building, .built, .stale, .unknown] ∧
      result.2.statuses.slots = [.built, .built, .skipped, .skipped] ∧
      result.2.Untouched 2 ∧ result.2.Untouched 3 ∧
      result.2.site.files.file? ⟨"/b/tsconfig.tsbuildinfo"⟩
        = now.site.files.file? ⟨"/b/tsconfig.tsbuildinfo"⟩ ∧
      result.1.exitCode.toNat = 130 := by
  have hwell : emptyFour.WellFormed := ⟨⟨by decide, by decide⟩, by decide⟩
  have hkeeps : ∀ i < emptyFour.size, (cancellingScript.compiler emptyFour i).Always
      fun s s' => ∀ j < emptyFour.size, MemoryFs.file? s'.files (emptyFour.node j).recordPath
        = MemoryFs.file? s.files (emptyFour.node j).recordPath := by
    intro i _
    refine (cancellingScript.compiler_only emptyFour i).keeps.imp fun s s' h j _ => h _ ?_
    exact fun e he hpath => Project.recordPath_ne_output he hpath.symm
  have hdistinct : emptyFour.DistinctRecords := by
    unfold Graph.DistinctRecords
    decide +kernel
  have hpath : (emptyFour.node 1).recordPath = ⟨"/b/tsconfig.tsbuildinfo"⟩ := by decide +kernel
  have hfinal : (buildGraph {} cancellingScript.compiler [⟨[], cancellingTurns⟩] emptyFour
      (⟨{}, false, []⟩ : Site MemoryFs)).2.statuses.slots
        = [.built, .built, .skipped, .skipped] := by
    decide +kernel
  have hnow : (Progress.runAt emptyFour {} cancellingScript.compiler
      (⟨{}, false, []⟩ : Site MemoryFs) [⟨[], cancellingTurns⟩] 0 (.building 11)).statuses.slots
        = [.building, .built, .stale, .unknown] := by
    decide +kernel
  have h := buildGraph_cancelled (σ := MemoryFs) hwell
    (show ({} : BuildOptions).dryRun = false from rfl)
    (fun i _ => cancellingScript.compiler_staysCancelled emptyFour i) ⟨{}, false, []⟩
    [⟨[], cancellingTurns⟩] 0 (.building 11) (by decide +kernel)
  dsimp only at h ⊢
  generalize Progress.runAt emptyFour {} cancellingScript.compiler
    (⟨{}, false, []⟩ : Site MemoryFs) [⟨[], cancellingTurns⟩] 0 (.building 11) = now at hnow h ⊢
  generalize buildGraph {} cancellingScript.compiler [⟨[], cancellingTurns⟩] emptyFour
    (⟨{}, false, []⟩ : Site MemoryFs) = result at hfinal h ⊢
  obtain ⟨⟨reason, -, hsettles⟩, hseen, -, -, hexit⟩ := h
  have hstatus : ∀ i, now.statuses.get i
      = [Status.building, .built, .stale, .unknown].getD i .unknown :=
    fun i => congrArg (fun slots => slots.getD i Status.unknown) hnow
  have hthird := (hsettles 2 (by decide)).2
  have hfourth := (hsettles 3 (by decide)).2
  have hsecond := hseen MemoryFs.file? MemoryFs.file?_observes hdistinct hkeeps 1 (by decide)
  unfold Run.Settles at hthird hfourth
  rw [hstatus] at hthird hfourth hsecond
  rw [hpath] at hsecond
  exact ⟨hnow, hfinal, hthird.1, hfourth.1, hsecond (by decide), hexit⟩

end ProjectBuild
