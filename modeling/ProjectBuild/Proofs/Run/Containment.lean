import ProjectBuild.Compile.Scripted
import ProjectBuild.FileSystem.Memory
import ProjectBuild.Proofs.Closure.Load
import ProjectBuild.Proofs.Compile.Contract
import ProjectBuild.Proofs.Graph.Level
import ProjectBuild.Proofs.Graph.Reach
import ProjectBuild.Proofs.Run.Level
import ProjectBuild.Proofs.Staleness
import ProjectBuild.Run.Build

/-! # Failures are contained

    A project is skipped exactly when a chain of references leads from it to a
    project that failed.  The run decides this from the direct references
    alone: when a level begins, all references of its projects are final, so
    "some direct reference failed or was skipped" is settled then
    (`Progress.Contained`), and following the chains of references downward
    turns it into reachability (`skipped_iff_dependsOn`).

    The runs are those that nobody cancels: neither from outside
    (`LevelSchedule.Undisturbed`) nor from within a compile
    (`Job.NeverCancels`). -/

namespace ProjectBuild

variable {σ : Type}

/-! ## Runs that nobody cancels -/

/-- A job that does not cancel the run, and does not end as cancelled either. -/
def Job.NeverCancels : Job σ → Prop
  | .done result => result ≠ .error .cancelled
  | .step effect next =>
    ∀ s, s.cancelled = false → (effect s).cancelled = false ∧ (next s).NeverCancels

/-! ## Scripted compilers -/

/-- Writing files cancels nothing. -/
theorem Job.writeEach_neverCancels [FileSystem σ] (text : String) (paths : List Path)
    {next : Job σ} (h : next.NeverCancels) : (Job.writeEach text paths next).NeverCancels := by
  induction paths with
  | nil => exact h
  | cons path rest ih =>
      intro s hs
      refine ⟨hs, ?_⟩
      cases hwrite : (FileSystem.write s.files path text).1 with
      | ok done =>
          simp only [hwrite]
          exact ih
      | error failure =>
          simp only [hwrite]
          exact fun h => nomatch h

/-- Looking for a declaration is not cancelled. -/
theorem Resolution.redirect_ne_cancelled [FileSystem σ] (fs : σ) (p : Project) (path : Path) :
    redirect fs p path ≠ .error .cancelled := by
  unfold redirect
  by_cases hpath : path.isDeclaration = true
  · rw [if_pos hpath]
    exact fun h => nomatch h
  · rw [if_neg hpath]
    cases p.declarationFor? path with
    | none => exact fun h => nomatch h
    | some output =>
        by_cases hfile : FileSystem.isFile fs output = true
        · simp only [if_pos hfile]
          exact fun h => nomatch h
        · simp only [if_neg hfile]
          exact fun h => nomatch h

/-- Verifying references is not cancelled. -/
theorem Resolution.resolveAll_ne_cancelled [FileSystem σ] (fs : σ) (g : Graph) (i : Nat)
    (files : List Path) : resolveAll fs g i files ≠ .error .cancelled := by
  induction files with
  | nil => exact fun h => nomatch h
  | cons file rest ih =>
      unfold resolveAll
      cases hresolve : resolve fs g i file with
      | ok found => exact ih
      | error e =>
          intro h
          have he : e = .cancelled := Except.error.inj h
          unfold resolve at hresolve
          cases htarget : target? g i file.normalize with
          | none =>
              simp only [htarget] at hresolve
              exact nomatch hresolve
          | some j =>
              simp only [htarget] at hresolve
              exact redirect_ne_cancelled fs (g.node j) file.normalize (he ▸ hresolve)

/-- A script that cancels nothing is followed without cancelling. -/
theorem CompileScript.compiler_neverCancels [FileSystem σ] {script : CompileScript}
    (hcancelling : script.cancelling = [])
    (herrors : ∀ project, script.errors.lookup project ≠ some .cancelled) (g : Graph) (i : Nat) :
    (script.compiler (σ := σ) g i).NeverCancels := by
  intro s hs
  refine ⟨hs, script.compiler_induct g i s (P := fun job => job.NeverCancels) ?_ ?_ ?_⟩
  · exact fun hcancelled => nomatch hs.symm.trans hcancelled
  · intro e hresolve h
    exact Resolution.resolveAll_ne_cancelled s.files g i (Resolution.referencedSources g i)
      (hresolve.trans (congrArg Except.error (Except.error.inj h)))
  refine script.perform_induct (g.node i) (fun _ h => nomatch h) ?_ ?_
  · intro e herror h
    exact herrors _ (herror.trans (congrArg some (Except.error.inj h)))
  · refine Job.writeEach_neverCancels _ _ ?_
    refine script.conclude_induct _ (fun _ h => nomatch h) fun _ hcancel => ?_
    rw [hcancelling] at hcancel
    exact nomatch hcancel

/-! ## A crew -/

/-- Whoever's record was removed, or who was given to the compiler, is being
    built, or was built, or failed. -/
def Run.OnlyBuiltTouched (run : Run σ) : Prop :=
  ∀ i, Entry.cleared i ∈ run.journal ∨ Entry.handed i ∈ run.journal →
    run.statuses.get i = .building ∨ run.statuses.get i = .built ∨ run.statuses.get i = .failed

/-- The status that goes with the stage of a worker, in a run that nobody
    cancels. -/
def Stage.Standing : Stage σ → Status → Prop
  | waiting, status => status = .stale
  | started, status => status = .building
  | compiling job, status => status = .building ∧ job.NeverCancels
  | returned, status => status = .building
  | recorded _, status => status = .building
  | closing result, status => status = .building ∧ result ≠ .error .cancelled
  | finished _, status => status = .built ∨ status = .failed

/-- What was not cancelled was built or has failed. -/
theorem Stage.verdict_of_ne {result : Except Error BuildRecord} (h : result ≠ .error .cancelled) :
    verdict result = .built ∨ verdict result = .failed := by
  cases result with
  | ok record => exact Or.inl rfl
  | error e =>
      cases e with
      | cancelled => exact absurd rfl h
      | _ => exact Or.inr rfl

/-- What the workers of a level keep of the whole run: it is not cancelled,
    and only projects of the level change their status. -/
structure Run.Kept (before : StatusTable) (stale : List Nat) (run : Run σ) : Prop where
  running : run.site.cancelled = false
  size : run.statuses.size = before.size
  touched : run.OnlyBuiltTouched
  others : ∀ j, j ∉ stale → run.statuses.get j = before.get j

section crew

variable [FileSystem σ] {w : Workplace σ} {before : StatusTable} {stale : List Nat} {i : Nat}

/-- Making a record invalid is not cancelled. -/
theorem BuildRecord.invalidate_ne_cancelled {fs fs' : σ} {p : Project} {e : Error}
    (h : BuildRecord.invalidate fs p = (.error e, fs')) : e ≠ .cancelled := by
  obtain ⟨failure, -, rfl⟩ := BuildRecord.invalidate_error h
  exact nofun

/-- Saving a record is not cancelled. -/
theorem BuildRecord.save_ne_cancelled {fs fs' : σ} {p : Project} {r : BuildRecord}
    {result : Except Error Unit} (h : BuildRecord.save fs p r = (result, fs')) :
    result.map (fun _ => r) ≠ .error .cancelled := by
  cases result with
  | ok done => exact nofun
  | error e =>
      obtain ⟨problem, rfl⟩ := BuildRecord.save_error h
      exact nofun

/-- A step that leaves its project being built, or built, or failed, keeps what
    is said of the journal. -/
theorem Run.OnlyBuiltTouched.step {run : Run σ} (h : run.OnlyBuiltTouched) (stage : Stage σ)
    (hstatus : (stage.step w i run).2.statuses.get i = .building ∨
      (stage.step w i run).2.statuses.get i = .built ∨
      (stage.step w i run).2.statuses.get i = .failed) :
    (stage.step w i run).2.OnlyBuiltTouched := by
  obtain ⟨entries, hmove⟩ := stage.step_moves w i run
  intro j hj
  by_cases hji : j = i
  · exact hji ▸ hstatus
  · have hold : ∀ e, e.index = j → e ∈ (stage.step w i run).2.journal → e ∈ run.journal := by
      intro e he hmem
      rw [hmove.journal] at hmem
      refine (List.mem_append.mp hmem).resolve_right fun hnew => hji ?_
      rw [← he, hmove.index e hnew]
    rw [Stage.step_get_ne w hji]
    exact h j (hj.imp (hold _ rfl) (hold _ rfl))

omit [FileSystem σ] in
/-- Once a worker has entered, its project is being built, or was, or failed. -/
theorem Stage.Standing.touched {stage : Stage σ} {status : Status} (h : stage.Standing status)
    (hentered : stage ≠ waiting) : status = .building ∨ status = .built ∨ status = .failed := by
  cases stage with
  | waiting => exact absurd rfl hentered
  | finished record => exact Or.inr h
  | compiling job => exact Or.inl h.1
  | closing result => exact Or.inl h.1
  | _ => exact Or.inl h

/-- **One step of a worker** keeps what is kept of the run, and the status of
    its project goes on with its stage. -/
theorem Stage.standing_step (hi : i ∈ stale) (hlt : i < before.size)
    (hcompiler : (w.compiler w.graph i).NeverCancels) {stage : Stage σ} {run : Run σ}
    (hrun : run.Kept before stale) (hstage : stage.Standing (run.statuses.get i)) :
    (stage.step w i run).2.Kept before stale ∧
      (stage.step w i run).1.Standing ((stage.step w i run).2.statuses.get i) := by
  have hlt' : i < run.statuses.size := hrun.size.symm ▸ hlt
  -- statuses of others stand, so what matters is the stage of the worker itself
  suffices hnext : (stage.step w i run).2.site.cancelled = false ∧
      (stage.step w i run).1 ≠ waiting ∧
      (stage.step w i run).1.Standing ((stage.step w i run).2.statuses.get i) by
    obtain ⟨hrunning, hentered, hstanding⟩ := hnext
    refine ⟨⟨hrunning, (step_size w i stage run).trans hrun.size,
      hrun.touched.step stage (hstanding.touched hentered), ?_⟩, hstanding⟩
    intro j hj
    have hne : j ≠ i := fun h => hj (h ▸ hi)
    exact (step_get_ne w hne stage run).trans (hrun.others j hj)
  obtain ⟨entries, hmove⟩ := step_moves w i stage run
  generalize stage.step w i run = next at hmove ⊢
  cases hmove with
  | skipped hcancelled => exact absurd (hrun.running.symm.trans hcancelled) Bool.false_ne_true
  | entered => exact ⟨hrun.running, nofun, StatusTable.get_publish hlt' _⟩
  | kept hremoved =>
      refine ⟨hrun.running, nofun, hstage, fun h => ?_⟩
      exact BuildRecord.invalidate_ne_cancelled hremoved (Except.error.inj h)
  | handed => exact ⟨hrun.running, nofun, hstage, hcompiler⟩
  | worked effect next =>
      obtain ⟨hstatus, hjob⟩ := hstage
      have h := hjob run.site hrun.running
      exact ⟨h.1, nofun, hstatus, h.2⟩
  | succeeded messages => exact ⟨hrun.running, nofun, hstage.1⟩
  | failed e =>
      obtain ⟨hstatus, hjob⟩ := hstage
      refine ⟨hrun.running, nofun, hstatus, fun h => ?_⟩
      exact hjob (congrArg Except.error (Except.error.inj h))
  | captured => exact ⟨hrun.running, nofun, hstage⟩
  | saved hsaved => exact ⟨hrun.running, nofun, hstage, BuildRecord.save_ne_cancelled hsaved⟩
  | closed result =>
      have hget := get_closed (w.graph.node i) hlt' result
      exact ⟨(explain_cancelled _ _ _).trans hrun.running, nofun,
        (verdict_of_ne hstage.2).imp hget.trans hget.trans⟩
  | rested record => exact ⟨hrun.running, nofun, hstage⟩

/-- **The work of a crew**: in the end every project of the level that was
    stale has been built or has failed. -/
theorem Crew.work_standing (w : Workplace σ) {before : StatusTable} (turns : List Turn)
    (run : Run σ) (hnodup : stale.Nodup)
    (hlt : ∀ i ∈ stale, i < before.size)
    (hcompiler : ∀ i ∈ stale, (w.compiler w.graph i).NeverCancels)
    (hturns : Turn.cancel ∉ turns) (hrun : run.Kept before stale)
    (hstale : ∀ i ∈ stale, run.statuses.get i = .stale) :
    (work w stale turns run).2.Kept before stale ∧
      ∀ i ∈ stale, (work w stale turns run).2.statuses.get i = .built ∨
        (work w stale turns run).2.statuses.get i = .failed := by
  have h := work_local w turns run (G := fun run => run.Kept before stale)
    (I := fun i stage run => stage.Standing (run.statuses.get i)) hnodup
    (fun i hi stage run hG hI => Stage.standing_step hi (hlt i hi) (hcompiler i hi) hG hI)
    (fun i _ j _ hij stage other run _ _ hI => by
      rw [Stage.step_get_ne w hij.symm]
      exact hI)
    (fun hcancel => absurd hcancel hturns) hrun hstale
  refine ⟨h.1, ?_⟩
  intro i hi
  rw [← work_indices w stale turns run] at hi
  obtain ⟨worker, hworker, rfl⟩ := List.mem_map.mp hi
  obtain ⟨record, hfinished⟩ := work_finished w stale turns run worker hworker
  have hstanding := h.2 worker hworker
  rw [hfinished] at hstanding
  exact hstanding

end crew

/-! ## Levels -/

open Staleness (Blocked)

/-- A run before the level `n`: all projects of earlier levels are final, and
    skipped exactly if a direct reference did not build; of the others nothing
    is known yet. -/
structure Progress.Contained (g : Graph) (n : Nat) (s : Progress σ) : Prop where
  running : s.run.site.cancelled = false
  size : s.run.statuses.size = g.size
  touched : s.run.OnlyBuiltTouched
  ahead : ∀ i < g.size, n ≤ g.levelOf i → s.run.statuses.get i = .unknown
  blocked : ∀ i < g.size, g.levelOf i < n → Blocked g s.run.statuses i →
    s.run.statuses.get i = .skipped
  free : ∀ i < g.size, g.levelOf i < n → ¬ Blocked g s.run.statuses i →
    s.run.statuses.get i = .upToDate ∨ s.run.statuses.get i = .built ∨
      s.run.statuses.get i = .failed

/-- A run within the level `n`, after the projects of `front` have been
    decided on: they are skipped or stale or up to date. -/
structure Progress.Deciding (g : Graph) (n : Nat) (front : List Nat) (s : Progress σ) :
    Prop where
  running : s.run.site.cancelled = false
  size : s.run.statuses.size = g.size
  touched : s.run.OnlyBuiltTouched
  ahead : ∀ i < g.size, n ≤ g.levelOf i → i ∉ front → s.run.statuses.get i = .unknown
  blocked : ∀ i < g.size, g.levelOf i < n ∨ i ∈ front → Blocked g s.run.statuses i →
    s.run.statuses.get i = .skipped
  free : ∀ i < g.size, g.levelOf i < n → ¬ Blocked g s.run.statuses i →
    s.run.statuses.get i = .upToDate ∨ s.run.statuses.get i = .built ∨
      s.run.statuses.get i = .failed
  decided : ∀ i ∈ front, ¬ Blocked g s.run.statuses i →
    s.run.statuses.get i = .stale ∨ s.run.statuses.get i = .upToDate

namespace Progress

variable [FileSystem σ] {g : Graph} {options : BuildOptions} {n : Nat}

/-- References of a project lie in earlier levels, so what is set in this
    level does not count among them. -/
theorem blocked_publish (hg : g.WellFormed) {t : StatusTable} {i k : Nat} {status : Status}
    (hk : g.levelOf k ≤ g.levelOf i) :
    Blocked g (t.publish i status) k ↔ Blocked g t k := by
  refine Blocked.congr fun j hj => StatusTable.get_publish_ne t ?_ status
  have hlevel := Graph.levelOf_lt hg hj
  rintro rfl
  omega

/-- A decision on a project that nothing is known of keeps what is said of the
    journal. -/
theorem decide_onlyBuiltTouched {s : Progress σ} {i : Nat} (h : s.run.OnlyBuiltTouched)
    (hunknown : s.run.statuses.get i = .unknown) :
    (Progress.decide g options s i).run.OnlyBuiltTouched := by
  intro j hj
  have hold : Entry.cleared j ∈ s.run.journal ∨ Entry.handed j ∈ s.run.journal :=
    hj.imp (fun hmem => (mem_decide_journal hmem).resolve_right id)
      fun hmem => (mem_decide_journal hmem).resolve_right id
  have hji : j ≠ i := by
    rintro rfl
    have htouched := h j hold
    rw [hunknown] at htouched
    rcases htouched with h | h | h <;> exact nomatch h
  rw [decide_get_ne g options s hji]
  exact h j hold

/-- **One decision** keeps to what is said of a level that is being decided on. -/
theorem Deciding.decide (hg : g.WellFormed) {front : List Nat} {i : Nat} (hi : i < g.size)
    (hlevel : g.levelOf i = n) (hfresh : i ∉ front)
    (hfront : ∀ k ∈ front, g.levelOf k = n) {s : Progress σ} (h : s.Deciding g n front) :
    (Progress.decide g options s i).Deciding g n (front ++ [i]) := by
  have hlt : i < s.run.statuses.size := h.size.symm ▸ hi
  have hunknown : s.run.statuses.get i = .unknown := h.ahead i hi (Nat.le_of_eq hlevel.symm) hfresh
  have hground : ground g s i
      = Staleness.check s.run.site.files g s.run.statuses s.records i := by
    unfold ground
    rw [h.running]
    rfl
  have hruling := Staleness.ruling_check options s.run.site.files g s.run.statuses s.records i
  rw [← hground] at hruling
  have hself := decide_get g options hlt
  -- a project of this level is no reference of one at this level or below
  have hblocked : ∀ k, g.levelOf k ≤ n →
      (Blocked g (Progress.decide g options s i).run.statuses k ↔ Blocked g s.run.statuses k) := by
    intro k hk
    rw [decide_statuses]
    exact blocked_publish hg (by omega)
  constructor
  case running =>
    rw [decide_site]
    exact h.running
  case size =>
    rw [decide_statuses, StatusTable.size_publish]
    exact h.size
  case touched => exact decide_onlyBuiltTouched h.touched hunknown
  case ahead =>
    intro k hk hn hfront'
    rw [List.mem_append, List.mem_singleton, not_or] at hfront'
    rw [decide_get_ne g options s hfront'.2]
    exact h.ahead k hk hn hfront'.1
  case blocked =>
    intro k hk hdone hb
    by_cases hki : k = i
    · subst hki
      rw [hself]
      exact hruling.1 ((hblocked k (Nat.le_of_eq hlevel)).mp hb)
    · have hdone' : g.levelOf k < n ∨ k ∈ front := by
        rcases hdone with hdone | hdone
        · exact Or.inl hdone
        · rcases List.mem_append.mp hdone with hmem | hmem
          · exact Or.inr hmem
          · exact absurd (List.mem_singleton.mp hmem) hki
      have hle : g.levelOf k ≤ n := by
        rcases hdone' with hlt | hmem
        · exact Nat.le_of_lt hlt
        · exact Nat.le_of_eq (hfront k hmem)
      rw [decide_get_ne g options s hki]
      exact h.blocked k hk hdone' ((hblocked k hle).mp hb)
  case free =>
    intro k hk hdone hb
    have hki : k ≠ i := by
      rintro rfl
      omega
    rw [decide_get_ne g options s hki]
    exact h.free k hk hdone (fun hb' => hb ((hblocked k (Nat.le_of_lt hdone)).mpr hb'))
  case decided =>
    intro k hk hb
    by_cases hki : k = i
    · subst hki
      rw [hself]
      exact hruling.2 (fun hb' => hb ((hblocked k (Nat.le_of_eq hlevel)).mpr hb'))
    · have hmem : k ∈ front := by
        rcases List.mem_append.mp hk with hmem | hmem
        · exact hmem
        · exact absurd (List.mem_singleton.mp hmem) hki
      rw [decide_get_ne g options s hki]
      exact h.decided k hmem (fun hb' => hb ((hblocked k (Nat.le_of_eq (hfront k hmem))).mpr hb'))

/-- All decisions of a level. -/
theorem Contained.decideEach (options : BuildOptions) (hg : g.WellFormed)
    (hn : n < g.levels.length) {interruptions : List Bool} (hinterruptions : true ∉ interruptions)
    {s : Progress σ} (h : s.Contained g n) :
    (Progress.decideEach g options s interruptions g.levels[n]).Deciding g n g.levels[n] := by
  have hmem : ∀ k ∈ g.levels[n], k < g.size ∧ g.levelOf k = n :=
    fun k hk => (Graph.mem_levels_getElem hn).mp hk
  refine decideEach_induct_nodup g options s interruptions (Graph.levels_getElem_nodup hn)
    (P := fun front s => s.Deciding g n front) ?_ ?_ ?_
  · exact fun hmem => absurd hmem hinterruptions
  · intro front i s hpart hfresh hfront hs
    obtain ⟨hi, hlevel⟩ := hmem i hpart
    exact hs.decide hg hi hlevel hfresh fun k hk => (hmem k (hfront hk)).2
  · refine ⟨h.running, h.size, h.touched, ?_, ?_, h.free, ?_⟩
    · exact fun i hi hlevel _ => h.ahead i hi hlevel
    · rintro i hi (hlevel | hnil)
      · exact h.blocked i hi hlevel
      · exact nomatch hnil
    · exact fun i hi => nomatch hi

/-- **One level** of a run that nobody cancels. -/
theorem Contained.level (hg : g.WellFormed) (hn : n < g.levels.length)
    (hdry : options.dryRun = false) {compiler : Compiler σ}
    (hcompiler : ∀ i < g.size, (compiler g i).NeverCancels) {schedule : LevelSchedule}
    (hschedule : schedule.Undisturbed) {s : Progress σ} (h : s.Contained g n) :
    (Progress.level g options compiler schedule s g.levels[n]).Contained g (n + 1) := by
  have hmem : ∀ k ∈ g.levels[n], k < g.size ∧ g.levelOf k = n :=
    fun k hk => (Graph.mem_levels_getElem hn).mp hk
  have hd := h.decideEach options hg hn hschedule.1
  set s' := Progress.decideEach g options s schedule.interruptions g.levels[n]
  have hlevel : Progress.level g options compiler schedule s g.levels[n]
      = Progress.build g compiler schedule.turns s' g.levels[n] :=
    level_eq hdry compiler schedule s g.levels[n]
  have hstale : ∀ k ∈ s'.stale g.levels[n],
      k < g.size ∧ g.levelOf k = n ∧ s'.run.statuses.get k = .stale :=
    fun k hk => (mem_stale_level hn).mp hk
  have hwork := Crew.work_standing ⟨g, compiler, s'.records⟩ schedule.turns s'.run
    (stale_nodup (Graph.levels_getElem_nodup hn) s')
    (fun i hi => hd.size.symm ▸ (hstale i hi).1) (fun i hi => hcompiler i (hstale i hi).1)
    hschedule.2 ⟨hd.running, rfl, hd.touched, fun _ _ => rfl⟩
    (fun i hi => (hstale i hi).2.2)
  rw [← build_run, ← hlevel] at hwork
  obtain ⟨hkept, hdone⟩ := hwork
  -- no reference of a project of this level or an earlier one is built here
  have hblocked : ∀ k, g.levelOf k ≤ n →
      (Blocked g (Progress.level g options compiler schedule s g.levels[n]).run.statuses k ↔
        Blocked g s'.run.statuses k) := by
    intro k hk
    refine Blocked.congr fun j hj => hkept.others j ?_
    intro hj'
    have h1 := Graph.levelOf_lt hg hj
    have h2 := (hstale j hj').2.1
    omega
  have hfree : ∀ k ∈ s'.stale g.levels[n], ¬ Blocked g s'.run.statuses k := by
    intro k hk hb
    have hskipped := hd.blocked k (hstale k hk).1 (Or.inr (mem_stale.mp hk).1) hb
    rw [(hstale k hk).2.2] at hskipped
    exact nomatch hskipped
  constructor
  case running => exact hkept.running
  case size => exact hkept.size.trans hd.size
  case touched => exact hkept.touched
  case ahead =>
    intro k hk hnk
    have hlater : k ∉ g.levels[n] := by
      intro hk'
      have := (hmem k hk').2
      omega
    rw [hkept.others k (fun hk' => hlater (mem_stale.mp hk').1)]
    exact hd.ahead k hk (by omega) hlater
  case blocked =>
    intro k hk hnk hb
    have hb' := (hblocked k (by omega)).mp hb
    rw [hkept.others k (fun hk' => hfree k hk' hb')]
    refine hd.blocked k hk ?_ hb'
    rcases Nat.lt_succ_iff_lt_or_eq.mp hnk with hlt | heq
    · exact Or.inl hlt
    · exact Or.inr ((Graph.mem_levels_getElem hn).mpr ⟨hk, heq⟩)
  case free =>
    intro k hk hnk hb
    have hb' : ¬ Blocked g s'.run.statuses k := fun h => hb ((hblocked k (by omega)).mpr h)
    by_cases hks : k ∈ s'.stale g.levels[n]
    · exact Or.inr (hdone k hks)
    · rw [hkept.others k hks]
      rcases Nat.lt_succ_iff_lt_or_eq.mp hnk with hlt | heq
      · exact hd.free k hk hlt hb'
      · have hkn := (Graph.mem_levels_getElem hn).mpr ⟨hk, heq⟩
        rcases hd.decided k hkn hb' with hst | hup
        · exact absurd (mem_stale.mpr ⟨hkn, hst⟩) hks
        · exact Or.inl hup

theorem start_contained (g : Graph) {site : Site σ} (hsite : site.cancelled = false) :
    (Progress.start site g).Contained g 0 := by
  refine ⟨hsite, StatusTable.size_ofSize g.size, ?_, ?_, ?_, ?_⟩
  · rintro i (hi | hi)
    · exact nomatch hi
    · exact nomatch hi
  · exact fun i _ _ => StatusTable.get_ofSize g.size i
  · exact fun i _ hlevel => absurd hlevel (Nat.not_lt_zero _)
  · exact fun i _ hlevel => absurd hlevel (Nat.not_lt_zero _)

/-- All levels. -/
theorem levels_contained (hg : g.WellFormed) (hdry : options.dryRun = false)
    {compiler : Compiler σ} (hcompiler : ∀ i < g.size, (compiler g i).NeverCancels)
    {schedules : List LevelSchedule} (hschedules : ∀ x ∈ schedules, x.Undisturbed)
    {site : Site σ} (hsite : site.cancelled = false) :
    (levels g options compiler (Progress.start site g) schedules g.levels).Contained g
      g.levels.length := by
  refine levels_induct g options compiler _ schedules g.levels (P := fun n s => s.Contained g n)
    ?_ (start_contained g hsite)
  intro n hn schedule s hschedule h
  refine h.level hg hn hdry hcompiler ?_
  rcases hschedule with hmem | rfl
  · exact hschedules schedule hmem
  · exact ⟨(fun h => nomatch h), fun h => nomatch h⟩

omit [FileSystem σ] in
/-- **Reachability**: when all levels are done, a project is skipped exactly
    if it depends on one that failed. -/
theorem Contained.skipped_iff (hg : g.WellFormed) {s : Progress σ}
    (h : s.Contained g g.levels.length) {i : Nat} (hi : i < g.size) :
    s.run.statuses.get i = .skipped ↔
      ∃ f, s.run.statuses.get f = .failed ∧ g.DependsOn i f := by
  have hstep : ∀ k < g.size, s.run.statuses.get k = .skipped ↔ Blocked g s.run.statuses k := by
    intro k hk
    have hlevel := Graph.levelOf_lt_length hk
    constructor
    · intro hskipped
      by_contra hb
      rcases h.free k hk hlevel hb with h' | h' | h' <;>
        exact nomatch hskipped.symm.trans h'
    · exact h.blocked k hk hlevel
  have hcases : ∀ j, (s.run.statuses.get j).blocksDependents = true →
      s.run.statuses.get j = .failed ∨ s.run.statuses.get j = .skipped := by
    intro j hj
    cases hget : s.run.statuses.get j with
    | failed => exact Or.inl rfl
    | skipped => exact Or.inr rfl
    | unknown => rw [hget] at hj; exact nomatch hj
    | upToDate => rw [hget] at hj; exact nomatch hj
    | stale => rw [hget] at hj; exact nomatch hj
    | building => rw [hget] at hj; exact nomatch hj
    | built => rw [hget] at hj; exact nomatch hj
  constructor
  · -- down the references, by induction on the level
    intro hskipped
    induction hn : g.levelOf i using Nat.strongRecOn generalizing i with
    | ind n ih =>
        obtain ⟨j, hj, hblocks⟩ := (hstep i hi).mp hskipped
        rcases hcases j hblocks with hfailed | hskipped'
        · exact ⟨j, hfailed, Relation.TransGen.single hj⟩
        · have hlt := Graph.levelOf_lt hg hj
          obtain ⟨f, hf, hchain⟩ :=
            ih (g.levelOf j) (hn ▸ hlt) (hg.dependency_lt hj).2 hskipped' rfl
          exact ⟨f, hf, Relation.TransGen.head hj hchain⟩
  · -- up the references, from the project that failed
    rintro ⟨f, hf, hchain⟩
    induction hchain using Relation.TransGen.head_induction_on with
    | @single a hab =>
        exact (hstep a (hg.dependency_lt hab).1).mpr ⟨f, hab, by rw [hf]; rfl⟩
    | @head a c hac _ ih =>
        have hc := ih (hg.dependency_lt hac).2
        exact (hstep a (hg.dependency_lt hac).1).mpr ⟨c, hac, by rw [hc]; rfl⟩

end Progress

/-! ## Whole builds -/

section build

variable {τ : Type} [FileSystem τ] [FileSystem σ]

/-- **Failures are contained exactly**: in a build that nobody cancels, with
    the workers of each level in any order, the projects that are skipped are
    those that depend on one that failed.  No skipped project was given to the
    compiler or lost its record, and every other project is up to date, built
    or failed. -/
theorem buildGraph_containment {fs : τ} {roots : List Path} {g : Graph}
    (hload : (loadGraph fs roots).value = .ok g) {options : BuildOptions}
    (hdry : options.dryRun = false) {compiler : Compiler σ}
    (hcompiler : ∀ i < g.size, (compiler g i).NeverCancels) {schedules : List LevelSchedule}
    (hschedules : ∀ x ∈ schedules, x.Undisturbed) {site : Site σ}
    (hsite : site.cancelled = false) {i : Nat} (hi : i < g.size) :
    let run := (buildGraph options compiler schedules g site).2
    (run.statuses.get i = .skipped ↔
      ∃ f, run.statuses.get f = .failed ∧ i ∈ g.transitiveDependents f) ∧
    (run.statuses.get i = .skipped →
      Entry.handed i ∉ run.journal ∧ Entry.cleared i ∉ run.journal) ∧
    (run.statuses.get i ≠ .skipped →
      run.statuses.get i = .upToDate ∨ run.statuses.get i = .built ∨
        run.statuses.get i = .failed) := by
  have hg := loadGraph_wellFormed hload
  have h := Progress.levels_contained hg hdry hcompiler hschedules hsite
  intro run
  have hstatuses : run.statuses = (Progress.levels g options compiler (Progress.start site g)
      schedules g.levels).run.statuses := rfl
  have hjournal : run.journal = (Progress.levels g options compiler (Progress.start site g)
      schedules g.levels).run.journal := rfl
  rw [hstatuses, hjournal]
  refine ⟨?_, ?_, ?_⟩
  · rw [h.skipped_iff hg hi]
    simp only [Graph.mem_transitiveDependents hg]
  · intro hskipped
    have hnone : ¬ (Entry.cleared i ∈ _ ∨ Entry.handed i ∈ _) := fun hentry => by
      rcases h.touched i hentry with h' | h' | h' <;> exact nomatch hskipped.symm.trans h'
    exact ⟨fun hentry => hnone (Or.inr hentry), fun hentry => hnone (Or.inl hentry)⟩
  · intro hskipped
    refine h.free i hi (Graph.levelOf_lt_length hi) ?_
    exact fun hb => hskipped (h.blocked i hi (Graph.levelOf_lt_length hi) hb)

/-- The first of the two projects does not compile. -/
def brokenCore : CompileScript :=
  { failures := [("/r/core/tsconfig.json", ["a.ts: wrong"])] }

/-- When the first of two projects fails, the second is skipped untouched,
    although the workers' steps begin with a turn of nobody. -/
theorem buildGraph_containment_pair :
    let run := (buildGraph {} brokenCore.compiler [{ turns := [.worker 7, .worker 0] }] pairGraph
      ⟨pairFiles, false, []⟩).2
    run.statuses.get 1 = .skipped ∧
      (∃ f, run.statuses.get f = .failed ∧ 1 ∈ pairGraph.transitiveDependents f) ∧
      Entry.handed 1 ∉ run.journal ∧ Entry.cleared 1 ∉ run.journal := by
  intro run
  have herrors : ∀ project, brokenCore.errors.lookup project ≠ some .cancelled :=
    fun _ => Option.some_ne_none _ |>.symm
  have hundisturbed : ∀ x ∈ [({ turns := [.worker 7, .worker 0] } : LevelSchedule)],
      x.Undisturbed := by
    intro x hx
    rw [List.mem_singleton.mp hx]
    exact ⟨(by decide), by decide⟩
  have h := buildGraph_containment pairGraph_loaded
    (show ({} : BuildOptions).dryRun = false from rfl)
    (fun i _ => CompileScript.compiler_neverCancels (σ := MemoryFs) rfl herrors pairGraph i)
    hundisturbed (show (⟨pairFiles, false, []⟩ : Site MemoryFs).cancelled = false from rfl)
    (i := 1) (by decide +kernel)
  have hskipped : run.statuses.get 1 = .skipped := by decide +kernel
  exact ⟨hskipped, h.1.mp hskipped, h.2.1 hskipped⟩

end build

end ProjectBuild
