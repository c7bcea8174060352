import ProjectBuild.Proofs.Run.Idempotence
import ProjectBuild.Proofs.Run.Reasons

/-! # A dry run foretells the real one

    The statuses and reasons that a dry run leaves behind are a *plan*: the
    check of every project, made with the statuses of the plan itself, the
    files and the records as they were, gives what the plan says of it
    (`Graph.Plan`).

    A real run soon has other files, other records and other statuses.  A
    check made in it still gives what the plan says.  Of its references a
    check wants to know whether they are rebuilt, and a reference that the
    plan has stale is built by then; of the files it looks at those of its own
    project, which nobody has touched yet; and it looks at stamps only if no
    reference is rebuilt (`Staleness.check_congr`).  So each level of the real
    run is as planned if those before it were (`Progress.Foretold`). -/

namespace ProjectBuild

open Staleness (recordOf? stampOf? Records ownReason? check Blocked)
open MemoryFs (Edit)

/-! ## Plans -/

/-- Statuses and reasons that are what the checks say, if they are made with
    these statuses. -/
def Graph.Plan {σ : Type} [FileSystem σ] (g : Graph) (options : BuildOptions) (fs : σ)
    (records : Records) (statuses : StatusTable) (reason : Nat → Reason) : Prop :=
  ∀ i < g.size, (statuses.get i, reason i)
    = Progress.ruling options (check fs g statuses records i)

namespace Progress

/-- Only whether a rebuild is forced counts for a ruling. -/
theorem ruling_congr {options options' : BuildOptions} (h : options'.force = options.force)
    (reason : Reason) : ruling options' reason = ruling options reason := by
  cases reason with
  | upToDate => simp only [ruling, h]
  | _ => rfl

end Progress

section plans

variable {σ : Type} [FileSystem σ] {g : Graph} {options : BuildOptions} {fs : σ}
  {records : Records} {statuses : StatusTable} {reason : Nat → Reason}

/-- **A plan gives no project up.** -/
theorem Graph.Plan.decided (hg : g.WellFormed) (h : g.Plan options fs records statuses reason)
    {i : Nat} (hi : i < g.size) : statuses.get i = .stale ∨ statuses.get i = .upToDate := by
  -- induction on the level: whether the project is given up depends on its references
  induction hlevel : g.levelOf i using Nat.strong_induction_on generalizing i with
  | _ n ih =>
      have hnot : ¬ Blocked g statuses i := by
        rintro ⟨j, hj, hblocks⟩
        have hbelow := Graph.levelOf_lt hg hj
        rcases ih (g.levelOf j) (hlevel ▸ hbelow) (hg.dependency_lt hj).2 rfl with hst | hst
        · rw [hst] at hblocks
          exact nomatch hblocks
        · rw [hst] at hblocks
          exact nomatch hblocks
      rw [show statuses.get i = (Progress.ruling options (check fs g statuses records i)).1 from
        congrArg Prod.fst (h i hi)]
      exact (Staleness.ruling_check options fs g statuses records i).2 hnot

namespace Progress

/-- A dry run before the level `n`. -/
structure Planned (g : Graph) (options : BuildOptions) (fs : σ) (records : Records) (n : Nat)
    (s : Progress σ) : Prop where
  running : s.run.site.cancelled = false
  files : s.run.site.files = fs
  known : s.records = records
  size : s.run.statuses.size = g.size
  reasons : s.reasons.length = g.size
  handed : s.run.handed = []
  ruled : ∀ i < g.size, g.levelOf i < n → (s.run.statuses.get i, s.reasonOf i)
    = ruling options (check fs g s.run.statuses records i)

/-- **A level goes as planned** in a dry run. -/
theorem Planned.level (hg : g.WellFormed) (hdry : options.dryRun = true)
    (compiler : Compiler σ) {n : Nat} (hn : n < g.levels.length) {schedule : LevelSchedule}
    (hschedule : schedule.Undisturbed) {s : Progress σ} (h : s.Planned g options fs records n) :
    (Progress.level g options compiler schedule s g.levels[n]).Planned g options fs records
      (n + 1) := by
  have hmem : ∀ {k}, k ∈ g.levels[n] ↔ k < g.size ∧ g.levelOf k = n :=
    Graph.mem_levels_getElem hn
  have hnodup := Graph.levels_getElem_nodup hn
  have hlt : ∀ i ∈ g.levels[n], i < s.run.statuses.size :=
    fun i hi => h.size.symm ▸ (hmem.mp hi).1
  have hopened := (decideEach_spec g options hnodup s hlt schedule.interruptions).1
  have hreasoned := decideEach_reasons g options hnodup s hlt
    (fun i hi => h.reasons.symm ▸ (hmem.mp hi).1) schedule.interruptions
  unfold Progress.level
  rw [if_pos hdry]
  generalize decideEach g options s schedule.interruptions g.levels[n] = s' at hopened hreasoned
  -- the statuses of references of lower levels are not changed in this one
  have hsame : ∀ {i}, g.levelOf i ≤ n → ∀ statuses : StatusTable,
      (∀ j, j ∉ g.levels[n] → statuses.get j = s.run.statuses.get j) →
      check fs g s'.run.statuses records i = check fs g statuses records i := by
    intro i hi statuses hstatuses
    refine Staleness.check_statuses_congr fs records fun j hj => ?_
    have hout := (Graph.dependency_before hg hn hi hj).2
    exact (hopened.others j hout).trans (hstatuses j hout).symm
  refine ⟨hreasoned.running h.running hschedule.1, hopened.files.trans h.files,
    hopened.records.trans h.known, hopened.size.trans h.size,
    hreasoned.length.trans h.reasons, hopened.handed.trans h.handed, ?_⟩
  intro i hi hlevel
  rcases Graph.levelOf_cases hn hi hlevel with ⟨hlevel, hout⟩ | hpart
  · rw [hopened.others i hout, hreasoned.others i hout,
      hsame (Nat.le_of_lt hlevel) s.run.statuses fun _ _ => rfl]
    exact h.ruled i hi hlevel
  · obtain ⟨statuses, hstatuses, hpair⟩ :=
      (hreasoned.ruled i hpart).checked h.running hschedule.1
    rw [hpair, h.files, h.known, hsame (Nat.le_of_eq (hmem.mp hpart).2) statuses hstatuses]

/-- **A dry run makes a plan**, and nothing else. -/
theorem levels_planned (hg : g.WellFormed) (hdry : options.dryRun = true)
    (compiler : Compiler σ) {schedules : List LevelSchedule}
    (hschedules : ∀ schedule ∈ schedules, schedule.Undisturbed) {site : Site σ}
    (hrunning : site.cancelled = false) :
    (levels g options compiler (Progress.start site g) schedules g.levels).Planned g options
      site.files (Progress.start site g).records g.levels.length := by
  refine levels_induct g options compiler (Progress.start site g) schedules g.levels
    (P := fun n s => s.Planned g options site.files (Progress.start site g).records n) ?_ ?_
  · rintro n hn schedule s (hmem | rfl) h
    · exact h.level hg hdry compiler hn (hschedules schedule hmem)
    · exact h.level hg hdry compiler hn ⟨List.not_mem_nil, List.not_mem_nil⟩
  · exact ⟨hrunning, rfl, rfl, StatusTable.size_ofSize g.size, start_reasons_length site g, rfl,
      fun _ _ hlevel => absurd hlevel (Nat.not_lt_zero _)⟩

/-- A run that has gone as planned to its end is a plan. -/
theorem Planned.plan {s : Progress σ} (h : s.Planned g options fs records g.levels.length) :
    g.Plan options fs records s.run.statuses s.reasonOf :=
  fun i hi => h.ruled i hi (Graph.levelOf_lt_length hi)

end Progress

end plans

/-! ## Builds that leave alone what others look at -/

/-- The outputs that the record on file of a project names. -/
def recordedOutputs (fs : MemoryFs) (p : Project) : List Path :=
  (BuildRecord.load fs p).value.elim [] fun r => r.outputs.keys

/-- What a check of the project looks at. -/
def watchedFiles (fs : MemoryFs) (p : Project) : List Path :=
  p.inputs ++ recordedOutputs fs p

/-- The inputs of all projects, and the recorded outputs of all but one. -/
def Graph.guardedFiles (g : Graph) (fs : MemoryFs) (i : Nat) : List Path :=
  g.nodes.flatMap Project.inputs ++
    (g.indices.filter (· != i)).flatMap fun j => recordedOutputs fs (g.node j)

/-- The build of a project, compile and record, writes and removes none of the
    files that checks of other projects look at, and no input. -/
structure Graph.Considerate (g : Graph) (fs : MemoryFs) (compiler : Compiler MemoryFs) (i : Nat) :
    Prop where
  compile : (compiler g i).Only fun e => ∀ q ∈ g.guardedFiles fs i, e.path.same q = false
  record : ∀ q ∈ g.guardedFiles fs i, (g.node i).recordPath.same q = false

/-- What is watched for the other projects is guarded. -/
theorem Graph.mem_guardedFiles {g : Graph} {fs : MemoryFs} {i j : Nat} (hj : j < g.size)
    (hne : j ≠ i) {q : Path} (hq : q ∈ watchedFiles fs (g.node j)) : q ∈ g.guardedFiles fs i := by
  rcases List.mem_append.mp hq with hq | hq
  · exact List.mem_append_left _ (List.mem_flatMap.mpr ⟨g.node j, Graph.node_mem hj, hq⟩)
  · refine List.mem_append_right _ (List.mem_flatMap.mpr ⟨j, List.mem_filter.mpr ⟨?_, ?_⟩, hq⟩)
    · exact List.mem_range.mpr hj
    · exact bne_iff_ne.mpr hne

/-- A build that keeps out of the others' way leaves alone what their checks
    look at. -/
theorem Graph.Orderly.considerate {g : Graph} {fs : MemoryFs} {compiler : Compiler MemoryFs}
    {i : Nat} (h : g.Orderly fs compiler i) : g.Considerate fs compiler i := by
  have hforeign : ∀ q ∈ g.guardedFiles fs i, q ∈ g.foreignFiles fs i := by
    intro q hq
    rcases List.mem_append.mp hq with hq | hq
    · exact List.mem_append_left _ hq
    · obtain ⟨j, hj, hq⟩ := List.mem_flatMap.mp hq
      exact List.mem_append_right _ (List.mem_flatMap.mpr ⟨j, hj, List.mem_append_right _ hq⟩)
  exact ⟨h.compile.imp fun e he q hq => he q (List.mem_append_left _ (hforeign q hq)),
    fun q hq => h.record q (hforeign q hq)⟩

/-- A considerate compile leaves alone what is watched for the others. -/
theorem Graph.Considerate.edits_frame {g : Graph} {fs : MemoryFs} {compiler : Compiler MemoryFs}
    {i : Nat} (h : g.Considerate fs compiler i) {es : List Edit}
    (hes : ∀ e ∈ es, e.path = (g.node i).recordPath ∨
      ∀ q ∈ g.guardedFiles fs i, e.path.same q = false)
    {j : Nat} (hj : j < g.size) (hne : j ≠ i) {q : Path} (hq : q ∈ watchedFiles fs (g.node j))
    (files : MemoryFs) : (files.edits es).file? q = files.file? q := by
  have hguarded := Graph.mem_guardedFiles hj hne hq
  refine MemoryFs.file?_edits_ne files fun e he => ?_
  rw [← Path.same_eq_false_iff]
  rcases hes e he with hpath | hok
  · rw [hpath]
    exact h.record q hguarded
  · exact hok q hguarded

/-! ## Workers that succeed -/

/-- A stage on the way to a new record. -/
def Stage.Thrives : Stage MemoryFs → Prop
  | compiling job => job.Succeeds
  | recorded r => r.Canonical
  | closing result => ∃ r, result = .ok r
  | finished record => record.isSome = true
  | _ => True

/-- **A worker whose compile succeeds gets its project built**, if nobody
    cancels the run. -/
theorem Stage.step_thrives {w : Workplace MemoryFs} {i : Nat} {run : Run MemoryFs}
    (hrunning : run.site.cancelled = false) (htimely : run.site.files.Timely)
    (hsucceeds : (w.compiler w.graph i).Succeeds) {stage : Stage MemoryFs} (h : stage.Thrives) :
    (stage.step w i run).1.Thrives ∧ (stage.step w i run).2.site.cancelled = false := by
  obtain ⟨entries, hmove⟩ := step_moves w i stage run
  generalize stage.step w i run = next at hmove ⊢
  cases hmove with
  | skipped hcancelled => exact absurd (hrunning.symm.trans hcancelled) Bool.false_ne_true
  | entered => exact ⟨True.intro, hrunning⟩
  | kept hremoved =>
      obtain ⟨failure, hfailed, -⟩ := BuildRecord.invalidate_error hremoved
      exact nomatch hfailed
  | handed => exact ⟨hsucceeds, hrunning⟩
  | worked effect next =>
      obtain ⟨hcancelled, hnext⟩ := h run.site hrunning
      exact ⟨hnext, hcancelled⟩
  | succeeded => exact ⟨True.intro, hrunning⟩
  | failed e =>
      obtain ⟨messages, hok⟩ := h
      exact nomatch hok
  | captured hcaptured =>
      refine ⟨?_, hrunning⟩
      rw [hcaptured]
      exact BuildRecord.capture_canonical htimely (PathMap.sorted_ofList _)
  | saved hsaved =>
      obtain ⟨rfl, -⟩ := Prod.mk.inj ((BuildRecord.save_eq h).symm.trans hsaved)
      exact ⟨⟨_, rfl⟩, hrunning⟩
  | closed result =>
      obtain ⟨r, rfl⟩ : ∃ r, result = .ok r := h
      exact ⟨rfl, hrunning⟩
  | rested record => exact ⟨h, hrunning⟩

/-- **The work of a crew whose compiles succeed**: every worker comes back with
    a record, and nobody touches what checks of other projects look at. -/
theorem Crew.work_thrives {g : Graph} {fs : MemoryFs} {compiler : Compiler MemoryFs}
    (records : Records) {stale : List Nat} {turns : List Turn} (run : Run MemoryFs)
    (hnodup : stale.Nodup) (hturns : Turn.cancel ∉ turns)
    (hconsiderate : ∀ i ∈ stale, g.Considerate fs compiler i)
    (hsucceeds : ∀ i ∈ stale, (compiler g i).Succeeds)
    (hrunning : run.site.cancelled = false) (htimely : run.site.files.Timely) :
    ((work ⟨g, compiler, records⟩ stale turns run).2.site.cancelled = false ∧
      run.site.files.Later (work ⟨g, compiler, records⟩ stale turns run).2.site.files ∧
      ∀ j < g.size, j ∉ stale → ∀ q ∈ watchedFiles fs (g.node j),
        (work ⟨g, compiler, records⟩ stale turns run).2.site.files.file? q
          = run.site.files.file? q) ∧
      ∀ worker ∈ (work ⟨g, compiler, records⟩ stale turns run).1,
        ∃ r, worker.stage = .finished (some r) := by
  -- the whole crew keeps the watched files of others, and each member its own stage
  have h := work_local ⟨g, compiler, records⟩ turns run
    (G := fun run' => run'.site.cancelled = false ∧ run.site.files.Later run'.site.files ∧
      ∀ j < g.size, j ∉ stale → ∀ q ∈ watchedFiles fs (g.node j),
        run'.site.files.file? q = run.site.files.file? q)
    (I := fun i stage _ => stage.CompilesOnly (fun e =>
      ∀ q ∈ g.guardedFiles fs i, e.path.same q = false) ∧ stage.Thrives) hnodup ?_
    (fun _ _ _ _ _ _ _ _ _ _ h => h) (fun hmem => absurd hmem hturns)
    ⟨hrunning, MemoryFs.Later.refl _, fun _ _ _ _ _ => rfl⟩ (fun _ _ => ⟨True.intro, True.intro⟩)
  · refine ⟨h.1, fun worker hworker => ?_⟩
    obtain ⟨record, hfinished⟩ :=
      work_finished ⟨g, compiler, records⟩ stale turns run worker hworker
    have hthrives := (h.2 worker hworker).2
    rw [hfinished] at hthrives
    obtain ⟨r, rfl⟩ := Option.isSome_iff_exists.mp hthrives
    exact ⟨r, hfinished⟩
  · rintro i hi stage run' ⟨hrunning', hlater, hkept⟩ ⟨honly, hthrives⟩
    have hgood := hconsiderate i hi
    obtain ⟨es, hes, hpaths⟩ := Stage.step_files ⟨g, compiler, records⟩ i honly run'
    have hstep := Stage.step_thrives (w := ⟨g, compiler, records⟩) hrunning'
      (hlater.timely htimely) (hsucceeds i hi) hthrives
    refine ⟨⟨hstep.2, ?_, ?_⟩, Stage.step_compilesOnly _ i hgood.compile honly run', hstep.1⟩
    · rw [hes]
      exact hlater.trans (MemoryFs.edits_later _ es)
    · intro j hj hnot q hq
      have hne : j ≠ i := fun heq => hnot (heq ▸ hi)
      rw [hes, hgood.edits_frame hpaths hj hne hq]
      exact hkept j hj hnot q hq

/-! ## The real run -/

namespace Progress

variable {g : Graph} {options : BuildOptions} {fs : MemoryFs} {compiler : Compiler MemoryFs}
  {records : Records} {statuses : StatusTable} {reason : Nat → Reason} {n : Nat}

/-- What the plan says and what comes of it. -/
def Comes (planned real : Status) : Prop :=
  planned = .stale ∧ real = .built ∨ planned = .upToDate ∧ real = .upToDate

/-- What comes as planned blocks what the plan says. -/
theorem Comes.blocks_eq {planned real : Status} (h : Comes planned real) :
    real.blocksDependents = planned.blocksDependents := by
  rcases h with ⟨rfl, rfl⟩ | ⟨rfl, rfl⟩
  · rfl
  · rfl

/-- What comes as planned is a rebuild if the plan says so. -/
theorem Comes.rebuild_eq {planned real : Status} (h : Comes planned real) :
    real.isRebuild = planned.isRebuild := by
  rcases h with ⟨rfl, rfl⟩ | ⟨rfl, rfl⟩
  · rfl
  · rfl

/-- What comes as planned is built or up to date. -/
theorem Comes.ends {planned real : Status} (h : Comes planned real) :
    real = .built ∨ real = .upToDate :=
  h.imp And.right And.right

theorem Comes.built_iff {planned real : Status} (h : Comes planned real) :
    real = .built ↔ planned = .stale := by
  rcases h with ⟨rfl, rfl⟩ | ⟨rfl, rfl⟩
  · exact ⟨fun _ => rfl, fun _ => rfl⟩
  · exact ⟨fun h => (nomatch h), fun h => (nomatch h)⟩

theorem Comes.upToDate_iff {planned real : Status} (h : Comes planned real) :
    real = .upToDate ↔ planned = .upToDate := by
  rcases h with ⟨rfl, rfl⟩ | ⟨rfl, rfl⟩
  · exact ⟨fun h => (nomatch h), fun h => (nomatch h)⟩
  · exact ⟨fun _ => rfl, fun _ => rfl⟩

/-- A run before the level `n` in which all has gone according to plan.  What
    checks of later projects look at has not been touched, and the records of
    those that are up to date are the old ones. -/
structure Foretold (g : Graph) (fs : MemoryFs) (records : Records) (statuses : StatusTable)
    (reason : Nat → Reason) (n : Nat) (s : Progress MemoryFs) : Prop where
  running : s.run.site.cancelled = false
  later : fs.Later s.run.site.files
  size : s.run.statuses.size = g.size
  reasons : s.reasons.length = g.size
  files : ∀ j < g.size, n ≤ g.levelOf j → ∀ q ∈ watchedFiles fs (g.node j),
    s.run.site.files.file? q = fs.file? q
  records : ∀ j < g.size, n ≤ g.levelOf j ∨ statuses.get j = .upToDate →
    recordOf? s.records j = recordOf? records j
  done : ∀ j < g.size, g.levelOf j < n →
    Comes (statuses.get j) (s.run.statuses.get j) ∧ s.reasonOf j = reason j

/-- **A check in the real run** gives what it gives in the plan. -/
theorem Foretold.check_eq (hg : g.WellFormed) {s : Progress MemoryFs}
    (hrecords : ∀ j < g.size, recordOf? records j = (BuildRecord.load fs (g.node j)).value)
    (h : s.Foretold g fs records statuses reason n) {i : Nat} (hi : i < g.size)
    (hlevel : g.levelOf i = n) {found : StatusTable}
    (hfound : ∀ j ∈ g.dependencies i, found.get j = s.run.statuses.get j) :
    check s.run.site.files g found s.records i = check fs g statuses records i := by
  have hbelow : ∀ j ∈ g.dependencies i, j < g.size ∧ g.levelOf j < n := fun j hj =>
    ⟨(hg.dependency_lt hj).2, hlevel ▸ Graph.levelOf_lt hg hj⟩
  have hcomes : ∀ j ∈ g.dependencies i, Comes (statuses.get j) (found.get j) := by
    intro j hj
    rw [hfound j hj]
    exact (h.done j (hbelow j hj).1 (hbelow j hj).2).1
  refine Staleness.check_congr ?_ ?_ (h.records i hi (Or.inl (Nat.le_of_eq hlevel.symm))) ?_ ?_
  · intro j hj
    exact (hcomes j hj).blocks_eq
  · intro j hj
    exact (hcomes j hj).rebuild_eq
  · intro r hr
    refine Staleness.ownReason?_congr fun q hq => ?_
    refine h.files i hi (Nat.le_of_eq hlevel.symm) q ?_
    -- what the check looks at is among the files that are watched
    unfold watchedFiles recordedOutputs
    rw [← hrecords i hi, hr]
    exact hq
  · -- the stamp of a reference counts only if that is up to date, and then has its old record
    intro j hj hquiet
    unfold stampOf?
    rw [h.records j (hbelow j hj).1 (Or.inr ?_)]
    rcases hcomes j hj with ⟨hp, -⟩ | ⟨hp, -⟩
    · rw [hp] at hquiet
      exact nomatch hquiet
    · exact hp

/-- **The decisions of a level are those of the plan**, if the levels before it have
    gone according to it. -/
theorem Foretold.judged (hg : g.WellFormed)
    (hrecords : ∀ j < g.size, recordOf? records j = (BuildRecord.load fs (g.node j)).value)
    (hplan : g.Plan options fs records statuses reason) (hn : n < g.levels.length)
    {interruptions : List Bool} (hquiet : true ∉ interruptions) {s : Progress MemoryFs}
    (h : s.Foretold g fs records statuses reason n) :
    (decideEach g options s interruptions g.levels[n]).Foretold g fs records statuses reason n ∧
      ∀ i ∈ g.levels[n],
        (decideEach g options s interruptions g.levels[n]).run.statuses.get i = statuses.get i ∧
          (decideEach g options s interruptions g.levels[n]).reasonOf i = reason i := by
  have hmem : ∀ {k}, k ∈ g.levels[n] ↔ k < g.size ∧ g.levelOf k = n :=
    Graph.mem_levels_getElem hn
  have hnodup := Graph.levels_getElem_nodup hn
  have hlt : ∀ i ∈ g.levels[n], i < s.run.statuses.size :=
    fun i hi => h.size.symm ▸ (hmem.mp hi).1
  have hopened := (decideEach_spec g options hnodup s hlt interruptions).1
  have hreasoned := decideEach_reasons g options hnodup s hlt
    (fun i hi => h.reasons.symm ▸ (hmem.mp hi).1) interruptions
  generalize decideEach g options s interruptions g.levels[n] = s' at hopened hreasoned ⊢
  constructor
  · refine ⟨hreasoned.running h.running hquiet, hopened.files.symm ▸ h.later,
      hopened.size.trans h.size, hreasoned.length.trans h.reasons, ?_, ?_, ?_⟩
    · rw [hopened.files]
      exact h.files
    · rw [hopened.records]
      exact h.records
    · intro j hj hlevel
      have hpart := Graph.not_mem_levels_getElem hn (Nat.ne_of_lt hlevel)
      rw [hopened.others j hpart, hreasoned.others j hpart]
      exact h.done j hj hlevel
  · intro i hi
    obtain ⟨hsize, hlevel⟩ := hmem.mp hi
    -- the check was made amid the decisions of the level, which are not about references
    obtain ⟨found, hfound, hpair⟩ := (hreasoned.ruled i hi).checked h.running hquiet
    rw [h.check_eq hg hrecords hsize hlevel fun j hj =>
        hfound j (Graph.dependency_before hg hn (Nat.le_of_eq hlevel) hj).2,
      ← hplan i hsize] at hpair
    exact ⟨congrArg Prod.fst hpair, congrArg Prod.snd hpair⟩

/-- **The crew of a level builds what the plan has stale.** -/
theorem Foretold.built (hg : g.WellFormed) (hplan : g.Plan options fs records statuses reason)
    (htimely : fs.Timely) (hconsiderate : ∀ i < g.size, g.Considerate fs compiler i)
    (hsucceeds : ∀ i < g.size, (compiler g i).Succeeds) (hn : n < g.levels.length)
    {turns : List Turn} (hturns : Turn.cancel ∉ turns) {s : Progress MemoryFs}
    (h : s.Foretold g fs records statuses reason n)
    (hruled : ∀ i ∈ g.levels[n], s.run.statuses.get i = statuses.get i ∧ s.reasonOf i = reason i) :
    (build g compiler turns s g.levels[n]).Foretold g fs records statuses reason (n + 1) := by
  have hmem : ∀ {k}, k ∈ g.levels[n] ↔ k < g.size ∧ g.levelOf k = n :=
    Graph.mem_levels_getElem hn
  have hnodup := stale_nodup (Graph.levels_getElem_nodup hn) s
  -- so the crew is known before the run: it builds what the plan has stale in the level
  have hstale : ∀ {i}, i ∈ s.stale g.levels[n] ↔
      i < g.size ∧ g.levelOf i = n ∧ statuses.get i = .stale := by
    intro i
    refine (mem_stale_level hn).trans
      (and_congr_right fun hsize => and_congr_right fun hlevel => ?_)
    rw [(hruled i (hmem.mpr ⟨hsize, hlevel⟩)).1]
  obtain ⟨⟨hrunning, hlater, hkept⟩, hworkers⟩ := Crew.work_thrives s.records s.run hnodup hturns
    (fun i hi => hconsiderate i (hstale.mp hi).1) (fun i hi => hsucceeds i (hstale.mp hi).1)
    h.running (h.later.timely htimely)
  have hstatuses := Crew.work_statuses ⟨g, compiler, s.records⟩ hnodup turns s.run
    (fun i hi => h.size.symm ▸ (hstale.mp hi).1) (fun i hi => (mem_stale.mp hi).2)
  have hbuilt : ∀ i ∈ s.stale g.levels[n], (Crew.work ⟨g, compiler, s.records⟩
      (s.stale g.levels[n]) turns s.run).2.statuses.get i = .built := by
    intro i hi
    obtain ⟨worker, hworker, -, ⟨r, -, hst⟩ | ⟨hnone, -⟩⟩ := hstatuses.2.2 i hi
    · exact hst
    · obtain ⟨r, hfinished⟩ := hworkers worker hworker
      exact nomatch (Stage.finished.inj (hnone.symm.trans hfinished))
  rw [← build_run] at hrunning hlater hkept hstatuses hbuilt
  have hreason := fun {j} (hj : j < g.size) => reasonOf_build g compiler turns
    (s := s) g.levels[n] (j := j) (h.reasons.symm ▸ hj)
  have hrecord : ∀ j, j ∉ s.stale g.levels[n] →
      recordOf? (build g compiler turns s g.levels[n]).records j = recordOf? s.records j :=
    fun j hj => recordOf?_build_ne hj
  have hlength := build_reasons_length g compiler turns s g.levels[n]
  generalize build g compiler turns s g.levels[n] = s' at *
  -- no project that is built ends as skipped, so no reason is taken back
  have hreasons : ∀ j < g.size, s'.reasonOf j = s.reasonOf j := by
    intro j hj
    rw [hreason hj, if_neg]
    rintro ⟨hskipped, hj'⟩
    exact nomatch (hbuilt j hj').symm.trans hskipped
  refine ⟨hrunning, h.later.trans hlater, hstatuses.1.trans h.size, hlength.trans h.reasons,
    ?_, ?_, ?_⟩
  · intro j hj hlevel q hq
    have hnot := not_mem_stale hn (Nat.ne_of_gt hlevel) s
    rw [hkept j hj hnot q hq]
    exact h.files j hj (Nat.le_of_succ_le hlevel) q hq
  · intro j hj hwhy
    have hnot : j ∉ s.stale g.levels[n] := by
      intro hj'
      obtain ⟨-, hlevel, hst⟩ := hstale.mp hj'
      rcases hwhy with hlater' | hup
      · exact Nat.ne_of_gt hlater' hlevel
      · exact nomatch hst.symm.trans hup
    rw [hrecord j hnot]
    exact h.records j hj (hwhy.imp_left Nat.le_of_succ_le)
  · intro j hj hlevel
    rw [hreasons j hj]
    rcases Graph.levelOf_cases hn hj hlevel with ⟨hlevel, hpart⟩ | hpart
    · rw [hstatuses.2.1 j fun hj' => hpart (mem_stale.mp hj').1]
      exact h.done j hj hlevel
    · refine ⟨?_, (hruled j hpart).2⟩
      rcases hplan.decided hg hj with hst | hup
      · exact Or.inl ⟨hst, hbuilt j (hstale.mpr ⟨hj, (hmem.mp hpart).2, hst⟩)⟩
      · refine Or.inr ⟨hup, ?_⟩
        have hnot : j ∉ s.stale g.levels[n] := fun hj' =>
          nomatch (hstale.mp hj').2.2.symm.trans hup
        rw [hstatuses.2.1 j hnot, (hruled j hpart).1, hup]

/-- **One level goes according to plan**, if those before it have. -/
theorem Foretold.level (hg : g.WellFormed) (hdry : options.dryRun = false)
    (hrecords : ∀ j < g.size, recordOf? records j = (BuildRecord.load fs (g.node j)).value)
    (hplan : g.Plan options fs records statuses reason) (htimely : fs.Timely)
    (hconsiderate : ∀ i < g.size, g.Considerate fs compiler i)
    (hsucceeds : ∀ i < g.size, (compiler g i).Succeeds) (hn : n < g.levels.length)
    {schedule : LevelSchedule} (hschedule : schedule.Undisturbed) {s : Progress MemoryFs}
    (h : s.Foretold g fs records statuses reason n) :
    (Progress.level g options compiler schedule s g.levels[n]).Foretold g fs records statuses
      reason (n + 1) := by
  obtain ⟨hjudged, hruled⟩ := h.judged hg hrecords hplan hn hschedule.1
  rw [level_eq hdry]
  exact hjudged.built hg hplan htimely hconsiderate hsucceeds hn hschedule.2 hruled

theorem start_foretold (g : Graph) {site : Site MemoryFs} (hrunning : site.cancelled = false)
    (statuses : StatusTable) (reason : Nat → Reason) :
    (Progress.start site g).Foretold g site.files (Progress.start site g).records statuses
      reason 0 :=
  ⟨hrunning, MemoryFs.Later.refl _, StatusTable.size_ofSize g.size, start_reasons_length site g,
    fun _ _ _ _ _ => rfl, fun _ _ _ => rfl, fun _ _ hlevel => absurd hlevel (Nat.not_lt_zero _)⟩

/-- **A run whose compiles succeed goes according to plan.** -/
theorem levels_foretold (hg : g.WellFormed) (hdry : options.dryRun = false)
    {site : Site MemoryFs} (hrunning : site.cancelled = false) (htimely : site.files.Timely)
    (hplan : g.Plan options site.files (Progress.start site g).records statuses reason)
    (hconsiderate : ∀ i < g.size, g.Considerate site.files compiler i)
    (hsucceeds : ∀ i < g.size, (compiler g i).Succeeds) {schedules : List LevelSchedule}
    (hschedules : ∀ schedule ∈ schedules, schedule.Undisturbed) :
    (levels g options compiler (Progress.start site g) schedules g.levels).Foretold g site.files
      (Progress.start site g).records statuses reason g.levels.length := by
  have hrecords : ∀ j < g.size, recordOf? (Progress.start site g).records j
      = (BuildRecord.load site.files (g.node j)).value := fun j hj => recordOf?_start site hj
  refine levels_induct g options compiler (Progress.start site g) schedules g.levels
    (P := fun n s => s.Foretold g site.files (Progress.start site g).records statuses reason n)
    ?_ (start_foretold g hrunning statuses reason)
  rintro n hn schedule s (hmem | rfl) h
  · exact h.level hg hdry hrecords hplan htimely hconsiderate hsucceeds hn
      (hschedules schedule hmem)
  · exact h.level hg hdry hrecords hplan htimely hconsiderate hsucceeds hn
      ⟨List.not_mem_nil, List.not_mem_nil⟩

end Progress

/-! ## Both runs -/

/-- What a dry run reports of a project tells what the real run will. -/
structure Outcome.Foretells (planned real : Outcome) : Prop where
  project : planned.project = real.project
  level : planned.level = real.level
  reason : planned.reason = real.reason
  decided : planned.status = .stale ∨ planned.status = .upToDate
  stale : planned.status = .stale ↔ real.status = .built
  upToDate : planned.status = .upToDate ↔ real.status = .upToDate

/-- **A dry run foretells the real run** from the same state, whatever records
    are on file and whether or not a rebuild is forced: let the compiler
    always succeed, and let no build step write or remove an input or an
    output that is on record for another project.  The dry run changes no file
    and compiles nothing; its report and that of the real run speak of the
    same projects in the same order, with the same levels and reasons, and
    what is stale in the first is built in the second. -/
theorem buildGraph_foretold {g : Graph} (hg : g.WellFormed) (site : Site MemoryFs)
    (hfiles : site.files.Reachable) (hrunning : site.cancelled = false) (force : Bool)
    {compiler : Compiler MemoryFs} (hsucceeds : ∀ i < g.size, (compiler g i).Succeeds)
    (hconsiderate : ∀ i < g.size, g.Considerate site.files compiler i)
    (schedules schedules' : List LevelSchedule)
    (hschedules : ∀ schedule ∈ schedules ++ schedules', schedule.Undisturbed) :
    let plan := buildGraph { force := force, dryRun := true } compiler schedules g site
    let real := buildGraph { force := force } compiler schedules' g site
    plan.2.site.files = site.files ∧ plan.2.handed = [] ∧ plan.1.compiled = 0 ∧
      List.Forall₂ Outcome.Foretells plan.1.projects real.1.projects := by
  intro plan real
  have hplanned := Progress.levels_planned hg
    (show ({ force := force, dryRun := true } : BuildOptions).dryRun = true from rfl) compiler
    (fun schedule hmem => hschedules schedule (List.mem_append_left _ hmem)) hrunning
  -- the plan of the dry run is one for the real run, too
  have hplan : g.Plan { force := force } site.files (Progress.start site g).records _ _ :=
    fun i hi => (hplanned.plan i hi).trans (Progress.ruling_congr rfl _)
  have hforetold := Progress.levels_foretold hg
    (show ({ force := force } : BuildOptions).dryRun = false from rfl) hrunning hfiles.timely hplan
    hconsiderate hsucceeds
    (fun schedule hmem => hschedules schedule (List.mem_append_right _ hmem))
  refine ⟨hplanned.files, hplanned.handed, congrArg List.length hplanned.handed, ?_⟩
  show List.Forall₂ _ (Progress.report g _ _).projects (Progress.report g _ _).projects
  rw [Progress.report_projects, Progress.report_projects, List.forall₂_map_left_iff,
    List.forall₂_map_right_iff, List.forall₂_same]
  intro i hi
  have hlt := Graph.mem_levels_flatten.mp hi
  obtain ⟨hcomes, hreason⟩ := hforetold.done i hlt (Graph.levelOf_lt_length hlt)
  exact ⟨rfl, rfl, hreason.symm, hplan.decided hg hlt, hcomes.built_iff.symm,
    hcomes.upToDate_iff.symm⟩

/-- A compiler that writes all outputs, and verifies nothing. -/
def plainCompiler : Compiler MemoryFs :=
  CompileScript.compiler { verify := false }

/-- With it the builds of the two projects keep out of each other's way. -/
theorem pairGraph_orderly : pairGraph.size = 2 ∧ pairGraph.DistinctRecords ∧
    ∀ i < pairGraph.size, pairGraph.Orderly pairFiles plainCompiler i := by
  obtain ⟨hsize, hrecords, houtputs, hrecord⟩ := pairGraph_apart
  refine ⟨hsize, hrecords, fun i hi => ?_⟩
  rw [hsize] at hi
  refine ⟨?_, hrecord i hi, CompileScript.compiler_delivers rfl _ i⟩
  exact (CompileScript.compiler_only _ pairGraph i).imp fun e he => houtputs i hi e.path he

/-- The builds of two projects that have never been built are foretold. -/
theorem buildGraph_foretold_pair :
    let plan := buildGraph { dryRun := true } plainCompiler [] pairGraph ⟨pairFiles, false, []⟩
    let real := buildGraph {} plainCompiler [] pairGraph ⟨pairFiles, false, []⟩
    plan.2.handed = [] ∧ List.Forall₂ Outcome.Foretells plan.1.projects real.1.projects := by
  obtain ⟨-, -, horderly⟩ := pairGraph_orderly
  have hsucceeds : ∀ i < pairGraph.size, (plainCompiler pairGraph i).Succeeds :=
    fun i _ => CompileScript.compiler_succeeds rfl rfl rfl rfl pairGraph i
  have h := buildGraph_foretold (loadGraph_wellFormed pairGraph_loaded) ⟨pairFiles, false, []⟩
    (MemoryFs.ofTexts_reachable _) rfl false hsucceeds (fun i hi => (horderly i hi).considerate)
    [] [] (List.forall_mem_nil LevelSchedule.Undisturbed)
  exact ⟨h.2.1, h.2.2.2⟩

end ProjectBuild
