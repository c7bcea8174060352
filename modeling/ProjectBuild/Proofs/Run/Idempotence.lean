import ProjectBuild.Proofs.Closure.Inputs
import ProjectBuild.Proofs.Graph.Level
import ProjectBuild.Proofs.Project
import ProjectBuild.Proofs.Run.Footprint
import ProjectBuild.Proofs.Staleness

/-! # A second build has nothing to do

    After a run has left every project built or up to date, every project is
    *settled*: its record is on file, fits its own files, and bears the stamps
    that its references have now (`Graph.Settled`).  A project that was up to
    date was settled before the run, and nothing the run did has touched it; a
    project that was built is settled since its record was written, because
    workers keep out of each other's way (`Graph.Orderly`).  A run over settled
    projects finds nothing to do. -/

namespace ProjectBuild

open Staleness (recordOf? stampOf? Records ownReason? check)
open MemoryFs (Edit)

/-! ## Builds that keep out of each other's way -/

/-- The outputs that a project is expected to have, and those that its record
    on file names. -/
def knownOutputs (fs : MemoryFs) (p : Project) : List Path :=
  p.expectedOutputs ++ ((BuildRecord.load fs p).value.elim [] fun r => r.outputs.keys)

/-- The inputs of all projects, and the known outputs of all but one. -/
def Graph.foreignFiles (g : Graph) (fs : MemoryFs) (i : Nat) : List Path :=
  g.nodes.flatMap Project.inputs ++
    (g.indices.filter (· != i)).flatMap fun j => knownOutputs fs (g.node j)

/-- What is expected of the build of a project: it writes all outputs when it
    succeeds, and leaves foreign files and all records alone, but for its own
    record, which is none of the foreign files. -/
structure Graph.Orderly (g : Graph) (fs : MemoryFs) (compiler : Compiler MemoryFs) (i : Nat) :
    Prop where
  compile : (compiler g i).Only fun e =>
    ∀ q ∈ g.foreignFiles fs i ++ g.recordPaths, e.path.same q = false
  record : ∀ q ∈ g.foreignFiles fs i, (g.node i).recordPath.same q = false
  delivers : (compiler g i).Delivers (g.node i).expectedOutputs (g.node i).expectedOutputs

/-- No two projects have the same record file. -/
def Graph.DistinctRecords (g : Graph) : Prop :=
  ∀ i < g.size, ∀ j < g.size, i ≠ j →
    (g.node i).recordPath.same (g.node j).recordPath = false

/-- The inputs of all projects are foreign files. -/
theorem Graph.mem_foreignFiles_input {g : Graph} (fs : MemoryFs) (i : Nat) {j : Nat}
    (hj : j < g.size) {q : Path} (hq : q ∈ (g.node j).inputs) : q ∈ g.foreignFiles fs i :=
  List.mem_append_left _ (List.mem_flatMap.mpr ⟨g.node j, Graph.node_mem hj, hq⟩)

/-- The known outputs of the other projects are foreign files. -/
theorem Graph.mem_foreignFiles_output {g : Graph} {fs : MemoryFs} {i j : Nat} (hj : j < g.size)
    (hne : j ≠ i) {q : Path} (hq : q ∈ knownOutputs fs (g.node j)) : q ∈ g.foreignFiles fs i := by
  refine List.mem_append_right _ (List.mem_flatMap.mpr ⟨j, List.mem_filter.mpr ⟨?_, ?_⟩, hq⟩)
  · exact List.mem_range.mpr hj
  · exact bne_iff_ne.mpr hne

/-! ## Settled projects -/

/-- The record of a project is on file, fits the project's own files, names no
    unknown outputs and bears the stamps of the references' records.  That it
    is on file is promised until the clock reaches the end of time. -/
def Graph.Settled (g : Graph) (known : List Path) (fs : MemoryFs) (records : Records) (i : Nat) :
    Prop :=
  ∃ r, recordOf? records i = some r ∧
    (fs.clock < Time.horizon → (BuildRecord.load fs (g.node i)).value = some r) ∧
    ownReason? fs (g.node i) r = none ∧ (∀ q ∈ r.outputs.keys, q ∈ known) ∧
    ∀ k ∈ g.dependencies i, r.references.get? (g.node k).configPath = stampOf? records k

/-- What happens to other files and records does not unsettle a project. -/
theorem Graph.Settled.congr {g : Graph} {known : List Path} {fs fs' : MemoryFs}
    {records records' : Records} {i : Nat} (h : g.Settled known fs records i)
    (hclock : fs.clock ≤ fs'.clock)
    (hfiles : ∀ q ∈ (g.node i).inputs ++ known ++ [(g.node i).recordPath],
      fs'.file? q = fs.file? q)
    (hrecords : ∀ k, k = i ∨ k ∈ g.dependencies i → recordOf? records' k = recordOf? records k) :
    g.Settled known fs' records' i := by
  obtain ⟨r, hr, hload, hown, hkeys, hreferences⟩ := h
  refine ⟨r, (hrecords i (Or.inl rfl)).trans hr, ?_, ?_, hkeys, ?_⟩
  · intro hlt
    rw [BuildRecord.load_congr (hfiles _ (List.mem_append_right _ (List.mem_singleton.mpr rfl)))]
    exact hload (Nat.lt_of_le_of_lt hclock hlt)
  · rw [Staleness.ownReason?_congr ?_]
    · exact hown
    · intro q hq
      refine hfiles q (List.mem_append_left _ ?_)
      rcases List.mem_append.mp hq with hq | hq
      · exact List.mem_append_left _ hq
      · exact List.mem_append_right _ (hkeys q hq)
  · intro k hk
    rw [hreferences k hk]
    unfold stampOf?
    rw [hrecords k (Or.inr hk)]

/-- A check of a settled project whose references are up to date finds nothing
    to do. -/
theorem Graph.Settled.check_eq {g : Graph} {known : List Path} {fs : MemoryFs}
    {records : Records} {i : Nat} (h : g.Settled known fs records i) {statuses : StatusTable}
    (hstatuses : ∀ j ∈ g.dependencies i, statuses.get j = .upToDate) :
    check fs g statuses records i = .upToDate := by
  obtain ⟨r, hr, -, hown, -, hreferences⟩ := h
  refine Staleness.check_upToDate_iff.mpr ⟨?_, ?_, r, hr, hown, hreferences⟩
  · rintro ⟨j, hj, hblocks⟩
    rw [hstatuses j hj] at hblocks
    exact nomatch hblocks
  · intro j hj
    rw [hstatuses j hj]
    rfl

/-- The stamps that a new record bears are those of the references' records. -/
theorem referenceStamps_get? {g : Graph} (hg : g.WellFormed) (hdistinct : g.Distinct)
    (records : Records) {i k : Nat} (hk : k ∈ g.dependencies i) :
    (referenceStamps g records i).get? (g.node k).configPath = stampOf? records k := by
  have hpath : ∀ j ∈ g.dependencies i,
      (g.node j).configPath.components = (g.node k).configPath.components → j = k := by
    intro j hj hsame
    by_contra hne
    exact hdistinct j (hg.dependency_lt hj).2 k (hg.dependency_lt hk).2 hne hsame
  unfold referenceStamps
  cases hstamp : stampOf? records k with
  | none =>
      rw [← Option.not_isSome_iff_eq_none, PathMap.get?_ofList_isSome]
      rintro ⟨entry, hentry, hsame⟩
      obtain ⟨j, hj, hsome⟩ := List.mem_filterMap.mp hentry
      obtain ⟨stamp, hj', rfl⟩ := Option.map_eq_some_iff.mp hsome
      rw [hpath j hj hsame, hstamp] at hj'
      exact nomatch hj'
  | some stamp =>
      refine PathMap.get?_ofList_of_mem ?_ (List.mem_filterMap.mpr ⟨k, hk, ?_⟩)
      · have hnodup := hg.dependencies_nodup i
        refine List.Pairwise.filterMap _ ?_
          (List.Pairwise.imp_of_mem (S := fun a b => a ∈ g.dependencies i ∧
            b ∈ g.dependencies i ∧ a ≠ b) (fun ha hb hne => ⟨ha, hb, hne⟩) hnodup)
        rintro a b ⟨ha, hb, hne⟩ entry hentry entry' hentry'
        obtain ⟨stamp, -, rfl⟩ := Option.map_eq_some_iff.mp hentry
        obtain ⟨stamp', -, rfl⟩ := Option.map_eq_some_iff.mp hentry'
        exact hdistinct a (hg.dependency_lt ha).2 b (hg.dependency_lt hb).2 hne
      · rw [hstamp]
        rfl

/-! ## A worker of an orderly build -/

/-- A finished build: its record is on file and is what would be recorded
    now. -/
def Project.Rebuilt (p : Project) (moment : Nat) (references : PathMap String) (fs : MemoryFs)
    (r : BuildRecord) : Prop :=
  r = BuildRecord.capture fs p references ∧ fs.Delivered moment p.expectedOutputs [] ∧
    fs.Present p.expectedOutputs [] ∧
    ∃ time, fs.file? p.recordPath = some ⟨r.printer.text.toUTF8, time⟩

/-- What is known at each stage of a worker that started at a moment. -/
def Stage.Rebuilding (p : Project) (moment : Nat) (references : PathMap String) (fs : MemoryFs)
    (status : Status) : Stage MemoryFs → Prop
  | waiting => True
  | started => True
  | compiling job => ∃ due, job.Delivers p.expectedOutputs due ∧
      fs.Delivered moment p.expectedOutputs due ∧ fs.Present p.expectedOutputs due
  | returned => fs.Delivered moment p.expectedOutputs [] ∧ fs.Present p.expectedOutputs []
  | recorded r => r = BuildRecord.capture fs p references ∧
      fs.Delivered moment p.expectedOutputs [] ∧ fs.Present p.expectedOutputs []
  | closing (.ok r) => p.Rebuilt moment references fs r
  | closing (.error _) => True
  | finished (some r) => p.Rebuilt moment references fs r
  | finished none => status = .skipped ∨ status = .failed

/-- The files that a worker's knowledge is about. -/
def Project.ownFiles (p : Project) : List Path :=
  p.inputs ++ p.expectedOutputs ++ [p.recordPath]

section worker

variable {p : Project} {moment : Nat} {references : PathMap String} {fs fs' : MemoryFs}

/-- Whether a project is rebuilt depends on its own files. -/
theorem Project.Rebuilt.congr {r : BuildRecord} (h : p.Rebuilt moment references fs r)
    (hfiles : ∀ q ∈ p.ownFiles, fs'.file? q = fs.file? q) :
    p.Rebuilt moment references fs' r := by
  obtain ⟨hr, hdelivered, hpresent, time, hfile⟩ := h
  have hown : ∀ q ∈ p.inputs ++ p.expectedOutputs, fs'.file? q = fs.file? q :=
    fun q hq => hfiles q (List.mem_append_left _ hq)
  have houtputs : ∀ q ∈ p.expectedOutputs, fs'.file? q = fs.file? q :=
    fun q hq => hown q (List.mem_append_right _ hq)
  refine ⟨hr.trans (BuildRecord.capture_congr hown).symm, hdelivered.congr houtputs,
    hpresent.congr houtputs, time, ?_⟩
  rw [hfiles _ (List.mem_append_right _ (List.mem_singleton.mpr rfl))]
  exact hfile

/-- What happens to other files does not concern a worker. -/
theorem Stage.Rebuilding.congr {status : Status} {stage : Stage MemoryFs}
    (h : stage.Rebuilding p moment references fs status)
    (hfiles : ∀ q ∈ p.ownFiles, fs'.file? q = fs.file? q) :
    stage.Rebuilding p moment references fs' status := by
  have hown : ∀ q ∈ p.inputs ++ p.expectedOutputs, fs'.file? q = fs.file? q :=
    fun q hq => hfiles q (List.mem_append_left _ hq)
  have houtputs : ∀ q ∈ p.expectedOutputs, fs'.file? q = fs.file? q :=
    fun q hq => hown q (List.mem_append_right _ hq)
  cases stage with
  | waiting => exact True.intro
  | started => exact True.intro
  | compiling job =>
      obtain ⟨due, hjob, hdelivered, hpresent⟩ := h
      exact ⟨due, hjob, hdelivered.congr houtputs, hpresent.congr houtputs⟩
  | returned => exact ⟨h.1.congr houtputs, h.2.congr houtputs⟩
  | recorded r =>
      exact ⟨h.1.trans (BuildRecord.capture_congr hown).symm, h.2.1.congr houtputs,
        h.2.2.congr houtputs⟩
  | closing result =>
      cases result with
      | ok r => exact Project.Rebuilt.congr h hfiles
      | error e => exact True.intro
  | finished record =>
      cases record with
      | some r => exact Project.Rebuilt.congr h hfiles
      | none => exact h

/-- **A worker's knowledge grows with its stages**: once the compile has
    succeeded all outputs are newer than the moment, the record is taken from
    them, and it is on file at the end. -/
theorem Stage.rebuilding_step {w : Workplace MemoryFs} {i : Nat} {run : Run MemoryFs}
    (hi : i < run.statuses.size) (hclock : moment ≤ run.site.files.clock)
    (htimely : run.site.files.Timely)
    (hdelivers : (w.compiler w.graph i).Delivers (w.graph.node i).expectedOutputs
      (w.graph.node i).expectedOutputs)
    (hrecord : ∀ q ∈ (w.graph.node i).inputs,
      (w.graph.node i).recordPath.components ≠ q.components)
    {stage : Stage MemoryFs}
    (h : stage.Rebuilding (w.graph.node i) moment (referenceStamps w.graph w.records i)
      run.site.files (run.statuses.get i)) :
    (stage.step w i run).1.Rebuilding (w.graph.node i) moment
      (referenceStamps w.graph w.records i) (stage.step w i run).2.site.files
      ((stage.step w i run).2.statuses.get i) := by
  obtain ⟨entries, hmove⟩ := step_moves w i stage run
  generalize stage.step w i run = next at hmove ⊢
  cases hmove with
  | skipped => exact Or.inl (StatusTable.get_publish hi _)
  | entered => exact True.intro
  | kept => exact True.intro
  | handed =>
      -- before the compile begins everything is still due
      exact ⟨_, hdelivers, fun q hq hdue => absurd hq hdue, fun q hq hdue => absurd hq hdue⟩
  | worked effect next =>
      obtain ⟨due, hjob, hdelivered, hpresent⟩ := h
      obtain ⟨es, hes, hnext⟩ := hjob run.site
      refine ⟨_, hnext, ?_, ?_⟩
      · show (effect run.site).files.Delivered _ _ _
        rw [hes]
        exact MemoryFs.edits_delivered hclock hdelivered es
      · show (effect run.site).files.Present _ _
        rw [hes]
        exact MemoryFs.edits_present hpresent es
  | succeeded messages =>
      obtain ⟨due, hjob, hdelivered, hpresent⟩ := h
      -- a job that is done owes nothing
      obtain rfl : due = [] := hjob
      exact ⟨hdelivered, hpresent⟩
  | failed => exact True.intro
  | captured hcaptured => exact ⟨hcaptured, h.1, h.2⟩
  | @saved r result files hsaved =>
      obtain ⟨hr, hdelivered, hpresent⟩ := h
      have hcanonical : r.Canonical := by
        rw [hr]
        exact BuildRecord.capture_canonical htimely (PathMap.sorted_ofList _)
      -- the record is put beside the files it was taken from
      have hown : ∀ q ∈ (w.graph.node i).inputs ++ (w.graph.node i).expectedOutputs,
          (run.site.files.put (w.graph.node i).recordPath r.printer.text.toUTF8).file? q
            = run.site.files.file? q := by
        intro q hq
        rw [MemoryFs.file?_put, if_neg]
        rcases List.mem_append.mp hq with hq | hq
        · exact hrecord q hq
        · exact Project.recordPath_ne_output hq
      have houtputs := fun q hq => hown q (List.mem_append_right _ hq)
      obtain ⟨rfl, rfl⟩ := Prod.mk.inj ((BuildRecord.save_eq hcanonical).symm.trans hsaved)
      refine ⟨hr.trans (BuildRecord.capture_congr hown).symm, hdelivered.congr houtputs,
        hpresent.congr houtputs, run.site.files.nextTime, ?_⟩
      show (run.site.files.put _ _).file? _ = _
      rw [MemoryFs.file?_put, if_pos rfl]
  | closed result =>
      show (finished (recordOf? result)).Rebuilding _ _ _
        (explain (w.graph.node i) run result).site.files
        (((explain (w.graph.node i) run result).finish i (verdict result)).statuses.get i)
      rw [get_closed _ hi, explain_files]
      cases result with
      | ok r => exact h
      | error e =>
          cases e with
          | cancelled => exact Or.inl rfl
          | _ => exact Or.inr rfl
  | rested record => exact h

end worker

/-! ## One level -/

section level

variable {g : Graph} {fs₀ : MemoryFs} {compiler : Compiler MemoryFs}

/-- The edits of an orderly build leave inputs alone, and what is known of the
    other projects. -/
theorem Graph.Orderly.edits_frame {i : Nat} (hi : i < g.size) (h : g.Orderly fs₀ compiler i)
    (hrecords : g.DistinctRecords) {es : List Edit}
    (hes : ∀ e ∈ es, e.path = (g.node i).recordPath ∨
      ∀ q ∈ g.foreignFiles fs₀ i ++ g.recordPaths, e.path.same q = false)
    {j : Nat} (hj : j < g.size) {q : Path}
    (hq : q ∈ (g.node j).inputs ∨
      j ≠ i ∧ q ∈ knownOutputs fs₀ (g.node j) ++ [(g.node j).recordPath]) (fs : MemoryFs) :
    (fs.edits es).file? q = fs.file? q := by
  refine MemoryFs.file?_edits_ne fs fun e he => ?_
  have hcases : q ∈ g.foreignFiles fs₀ i ∨ j ≠ i ∧ q = (g.node j).recordPath := by
    rcases hq with hq | ⟨hne, hq⟩
    · exact Or.inl (Graph.mem_foreignFiles_input fs₀ i hj hq)
    · rcases List.mem_append.mp hq with hq | hq
      · exact Or.inl (Graph.mem_foreignFiles_output hj hne hq)
      · exact Or.inr ⟨hne, List.mem_singleton.mp hq⟩
  rw [← Path.same_eq_false_iff]
  rcases hes e he with hpath | hok
  · rw [hpath]
    rcases hcases with hq | ⟨hne, rfl⟩
    · exact h.record q hq
    · exact hrecords i hi j hj hne.symm
  · rcases hcases with hq | ⟨-, rfl⟩
    · exact hok q (List.mem_append_left _ hq)
    · exact hok _ (List.mem_append_right _ (Graph.mem_recordPaths hj))

/-- What the workers of a level keep of the files: all inputs, and what is
    known of the projects that they do not build. -/
structure Graph.Kept (g : Graph) (fs₀ before : MemoryFs) (stale : List Nat)
    (run : Run MemoryFs) : Prop where
  later : before.Later run.site.files
  size : run.statuses.size = g.size
  inputs : ∀ j < g.size, ∀ q ∈ (g.node j).inputs, run.site.files.file? q = before.file? q
  others : ∀ j < g.size, j ∉ stale →
    ∀ q ∈ knownOutputs fs₀ (g.node j) ++ [(g.node j).recordPath],
      run.site.files.file? q = before.file? q

/-- A project's own files are its inputs, its outputs and its record. -/
theorem Project.mem_ownFiles {p : Project} {q : Path} (hq : q ∈ p.ownFiles) (fs : MemoryFs) :
    q ∈ p.inputs ∨ q ∈ knownOutputs fs p ++ [p.recordPath] := by
  rcases List.mem_append.mp hq with hq | hq
  · rcases List.mem_append.mp hq with hq | hq
    · exact Or.inl hq
    · exact Or.inr (List.mem_append_left _ (List.mem_append_left _ hq))
  · exact Or.inr (List.mem_append_right _ hq)

/-- **The work of an orderly crew**: every worker knows at the end what its
    stage says, and everybody else's files are as they were. -/
theorem Crew.work_rebuilding (records : Records) {stale : List Nat} (turns : List Turn)
    (run : Run MemoryFs) {moment : Nat} (hnodup : stale.Nodup)
    (horderly : ∀ i ∈ stale, i < g.size ∧ g.Orderly fs₀ compiler i)
    (hrecords : g.DistinctRecords) (hsize : run.statuses.size = g.size)
    (hclock : moment ≤ run.site.files.clock) (htimely : run.site.files.Timely) :
    g.Kept fs₀ run.site.files stale (work ⟨g, compiler, records⟩ stale turns run).2 ∧
      ∀ worker ∈ (work ⟨g, compiler, records⟩ stale turns run).1,
        worker.stage.Rebuilding (g.node worker.index) moment
          (referenceStamps g records worker.index)
          (work ⟨g, compiler, records⟩ stale turns run).2.site.files
          ((work ⟨g, compiler, records⟩ stale turns run).2.statuses.get worker.index) := by
  have h := work_local ⟨g, compiler, records⟩ turns run
    (G := fun run' => g.Kept fs₀ run.site.files stale run')
    (I := fun i stage run' =>
      stage.CompilesOnly (fun e =>
        ∀ q ∈ g.foreignFiles fs₀ i ++ g.recordPaths, e.path.same q = false) ∧
      stage.Rebuilding (g.node i) moment (referenceStamps g records i) run'.site.files
        (run'.statuses.get i)) hnodup ?_ ?_ ?_
    ⟨MemoryFs.Later.refl _, hsize, fun _ _ _ _ => rfl, fun _ _ _ _ _ => rfl⟩
    (fun _ _ => ⟨True.intro, True.intro⟩)
  · exact ⟨h.1, fun worker hworker => (h.2 worker hworker).2⟩
  · rintro i hi stage run' hkept ⟨honly, hstage⟩
    obtain ⟨hlt, ho⟩ := horderly i hi
    obtain ⟨es, hes, hpaths⟩ := Stage.step_files ⟨g, compiler, records⟩ i honly run'
    -- edits of `i` stay off the files and records of everybody else
    have hframe := fun {j} hj {q} hq =>
      ho.edits_frame hlt hrecords hpaths (j := j) hj (q := q) hq run'.site.files
    rw [← hes] at hframe
    refine ⟨⟨?_, ?_, ?_, ?_⟩, ?_, ?_⟩
    · rw [hes]
      exact hkept.later.trans (MemoryFs.edits_later _ es)
    · exact (Stage.step_size _ i stage run').trans hkept.size
    · intro j hj q hq
      exact (hframe hj (Or.inl hq)).trans (hkept.inputs j hj q hq)
    · intro j hj hnot q hq
      have hne : j ≠ i := fun heq => hnot (heq ▸ hi)
      exact (hframe hj (Or.inr ⟨hne, hq⟩)).trans (hkept.others j hj hnot q hq)
    · exact Stage.step_compilesOnly _ i ho.compile honly run'
    · refine Stage.rebuilding_step (hkept.size.symm ▸ hlt)
        (Nat.le_trans hclock hkept.later.clock) (hkept.later.timely htimely) ho.delivers ?_ hstage
      exact fun q hq => Path.same_eq_false_iff.mp
        (ho.record q (Graph.mem_foreignFiles_input fs₀ i hlt hq))
  · rintro i hi j hj hij stage other run' hkept ⟨honly, -⟩ ⟨hother, hstage⟩
    obtain ⟨hlt, ho⟩ := horderly i hi
    obtain ⟨es, hes, hpaths⟩ := Stage.step_files ⟨g, compiler, records⟩ i honly run'
    refine ⟨hother, ?_⟩
    rw [Stage.step_get_ne _ hij.symm, hes]
    refine hstage.congr fun q hq => ?_
    refine ho.edits_frame hlt hrecords hpaths (horderly j hj).1 ?_ run'.site.files
    rcases Project.mem_ownFiles hq fs₀ with hq | hq
    · exact Or.inl hq
    · exact Or.inr ⟨hij.symm, hq⟩
  · rintro - run' hkept
    exact ⟨⟨hkept.later, hkept.size, hkept.inputs, hkept.others⟩, fun _ _ h => h⟩

/-- **A project that has been rebuilt is settled.** -/
theorem Project.Rebuilt.settled (hg : g.WellFormed) (hdistinct : g.Distinct) {i : Nat}
    {moment : Nat} {records records' : Records} {fs : MemoryFs} {r : BuildRecord}
    (h : (g.node i).Rebuilt moment (referenceStamps g records i) fs r) (htimely : fs.Timely)
    (hinputs : ∀ q ∈ (g.node i).inputs, ∃ f, fs.file? q = some f ∧
      ∃ n, n ≤ moment ∧ f.modified = .ofEpoch n 0)
    (hdistinctInputs : (g.node i).inputs.Pairwise fun p q => p.components ≠ q.components)
    (hself : recordOf? records' i = some r)
    (hothers : ∀ k ∈ g.dependencies i, recordOf? records' k = recordOf? records k) :
    g.Settled (knownOutputs fs₀ (g.node i)) fs records' i := by
  obtain ⟨rfl, hdelivered, hpresent, time, hfile⟩ := h
  refine ⟨_, hself, ?_, ?_, ?_, ?_⟩
  · intro hclock
    rw [BuildRecord.load_eq, hfile, Option.bind_some]
    rcases BuildRecord.recordIn?_written
        (BuildRecord.capture_canonical htimely (PathMap.sorted_ofList _)) rfl rfl time with
      hread | ⟨hbad, -⟩
    · exact hread
    · exact absurd (BuildRecord.capture_inRange htimely hclock) hbad
  · exact Staleness.ownReason?_capture hinputs hdistinctInputs hdelivered hpresent
  · intro q hq
    obtain ⟨entry, hentry, rfl⟩ := List.mem_map.mp hq
    exact List.mem_append_left _ (BuildRecord.mem_times hentry).1
  · intro k hk
    rw [BuildRecord.capture_references, referenceStamps_get? hg hdistinct records hk]
    unfold stampOf?
    rw [hothers k hk]

end level

/-! ## The first run -/

/-- A run before the level `n`: projects of earlier levels are settled, and of
    the others nothing has been touched since the files were `fs₀`. -/
structure Progress.Steady (g : Graph) (fs₀ : MemoryFs) (n : Nat) (s : Progress MemoryFs) :
    Prop where
  later : fs₀.Later s.run.site.files
  size : s.run.statuses.size = g.size
  length : s.records.length = g.size
  inputs : ∀ j < g.size, ∀ q ∈ (g.node j).inputs, s.run.site.files.file? q = fs₀.file? q
  ahead : ∀ j < g.size, n ≤ g.levelOf j →
    (∀ q ∈ knownOutputs fs₀ (g.node j) ++ [(g.node j).recordPath],
      s.run.site.files.file? q = fs₀.file? q) ∧
    recordOf? s.records j = (BuildRecord.load fs₀ (g.node j)).value
  settled : ∀ j < g.size, g.levelOf j < n →
    g.Settled (knownOutputs fs₀ (g.node j)) s.run.site.files s.records j

/-- A project that ended well: up to date, or built by an orderly build. -/
def Graph.EndedWell (g : Graph) (fs₀ : MemoryFs) (compiler : Compiler MemoryFs) (i : Nat)
    (status : Status) : Prop :=
  status = .upToDate ∨ status = .built ∧ g.Orderly fs₀ compiler i

namespace Progress

variable {g : Graph} {fs₀ : MemoryFs} {options : BuildOptions} {compiler : Compiler MemoryFs}
  {n : Nat}

/-- A project that is found up to date has been settled all along. -/
theorem Steady.settled_of_check {s : Progress MemoryFs} (h : s.Steady g fs₀ n) {i : Nat}
    (hi : i < g.size) (hlevel : n ≤ g.levelOf i) {statuses : StatusTable}
    (hcheck : check s.run.site.files g statuses s.records i = .upToDate) :
    g.Settled (knownOutputs fs₀ (g.node i)) s.run.site.files s.records i := by
  obtain ⟨hfiles, hrecord⟩ := h.ahead i hi hlevel
  obtain ⟨-, -, r, hr, hown, hreferences⟩ := Staleness.check_upToDate_iff.mp hcheck
  have hload := hrecord.symm.trans hr
  refine ⟨r, hr, fun _ => ?_, hown, ?_, hreferences⟩
  · rw [BuildRecord.load_congr
      (hfiles _ (List.mem_append_right _ (List.mem_singleton.mpr rfl)))]
    exact hload
  · intro q hq
    refine List.mem_append_right _ ?_
    rw [hload]
    exact hq

/-- What a level leaves alone whose stale projects have orderly builds: all
    inputs, and what is known of the projects that it does not build. -/
structure Advance (g : Graph) (fs₀ : MemoryFs) (stale : List Nat) (s t : Progress MemoryFs) :
    Prop where
  later : s.run.site.files.Later t.run.site.files
  size : t.run.statuses.size = g.size
  length : t.records.length = s.records.length
  inputs : ∀ j < g.size, ∀ q ∈ (g.node j).inputs,
    t.run.site.files.file? q = s.run.site.files.file? q
  others : ∀ j < g.size, j ∉ stale →
    ∀ q ∈ knownOutputs fs₀ (g.node j) ++ [(g.node j).recordPath],
      t.run.site.files.file? q = s.run.site.files.file? q
  records : ∀ k, k ∉ stale → recordOf? t.records k = recordOf? s.records k

section advance

variable {s s' t : Progress MemoryFs} {stale part : List Nat} {turns : List Turn}

/-- **Building a part of a level advances** its projects and keeps the others. -/
theorem build_advance (hopened : Opened s s' part)
    (hkept : g.Kept fs₀ s'.run.site.files (s'.stale part)
      (Crew.work ⟨g, compiler, s'.records⟩ (s'.stale part) turns s'.run).2) :
    Advance g fs₀ (s'.stale part) s (Progress.build g compiler turns s' part) := by
  rw [← build_run, hopened.files] at hkept
  refine ⟨hkept.later, hkept.size, ?_, hkept.inputs, hkept.others, fun k hk => ?_⟩
  · rw [build_records_length, hopened.records]
  · rw [recordOf?_build_ne hk, hopened.records]

/-- A project that was settled stays so if neither it nor any of its references
    is built. -/
theorem Advance.carries (h : Advance g fs₀ stale s t) {j : Nat} (hj : j < g.size)
    (hnot : j ∉ stale) (hreferences : ∀ k ∈ g.dependencies j, k ∉ stale)
    (hsettled : g.Settled (knownOutputs fs₀ (g.node j)) s.run.site.files s.records j) :
    g.Settled (knownOutputs fs₀ (g.node j)) t.run.site.files t.records j := by
  refine hsettled.congr h.later.clock ?_ ?_
  · intro q hq
    rw [List.append_assoc] at hq
    rcases List.mem_append.mp hq with hq | hq
    · exact h.inputs j hj q hq
    · exact h.others j hj hnot q hq
  · rintro k (rfl | hk)
    · exact h.records k hnot
    · exact h.records k (hreferences k hk)

/-- A project that is rebuilt after its references is settled. -/
theorem Advance.rebuilt (h : Advance g fs₀ stale s t) (hs : s.Steady g fs₀ n) (hg : g.WellFormed)
    (hdistinct : g.Distinct) (htimely : fs₀.Timely) {i : Nat} (hi : i < g.size)
    (hloaded : (g.node i).LoadedFrom fs₀) (hreferences : ∀ k ∈ g.dependencies i, k ∉ stale)
    {r : BuildRecord} (hself : recordOf? t.records i = some r)
    (hrebuilt : (g.node i).Rebuilt fs₀.clock (referenceStamps g s.records i) t.run.site.files r) :
    g.Settled (knownOutputs fs₀ (g.node i)) t.run.site.files t.records i := by
  obtain ⟨hpresent, hapart⟩ := hloaded.inputs_ok
  refine hrebuilt.settled hg hdistinct ((hs.later.trans h.later).timely htimely) ?_ hapart hself
    fun k hk => h.records k (hreferences k hk)
  intro q hq
  obtain ⟨f, hf⟩ := Option.isSome_iff_exists.mp (hpresent q hq)
  exact ⟨f, ((h.inputs i hi q hq).trans (hs.inputs i hi q hq)).trans hf, htimely q f hf⟩

end advance

/-- **One level** of a run in which its projects end well. -/
theorem Steady.level (hg : g.WellFormed) (hdistinct : g.Distinct)
    (hrecords : g.DistinctRecords) (hloaded : ∀ i < g.size, (g.node i).LoadedFrom fs₀)
    (htimely : fs₀.Timely) (hn : n < g.levels.length) (hdry : options.dryRun = false)
    {schedule : LevelSchedule} {s : Progress MemoryFs} (h : s.Steady g fs₀ n)
    (hwell : ∀ i < g.size, g.levelOf i = n → g.EndedWell fs₀ compiler i
      ((Progress.level g options compiler schedule s g.levels[n]).run.statuses.get i)) :
    (Progress.level g options compiler schedule s g.levels[n]).Steady g fs₀ (n + 1) := by
  have hmem : ∀ k ∈ g.levels[n], k < g.size ∧ g.levelOf k = n :=
    fun k hk => (Graph.mem_levels_getElem hn).mp hk
  have hnodup := Graph.levels_getElem_nodup hn
  obtain ⟨hopened, hdecided⟩ := decideEach_spec g options hnodup s
    (fun i hi => h.size.symm ▸ (hmem i hi).1) schedule.interruptions
  rw [level_eq hdry] at hwell ⊢
  set s' := Progress.decideEach g options s schedule.interruptions g.levels[n]
  have hstale : ∀ k ∈ s'.stale g.levels[n], k < g.size ∧ g.levelOf k = n :=
    fun k hk => hmem k (mem_stale.mp hk).1
  have hsize : s'.run.statuses.size = g.size := hopened.size.trans h.size
  obtain ⟨-, hunchanged, hended⟩ := Crew.work_statuses ⟨g, compiler, s'.records⟩
    (stale_nodup hnodup s') schedule.turns s'.run (fun i hi => hsize.symm ▸ (hstale i hi).1)
    (fun i hi => (mem_stale.mp hi).2)
  rw [← build_run] at hunchanged hended
  -- whoever is built in this level ends built, so its build is an orderly one
  have hbuilt : ∀ i ∈ s'.stale g.levels[n], (Progress.build g compiler schedule.turns s'
      g.levels[n]).run.statuses.get i = .built ∧ g.Orderly fs₀ compiler i := by
    intro i hi
    obtain ⟨worker, -, -, hworker⟩ := hended i hi
    exact (hwell i (hstale i hi).1 (hstale i hi).2).resolve_left hworker.ne_upToDate
  have hclock : fs₀.clock ≤ s'.run.site.files.clock := hopened.files ▸ h.later.clock
  obtain ⟨hkept, hworkers⟩ := Crew.work_rebuilding s'.records schedule.turns s'.run
    (stale_nodup hnodup s') (fun i hi => ⟨(hstale i hi).1, (hbuilt i hi).2⟩) hrecords hsize
    hclock (hopened.files ▸ h.later.timely htimely)
  have hadvance := build_advance hopened hkept
  have hreferences : ∀ j, g.levelOf j ≤ n → ∀ k ∈ g.dependencies j, k ∉ s'.stale g.levels[n] :=
    fun j hj k hk => dependency_not_mem_stale hg hn hj hk s'
  constructor
  case later => exact h.later.trans hadvance.later
  case size => exact hadvance.size
  case length => exact hadvance.length.trans h.length
  case inputs => exact fun j hj q hq => (hadvance.inputs j hj q hq).trans (h.inputs j hj q hq)
  case ahead =>
    intro j hj hlevel
    have hnot := not_mem_stale hn (Nat.ne_of_gt hlevel) s'
    obtain ⟨hfiles, hrecord⟩ := h.ahead j hj (Nat.le_of_succ_le hlevel)
    exact ⟨fun q hq => (hadvance.others j hj hnot q hq).trans (hfiles q hq),
      (hadvance.records j hnot).trans hrecord⟩
  case settled =>
    intro j hj hlevel
    rcases Nat.lt_succ_iff_lt_or_eq.mp hlevel with hlt | heq
    · have hnot := not_mem_stale hn (Nat.ne_of_lt hlt) s'
      exact hadvance.carries hj hnot (hreferences j (Nat.le_of_lt hlt)) (h.settled j hj hlt)
    have hbehind := hreferences j (Nat.le_of_eq heq)
    by_cases hj' : j ∈ s'.stale g.levels[n]
    · -- it has been built: its worker knows the rest
      obtain ⟨worker, hworker, rfl, hends⟩ := hended j hj'
      obtain ⟨r, hfinished⟩ := hends.record (hbuilt _ hj').1
      have hrebuilt := hworkers worker hworker
      rw [hfinished, ← build_run, hopened.records] at hrebuilt
      refine hadvance.rebuilt h hg hdistinct htimely hj (hloaded _ hj) hbehind ?_ hrebuilt
      exact recordOf?_build hnodup hworker (by rw [hopened.records, h.length]; exact hj) hfinished
    · refine hadvance.carries hj hj' hbehind ?_
      have hjn := (Graph.mem_levels_getElem hn).mpr ⟨hj, heq⟩
      have hend := hwell j hj heq
      rw [hunchanged j hj'] at hend
      rcases (hdecided j hjn).cases with hskipped | hst | ⟨-, statuses, -, hcheck⟩
      · rw [hskipped] at hend
        rcases hend with hup | ⟨hbuilt, -⟩
        · exact nomatch hup
        · exact nomatch hbuilt
      · exact absurd (mem_stale.mpr ⟨hjn, hst⟩) hj'
      · exact h.settled_of_check hj (Nat.le_of_eq heq.symm) hcheck

theorem start_steady (g : Graph) (site : Site MemoryFs) :
    (Progress.start site g).Steady g site.files 0 := by
  refine ⟨MemoryFs.Later.refl _, StatusTable.size_ofSize g.size, start_records_length site g,
    fun _ _ _ _ => rfl, ?_, fun _ _ hlevel => absurd hlevel (Nat.not_lt_zero _)⟩
  exact fun j hj _ => ⟨fun _ _ => rfl, recordOf?_start site hj⟩

/-- **After a run that ended well every project is settled.** -/
theorem levels_steady (hg : g.WellFormed) (hdistinct : g.Distinct)
    (hrecords : g.DistinctRecords) {site : Site MemoryFs}
    (hloaded : ∀ i < g.size, (g.node i).LoadedFrom site.files) (htimely : site.files.Timely)
    (hdry : options.dryRun = false) {schedules : List LevelSchedule}
    (hwell : ∀ i < g.size, g.EndedWell site.files compiler i
      ((levels g options compiler (Progress.start site g) schedules g.levels).run.statuses.get
        i)) :
    (levels g options compiler (Progress.start site g) schedules g.levels).Steady g site.files
      g.levels.length := by
  -- the statuses of a level are final, so its projects ended well if they do in the end
  have h := levels_induct g options compiler (Progress.start site g) schedules g.levels
    (P := fun n s => s.run.statuses.size = g.size ∧
      ((∀ i < g.size, g.levelOf i < n →
        g.EndedWell site.files compiler i (s.run.statuses.get i)) → s.Steady g site.files n))
    ?_ ⟨(start_steady g site).size, fun _ => start_steady g site⟩
  · exact h.2 fun i hi _ => hwell i hi
  · rintro n hn schedule s - ⟨hsize, hs⟩
    have hstatuses := level_statuses g options compiler schedule (s := s)
      (Graph.levels_getElem_nodup hn)
      (fun i hi => hsize.symm ▸ ((Graph.mem_levels_getElem hn).mp hi).1)
    refine ⟨hstatuses.1.trans hsize, fun hwell => ?_⟩
    refine Steady.level hg hdistinct hrecords hloaded htimely hn hdry (hs ?_) ?_
    · intro i hi hlevel
      rw [← hstatuses.2 i]
      · exact hwell i hi (Nat.lt_succ_of_lt hlevel)
      · intro hmem
        have := ((Graph.mem_levels_getElem hn).mp hmem).2
        omega
    · exact fun i hi hlevel => hwell i hi (by omega)

/-! ## The second run -/

/-- A run before the level `n` that has found all projects so far up to date,
    and has changed nothing. -/
structure Idle (g : Graph) (fs : MemoryFs) (records : Records) (n : Nat)
    (s : Progress MemoryFs) : Prop where
  running : s.run.site.cancelled = false
  files : s.run.site.files = fs
  records : s.records = records
  size : s.run.statuses.size = g.size
  handed : ∀ i, Entry.handed i ∉ s.run.journal
  done : ∀ i < g.size, g.levelOf i < n → s.run.statuses.get i = .upToDate

/-- The decisions of a level whose references are all up to date. -/
theorem Idle.decideEach {known : Nat → List Path} {fs : MemoryFs} {records : Records}
    {options : BuildOptions} (hg : g.WellFormed) (hforce : options.force = false)
    (hsettled : ∀ i < g.size, g.Settled (known i) fs records i) (hn : n < g.levels.length)
    {interruptions : List Bool} (hinterruptions : true ∉ interruptions)
    {s : Progress MemoryFs} (h : s.Idle g fs records n) :
    (Progress.decideEach g options s interruptions g.levels[n]).Idle g fs records (n + 1) := by
  have hall := decideEach_induct_nodup g options s interruptions (Graph.levels_getElem_nodup hn)
    (P := fun front s => s.Idle g fs records n ∧ ∀ i ∈ front, s.run.statuses.get i = .upToDate)
    ?_ ?_ ⟨h, List.forall_mem_nil _⟩
  · obtain ⟨hidle, hfront⟩ := hall
    refine ⟨hidle.running, hidle.files, hidle.records, hidle.size, hidle.handed, ?_⟩
    intro i hi hlevel
    rcases Nat.lt_succ_iff_lt_or_eq.mp hlevel with hlt | heq
    · exact hidle.done i hi hlt
    · exact hfront i ((Graph.mem_levels_getElem hn).mpr ⟨hi, heq⟩)
  · exact fun hmem => absurd hmem hinterruptions
  · rintro front i s' hpart - - ⟨hidle, hfront⟩
    have hi := (Graph.mem_levels_getElem hn).mp hpart
    -- the references lie on lower levels, which are done
    have hground : ground g s' i = .upToDate := by
      unfold ground
      rw [hidle.running, hidle.files, hidle.records]
      refine (hsettled i hi.1).check_eq fun j hj => ?_
      have hlt := Graph.levelOf_lt hg hj
      exact hidle.done j (hg.dependency_lt hj).2 (by omega)
    have hruling : ruling options (ground g s' i) = (.upToDate, .upToDate) := by
      rw [hground]
      simp only [ruling, hforce, Bool.false_eq_true, if_false]
    have hget : ∀ j, s'.run.statuses.get j = .upToDate ∨ j = i →
        (Progress.decide g options s' i).run.statuses.get j = .upToDate := by
      intro j hj
      rw [decide_statuses, hruling]
      by_cases hji : j = i
      · rw [hji]
        exact StatusTable.get_publish (hidle.size.symm ▸ hi.1) _
      · rw [StatusTable.get_publish_ne _ hji]
        exact hj.resolve_right hji
    refine ⟨⟨?_, ?_, hidle.records, ?_, ?_, ?_⟩, ?_⟩
    · rw [decide_site]
      exact hidle.running
    · rw [decide_site]
      exact hidle.files
    · rw [decide_statuses, StatusTable.size_publish]
      exact hidle.size
    · intro j hj
      rcases mem_decide_journal hj with hj | hj
      · exact hidle.handed j hj
      · cases hj
    · exact fun j hj hlevel => hget j (Or.inl (hidle.done j hj hlevel))
    · intro j hj
      refine hget j ?_
      rcases List.mem_append.mp hj with hj | hj
      · exact Or.inl (hfront j hj)
      · exact Or.inr (List.mem_singleton.mp hj)

/-- **A level passes idly** if all its projects are settled. -/
theorem Idle.level {known : Nat → List Path} {fs : MemoryFs} {records : Records}
    (hg : g.WellFormed) (hforce : options.force = false)
    (hsettled : ∀ i < g.size, g.Settled (known i) fs records i) (hn : n < g.levels.length)
    {schedule : LevelSchedule} (hschedule : schedule.Undisturbed) {s : Progress MemoryFs}
    (h : s.Idle g fs records n) :
    (Progress.level g options compiler schedule s g.levels[n]).Idle g fs records (n + 1) := by
  have hidle := h.decideEach hg hforce hsettled hn hschedule.1
  by_cases hdry : options.dryRun = true
  · unfold Progress.level
    rw [if_pos hdry]
    exact hidle
  · rw [Bool.not_eq_true] at hdry
    have hstale : (Progress.decideEach g options s schedule.interruptions g.levels[n]).stale
        g.levels[n] = [] := by
      refine List.eq_nil_iff_forall_not_mem.mpr fun i hi => ?_
      obtain ⟨hmem, hst⟩ := mem_stale.mp hi
      obtain ⟨hlt, hlevel⟩ := (Graph.mem_levels_getElem hn).mp hmem
      rw [hidle.done i hlt (by omega)] at hst
      exact nomatch hst
    rw [level_eq hdry, build_eq, hstale, Crew.work_nil _ hschedule.2]
    exact hidle

/-- **A run over settled projects** finds them all up to date, and changes
    nothing. -/
theorem levels_idle (options : BuildOptions) (compiler : Compiler MemoryFs) (hg : g.WellFormed)
    (hforce : options.force = false)
    {known : Nat → List Path} {site : Site MemoryFs} (hrunning : site.cancelled = false)
    (hsettled : ∀ i < g.size, g.Settled (known i) site.files (Progress.start site g).records i)
    {schedules : List LevelSchedule} (hschedules : ∀ x ∈ schedules, x.Undisturbed) :
    (levels g options compiler (Progress.start site g) schedules g.levels).Idle g site.files
      (Progress.start site g).records g.levels.length := by
  refine levels_induct g options compiler (Progress.start site g) schedules g.levels
    (P := fun n s => s.Idle g site.files (Progress.start site g).records n) ?_ ?_
  · intro n hn schedule s hschedule h
    refine h.level hg hforce hsettled hn ?_
    rcases hschedule with hmem | rfl
    · exact hschedules schedule hmem
    · exact ⟨(fun h => nomatch h), fun h => nomatch h⟩
  · exact ⟨hrunning, rfl, rfl, StatusTable.size_ofSize g.size, (fun _ h => nomatch h),
      fun _ _ h => absurd h (Nat.not_lt_zero _)⟩

/-- **Projects stay settled** for the next run, as long as it finds the files
    that they are about as they were left. -/
theorem Steady.settled_again {s : Progress MemoryFs} (hg : g.WellFormed)
    (h : s.Steady g fs₀ g.levels.length) {site : Site MemoryFs}
    (hclock : s.run.site.files.clock ≤ site.files.clock)
    (hhorizon : site.files.clock < Time.horizon)
    (hfiles : ∀ i < g.size,
      ∀ q ∈ (g.node i).inputs ++ knownOutputs fs₀ (g.node i) ++ [(g.node i).recordPath],
        site.files.file? q = s.run.site.files.file? q) {i : Nat} (hi : i < g.size) :
    g.Settled (knownOutputs fs₀ (g.node i)) site.files (Progress.start site g).records i := by
  -- the records that the run reads are those that the one before ended with
  have hrecord : ∀ k < g.size,
      recordOf? (Progress.start site g).records k = recordOf? s.records k := by
    intro k hk
    obtain ⟨r, hr, hread, -⟩ := h.settled k hk (Graph.levelOf_lt_length hk)
    rw [recordOf?_start site hk, hr, BuildRecord.load_congr
      (hfiles k hk _ (List.mem_append_right _ (List.mem_singleton.mpr rfl)))]
    exact hread (Nat.lt_of_le_of_lt hclock hhorizon)
  refine (h.settled i hi (Graph.levelOf_lt_length hi)).congr hclock (hfiles i hi) ?_
  rintro k (rfl | hk)
  · exact hrecord k hi
  · exact hrecord k (hg.dependency_lt hk).2

end Progress

/-! ## Both runs -/

/-- The outcomes that a report lists are those of projects of the graph. -/
theorem Progress.mem_report {σ : Type} {g : Graph} {options : BuildOptions} {s : Progress σ}
    {outcome : Outcome} (h : outcome ∈ (s.report g options).projects) :
    ∃ i < g.size, outcome.status = s.run.statuses.get i := by
  obtain ⟨part, hpart, hmem⟩ := List.mem_flatten.mp h
  obtain ⟨⟨projects, level⟩, hlevel, rfl⟩ := List.mem_map.mp hpart
  obtain ⟨i, hi, rfl⟩ := List.mem_map.mp hmem
  obtain ⟨hn, rfl⟩ := List.getElem?_eq_some_iff.mp (List.mk_mem_zipIdx_iff_getElem?.mp hlevel)
  exact ⟨i, ((Graph.mem_levels_getElem hn).mp hi).1, rfl⟩

/-- **A second build has nothing to do**: let a run leave every project up to
    date or built by an orderly build.  Then another run over the same graph,
    without force and with the files as they were left, finds every project up
    to date, compiles none and changes no file.  The clock must not have
    reached the end of the range of times. -/
theorem buildGraph_idempotent {fs : MemoryFs} (hfs : fs.Reachable) {roots : List Path}
    {g : Graph} (hload : (loadGraph fs roots).value = .ok g) (hrecords : g.DistinctRecords)
    {options : BuildOptions} (hdry : options.dryRun = false) {compiler : Compiler MemoryFs}
    {schedules : List LevelSchedule} {site : Site MemoryFs} (hsite : site.files = fs)
    {run : Run MemoryFs} (hrun : (buildGraph options compiler schedules g site).2 = run)
    (hwell : ∀ i < g.size, g.EndedWell fs compiler i (run.statuses.get i))
    (hclock : run.site.files.clock < Time.horizon) {options' : BuildOptions}
    (hforce : options'.force = false) {compiler' : Compiler MemoryFs}
    {schedules' : List LevelSchedule} (hschedules : ∀ x ∈ schedules', x.Undisturbed)
    {site' : Site MemoryFs} (hfiles : site'.files = run.site.files)
    (hrunning : site'.cancelled = false) :
    let second := buildGraph options' compiler' schedules' g site'
    (∀ i < g.size, second.2.statuses.get i = .upToDate) ∧
      (∀ outcome ∈ second.1.projects, outcome.status = .upToDate) ∧
      second.2.handed = [] ∧ second.2.site.files = run.site.files := by
  subst hsite hrun
  have hg := loadGraph_wellFormed hload
  obtain ⟨hdistinct, hloaded⟩ := loadGraph_sound hload
  have hsteady := Progress.levels_steady hg hdistinct hrecords hloaded hfs.timely hdry hwell
  set s := Progress.levels g options compiler (Progress.start site g) schedules g.levels
  have hsettled : ∀ i < g.size, g.Settled (knownOutputs site.files (g.node i)) site'.files
      (Progress.start site' g).records i :=
    fun i hi => hsteady.settled_again hg (hfiles ▸ Nat.le_refl _) (hfiles.symm ▸ hclock)
      (fun _ _ q _ => congrArg (MemoryFs.file? · q) hfiles) hi
  -- nothing is stale, so no level has a crew
  have hidle := Progress.levels_idle options' compiler' hg hforce hrunning hsettled hschedules
  have hdone : ∀ i < g.size, (Progress.levels g options' compiler' (Progress.start site' g)
      schedules' g.levels).run.statuses.get i = .upToDate :=
    fun i hi => hidle.done i hi (Graph.levelOf_lt_length hi)
  refine ⟨hdone, ?_, ?_, hidle.files.trans hfiles⟩
  · intro outcome houtcome
    obtain ⟨i, hi, hstatus⟩ := Progress.mem_report houtcome
    exact hstatus.trans (hdone i hi)
  · refine List.filterMap_eq_nil_iff.mpr fun entry hentry => ?_
    cases entry with
    | handed i => exact absurd hentry (hidle.handed i)
    | _ => rfl

/-- What the two projects write lies apart. -/
theorem pairGraph_apart : pairGraph.size = 2 ∧ pairGraph.DistinctRecords ∧
    (∀ i < 2, ∀ p ∈ (pairGraph.node i).expectedOutputs,
      ∀ q ∈ pairGraph.foreignFiles pairFiles i ++ pairGraph.recordPaths, p.same q = false) ∧
    ∀ i < 2, ∀ q ∈ pairGraph.foreignFiles pairFiles i,
      (pairGraph.node i).recordPath.same q = false := by
  unfold Graph.DistinctRecords
  decide +kernel

/-- Two projects that have just been built are up to date. -/
theorem buildGraph_idempotent_pair :
    let run := (buildGraph {} (CompileScript.compiler {}) [] pairGraph ⟨pairFiles, false, []⟩).2
    let second := buildGraph {} (CompileScript.compiler {}) [] pairGraph
      ⟨run.site.files, false, []⟩
    run.statuses.get 0 = .built ∧ run.statuses.get 1 = .built ∧
      (∀ i < 2, second.2.statuses.get i = .upToDate) ∧ second.2.handed = [] ∧
      second.2.site.files = run.site.files := by
  intro run second
  obtain ⟨hsize, hrecords, houtputs, hrecord⟩ := pairGraph_apart
  have hrun : run.statuses.get 0 = .built ∧ run.statuses.get 1 = .built ∧
      run.site.files.clock < Time.horizon := by
    decide +kernel
  have hbuilt : ∀ i < 2, run.statuses.get i = .built := by
    intro i hi
    rcases Nat.lt_succ_iff_lt_or_eq.mp hi with hi | rfl
    · rw [Nat.lt_one_iff.mp hi]
      exact hrun.1
    · exact hrun.2.1
  have hwell : ∀ i < pairGraph.size, pairGraph.EndedWell pairFiles (CompileScript.compiler {}) i
      (run.statuses.get i) := by
    intro i hi
    rw [hsize] at hi
    refine Or.inr ⟨hbuilt i hi, ?_, hrecord i hi, CompileScript.compiler_delivers rfl _ i⟩
    exact (CompileScript.compiler_only {} pairGraph i).imp fun e he => houtputs i hi e.path he
  have hleft : ∀ files : MemoryFs, (⟨files, false, []⟩ : Site MemoryFs).files = files :=
    fun _ => rfl
  have h : (∀ i < pairGraph.size, second.2.statuses.get i = .upToDate) ∧
      (∀ outcome ∈ second.1.projects, outcome.status = .upToDate) ∧
      second.2.handed = [] ∧ second.2.site.files = run.site.files :=
    buildGraph_idempotent (MemoryFs.ofTexts_reachable _) pairGraph_loaded hrecords
      (show ({} : BuildOptions).dryRun = false from rfl) (hleft pairFiles)
      (show (buildGraph {} (CompileScript.compiler {}) [] pairGraph ⟨pairFiles, false, []⟩).2
        = run from rfl)
      hwell hrun.2.2 (show ({} : BuildOptions).force = false from rfl)
      (List.forall_mem_nil LevelSchedule.Undisturbed)
      (hleft run.site.files) rfl
  rw [hsize] at h
  exact ⟨hrun.1, hrun.2.1, h.1, h.2.2.1, h.2.2.2⟩

end ProjectBuild
