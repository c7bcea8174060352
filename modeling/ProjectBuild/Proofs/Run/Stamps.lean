import ProjectBuild.Proofs.FileSystem.Faults
import ProjectBuild.Proofs.Run.Halt
import ProjectBuild.Proofs.Run.Plan

/-! # Stamps on file

    The stamp of a build exists three times: in the record on file, in the
    table of records that a run begins with and goes on to the next level with,
    and in the records of the projects that are based on it.  A worker bears
    the stamps of the table into its record (`Stage.Filing`), a level takes the
    records of its workers into the table, and nobody else touches a record
    file.  So the table says of every project that is up to date or built what
    is on file, and the project's record fits the table
    (`Progress.Consistent`); at the end the files agree with each other,
    whatever has failed or was cancelled (`buildGraph_stamps`). -/

namespace ProjectBuild

open FileSystem (InMemory)
open Staleness (recordOf? stampOf? Records check)
open MemoryFs (Edit)

/-! ## Records of workers -/

/-- A record that was taken of a project, of files that are later these. -/
def Project.Taken (p : Project) (references : PathMap String) (fs : MemoryFs) (r : BuildRecord) :
    Prop :=
  ∃ earlier : MemoryFs, earlier.Timely ∧ earlier.Later fs ∧
    r = BuildRecord.capture earlier p references

/-- One that is on file. -/
def Project.Filed (p : Project) (references : PathMap String) (fs : MemoryFs) (r : BuildRecord) :
    Prop :=
  p.Taken references fs r ∧ ∃ time, fs.file? p.recordPath = some ⟨r.printer.text.toUTF8, time⟩

section records

variable {p : Project} {references : PathMap String} {fs fs' : MemoryFs} {r : BuildRecord}

/-- A record that was taken is one still when the files are later. -/
theorem Project.Taken.later (h : p.Taken references fs r) (hlater : fs.Later fs') :
    p.Taken references fs' r := by
  obtain ⟨earlier, htimely, hle, hr⟩ := h
  exact ⟨earlier, htimely, hle.trans hlater, hr⟩

/-- A record on file stays so while its file does. -/
theorem Project.Filed.later (h : p.Filed references fs r) (hlater : fs.Later fs')
    (hfile : fs'.file? p.recordPath = fs.file? p.recordPath) : p.Filed references fs' r := by
  refine ⟨h.1.later hlater, ?_⟩
  rw [hfile]
  exact h.2

/-- A record that was taken and is on file is the one that is read there. -/
theorem Project.Filed.load (h : p.Filed references fs r) (hreferences : references.Sorted)
    (hclock : fs.clock < Time.horizon) : (BuildRecord.load fs p).value = some r := by
  obtain ⟨⟨earlier, htimely, hle, rfl⟩, time, hfile⟩ := h
  rw [BuildRecord.load_eq, hfile, Option.bind_some]
  refine (BuildRecord.recordIn?_written (BuildRecord.capture_canonical htimely hreferences)
    rfl rfl time).resolve_right fun hbad => hbad.1 ?_
  exact BuildRecord.capture_inRange htimely (Nat.lt_of_le_of_lt hle.clock hclock)

end records

/-- Edits of one project's record, and edits that spare all records, leave the
    other projects' records alone. -/
theorem Graph.DistinctRecords.file?_edits {g : Graph} (hrecords : g.DistinctRecords) {i j : Nat}
    (hi : i < g.size) (hj : j < g.size) (hij : i ≠ j) {es : List Edit}
    (hes : ∀ e ∈ es, e.path = (g.node i).recordPath ∨
      ∀ q ∈ g.recordPaths, e.path.same q = false) (fs : MemoryFs) :
    (fs.edits es).file? (g.node j).recordPath = fs.file? (g.node j).recordPath := by
  refine MemoryFs.file?_edits_ne fs fun e he => Path.same_eq_false_iff.mp ?_
  rcases hes e he with hpath | hspares
  · rw [hpath]
    exact hrecords i hi j hj hij
  · exact hspares _ (Graph.mem_recordPaths hj)

variable {σ : Type} [FileSystem σ] [InMemory σ]

/-! ## Workers -/

namespace Stage

/-- What is known of the record that a worker has at a stage. -/
def Filing (p : Project) (references : PathMap String) (fs : MemoryFs) : Stage σ → Prop
  | waiting => True
  | started => True
  | compiling _ => True
  | returned => True
  | recorded r => p.Taken references fs r
  | closing (.ok r) => p.Filed references fs r
  | closing (.error _) => True
  | finished (some r) => p.Filed references fs r
  | finished none => True

omit [FileSystem σ] [InMemory σ] in
/-- A worker goes on filing while the record file stays. -/
theorem Filing.later {p : Project} {references : PathMap String} {fs fs' : MemoryFs}
    {stage : Stage σ} (h : stage.Filing p references fs) (hlater : fs.Later fs')
    (hfile : fs'.file? p.recordPath = fs.file? p.recordPath) : stage.Filing p references fs' := by
  cases stage with
  | recorded r => exact Project.Taken.later h hlater
  | closing result =>
      cases result with
      | ok r => exact Project.Filed.later h hlater hfile
      | error e => exact True.intro
  | finished record =>
      cases record with
      | some r => exact Project.Filed.later h hlater hfile
      | none => exact True.intro
  | _ => exact True.intro

/-- **What a worker's step does in memory**: it edits the project's record
    file, or it is a step of the compile. -/
theorem step_memory (w : Workplace σ) (i : Nat) {ok : Edit → Prop} {stage : Stage σ}
    (h : stage.CompilesAlways (Site.Edits ok)) (run : Run σ) :
    ∃ es, (stage.step w i run).2.site.memory = run.site.memory.edits es ∧
      ∀ e ∈ es, e.path = (w.graph.node i).recordPath ∨ ok e := by
  have hnone : ∀ {site : Site σ}, site.memory = run.site.memory →
      ∃ es, site.memory = run.site.memory.edits es ∧
        ∀ e ∈ es, e.path = (w.graph.node i).recordPath ∨ ok e :=
    fun hsame => ⟨[], hsame, fun _ he => nomatch he⟩
  have hone : ∀ {site : Site σ} {e : Edit}, site.memory = run.site.memory.edit e →
      e.path = (w.graph.node i).recordPath →
      ∃ es, site.memory = run.site.memory.edits es ∧
        ∀ e ∈ es, e.path = (w.graph.node i).recordPath ∨ ok e := by
    intro site e hedit hpath
    refine ⟨[e], hedit, fun e' he => ?_⟩
    rw [List.mem_singleton.mp he]
    exact Or.inl hpath
  rcases step_site w i stage run with
    ⟨effect, next, rfl, hsite⟩ | ⟨-, hsame | hremoved | ⟨text, hreplaced⟩⟩
  · obtain ⟨es, hes, hok⟩ := (h run.site).1
    exact ⟨es, (congrArg Site.memory hsite).trans hes, fun e he => Or.inr (hok e he)⟩
  · exact hnone (congrArg InMemory.memory hsame)
  · rcases InMemory.remove_cases run.site.files (w.graph.node i).recordPath with hgone | hkept
    · exact hone (e := .remove _) ((congrArg InMemory.memory hremoved).trans hgone) rfl
    · exact hnone ((congrArg InMemory.memory hremoved).trans hkept)
  · rcases InMemory.replace_cases run.site.files (w.graph.node i).recordPath text with
      ⟨-, hput⟩ | ⟨-, hkept⟩
    · exact hone (e := .write _ _) ((congrArg InMemory.memory hreplaced).trans hput) rfl
    · exact hnone ((congrArg InMemory.memory hreplaced).trans hkept)

/-- **A worker's record** is taken with the stamps of the table, and on file
    when the worker closes with it. -/
theorem step_filing (w : Workplace σ) (i : Nat) {stage : Stage σ} {run : Run σ}
    (htimely : run.site.memory.Timely)
    (h : stage.Filing (w.graph.node i) (referenceStamps w.graph w.records i) run.site.memory) :
    (stage.step w i run).1.Filing (w.graph.node i) (referenceStamps w.graph w.records i)
      (stage.step w i run).2.site.memory := by
  obtain ⟨entries, hmove⟩ := step_moves w i stage run
  generalize stage.step w i run = next at hmove ⊢
  cases hmove with
  | captured hcaptured =>
      refine ⟨run.site.memory, htimely, MemoryFs.Later.refl _, ?_⟩
      rw [hcaptured]
      exact BuildRecord.capture_memory _ _ _
  | @saved r result files hsaved =>
      have hcanonical : r.Canonical := by
        obtain ⟨earlier, hearlier, -, rfl⟩ := h
        exact BuildRecord.capture_canonical hearlier (PathMap.sorted_ofList _)
      have hmemory := BuildRecord.save_memory run.site.files (w.graph.node i) hcanonical
      rw [hsaved] at hmemory
      -- nothing is known of the file if the record cannot be written, but then the build has failed
      rcases hmemory with ⟨rfl, hput⟩ | ⟨⟨e, rfl⟩, -⟩
      · show Project.Filed _ _ (InMemory.memory files) r
        rw [hput]
        refine ⟨Project.Taken.later h (MemoryFs.put_later _ _ _), run.site.memory.nextTime, ?_⟩
        rw [MemoryFs.file?_put, if_pos rfl]
        rfl
      · exact True.intro
  | closed result =>
      show (finished (recordOf? result)).Filing _ _
        (InMemory.memory (explain (w.graph.node i) run result).site.files)
      rw [explain_files]
      cases result with
      | ok r => exact h
      | error e => exact True.intro
  | rested record => exact h
  | _ => exact True.intro

end Stage

/-- **The work of a crew on records**: the other projects' records are as they
    were, and a worker with a record has it on file. -/
theorem Crew.work_filing {g : Graph} {compiler : Compiler σ} (records : Records)
    {stale : List Nat} (hnodup : stale.Nodup) (hlt : ∀ i ∈ stale, i < g.size)
    (hrecords : g.DistinctRecords)
    (hcompiler : ∀ i < g.size, (compiler g i).Always
      (Site.Edits fun e => ∀ q ∈ g.recordPaths, e.path.same q = false))
    (turns : List Turn) (run : Run σ) (htimely : run.site.memory.Timely) :
    let done := work ⟨g, compiler, records⟩ stale turns run
    (run.site.memory.Later done.2.site.memory ∧
      ∀ j < g.size, j ∉ stale → done.2.site.memory.file? (g.node j).recordPath
        = run.site.memory.file? (g.node j).recordPath) ∧
    ∀ worker ∈ done.1, worker.stage.Filing (g.node worker.index)
      (referenceStamps g records worker.index) done.2.site.memory := by
  have h := work_local ⟨g, compiler, records⟩ turns run
    (G := fun run' => run.site.memory.Later run'.site.memory ∧
      ∀ j < g.size, j ∉ stale → run'.site.memory.file? (g.node j).recordPath
        = run.site.memory.file? (g.node j).recordPath)
    (I := fun i stage run' => stage.CompilesAlways
        (Site.Edits fun e => ∀ q ∈ g.recordPaths, e.path.same q = false) ∧
      stage.Filing (g.node i) (referenceStamps g records i) run'.site.memory) hnodup ?_ ?_
    (fun _ _ h => ⟨h, fun _ _ h => h⟩) ⟨MemoryFs.Later.refl _, fun _ _ _ => rfl⟩
    (fun _ _ => ⟨True.intro, True.intro⟩)
  · exact ⟨h.1, fun worker hworker => (h.2 worker hworker).2⟩
  · rintro i hi stage run' ⟨hlater, hkept⟩ ⟨halways, hfiling⟩
    -- the edits are on the own record, or spare all records
    obtain ⟨es, hes, hpaths⟩ := Stage.step_memory ⟨g, compiler, records⟩ i halways run'
    refine ⟨⟨?_, ?_⟩, Stage.step_compilesAlways _ i (hcompiler i (hlt i hi)) halways run',
      Stage.step_filing _ i (hlater.timely htimely) hfiling⟩
    · rw [hes]
      exact hlater.trans (MemoryFs.edits_later _ es)
    · intro j hj hnot
      have hij : i ≠ j := fun heq => hnot (heq ▸ hi)
      rw [hes, hrecords.file?_edits (hlt i hi) hj hij hpaths]
      exact hkept j hj hnot
  · rintro i hi j hj hij stage other run' - ⟨halways, -⟩ ⟨hother, hfiling⟩
    obtain ⟨es, hes, hpaths⟩ := Stage.step_memory ⟨g, compiler, records⟩ i halways run'
    refine ⟨hother, ?_⟩
    rw [hes]
    exact hfiling.later (MemoryFs.edits_later _ es)
      (hrecords.file?_edits (hlt i hi) (hlt j hj) hij hpaths _)

/-! ## Projects -/

/-- The record of a project is on file and bears the stamps of the records that
    are known of its references; that of a build bears no others.  That it is
    on file is promised until the clock reaches the end of time. -/
def Graph.Stamped (g : Graph) (fs : MemoryFs) (records : Records) (status : Status) (i : Nat) :
    Prop :=
  ∃ r, recordOf? records i = some r ∧
    (fs.clock < Time.horizon → (BuildRecord.load fs (g.node i)).value = some r) ∧
    (∀ k ∈ g.dependencies i,
      r.references.get? (g.node k).configPath = stampOf? records k) ∧
    (status = .built → ∀ entry ∈ r.references.entries,
      ∃ k ∈ g.dependencies i, entry.1 = (g.node k).configPath)

section stamped

variable {g : Graph} {fs fs' : MemoryFs} {records records' : Records} {i : Nat}

/-- What happens to other files and records is no matter. -/
theorem Graph.Stamped.congr {status : Status} (h : g.Stamped fs records status i)
    (hclock : fs.clock ≤ fs'.clock)
    (hfile : fs'.file? (g.node i).recordPath = fs.file? (g.node i).recordPath)
    (hrecords : ∀ k, k = i ∨ k ∈ g.dependencies i → recordOf? records' k = recordOf? records k) :
    g.Stamped fs' records' status i := by
  obtain ⟨r, hr, hload, hreferences, hkeys⟩ := h
  refine ⟨r, (hrecords i (Or.inl rfl)).trans hr, ?_, ?_, hkeys⟩
  · intro hlt
    rw [BuildRecord.load_congr hfile]
    exact hload (Nat.lt_of_le_of_lt hclock hlt)
  · intro k hk
    rw [hreferences k hk]
    unfold stampOf?
    rw [hrecords k (Or.inr hk)]

/-- A project whose new record is on file is stamped. -/
theorem Project.Filed.stamped (hg : g.WellFormed) (hdistinct : g.Distinct) {r : BuildRecord}
    (h : (g.node i).Filed (referenceStamps g records i) fs r)
    (hself : recordOf? records' i = some r)
    (hothers : ∀ k ∈ g.dependencies i, recordOf? records' k = recordOf? records k)
    (status : Status) : g.Stamped fs records' status i := by
  have hreferences : r.references = referenceStamps g records i := by
    obtain ⟨⟨earlier, -, -, rfl⟩, -⟩ := h
    rfl
  refine ⟨r, hself, h.load (PathMap.sorted_ofList _), ?_, ?_⟩
  · intro k hk
    rw [hreferences, referenceStamps_get? hg hdistinct records hk]
    unfold stampOf?
    rw [hothers k hk]
  · intro _ entry hentry
    rw [hreferences] at hentry
    obtain ⟨k, hk, hpath, -⟩ := mem_referenceStamps hentry
    exact ⟨k, hk, hpath⟩

end stamped

/-! ## Levels -/

namespace Progress

/-- A run before the level `n`: every earlier project is stamped or blocks its
    dependents, and what is known of the records of the others is on file. -/
structure Consistent (g : Graph) (n : Nat) (s : Progress σ) : Prop where
  timely : s.run.site.memory.Timely
  ahead : ∀ i < g.size, n ≤ g.levelOf i → ∀ r, recordOf? s.records i = some r →
    (BuildRecord.load s.run.site.memory (g.node i)).value = some r
  done : ∀ i < g.size, g.levelOf i < n →
    (s.run.statuses.get i).blocksDependents = true ∨
      g.Stamped s.run.site.memory s.records (s.run.statuses.get i) i

variable {g : Graph} {options : BuildOptions} {compiler : Compiler σ} {n : Nat}

/-- A project that is found up to date has been stamped all along. -/
theorem Consistent.stamped_of_check {s : Progress σ} (h : s.Consistent g n) {i : Nat}
    (hi : i < g.size) (hlevel : n ≤ g.levelOf i) {statuses : StatusTable}
    (hcheck : check s.run.site.files g statuses s.records i = .upToDate) :
    g.Stamped s.run.site.memory s.records .upToDate i := by
  obtain ⟨-, -, r, hr, -, hreferences⟩ := Staleness.check_upToDate_iff.mp hcheck
  exact ⟨r, hr, fun _ => h.ahead i hi hlevel r hr, hreferences, fun hbuilt => nomatch hbuilt⟩

/-- **One level** of a run that is no dry one. -/
theorem Consistent.level (hg : g.WellFormed) (hdistinct : g.Distinct)
    (hrecords : g.DistinctRecords)
    (hcompiler : ∀ i < g.size, (compiler g i).Always
      (Site.Edits fun e => ∀ q ∈ g.recordPaths, e.path.same q = false))
    (hdry : options.dryRun = false) (hn : n < g.levels.length) (schedule : LevelSchedule)
    {site : Site σ} {s : Progress σ} (hsequenced : s.Sequenced g site n)
    (h : s.Consistent g n) :
    (Progress.level g options compiler schedule s g.levels[n]).Consistent g (n + 1) := by
  have hmem : ∀ {k}, k ∈ g.levels[n] ↔ k < g.size ∧ g.levelOf k = n :=
    Graph.mem_levels_getElem hn
  have hnodup := Graph.levels_getElem_nodup hn
  obtain ⟨hopened, hdecided⟩ := decideEach_spec g options hnodup s
    (fun i hi => hsequenced.size.symm ▸ (hmem.mp hi).1) schedule.interruptions
  rw [level_eq hdry]
  generalize Progress.decideEach g options s schedule.interruptions g.levels[n] = s'
    at hopened hdecided
  have hstale : ∀ {i}, i ∈ s'.stale g.levels[n] → i < g.size ∧ g.levelOf i = n :=
    fun hi => hmem.mp (mem_stale.mp hi).1
  have hmemory : s'.run.site.memory = s.run.site.memory :=
    congrArg InMemory.memory hopened.files
  have hstatuses := Crew.work_statuses ⟨g, compiler, s'.records⟩ (stale_nodup hnodup s')
    schedule.turns s'.run
    (fun i hi => hopened.size.symm ▸ hsequenced.size.symm ▸ (hstale hi).1)
    (fun i hi => (mem_stale.mp hi).2)
  obtain ⟨⟨hlater, hkept⟩, hfiling⟩ := Crew.work_filing s'.records (stale_nodup hnodup s')
    (fun i hi => (hstale hi).1) hrecords hcompiler schedule.turns s'.run
    (hmemory.symm ▸ h.timely)
  rw [← build_run] at hstatuses hlater hkept hfiling
  rw [hmemory] at hlater hkept
  have hothers : ∀ j, j ∉ s'.stale g.levels[n] →
      recordOf? (build g compiler schedule.turns s' g.levels[n]).records j
        = recordOf? s.records j := by
    intro j hj
    rw [recordOf?_build_ne hj, hopened.records]
  have hbelow : ∀ {i k}, g.levelOf i ≤ n → k ∈ g.dependencies i → k ∉ s'.stale g.levels[n] :=
    fun hi hk => dependency_not_mem_stale hg hn hi hk s'
  -- the references are of earlier levels, so a project that is not built in this one stays stamped
  have hcarry : ∀ {i status}, i < g.size → g.levelOf i ≤ n → i ∉ s'.stale g.levels[n] →
      g.Stamped s.run.site.memory s.records status i →
      g.Stamped (build g compiler schedule.turns s' g.levels[n]).run.site.memory
        (build g compiler schedule.turns s' g.levels[n]).records status i := by
    intro i status hi hlevel hnot hstamped
    refine hstamped.congr hlater.clock (hkept i hi hnot) ?_
    rintro k (rfl | hk)
    · exact hothers k hnot
    · exact hothers k (hbelow hlevel hk)
  refine ⟨hlater.timely h.timely, ?_, ?_⟩
  · intro i hi hlevel r hr
    have hnot := not_mem_stale hn (Nat.ne_of_gt hlevel) s'
    rw [hothers i hnot] at hr
    rw [BuildRecord.load_congr (hkept i hi hnot)]
    exact h.ahead i hi (Nat.le_of_succ_le hlevel) r hr
  · intro i hi hlevel
    by_cases hi' : i ∈ s'.stale g.levels[n]
    · -- its worker brings back the record that it has on file, or blocks the dependents
      obtain ⟨worker, hworker, rfl, ⟨r, hfinished, -⟩ | ⟨-, hstatus⟩⟩ := hstatuses.2.2 i hi'
      · have hfiled := hfiling worker hworker
        rw [hfinished] at hfiled
        refine Or.inr (Project.Filed.stamped hg hdistinct hfiled ?_ ?_ _)
        · refine recordOf?_build hnodup hworker ?_ hfinished
          rw [hopened.records, hsequenced.length]
          exact hi
        · exact fun k hk => recordOf?_build_ne (hbelow (Nat.lt_succ_iff.mp hlevel) hk)
      · refine Or.inl ?_
        rcases hstatus with hstatus | hstatus <;> rw [hstatus] <;> rfl
    · rw [hstatuses.2.1 i hi']
      rcases Graph.levelOf_cases hn hi hlevel with ⟨hearlier, hpart⟩ | hpart
      · rw [hopened.others i hpart]
        exact (h.done i hi hearlier).imp_right (hcarry hi (Nat.le_of_lt hearlier) hi')
      · have hlevel' := (hmem.mp hpart).2
        rcases (hdecided i hpart).cases with hskipped | hst | ⟨hup, statuses, -, hcheck⟩
        · rw [hskipped]
          exact Or.inl rfl
        · exact absurd (mem_stale.mpr ⟨hpart, hst⟩) hi'
        · rw [hup]
          exact Or.inr (hcarry hi (Nat.le_of_eq hlevel') hi'
            (h.stamped_of_check hi (Nat.le_of_eq hlevel'.symm) hcheck))

theorem start_consistent (g : Graph) {site : Site σ} (htimely : site.memory.Timely) :
    (Progress.start site g).Consistent g 0 := by
  refine ⟨htimely, ?_, fun _ _ hlevel => absurd hlevel (Nat.not_lt_zero _)⟩
  intro i hi _ r hr
  rw [recordOf?_start site hi] at hr
  exact BuildRecord.load_memory hr

end Progress

/-! ## The whole run -/

/-- **The stamps on file agree after any run.**  Let no two projects have the
    same record file, and let the compiler touch none of them.  Whatever is on
    file before a run that is no dry one, and whatever fails or is cancelled
    during it: in the end every project that is built or up to date has a
    record on file that bears, for each of its references, the stamp of the
    reference's record on file; and the record of a project that was built
    bears no other stamps.  The clock must not have reached the end of the
    range of times. -/
theorem buildGraph_stamps {τ : Type} [FileSystem τ] {fs₀ : τ} {roots : List Path} {g : Graph}
    (hload : (loadGraph fs₀ roots).value = .ok g) (hrecords : g.DistinctRecords)
    {options : BuildOptions} (hdry : options.dryRun = false) {compiler : Compiler σ}
    (hcompiler : ∀ i < g.size, (compiler g i).Always
      (Site.Edits fun e => ∀ q ∈ g.recordPaths, e.path.same q = false))
    (schedules : List LevelSchedule) {site : Site σ} (hsite : site.memory.Reachable)
    {run : Run σ} (hrun : (buildGraph options compiler schedules g site).2 = run)
    (hclock : run.site.memory.clock < Time.horizon) {i : Nat} (hi : i < g.size)
    (hstatus : run.statuses.get i = .built ∨ run.statuses.get i = .upToDate) :
    ∃ r, (BuildRecord.load run.site.memory (g.node i)).value = some r ∧
      (∀ k ∈ g.dependencies i, ∃ r',
        (BuildRecord.load run.site.memory (g.node k)).value = some r' ∧
          r.references.get? (g.node k).configPath = some r'.buildStamp) ∧
      (run.statuses.get i = .built → ∀ entry ∈ r.references.entries,
        ∃ k ∈ g.dependencies i, entry.1 = (g.node k).configPath) := by
  subst hrun
  have hg := loadGraph_wellFormed hload
  obtain ⟨hdistinct, -⟩ := loadGraph_sound hload
  obtain ⟨hsequenced, hconsistent⟩ := Progress.levels_induct g options compiler
    (Progress.start site g) schedules g.levels
    (P := fun n s => s.Sequenced g site n ∧ s.Consistent g n)
    (fun n hn schedule s _ hs => ⟨hs.1.level hg hdry hn schedule,
      hs.2.level hg hdistinct hrecords hcompiler hdry hn schedule hs.1⟩)
    ⟨Progress.start_sequenced g site, Progress.start_consistent g hsite.timely⟩
  -- what is concluded is stamped, and its record is on file
  have hstamped : ∀ k < g.size, Progress.Concluded g site
      (Progress.levels g options compiler (Progress.start site g) schedules g.levels) k →
      g.Stamped _ _ _ k := fun k hk hconcluded =>
    (hconsistent.done k hk (Graph.levelOf_lt_length hk)).resolve_left
      fun hblocks => nomatch hconcluded.not_blocks.symm.trans hblocks
  have hconcluded := (hsequenced.ended i hi (Graph.levelOf_lt_length hi)).resolve_right ?_
  · obtain ⟨r, -, hread, hreferences, hkeys⟩ := hstamped i hi hconcluded
    refine ⟨r, hread hclock, fun k hk => ?_, hkeys⟩
    obtain ⟨r', hr', hread', -⟩ := hstamped k (hg.dependency_lt hk).2
      (hsequenced.grounded i hi (Graph.levelOf_lt_length hi) hconcluded k hk)
    refine ⟨r', hread' hclock, ?_⟩
    rw [hreferences k hk]
    unfold stampOf?
    rw [hr']
    rfl
  · intro hblocks
    rcases hstatus with hstatus | hstatus
    · exact nomatch (congrArg Status.blocksDependents hstatus).symm.trans hblocks
    · exact nomatch (congrArg Status.blocksDependents hstatus).symm.trans hblocks

/-- The files of two projects, with something else where the record of the
    second one belongs. -/
def clutteredFiles : MemoryFs :=
  pairFiles.edits [.write (pairGraph.node 1).recordPath "".toUTF8]

/-- A run over them. -/
def clutteredRun : Run MemoryFs :=
  (buildGraph {} plainCompiler [] pairGraph ⟨clutteredFiles, false, []⟩).2

/-- It finds no record there, and leaves one that bears the stamp of the first
    project's record. -/
theorem buildGraph_stamps_pair :
    clutteredRun.statuses.get 1 = .built ∧
      ∃ r r', (BuildRecord.load clutteredRun.site.memory (pairGraph.node 1)).value = some r ∧
        (BuildRecord.load clutteredRun.site.memory (pairGraph.node 0)).value = some r' ∧
        r.references.get? (pairGraph.node 0).configPath = some r'.buildStamp ∧
        ∀ entry ∈ r.references.entries, entry.1 = (pairGraph.node 0).configPath := by
  obtain ⟨hsize, hrecords, horderly⟩ := pairGraph_orderly
  have hended : pairGraph.dependencies 1 = [0] ∧ clutteredRun.statuses.get 1 = .built ∧
      clutteredRun.site.memory.clock < Time.horizon := by
    decide +kernel
  have hcompiler : ∀ i < pairGraph.size, (plainCompiler pairGraph i).Always
      (Site.Edits fun e => ∀ q ∈ pairGraph.recordPaths, e.path.same q = false) := by
    intro i hi
    refine Job.Only.edits ((horderly i hi).compile.imp fun e he q hq => ?_)
    exact he q (List.mem_append_right _ hq)
  have hfiles : (⟨clutteredFiles, false, []⟩ : Site MemoryFs).memory.Reachable :=
    (MemoryFs.ofTexts_reachable _).edits _
  have hrun : (buildGraph {} plainCompiler [] pairGraph ⟨clutteredFiles, false, []⟩).2
      = clutteredRun := rfl
  -- nothing but these facts about the run counts, so that nobody evaluates it again
  generalize clutteredRun = run at hended hrun ⊢
  obtain ⟨hdependencies, hbuilt, hclock⟩ := hended
  have hone : 1 < pairGraph.size := by
    rw [hsize]
    decide
  obtain ⟨r, hread, hreferences, hkeys⟩ := buildGraph_stamps pairGraph_loaded hrecords
    (show ({} : BuildOptions).dryRun = false from rfl) hcompiler [] hfiles hrun hclock hone
    (Or.inl hbuilt)
  rw [hdependencies] at hreferences hkeys
  obtain ⟨r', hread', hstamp⟩ := hreferences 0 (List.mem_singleton.mpr rfl)
  refine ⟨hbuilt, r, r', hread, hread', hstamp, fun entry hentry => ?_⟩
  obtain ⟨k, hk, hpath⟩ := hkeys hbuilt entry hentry
  rw [hpath, List.mem_singleton.mp hk]

end ProjectBuild
