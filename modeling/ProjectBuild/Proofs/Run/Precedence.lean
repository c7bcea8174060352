import ProjectBuild.Compile.Scripted
import ProjectBuild.Proofs.Closure.Load
import ProjectBuild.Proofs.Graph.Reach
import ProjectBuild.Proofs.Run.Moment
import ProjectBuild.Proofs.Staleness

/-! # References come first

    A project is compiled only when everything that it depends on is concluded
    (`Progress.Concluded`): found up to date, and not compiled, or built, with
    its compile over and its new record in the table that the workers read.
    A level is opened on the strength of the direct references alone.  That
    the chain goes on below them is kept from level to level: a project that
    is concluded has concluded references (`Progress.Sequenced`). -/

namespace ProjectBuild

open Staleness (recordOf? Records Blocked)

variable {σ : Type}

/-! ## What is on the journal about compiles -/

/-- An entry about the compile of a project, or about the record taken after
    it. -/
def Entry.isCompileOf (i : Nat) : Entry → Bool
  | .handed k => k == i
  | .returned k _ => k == i
  | .captured k _ => k == i
  | _ => false

/-- The journal of the compiles of a project. -/
def Run.compileLog (run : Run σ) (i : Nat) : List Entry :=
  run.journal.filter (Entry.isCompileOf i)

/-- A longer journal adds its compiles to a project's log. -/
theorem Run.compileLog_append {run run' : Run σ} {entries : List Entry}
    (h : run'.journal = run.journal ++ entries) (i : Nat) :
    run'.compileLog i = run.compileLog i ++ entries.filter (Entry.isCompileOf i) := by
  unfold compileLog
  rw [h, List.filter_append]

/-- A journal that tells of no compile of a project leaves its log. -/
theorem Run.compileLog_quiet {run run' : Run σ} {entries : List Entry} {i : Nat}
    (h : run'.journal = run.journal ++ entries)
    (hentries : ∀ e ∈ entries, Entry.isCompileOf i e = false) :
    run'.compileLog i = run.compileLog i := by
  rw [compileLog_append h, List.filter_eq_nil_iff.mpr fun e he => by simp [hentries e he],
    List.append_nil]

/-- An entry about another project is none about the compile of this one. -/
theorem Entry.isCompileOf_of_index {e : Entry} {i : Nat} (h : e.index ≠ i) :
    Entry.isCompileOf i e = false := by
  cases e with
  | handed k => exact beq_false_of_ne h
  | returned k success => exact beq_false_of_ne h
  | captured k r => exact beq_false_of_ne h
  | _ => rfl

theorem Entry.isCompileOf_of_announces {e : Entry} (h : e.Announces) (i : Nat) :
    Entry.isCompileOf i e = false := by
  cases e with
  | published k status => rfl
  | finished k status => rfl
  | _ => exact h.elim

/-! ## Workers -/

namespace Stage

/-- The journal of the compiles of its project that goes with a stage of a
    worker. -/
def Logged (i : Nat) : Stage σ → List Entry → Prop
  | waiting, log => log = []
  | started, log => log = []
  | compiling _, log => log = [.handed i]
  | returned, log => log = [.handed i, .returned i true]
  | recorded r, log => log = [.handed i, .returned i true, .captured i r]
  | closing (.ok r), log => log = [.handed i, .returned i true, .captured i r]
  | closing (.error _), _ => True
  | finished (some r), log => log = [.handed i, .returned i true, .captured i r]
  | finished none, _ => True

variable [FileSystem σ]

/-- **What a step enters**: at most one thing about a compile, and that of the
    worker's own project. -/
theorem step_journal (w : Workplace σ) (i : Nat) (stage : Stage σ) (run : Run σ) :
    ∃ entries, (stage.step w i run).2.journal = run.journal ++ entries ∧
      (∀ j, j ≠ i → ∀ e ∈ entries, Entry.isCompileOf j e = false) ∧
      ∀ log, stage.Logged i log →
        (stage.step w i run).1.Logged i (log ++ entries.filter (Entry.isCompileOf i)) := by
  obtain ⟨entries, hmove⟩ := step_moves w i stage run
  generalize stage.step w i run = next at hmove ⊢
  refine ⟨entries, hmove.journal, ?_, fun log hlog => ?_⟩
  · -- entries are about the project of the worker
    intro j hj e he
    rw [← hmove.index e he] at hj
    exact Entry.isCompileOf_of_index hj.symm
  cases hmove with
  | skipped => exact True.intro
  | entered => exact (List.append_nil log).trans hlog
  | kept => exact True.intro
  | handed =>
      obtain rfl : log = [] := hlog
      simp [Logged, Entry.isCompileOf]
  | worked => exact (List.append_nil log).trans hlog
  | succeeded =>
      obtain rfl : log = [.handed i] := hlog
      simp [Logged, Entry.isCompileOf]
  | failed => exact True.intro
  | captured =>
      obtain rfl : log = [.handed i, .returned i true] := hlog
      simp [Logged, Entry.isCompileOf]
  | @saved r result files hsaved =>
      cases result with
      | ok done => exact (List.append_nil log).trans hlog
      | error e => exact True.intro
  | closed result =>
      cases result with
      | ok r => exact (List.append_nil log).trans hlog
      | error e => exact True.intro
  | rested record =>
      rw [List.filter_nil, List.append_nil]
      exact hlog

/-- Only the worker of a project gives it to the compiler. -/
theorem step_handed (w : Workplace σ) (i : Nat) (stage : Stage σ) (run : Run σ) :
    (stage.step w i run).2.handed = run.handed ∨
      (stage.step w i run).2.handed = run.handed ++ [i] := by
  obtain ⟨entries, hmove⟩ := step_moves w i stage run
  generalize stage.step w i run = next at hmove ⊢
  cases hmove <;> simp [Run.handed]

/-- A step counts among the compiles of its own project only. -/
theorem count_handed_ne (w : Workplace σ) {i j : Nat} (h : j ≠ i) (stage : Stage σ)
    (run : Run σ) : (stage.step w i run).2.handed.count j = run.handed.count j := by
  rcases step_handed w i stage run with hsame | hmore
  · rw [hsame]
  · rw [hmore, List.count_append, List.count_singleton, beq_false_of_ne h.symm]
    rfl

end Stage

namespace Crew

variable [FileSystem σ]

/-- Every worker has entered what its stage says; statuses and compiles of
    other projects are as they were. -/
def Logs (stale : List Nat) (before : Run σ) (crew : Crew σ) (run : Run σ) : Prop :=
  Sound stale
    (fun run => ∀ j, j ∉ stale → run.statuses.get j = before.statuses.get j ∧
      run.compileLog j = before.compileLog j)
    (fun i stage run => stage.Logged i (run.compileLog i)) crew run

section
variable (w : Workplace σ) {stale : List Nat} (hnodup : stale.Nodup) (turns : List Turn)
  (run : Run σ) (hrun : ∀ i ∈ stale, run.compileLog i = [])
include hnodup hrun

/-- **Any turns of a crew keep the logs.** -/
theorem interleave_logs :
    Logs stale run (interleave w (stale.map fun i => { index := i }) run turns).1
      (interleave w (stale.map fun i => { index := i }) run turns).2 := by
  refine interleave_local w turns hnodup ?_ ?_ (fun _ _ h => ⟨h, fun _ _ h => h⟩)
    (sound_waiting (fun _ _ => ⟨rfl, rfl⟩) hrun)
  · intro i hi stage run' hothers hlog
    obtain ⟨entries, hjournal, hne, hown⟩ := Stage.step_journal w i stage run'
    refine ⟨fun j hj => ?_, ?_⟩
    · have hji : j ≠ i := fun heq => hj (heq ▸ hi)
      rw [Stage.step_get_ne w hji, Run.compileLog_quiet hjournal (hne j hji)]
      exact hothers j hj
    · rw [Run.compileLog_append hjournal]
      exact hown _ hlog
  · intro i _ j _ hij stage other run' _ _ hlog
    obtain ⟨entries, hjournal, hne, -⟩ := Stage.step_journal w i stage run'
    rw [Run.compileLog_quiet hjournal (hne j hij.symm)]
    exact hlog

/-- So does its whole work. -/
theorem work_logs : Logs stale run (work w stale turns run).1 (work w stale turns run).2 := by
  rw [work_eq_interleave]
  exact interleave_logs w hnodup _ run hrun

end

end Crew

namespace Moment

/-- The next turn, of the worker at a place, gives a project to the
    compiler. -/
def Starts [FileSystem σ] (m : Moment σ) (g : Graph) (compiler : Compiler σ) (place i : Nat) :
    Prop :=
  (Crew.advance (m.workplace g compiler) m.crew m.progress.run place).2.handed
    = m.progress.run.handed ++ [i]

/-- What starts at a moment has a worker. -/
theorem Starts.worker [FileSystem σ] {m : Moment σ} {g : Graph} {compiler : Compiler σ}
    {place i : Nat} (h : m.Starts g compiler place i) : ∃ worker ∈ m.crew, worker.index = i := by
  unfold Starts at h
  rcases Crew.advance_cases (m.workplace g compiler) m.crew m.progress.run place with
    hidle | ⟨front, worker, back, hcrew, hmoved⟩
  · rw [hidle] at h
    exact absurd h (by simp)
  · rw [hmoved] at h
    refine ⟨worker, hcrew ▸ List.mem_append_right front List.mem_cons_self, ?_⟩
    rcases Stage.step_handed (m.workplace g compiler) worker.index worker.stage m.progress.run
      with hsame | hone
    · rw [hsame] at h
      exact absurd h (by simp)
    · rw [hone] at h
      simpa using h

end Moment

/-! ## Levels -/

namespace Progress

variable [FileSystem σ]

/-- A project is concluded: it was found up to date and not compiled, and its
    record is the one from before the run; or it was built, its compile has
    returned, and the record taken after that is in the table. -/
def Concluded (g : Graph) (site : Site σ) (s : Progress σ) (i : Nat) : Prop :=
  s.run.statuses.get i = .upToDate ∧ s.run.compileLog i = [] ∧
      recordOf? s.records i = (BuildRecord.load site.files (g.node i)).value ∨
    s.run.statuses.get i = .built ∧ ∃ r,
      s.run.compileLog i = [.handed i, .returned i true, .captured i r] ∧
        recordOf? s.records i = some r

variable {g : Graph} {options : BuildOptions} {compiler : Compiler σ} {site : Site σ}

/-- Whether a project is concluded depends on its status, its log and its record. -/
theorem Concluded.congr {s s' : Progress σ} {i : Nat} (h : s.Concluded g site i)
    (hstatus : s'.run.statuses.get i = s.run.statuses.get i)
    (hlog : s'.run.compileLog i = s.run.compileLog i)
    (hrecord : recordOf? s'.records i = recordOf? s.records i) : s'.Concluded g site i := by
  unfold Concluded
  rw [hstatus, hlog, hrecord]
  exact h

/-- What is concluded blocks nothing. -/
theorem Concluded.not_blocks {s : Progress σ} {i : Nat} (h : s.Concluded g site i) :
    (s.run.statuses.get i).blocksDependents = false := by
  rcases h with ⟨hstatus, -⟩ | ⟨hstatus, -⟩ <;> rw [hstatus] <;> rfl

/-- A run before the level `n`: every earlier project is concluded or blocks
    its dependents, and one that is concluded has concluded references. -/
structure Sequenced (g : Graph) (site : Site σ) (n : Nat) (s : Progress σ) : Prop where
  size : s.run.statuses.size = g.size
  length : s.records.length = g.size
  ahead : ∀ i < g.size, n ≤ g.levelOf i → s.run.compileLog i = [] ∧
    recordOf? s.records i = (BuildRecord.load site.files (g.node i)).value
  ended : ∀ i < g.size, g.levelOf i < n → s.Concluded g site i ∨
    (s.run.statuses.get i).blocksDependents = true
  grounded : ∀ i < g.size, g.levelOf i < n → s.Concluded g site i →
    ∀ j ∈ g.dependencies i, s.Concluded g site j

/-- Whatever a project depends on is concluded if its references are. -/
theorem Sequenced.concluded_below (hg : g.WellFormed) {n : Nat} {s : Progress σ}
    (h : s.Sequenced g site n) {i j : Nat} (hi : g.levelOf i ≤ n)
    (hreferences : ∀ k ∈ g.dependencies i, s.Concluded g site k) (hdep : g.DependsOn i j) :
    s.Concluded g site j ∧ g.levelOf j < n := by
  induction hdep using Relation.TransGen.head_induction_on with
  | single hij =>
      have := Graph.levelOf_lt hg hij
      exact ⟨hreferences _ hij, by omega⟩
  | @head i k hik _ ih =>
      have hlevel := Graph.levelOf_lt hg hik
      exact ih (by omega)
        (h.grounded k (hg.dependency_lt hik).2 (by omega) (hreferences k hik))

/-- **The decisions of a level** skip a project, or find that its references
    are concluded. -/
theorem Sequenced.decideEach (options : BuildOptions) (hg : g.WellFormed) {n : Nat}
    (hn : n < g.levels.length) {s : Progress σ} (h : s.Sequenced g site n)
    (interruptions : List Bool) :
    let s' := Progress.decideEach g options s interruptions g.levels[n]
    Opened s s' g.levels[n] ∧ (∀ j, s'.run.compileLog j = s.run.compileLog j) ∧
      ∀ i ∈ g.levels[n], s'.run.statuses.get i = .skipped ∨
        (s'.run.statuses.get i = .stale ∨ s'.run.statuses.get i = .upToDate) ∧
          ∀ j ∈ g.dependencies i, s.Concluded g site j := by
  have hmem : ∀ {k}, k ∈ g.levels[n] → k < g.size ∧ g.levelOf k = n :=
    fun hk => (Graph.mem_levels_getElem hn).mp hk
  obtain ⟨hopened, hdecided⟩ := decideEach_spec g options (Graph.levels_getElem_nodup hn) s
    (fun i hi => h.size.symm ▸ (hmem hi).1) interruptions
  refine ⟨hopened, fun j => ?_, fun i hi => ?_⟩
  · obtain ⟨entries, hjournal, hannounce⟩ := hopened.journal
    exact Run.compileLog_quiet hjournal
      fun e he => Entry.isCompileOf_of_announces (hannounce e he) j
  · obtain ⟨statuses, reason, hstatuses, hget, hreason⟩ := hdecided i hi
    rw [hget]
    rcases hreason with rfl | rfl
    · exact Or.inl rfl
    · have hruling := Staleness.ruling_check options s.run.site.files g statuses s.records i
      by_cases hblocked : Blocked g statuses i
      · exact Or.inl (hruling.1 hblocked)
      · refine Or.inr ⟨hruling.2 hblocked, fun j hj => ?_⟩
        obtain ⟨hlevel, hnot⟩ := Graph.dependency_before hg hn (Nat.le_of_eq (hmem hi).2) hj
        refine (h.ended j (hg.dependency_lt hj).2 hlevel).resolve_right fun hblocks => ?_
        exact hblocked ⟨j, hj, (hstatuses j hnot).symm ▸ hblocks⟩

variable (compiler) in
/-- **The work of a level** concludes the projects of its crew, or they block
    their dependents; of the other projects nothing changes. -/
theorem Sequenced.build {n : Nat} (hn : n < g.levels.length) (turns : List Turn)
    {s s' : Progress σ} (h : s.Sequenced g site n) (hopened : Opened s s' g.levels[n])
    (hlogs : ∀ j, s'.run.compileLog j = s.run.compileLog j) :
    let t := Progress.build g compiler turns s' g.levels[n]
    (t.run.statuses.size = g.size ∧ t.records.length = g.size) ∧
      (∀ i ∈ s'.stale g.levels[n],
        t.Concluded g site i ∨ (t.run.statuses.get i).blocksDependents = true) ∧
      ∀ j, j ∉ s'.stale g.levels[n] → t.run.statuses.get j = s'.run.statuses.get j ∧
        t.run.compileLog j = s.run.compileLog j ∧
          recordOf? t.records j = recordOf? s.records j := by
  have hnodup := Graph.levels_getElem_nodup hn
  have hstale := fun {i} => mem_stale_level hn (s := s') (i := i)
  have hsize : s'.run.statuses.size = g.size := hopened.size.trans h.size
  have hlength : s'.records.length = g.size := by rw [hopened.records, h.length]
  have hstatuses := Crew.work_statuses ⟨g, compiler, s'.records⟩ (stale_nodup hnodup s') turns
    s'.run (fun i hi => hsize.symm ▸ (hstale.mp hi).1) (fun i hi => (mem_stale.mp hi).2)
  obtain ⟨-, hothers, hlogged⟩ := Crew.work_logs ⟨g, compiler, s'.records⟩
    (stale_nodup hnodup s') turns s'.run fun i hi => by
      obtain ⟨hlt, hlevel, -⟩ := hstale.mp hi
      rw [hlogs]
      exact (h.ahead i hlt (Nat.le_of_eq hlevel.symm)).1
  rw [← build_run] at hstatuses hothers hlogged
  refine ⟨⟨hstatuses.1.trans hsize, build_records_length.trans hlength⟩, ?_, ?_⟩
  · intro i hi
    obtain ⟨worker, hworker, rfl, ⟨r, hfinished, hbuilt⟩ | ⟨-, hstatus⟩⟩ := hstatuses.2.2 i hi
    · have hlog := hlogged worker hworker
      rw [hfinished] at hlog
      refine Or.inl (Or.inr ⟨hbuilt, r, hlog, recordOf?_build hnodup hworker ?_ hfinished⟩)
      exact hlength.symm ▸ (hstale.mp hi).1
    · refine Or.inr ?_
      -- a worker without a record has failed, or was cancelled and skipped its project
      rcases hstatus with hstatus | hstatus <;> rw [hstatus] <;> rfl
  · intro j hj
    exact ⟨(hothers j hj).1, (hothers j hj).2.trans (hlogs j),
      (recordOf?_build_ne hj).trans (by rw [hopened.records])⟩

/-- **One level** of a run that is no dry one. -/
theorem Sequenced.level (hg : g.WellFormed) (hdry : options.dryRun = false) {n : Nat}
    (hn : n < g.levels.length) (schedule : LevelSchedule) {s : Progress σ}
    (h : s.Sequenced g site n) :
    (Progress.level g options compiler schedule s g.levels[n]).Sequenced g site (n + 1) := by
  have hmem : ∀ {k}, k ∈ g.levels[n] ↔ k < g.size ∧ g.levelOf k = n :=
    Graph.mem_levels_getElem hn
  obtain ⟨hopened, hlogs, hfound⟩ := h.decideEach options hg hn
    schedule.interruptions
  rw [level_eq hdry]
  generalize Progress.decideEach g options s schedule.interruptions g.levels[n] = s'
    at hopened hlogs hfound
  have hstale : ∀ i ∈ s'.stale g.levels[n], i ∈ g.levels[n] := fun i hi => (mem_stale.mp hi).1
  obtain ⟨hsizes, hended, hothers⟩ := h.build compiler hn schedule.turns hopened hlogs
  generalize Progress.build g compiler schedule.turns s' g.levels[n] = s'' at *
  -- what was concluded before the level stays so
  have hkept : ∀ {j}, g.levelOf j < n → (s''.Concluded g site j ↔ s.Concluded g site j) := by
    intro j hj
    have hnot : j ∉ g.levels[n] := Graph.not_mem_levels_getElem hn (Nat.ne_of_lt hj)
    obtain ⟨hstatus, hlog, hrecord⟩ := hothers j fun hpart => hnot (hstale j hpart)
    have hstatus' := hstatus.trans (hopened.others j hnot)
    exact ⟨fun hconcluded => hconcluded.congr hstatus'.symm hlog.symm hrecord.symm,
      fun hconcluded => hconcluded.congr hstatus' hlog hrecord⟩
  have hbelow : ∀ {i j}, g.levelOf i ≤ n → j ∈ g.dependencies i → g.levelOf j < n :=
    fun hi hj => (Graph.dependency_before hg hn hi hj).1
  constructor
  case size => exact hsizes.1
  case length => exact hsizes.2
  case ahead =>
    intro i hi hlevel
    have hnot := not_mem_stale hn (Nat.ne_of_gt hlevel) s'
    obtain ⟨-, hlog, hrecord⟩ := hothers i hnot
    have hahead := h.ahead i hi (Nat.le_of_succ_le hlevel)
    exact ⟨hlog.trans hahead.1, hrecord.trans hahead.2⟩
  case ended =>
    intro i hi hlevel
    rcases Graph.levelOf_cases hn hi hlevel with ⟨hlevel, hpart⟩ | hpart
    · refine (h.ended i hi hlevel).imp (hkept hlevel).mpr fun hblocks => ?_
      rw [(hothers i fun hi => hpart (hstale i hi)).1, hopened.others i hpart]
      exact hblocks
    · by_cases hi' : i ∈ s'.stale g.levels[n]
      · exact hended i hi'
      · obtain ⟨hstatus, hlog, hrecord⟩ := hothers i hi'
        have hahead := h.ahead i hi (Nat.le_of_eq (hmem.mp hpart).2.symm)
        rcases hfound i hpart with hskipped | ⟨hst | hup, -⟩
        · refine Or.inr ?_
          rw [hstatus, hskipped]
          rfl
        · exact absurd (mem_stale.mpr ⟨hpart, hst⟩) hi'
        · exact Or.inl (Or.inl ⟨hstatus.trans hup, hlog.trans hahead.1, hrecord.trans hahead.2⟩)
  case grounded =>
    intro i hi hlevel hconcluded j hj
    rcases Graph.levelOf_cases hn hi hlevel with ⟨hlevel, -⟩ | hpart
    · exact (hkept (hbelow (Nat.le_of_lt hlevel) hj)).mpr
        (h.grounded i hi hlevel ((hkept hlevel).mp hconcluded) j hj)
    · refine (hkept (hbelow (Nat.le_of_eq (hmem.mp hpart).2) hj)).mpr ?_
      rcases hfound i hpart with hskipped | ⟨-, hreferences⟩
      · have hnot : i ∉ s'.stale g.levels[n] := fun hi' => by
          rw [(mem_stale.mp hi').2] at hskipped
          exact nomatch hskipped
        have hblocks := hconcluded.not_blocks
        rw [(hothers i hnot).1, hskipped] at hblocks
        exact nomatch hblocks
      · exact hreferences j hj

theorem start_sequenced (g : Graph) (site : Site σ) :
    (Progress.start site g).Sequenced g site 0 :=
  ⟨StatusTable.size_ofSize g.size, start_records_length site g,
    fun _ hi _ => ⟨rfl, recordOf?_start site hi⟩, fun _ _ h => absurd h (Nat.not_lt_zero _),
    fun _ _ h => absurd h (Nat.not_lt_zero _)⟩

/-! ## Moments -/

/-- **While a crew is at work, all that its projects depend on is concluded.** -/
theorem moment_concluded (hg : g.WellFormed) (schedules : List LevelSchedule) (n : Nat)
    {worker : Worker σ} (hworker : worker ∈ (moment g options compiler site schedules n).crew)
    {j : Nat} (hdep : g.DependsOn worker.index j) :
    (moment g options compiler site schedules n).progress.Concluded g site j := by
  have hnodup := crewOf_nodup g options n (opening g options compiler site schedules n)
  have hcrew := fun {i} => mem_crewOf g options n (s := opening g options compiler site schedules n)
    (i := i)
  have hindices : (moment g options compiler site schedules n).crew.map Worker.index
      = crewOf g options (opening g options compiler site schedules n) n :=
    Crew.interleave_indices _ _ _ _
  have hindex :
      worker.index ∈ crewOf g options (opening g options compiler site schedules n) n := by
    rw [← hindices]
    exact List.mem_map_of_mem hworker
  obtain ⟨hdry, hpart, hst⟩ := hcrew hindex
  have hn : n < g.levels.length := (Graph.mem_levels_getD hpart).1
  have hlevel : g.levels.getD n [] = g.levels[n] := Graph.levels_getD hn
  have hmem : ∀ {k}, k ∈ g.levels.getD n [] → k < g.size ∧ g.levelOf k = n :=
    fun hk => (Graph.mem_levels_getD hk).2
  have hreach : (reach g options compiler site schedules n).Sequenced g site n :=
    reach_induct g options compiler site schedules n
      (P := fun n s => s.Sequenced g site n)
      (fun k hk schedule s h => h.level hg hdry hk schedule) (start_sequenced g site)
      (Nat.le_of_lt hn)
  obtain ⟨hopened, hlogs, hfound⟩ := hreach.decideEach options hg hn
    (schedules.getD n {}).interruptions
  rw [← hlevel] at hopened hlogs hfound
  obtain ⟨-, hothers, -⟩ := Crew.interleave_logs
    ⟨g, compiler, (opening g options compiler site schedules n).records⟩ hnodup
    (schedules.getD n {}).turns (opening g options compiler site schedules n).run
    fun i hi => by
      have hi' := hmem (hcrew hi).2.1
      exact (hlogs i).trans (hreach.ahead i hi'.1 (Nat.le_of_eq hi'.2.symm)).1
  -- the references of the worker's project are concluded when the level begins
  rcases hfound worker.index hpart with hskipped | ⟨-, hreferences⟩
  · exact nomatch hst.symm.trans hskipped
  · obtain ⟨hconcluded, hj⟩ := hreach.concluded_below hg (Nat.le_of_eq (hmem hpart).2)
      hreferences hdep
    have hnot : j ∉ g.levels.getD n [] := fun hj' => by
      have := (hmem hj').2
      omega
    have hkept := hothers j fun hj' => hnot (hcrew hj').2.1
    refine hconcluded.congr (hkept.1.trans (hopened.others j hnot)) (hkept.2.trans (hlogs j)) ?_
    rw [moment_records]
    exact congrArg (recordOf? · j) hopened.records

/-- **References come before compiles.**  Whatever turns the crew of a level
    has taken: if the next turn gives a project to the compiler, then all that
    the project depends on is concluded. -/
theorem moment_starts_concluded (hg : g.WellFormed) (options : BuildOptions)
    (compiler : Compiler σ) (site : Site σ) (schedules : List LevelSchedule) (n place : Nat)
    {i j : Nat} (hstart : (moment g options compiler site schedules n).Starts g compiler place i)
    (hdep : g.DependsOn i j) :
    (moment g options compiler site schedules n).progress.Concluded g site j := by
  obtain ⟨worker, hworker, rfl⟩ := hstart.worker
  exact moment_concluded hg schedules n hworker hdep

/-- Two projects without files, of which the second references the first. -/
def barePair : Graph where
  nodes := [default, { (default : Project) with
    configPath := ⟨"/b/tsconfig.json"⟩
    configDir := ⟨"/b"⟩ }]
  edges := [(1, 0)]

/-- A moment at which the second project has a worker that is about to compile
    it. -/
def pairAtWork : Moment MemoryFs :=
  moment barePair {} (CompileScript.compiler {}) ⟨{}, false, []⟩ [{}, { turns := [.worker 0] }] 1

/-- The second of two projects is given to the compiler when the first is
    built, its record at hand. -/
theorem moment_starts_concluded_pair :
    pairAtWork.Starts barePair (CompileScript.compiler {}) 0 1 ∧
      pairAtWork.progress.Concluded barePair ⟨{}, false, []⟩ 0 := by
  have hstart : pairAtWork.Starts barePair (CompileScript.compiler {}) 0 1 := by
    unfold Moment.Starts
    decide +kernel
  have hwell : barePair.WellFormed := ⟨⟨by decide, by decide⟩, by decide⟩
  have hdep : barePair.DependsOn 1 0 := .single (show 0 ∈ barePair.dependencies 1 by decide)
  refine ⟨hstart, ?_⟩
  -- spelled out, so that nothing is evaluated to compare the two moments
  unfold pairAtWork at hstart ⊢
  exact moment_starts_concluded (σ := MemoryFs) hwell {} (CompileScript.compiler {})
    ⟨{}, false, []⟩ [{}, { turns := [.worker 0] }] 1 0 hstart hdep

end Progress

end ProjectBuild
