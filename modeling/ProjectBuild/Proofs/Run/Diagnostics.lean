import ProjectBuild.Compile.Scripted
import ProjectBuild.Proofs.Run.Ledger
import ProjectBuild.Proofs.Run.Protocol

/-! # The diagnostics of a run

    Workers push their messages into one list as they go along.  Still the
    report has exactly those that the ledger of the run accounts for: what the
    compiles that succeeded had to say, and the texts of the errors that
    projects failed with, each under the name of its project
    (`buildGraph_diagnostics`).  Nothing depends on the order of the turns. -/

namespace ProjectBuild

variable {σ : Type}

/-- Files can always be removed. -/
def FileSystem.AlwaysRemoves (σ : Type) [FileSystem σ] : Prop :=
  ∀ (fs : σ) (path : Path), ∃ existed, (FileSystem.remove fs path).1 = .ok existed

/-! ## What is told -/

/-- The texts of an error that a project fails with; there is always one, unless
    its build was cancelled. -/
def Error.texts : Error → List String
  | .cancelled => []
  | .compile _ diagnostics => Stage.failureMessages diagnostics
  | e => [e.message]

/-- What is to be told of an ending. -/
def Ending.messages : Ending → List String
  | compile (.ok messages) => messages
  | compile (.error _) => []
  | build (.ok _) => []
  | build (.error e) => e.texts

/-- The diagnostics that entries make, each about its own project. -/
def Graph.diagnostics (g : Graph) (ledger : Ledger) : List Diagnostic :=
  ledger.flatMap fun entry => entry.2.messages.map (Diagnostic.mk (g.node entry.1).configPath)

/-- A compile error names this project. -/
def Error.Blames (project : Path) (e : Error) : Prop :=
  ∀ named diagnostics, e = .compile named diagnostics → named = project

/-- A job whose compile errors name this project. -/
def Job.Blames (project : Path) : Job σ → Prop
  | .done answer => ∀ e, answer = .error e → e.Blames project
  | .step _ next => ∀ s, (next s).Blames project

/-- How a build concludes after a compile with this answer: with a record, unless
    that cannot be saved, or with the error of the compile. -/
inductive Project.Concludes (p : Project) :
    Except Error (List String) → Except Error BuildRecord → Prop
  | built (messages : List String) (record : BuildRecord) : p.Concludes (.ok messages) (.ok record)
  | unsaved (messages : List String) (problem : RecordProblem) :
      p.Concludes (.ok messages) (.error (.record p.recordPath problem))
  | failed (e : Error) : p.Concludes (.error e) (.error e)

/-- The ledger has what there is to tell of a project: nothing, if it was not
    given to the compiler; or else the answer of its one compile, and what its
    build has concluded with, which is also what its status says. -/
def Project.Accounted (p : Project) (status : Status) (compiles : Nat) (endings : List Ending) :
    Prop :=
  (compiles = 0 ∧ endings = [] ∧ status ≠ .failed ∧ status ≠ .built) ∨
    compiles = 1 ∧ ∃ answer result, p.Concludes answer result ∧
      endings = [.compile answer, .build result] ∧ status = Stage.verdict result

/-- Every error says something, unless it is a cancellation. -/
theorem Error.texts_ne_nil {e : Error} (h : e ≠ .cancelled) : e.texts ≠ [] := by
  cases e with
  | cancelled => exact absurd rfl h
  | compile named diagnostics =>
      show (if diagnostics.isEmpty then _ else _) ≠ []
      split
      · exact List.cons_ne_nil _ _
      · rename_i hdiagnostics
        exact fun hnil => hdiagnostics (by rw [hnil]; rfl)
  | _ => exact List.cons_ne_nil _ _

/-- Saving a record concludes a compile that succeeded. -/
theorem BuildRecord.save_concludes [FileSystem σ] {fs fs' : σ} {p : Project} {r : BuildRecord}
    {result : Except Error Unit} (h : BuildRecord.save fs p r = (result, fs'))
    (messages : List String) : p.Concludes (.ok messages) (result.map fun _ => r) := by
  cases result with
  | ok done => exact .built messages r
  | error e =>
      obtain ⟨problem, rfl⟩ := BuildRecord.save_error h
      exact .unsaved messages problem

/-- After a compile that succeeded nothing is blamed on the compiler. -/
theorem Project.Concludes.blames {p : Project} {messages : List String}
    {result : Except Error BuildRecord} (h : p.Concludes (.ok messages) result) {project : Path} :
    ∀ e, result = .error e → e.Blames project := by
  cases h with
  | built record => exact nofun
  | unsaved problem =>
      rintro _ ⟨⟩
      exact nofun

/-- A longer ledger has more diagnostics, in its order. -/
theorem Graph.diagnostics_append (g : Graph) (ledger more : Ledger) :
    g.diagnostics (ledger ++ more) = g.diagnostics ledger ++ g.diagnostics more :=
  List.flatMap_append

/-! ## One worker -/

namespace Stage

/-- What the ledger has of a project when its worker is at a stage. -/
def Booked (p : Project) : Stage σ → Status → Nat → List Ending → Prop
  | waiting, _, compiles, endings => compiles = 0 ∧ endings = []
  | started, _, compiles, endings => compiles = 0 ∧ endings = []
  | compiling job, _, compiles, endings =>
    compiles = 1 ∧ endings = [] ∧ job.Blames p.configPath
  | returned, _, compiles, endings =>
    compiles = 1 ∧ ∃ messages, endings = [.compile (.ok messages)]
  | recorded _, _, compiles, endings =>
    compiles = 1 ∧ ∃ messages, endings = [.compile (.ok messages)]
  | closing result, _, compiles, endings =>
    compiles = 1 ∧ (∀ e, result = .error e → e.Blames p.configPath) ∧
      ∃ answer, p.Concludes answer result ∧ endings = [.compile answer]
  | finished _, status, compiles, endings => p.Accounted status compiles endings

/-- What a worker pushes when it reports a failure. -/
theorem explain_diagnostics (p : Project) (run : Run σ) {result : Except Error BuildRecord}
    (hblames : ∀ e, result = .error e → e.Blames p.configPath) :
    (explain p run result).diagnostics
      = run.diagnostics ++ (Ending.build result).messages.map (Diagnostic.mk p.configPath) := by
  cases result with
  | ok record => exact (List.append_nil _).symm
  | error e =>
      cases e with
      | cancelled => exact (List.append_nil _).symm
      | compile named diagnostics =>
          obtain rfl := hblames _ rfl named diagnostics rfl
          rfl
      | _ => rfl

variable [FileSystem σ]

/-- **One step of a worker** books what it sees the end of, and pushes just what
    that has to be told. -/
theorem step_booked (w : Workplace σ) {i : Nat} (hremoves : FileSystem.AlwaysRemoves σ)
    (hcompiler : (w.compiler w.graph i).Blames (w.graph.node i).configPath) {stage : Stage σ}
    {run : Run σ} (hi : i < run.statuses.size) {endings : List Ending}
    (h : stage.Booked (w.graph.node i) (run.statuses.get i) (run.handed.count i) endings) :
    (stage.step w i run).1.Booked (w.graph.node i) ((stage.step w i run).2.statuses.get i)
        ((stage.step w i run).2.handed.count i) (endings ++ stage.ending?.toList) ∧
      (stage.step w i run).2.diagnostics = run.diagnostics ++
        w.graph.diagnostics (stage.ending?.toList.map fun ending => (i, ending)) := by
  obtain ⟨entries, hmove⟩ := step_moves w i stage run
  generalize stage.step w i run = next at hmove ⊢
  -- most stages see the end of nothing
  have hquiet : stage.ending? = none →
      next.1.Booked (w.graph.node i) (next.2.statuses.get i) (next.2.handed.count i) endings →
      next.2.diagnostics = run.diagnostics →
      next.1.Booked (w.graph.node i) (next.2.statuses.get i) (next.2.handed.count i)
          (endings ++ stage.ending?.toList) ∧
        next.2.diagnostics = run.diagnostics ++
          w.graph.diagnostics (stage.ending?.toList.map fun ending => (i, ending)) := by
    intro hnone hbooked hdiagnostics
    rw [hnone]
    exact ⟨(List.append_nil endings).symm ▸ hbooked, hdiagnostics.trans (List.append_nil _).symm⟩
  cases hmove with
  | skipped =>
      obtain ⟨hnone, rfl⟩ := h
      refine hquiet rfl (Or.inl ⟨by simpa [Run.handed] using hnone, rfl, ?_, ?_⟩) rfl
      · simp [StatusTable.get_publish hi]
      · simp [StatusTable.get_publish hi]
  | entered =>
      obtain ⟨hnone, rfl⟩ := h
      exact hquiet rfl ⟨by simpa [Run.handed] using hnone, rfl⟩ rfl
  | kept hremoved =>
      obtain ⟨failure, hfailed, -⟩ := BuildRecord.invalidate_error hremoved
      obtain ⟨existed, hok⟩ := hremoves run.site.files (w.graph.node i).recordPath
      rw [hok] at hfailed
      cases hfailed
  | handed =>
      obtain ⟨hnone, rfl⟩ := h
      exact hquiet rfl ⟨by simpa [Run.handed] using hnone, rfl, hcompiler⟩ rfl
  | worked effect next =>
      obtain ⟨honce, rfl, hjob⟩ := h
      exact hquiet rfl ⟨honce, rfl, hjob run.site⟩ rfl
  | succeeded messages =>
      obtain ⟨honce, rfl, hjob⟩ := h
      refine ⟨⟨by simpa [Run.handed] using honce, messages, rfl⟩, ?_⟩
      simp [Run.enter, Run.diagnose, Graph.diagnostics, ending?, Ending.messages]
  | failed e =>
      obtain ⟨honce, rfl, hjob⟩ := h
      refine ⟨⟨by simpa [Run.handed] using honce, ?_, .error e, .failed e, rfl⟩,
        (List.append_nil _).symm⟩
      exact fun e' he' => hjob e' (congrArg Except.error (Except.error.inj he'))
  | captured => exact hquiet rfl ⟨by simpa [Run.handed] using h.1, h.2⟩ rfl
  | saved hsaved =>
      obtain ⟨honce, messages, rfl⟩ := h
      have hconcludes := BuildRecord.save_concludes hsaved messages
      exact hquiet rfl ⟨honce, hconcludes.blames, .ok messages, hconcludes, rfl⟩ rfl
  | closed result =>
      obtain ⟨honce, hblames, answer, hconcludes, rfl⟩ := h
      refine ⟨Or.inr ⟨by simpa [Run.handed] using honce, answer, result, hconcludes, rfl,
        get_closed _ hi result⟩, ?_⟩
      show (explain _ run result).diagnostics = _
      rw [explain_diagnostics _ run hblames]
      exact congrArg _ (List.append_nil _).symm
  | rested record => exact hquiet rfl h rfl

end Stage

variable [FileSystem σ]

/-! ## A crew -/

/-- What a crew keeps of the run while it works. -/
structure Run.Books (g : Graph) (stale : List Nat) (before : Run σ) (held : Ledger) (run : Run σ)
    (ledger : Ledger) : Prop where
  diagnostics : run.diagnostics = g.diagnostics ledger
  size : run.statuses.size = before.statuses.size
  known : ∀ entry ∈ ledger, entry ∈ held ∨ entry.1 ∈ stale
  others : ∀ j, j ∉ stale → run.statuses.get j = before.statuses.get j ∧
    run.handed.count j = before.handed.count j ∧ ledger.of j = held.of j

/-- **The work of a crew is booked**: the ledger has all that there is to tell of
    its projects. -/
theorem Crew.work_books (w : Workplace σ) (hremoves : FileSystem.AlwaysRemoves σ)
    {stale : List Nat} (hnodup : stale.Nodup)
    (hcompiler : ∀ i ∈ stale, (w.compiler w.graph i).Blames (w.graph.node i).configPath)
    (turns : List Turn) {run : Run σ} (hlt : ∀ i ∈ stale, i < run.statuses.size) {held : Ledger}
    (hdiagnostics : run.diagnostics = w.graph.diagnostics held)
    (hfresh : ∀ i ∈ stale, run.handed.count i = 0 ∧ held.of i = []) :
    let ledger := held ++ Crew.ledger w (stale.map fun i => { index := i }) run
      (course w stale turns run)
    Run.Books w.graph stale run held (work w stale turns run).2 ledger ∧
      ∀ i ∈ stale, (w.graph.node i).Accounted ((work w stale turns run).2.statuses.get i)
        ((work w stale turns run).2.handed.count i) (Ledger.of ledger i) := by
  intro ledger
  have h : Sound stale (Run.Books w.graph stale run held · ledger)
      (fun i stage run' => stage.Booked (w.graph.node i) (run'.statuses.get i)
        (run'.handed.count i) (Ledger.of ledger i))
      (work w stale turns run).1 (work w stale turns run).2 := by
    rw [work_eq_interleave]
    refine interleave_ledger (course w stale turns run) hnodup ?own ?other
      (fun run' _ h => ⟨⟨h.diagnostics, h.size, h.known, h.others⟩, fun _ _ _ h => h⟩)
      (sound_waiting ⟨hdiagnostics, rfl, fun _ h => Or.inl h, fun _ _ => ⟨rfl, rfl, rfl⟩⟩ hfresh)
    case own =>
      intro i hi stage run' ledger hbooks hbooked
      obtain ⟨hstage, htold⟩ := Stage.step_booked w hremoves (hcompiler i hi)
        (hbooks.size ▸ hlt i hi) hbooked
      refine ⟨⟨?_, (Stage.step_size w i stage run').trans hbooks.size, ?_, ?_⟩, hstage⟩
      · rw [htold, hbooks.diagnostics, Graph.diagnostics_append]
      · intro entry hentry
        rcases List.mem_append.mp hentry with hentry | hentry
        · exact hbooks.known entry hentry
        · obtain ⟨ending, -, rfl⟩ := List.mem_map.mp hentry
          exact Or.inr hi
      · intro j hj
        have hji : j ≠ i := fun heq => hj (heq ▸ hi)
        rw [Stage.step_get_ne w hji, Stage.count_handed_ne w hji, Ledger.of_append,
          Ledger.of_entries_ne hji.symm, List.append_nil]
        exact hbooks.others j hj
    case other =>
      intro i _ j _ hij stage other run' endings hother
      rw [Stage.step_get_ne w hij.symm, Stage.count_handed_ne w hij.symm]
      exact hother
  refine ⟨h.2.1, fun i hi => ?_⟩
  rw [← work_indices w stale turns run] at hi
  obtain ⟨worker, hworker, rfl⟩ := List.mem_map.mp hi
  obtain ⟨record, hfinished⟩ := work_finished w stale turns run worker hworker
  have hbooked := h.2.2 worker hworker
  rw [hfinished] at hbooked
  exact hbooked

namespace Progress

variable {g : Graph} {options : BuildOptions}

/-! ## Levels -/

/-- Deciding on a project reports nothing. -/
theorem decide_diagnostics (g : Graph) (options : BuildOptions) (s : Progress σ) (i : Nat) :
    (decide g options s i).run.diagnostics = s.run.diagnostics := by
  rw [decide_run]
  split <;> rfl

/-- Deciding on a level reports nothing. -/
theorem decideEach_diagnostics (g : Graph) (options : BuildOptions) (s : Progress σ)
    (interruptions : List Bool) (level : List Nat) :
    (decideEach g options s interruptions level).run.diagnostics = s.run.diagnostics := by
  refine decideEach_induct g options s interruptions level
    (P := fun _ s' => s'.run.diagnostics = s.run.diagnostics) (fun _ _ _ h => h) ?_ rfl
  intro _ i _ s' _ h
  rw [decide_diagnostics]
  exact h

/-- Before the level `n` the ledger has what there is to tell of the projects
    before it, and nothing of the others. -/
structure Booked (g : Graph) (n : Nat) (run : Run σ) (ledger : Ledger) : Prop where
  diagnostics : run.diagnostics = g.diagnostics ledger
  size : run.statuses.size = g.size
  known : ∀ entry ∈ ledger, entry.1 < g.size
  ahead : ∀ i < g.size, n ≤ g.levelOf i → run.handed.count i = 0 ∧ ledger.of i = []
  behind : ∀ i < g.size, g.levelOf i < n →
    (g.node i).Accounted (run.statuses.get i) (run.handed.count i) (ledger.of i)

/-- The decisions of a level tell nothing, and end no project as failed or built. -/
theorem Booked.opening (compiler : Compiler σ) (site : Site σ) (schedules : List LevelSchedule)
    {n : Nat} (hn : n < g.levels.length) {ledger : Ledger}
    (h : Booked g n (reach g options compiler site schedules n).run ledger) :
    Booked g (n + 1) (Progress.opening g options compiler site schedules n).run ledger ∧
      ∀ i ∈ g.levels[n],
        (Progress.opening g options compiler site schedules n).run.handed.count i = 0 ∧
          ledger.of i = [] := by
  have hlt : ∀ i ∈ g.levels[n],
      i < (reach g options compiler site schedules n).run.statuses.size := by
    intro i hi
    rw [h.size]
    exact ((Graph.mem_levels_getElem hn).mp hi).1
  have htold := decideEach_diagnostics g options (reach g options compiler site schedules n)
    (schedules.getD n {}).interruptions g.levels[n]
  obtain ⟨hopened, hdecided⟩ := decideEach_spec g options (Graph.levels_getElem_nodup hn) _ hlt
    (schedules.getD n {}).interruptions
  rw [← opening_eq g options compiler site schedules n hn] at htold hopened hdecided
  generalize Progress.opening g options compiler site schedules n = s at htold hopened hdecided ⊢
  -- nothing has been handed out or entered for this level yet
  have hfresh : ∀ i ∈ g.levels[n], s.run.handed.count i = 0 ∧ ledger.of i = [] := by
    intro i hi
    rw [hopened.handed]
    obtain ⟨hsize, hlevel⟩ := (Graph.mem_levels_getElem hn).mp hi
    exact h.ahead i hsize (Nat.le_of_eq hlevel.symm)
  refine ⟨⟨htold.trans h.diagnostics, hopened.size.trans h.size, h.known, ?_, ?_⟩, hfresh⟩
  · intro i hi hlevel
    rw [hopened.handed]
    exact h.ahead i hi (Nat.le_of_succ_le hlevel)
  · intro i hi hlevel
    rcases Graph.levelOf_cases hn hi hlevel with ⟨hbefore, hnot⟩ | hmem
    · rw [hopened.handed, hopened.others i hnot]
      exact h.behind i hi hbefore
    · obtain ⟨hnone, hnothing⟩ := hfresh i hmem
      refine Or.inl ⟨hnone, hnothing, ?_⟩
      -- decisions end in none of the statuses that call for an entry
      rcases (hdecided i hmem).cases with hskipped | hstale | ⟨hup, -⟩
      · rw [hskipped]
        exact ⟨nofun, nofun⟩
      · rw [hstale]
        exact ⟨nofun, nofun⟩
      · rw [hup]
        exact ⟨nofun, nofun⟩

/-- **One level**, whatever its workers and cancellations do. -/
theorem Booked.level (hremoves : FileSystem.AlwaysRemoves σ) {compiler : Compiler σ}
    (hcompiler : ∀ i < g.size, (compiler g i).Blames (g.node i).configPath) (site : Site σ)
    (schedules : List LevelSchedule) {n : Nat} (hn : n < g.levels.length) {ledger : Ledger}
    (h : Booked g n (reach g options compiler site schedules n).run ledger) :
    Booked g (n + 1) (reach g options compiler site schedules (n + 1)).run
      (ledger ++ ledgerAt g options compiler site schedules n) := by
  obtain ⟨hopened, hfresh⟩ := h.opening compiler site schedules hn
  have hpart : g.levels.getD n [] = g.levels[n] := Graph.levels_getD hn
  have hopening := (opening_eq g options compiler site schedules n hn).symm
  rw [reach_succ g options compiler site schedules n hn]
  unfold ledgerAt crewOf
  by_cases hdry : options.dryRun = true
  · -- there is no crew
    have hlevel : Progress.level g options compiler (schedules.getD n {})
        (reach g options compiler site schedules n) g.levels[n]
          = Progress.opening g options compiler site schedules n := by
      unfold Progress.level
      rw [if_pos hdry, hopening]
    simp only [if_pos hdry]
    rw [hlevel, List.map_nil, Crew.ledger_nil, List.append_nil]
    exact hopened
  · simp only [if_neg hdry]
    rw [level_eq (Bool.not_eq_true _ ▸ hdry), hopening, build_run, hpart]
    generalize Progress.opening g options compiler site schedules n = s at hopened hfresh ⊢
    have hmem : ∀ i ∈ s.stale g.levels[n], i < g.size ∧ g.levelOf i = n := by
      intro i hi
      exact (Graph.mem_levels_getElem hn).mp (mem_stale.mp hi).1
    obtain ⟨hbooks, haccounted⟩ := Crew.work_books ⟨g, compiler, s.records⟩ hremoves
      (stale_nodup (Graph.levels_getElem_nodup hn) s) (fun i hi => hcompiler i (hmem i hi).1)
      (schedules.getD n {}).turns (fun i hi => hopened.size.symm ▸ (hmem i hi).1)
      hopened.diagnostics fun i hi => hfresh i (mem_stale.mp hi).1
    constructor
    case diagnostics => exact hbooks.diagnostics
    case size => exact hbooks.size.trans hopened.size
    case known =>
      intro entry hentry
      rcases hbooks.known entry hentry with hheld | hstale
      · exact hopened.known entry hheld
      · exact (hmem entry.1 hstale).1
    case ahead =>
      intro i hi hlevel
      have hnot := not_mem_stale hn (Nat.ne_of_gt hlevel) s
      rw [(hbooks.others i hnot).2.1, (hbooks.others i hnot).2.2]
      exact hopened.ahead i hi hlevel
    case behind =>
      intro i hi hlevel
      by_cases hstale : i ∈ s.stale g.levels[n]
      · exact haccounted i hstale
      · rw [(hbooks.others i hstale).1, (hbooks.others i hstale).2.1, (hbooks.others i hstale).2.2]
        exact hopened.behind i hi hlevel

theorem start_booked (g : Graph) (site : Site σ) : Booked g 0 (start site g).run [] := by
  refine ⟨rfl, StatusTable.size_ofSize g.size, nofun, fun _ _ _ => ⟨rfl, rfl⟩, ?_⟩
  exact fun _ _ hlevel => absurd hlevel (Nat.not_lt_zero _)

/-- **Before any level, the books are in order.** -/
theorem reach_booked (hremoves : FileSystem.AlwaysRemoves σ) {compiler : Compiler σ}
    (hcompiler : ∀ i < g.size, (compiler g i).Blames (g.node i).configPath) (site : Site σ)
    (schedules : List LevelSchedule) {n : Nat} (hn : n ≤ g.levels.length) :
    Booked g n (reach g options compiler site schedules n).run
      (ledger g options compiler site schedules n) := by
  induction n with
  | zero => exact start_booked g site
  | succ n ih =>
      rw [ledger_succ]
      exact (ih (Nat.le_of_succ_le hn)).level hremoves hcompiler site schedules hn

end Progress

/-! ## Whole builds -/

/-- What is told, project by project. -/
theorem Graph.diagnostics_perm (g : Graph) {ledger : Ledger}
    (hknown : ∀ entry ∈ ledger, entry.1 < g.size) :
    (g.diagnostics ledger).Perm (g.indices.flatMap fun i =>
      ((ledger.of i).flatMap Ending.messages).map (Diagnostic.mk (g.node i).configPath)) := by
  have hsorted := perm_flatMap_filter Prod.fst g.indices List.nodup_range ledger
    fun entry hentry => List.mem_range.mpr (hknown entry hentry)
  have hproject : ∀ i, g.diagnostics (ledger.filter fun entry => entry.1 == i)
      = ((ledger.of i).flatMap Ending.messages).map (Diagnostic.mk (g.node i).configPath) := by
    intro i
    unfold Ledger.of diagnostics
    rw [List.flatMap_map, List.map_flatMap]
    refine List.flatMap_congr fun entry hentry => ?_
    rw [beq_iff_eq.mp (List.mem_filter.mp hentry).2]
  have htold := hsorted.flatMap_right fun entry =>
    entry.2.messages.map (Diagnostic.mk (g.node entry.1).configPath)
  rw [List.flatMap_assoc] at htold
  exact htold.trans (List.Perm.of_eq (List.flatMap_congr fun i _ => hproject i))

/-- A project that failed has something to tell. -/
theorem Project.Accounted.exists_message {p : Project} {compiles : Nat} {endings : List Ending}
    (h : p.Accounted .failed compiles endings) : ∃ text, text ∈ endings.flatMap Ending.messages := by
  rcases h with ⟨-, -, hne, -⟩ | ⟨-, answer, result, -, rfl, hverdict⟩
  · exact absurd rfl hne
  · cases result with
    | ok record => exact nomatch hverdict
    | error e =>
        have hcancelled : e ≠ .cancelled := by
          rintro rfl
          exact nomatch hverdict
        obtain ⟨text, htext⟩ := List.exists_mem_of_ne_nil _ (Error.texts_ne_nil hcancelled)
        exact ⟨text, List.mem_flatMap.mpr ⟨.build (.error e), List.mem_cons_of_mem _
          (List.mem_singleton_self _), htext⟩⟩

/-- **The diagnostics of a run** with a compiler whose errors name the project
    that it compiles, where files can always be removed, and whatever the turns
    of its workers.  The ledger accounts for every project.  The report has
    exactly what the ledger has to tell, each message under the name of its
    project: so every project that failed is told of, and none that was not
    given to the compiler. -/
theorem buildGraph_diagnostics (g : Graph) (options : BuildOptions) {compiler : Compiler σ}
    (hcompiler : ∀ i < g.size, (compiler g i).Blames (g.node i).configPath)
    (hremoves : FileSystem.AlwaysRemoves σ) (schedules : List LevelSchedule) (site : Site σ) :
    let result := buildGraph options compiler schedules g site
    let ledger := Progress.ledger g options compiler site schedules g.levels.length
    (∀ i < g.size, (g.node i).Accounted (result.2.statuses.get i) (result.2.handed.count i)
      (ledger.of i)) ∧
    result.1.diagnostics.Perm (g.indices.flatMap fun i =>
      ((ledger.of i).flatMap Ending.messages).map (Diagnostic.mk (g.node i).configPath)) ∧
    (∀ i < g.size, result.2.statuses.get i = .failed →
      ∃ text, Diagnostic.mk (g.node i).configPath text ∈ result.1.diagnostics) ∧
    ∀ told ∈ result.1.diagnostics, ∃ i ∈ result.2.handed, told.project = (g.node i).configPath := by
  intro result ledger
  have h : Progress.Booked g g.levels.length (Progress.levels g options compiler
      (Progress.start site g) schedules g.levels).run ledger := by
    rw [← Progress.reach_of_le g options compiler site schedules _ (Nat.le_refl _)]
    exact Progress.reach_booked hremoves hcompiler site schedules (Nat.le_refl _)
  have haccounted : ∀ i < g.size, (g.node i).Accounted (result.2.statuses.get i)
      (result.2.handed.count i) (ledger.of i) :=
    fun i hi => h.behind i hi (Graph.levelOf_lt_length hi)
  have hperm : result.1.diagnostics.Perm (g.indices.flatMap fun i =>
      ((ledger.of i).flatMap Ending.messages).map (Diagnostic.mk (g.node i).configPath)) := by
    have hreport : result.1.diagnostics = g.diagnostics ledger := h.diagnostics
    rw [hreport]
    exact g.diagnostics_perm h.known
  refine ⟨haccounted, hperm, ?_, ?_⟩
  · intro i hi hfailed
    have hproject := haccounted i hi
    rw [hfailed] at hproject
    obtain ⟨text, htext⟩ := hproject.exists_message
    exact ⟨text, hperm.mem_iff.mpr (List.mem_flatMap.mpr
      ⟨i, List.mem_range.mpr hi, List.mem_map_of_mem htext⟩)⟩
  · intro told htold
    obtain ⟨i, hi, hmem⟩ := List.mem_flatMap.mp (hperm.mem_iff.mp htold)
    obtain ⟨text, htext, rfl⟩ := List.mem_map.mp hmem
    refine ⟨i, ?_, rfl⟩
    rcases haccounted i (List.mem_range.mp hi) with ⟨-, hnothing, -⟩ | ⟨honce, -⟩
    · rw [hnothing] at htext
      exact nomatch htext
    · refine List.count_pos_iff.mp ?_
      rw [honce]
      exact Nat.one_pos

/-- The first project compiles with a warning, the second fails without a word. -/
def tersePair : Compiler MemoryFs := fun g i =>
  if i = 0 then .done (.ok ["unused import"])
  else .done (.error (.compile (g.node i).configPath []))

/-- What is told of two projects, one with a warning and one that fails. -/
theorem buildGraph_diagnostics_pair :
    let result := buildGraph {} tersePair [] Progress.barePair ⟨{}, false, []⟩
    result.1.diagnostics = [⟨(Progress.barePair.node 0).configPath, "unused import"⟩,
        ⟨(Progress.barePair.node 1).configPath, "compilation failed"⟩] ∧
      ∃ text, Diagnostic.mk (Progress.barePair.node 1).configPath text
        ∈ result.1.diagnostics := by
  have hblames : ∀ i < Progress.barePair.size, (tersePair Progress.barePair i).Blames
      (Progress.barePair.node i).configPath := by
    intro i _
    unfold tersePair
    split
    · exact nofun
    · rintro _ ⟨⟩ named diagnostics ⟨⟩
      rfl
  have hsize : 1 < Progress.barePair.size := by decide
  have h := buildGraph_diagnostics Progress.barePair {} hblames (fun _ _ => ⟨_, rfl⟩) []
    ⟨{}, false, []⟩
  dsimp only at h ⊢
  refine ⟨by decide +kernel, h.2.2.1 1 hsize (by decide +kernel)⟩

end ProjectBuild
