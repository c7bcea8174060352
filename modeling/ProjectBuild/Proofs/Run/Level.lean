import ProjectBuild.Graph.Level
import ProjectBuild.Proofs.Graph.Level
import ProjectBuild.Proofs.Record.Store
import ProjectBuild.Proofs.Run.Crew
import ProjectBuild.Run.Level

/-! # Runs, level by level

    Induction along a run has three storeys: over the levels
    (`Progress.levels_induct`), over the decisions that open a level
    (`Progress.decideEach_induct`), and over the steps of the crew that builds
    the rest (`Crew.work_local`).  The lemmas here say what one decision and
    one step of a worker do to the statuses: each sets the status of its own
    project, and no other. -/

namespace ProjectBuild

/-! ## The status table -/

namespace StatusTable

@[simp]
theorem size_publish (t : StatusTable) (i : Nat) (status : Status) :
    (t.publish i status).size = t.size :=
  List.length_set

theorem get_publish {t : StatusTable} {i : Nat} (hi : i < t.size) (status : Status) :
    (t.publish i status).get i = status := by
  unfold publish get
  rw [List.getD_eq_getElem?_getD, List.getElem?_set_self hi, Option.getD_some]

theorem get_publish_ne (t : StatusTable) {i j : Nat} (h : j ≠ i) (status : Status) :
    (t.publish i status).get j = t.get j := by
  unfold publish get
  rw [List.getD_eq_getElem?_getD, List.getElem?_set_ne h.symm, ← List.getD_eq_getElem?_getD]

@[simp]
theorem size_ofSize (n : Nat) : (ofSize n).size = n :=
  List.length_replicate

theorem get_ofSize (n i : Nat) : (ofSize n).get i = .unknown := by
  unfold ofSize get
  rw [List.getD_eq_getElem?_getD, List.getElem?_replicate]
  split <;> rfl

/-- Nothing is known of projects outside the table. -/
theorem lt_of_get_ne {t : StatusTable} {i : Nat} (h : t.get i ≠ .unknown) : i < t.size := by
  by_contra hge
  refine h ?_
  unfold get
  rw [List.getD_eq_getElem?_getD, List.getElem?_eq_none (Nat.le_of_not_lt hge)]
  rfl

end StatusTable

variable {σ : Type}

/-! ## What an action leaves alone -/

namespace Run

@[simp] theorem enter_statuses (run : Run σ) (entries : List Entry) :
    (run.enter entries).statuses = run.statuses := rfl
@[simp] theorem enter_site (run : Run σ) (entries : List Entry) :
    (run.enter entries).site = run.site := rfl
@[simp] theorem enter_journal (run : Run σ) (entries : List Entry) :
    (run.enter entries).journal = run.journal ++ entries := rfl
@[simp] theorem note_statuses (run : Run σ) (notes : List Note) :
    (run.note notes).statuses = run.statuses := rfl
@[simp] theorem note_files (run : Run σ) (notes : List Note) :
    (run.note notes).site.files = run.site.files := rfl
@[simp] theorem note_cancelled (run : Run σ) (notes : List Note) :
    (run.note notes).site.cancelled = run.site.cancelled := rfl
@[simp] theorem note_journal (run : Run σ) (notes : List Note) :
    (run.note notes).journal = run.journal := rfl
@[simp] theorem publish_statuses (run : Run σ) (i : Nat) (status : Status) :
    (run.publish i status).statuses = run.statuses.publish i status := rfl
@[simp] theorem publish_site (run : Run σ) (i : Nat) (status : Status) :
    (run.publish i status).site = run.site := rfl
@[simp] theorem publish_journal (run : Run σ) (i : Nat) (status : Status) :
    (run.publish i status).journal = run.journal ++ [.published i status] := rfl
@[simp] theorem finish_statuses (run : Run σ) (i : Nat) (status : Status) :
    (run.finish i status).statuses = run.statuses.publish i status := rfl
@[simp] theorem finish_site (run : Run σ) (i : Nat) (status : Status) :
    (run.finish i status).site = run.site := rfl
@[simp] theorem finish_journal (run : Run σ) (i : Nat) (status : Status) :
    (run.finish i status).journal
      = run.journal ++ [.published i status] ++ [.finished i status] := rfl
@[simp] theorem diagnose_statuses (run : Run σ) (p : Path) (messages : List String) :
    (run.diagnose p messages).statuses = run.statuses := rfl
@[simp] theorem diagnose_site (run : Run σ) (p : Path) (messages : List String) :
    (run.diagnose p messages).site = run.site := rfl
@[simp] theorem diagnose_journal (run : Run σ) (p : Path) (messages : List String) :
    (run.diagnose p messages).journal = run.journal := rfl
@[simp] theorem setFiles_statuses (run : Run σ) (files : σ) :
    (run.setFiles files).statuses = run.statuses := rfl
@[simp] theorem setFiles_files (run : Run σ) (files : σ) :
    (run.setFiles files).site.files = files := rfl
@[simp] theorem setFiles_cancelled (run : Run σ) (files : σ) :
    (run.setFiles files).site.cancelled = run.site.cancelled := rfl
@[simp] theorem setFiles_journal (run : Run σ) (files : σ) :
    (run.setFiles files).journal = run.journal := rfl
@[simp] theorem cancel_statuses (run : Run σ) : run.cancel.statuses = run.statuses := rfl
@[simp] theorem cancel_files (run : Run σ) : run.cancel.site.files = run.site.files := rfl
@[simp] theorem cancel_journal (run : Run σ) : run.cancel.journal = run.journal := rfl

end Run

/-! ## One step of a worker -/

namespace Stage

@[simp]
theorem explain_statuses (p : Project) (run : Run σ) (result : Except Error BuildRecord) :
    (explain p run result).statuses = run.statuses := by
  unfold explain
  split <;> rfl

@[simp]
theorem explain_files (p : Project) (run : Run σ) (result : Except Error BuildRecord) :
    (explain p run result).site.files = run.site.files := by
  unfold explain
  split <;> rfl

@[simp]
theorem explain_cancelled (p : Project) (run : Run σ) (result : Except Error BuildRecord) :
    (explain p run result).site.cancelled = run.site.cancelled := by
  unfold explain
  split <;> rfl

@[simp]
theorem explain_journal (p : Project) (run : Run σ) (result : Except Error BuildRecord) :
    (explain p run result).journal = run.journal := by
  unfold explain
  split <;> rfl

/-- A worker that closes sets the status that its result says. -/
theorem get_closed (p : Project) {run : Run σ} {i : Nat} (hi : i < run.statuses.size)
    (result : Except Error BuildRecord) :
    ((explain p run result).finish i (verdict result)).statuses.get i = verdict result := by
  rw [Run.finish_statuses, explain_statuses]
  exact StatusTable.get_publish hi _

variable [FileSystem σ]

section move

variable {w : Workplace σ} {i : Nat} {run : Run σ} {stage : Stage σ} {entries : List Entry}
  {next : Stage σ × Run σ}

theorem Move.journal (h : Move w i run stage entries next) :
    next.2.journal = run.journal ++ entries := by
  cases h <;> simp

/-- A worker makes entries about its own project only. -/
theorem Move.index (h : Move w i run stage entries next) : ∀ e ∈ entries, e.index = i := by
  cases h <;> simp [Entry.index]

end move

/-- **What a step does to the site**: nothing but for notes, or it removes or
    replaces the record of its project, or it is a step of the compile. -/
theorem step_site (w : Workplace σ) (i : Nat) (stage : Stage σ) (run : Run σ) :
    (∃ effect next, stage = compiling (.step effect next) ∧
      (stage.step w i run).2.site = effect run.site) ∨
    (stage.step w i run).2.site.cancelled = run.site.cancelled ∧
      ((stage.step w i run).2.site.files = run.site.files ∨
        (stage.step w i run).2.site.files
          = (FileSystem.remove run.site.files (w.graph.node i).recordPath).2 ∨
        ∃ text, (stage.step w i run).2.site.files
          = (FileSystem.replace run.site.files (w.graph.node i).recordPath text).2) := by
  obtain ⟨entries, hmove⟩ := step_moves w i stage run
  generalize stage.step w i run = next at hmove ⊢
  cases hmove with
  | kept hremoved =>
      exact Or.inr ⟨rfl, Or.inr (Or.inl (BuildRecord.invalidate_files hremoved))⟩
  | handed hremoved =>
      exact Or.inr ⟨rfl, Or.inr (Or.inl (BuildRecord.invalidate_files hremoved))⟩
  | worked effect next => exact Or.inl ⟨effect, next, rfl, rfl⟩
  | saved hsaved =>
      refine Or.inr ⟨rfl, ?_⟩
      rcases BuildRecord.save_cases hsaved with ⟨problem, -, hfiles⟩ | ⟨text, -, hfiles, -⟩
      · exact Or.inl hfiles
      · exact Or.inr (Or.inr ⟨text, hfiles⟩)
  | closed result => exact Or.inr ⟨explain_cancelled _ _ _, Or.inl (explain_files _ _ _)⟩
  | _ => exact Or.inr ⟨rfl, Or.inl rfl⟩

/-- A worker sets the status of its own project only. -/
theorem step_get_ne (w : Workplace σ) {i j : Nat} (h : j ≠ i) (stage : Stage σ) (run : Run σ) :
    (stage.step w i run).2.statuses.get j = run.statuses.get j := by
  obtain ⟨entries, hmove⟩ := step_moves w i stage run
  generalize stage.step w i run = next at hmove ⊢
  cases hmove <;> simp [StatusTable.get_publish_ne _ h]

theorem step_size (w : Workplace σ) (i : Nat) (stage : Stage σ) (run : Run σ) :
    (stage.step w i run).2.statuses.size = run.statuses.size := by
  obtain ⟨entries, hmove⟩ := step_moves w i stage run
  generalize stage.step w i run = next at hmove ⊢
  cases hmove <;> simp

/-- The status that a worker shows at a stage: its project is being rebuilt
    until the worker is finished, and built if there is a new record then. -/
def Shows : Stage σ → Status → Prop
  | finished (some _), status => status = .built
  | finished none, status => status = .failed ∨ status = .skipped
  | _, status => status.isRebuild = true

omit [FileSystem σ] in
theorem shows_closed (result : Except Error BuildRecord) :
    (finished (σ := σ) (recordOf? result)).Shows (verdict result) := by
  cases result with
  | ok record => rfl
  | error e =>
      cases e with
      | cancelled => exact Or.inr rfl
      | _ => exact Or.inl rfl

/-- **The status goes on with the stage.** -/
theorem step_shows (w : Workplace σ) {i : Nat} {stage : Stage σ} {run : Run σ}
    (hi : i < run.statuses.size) (h : stage.Shows (run.statuses.get i)) :
    (stage.step w i run).1.Shows ((stage.step w i run).2.statuses.get i) := by
  obtain ⟨entries, hmove⟩ := step_moves w i stage run
  generalize stage.step w i run = next at hmove ⊢
  cases hmove with
  | skipped => exact Or.inr (StatusTable.get_publish hi _)
  | entered =>
      show ((run.statuses.publish i .building).get i).isRebuild = true
      rw [StatusTable.get_publish hi]
      rfl
  | closed result =>
      show (finished (recordOf? result)).Shows
        (((explain (w.graph.node i) run result).finish i (verdict result)).statuses.get i)
      rw [get_closed _ hi]
      exact shows_closed result
  | _ => exact h

end Stage

/-! ## The work of a crew -/

/-- A worker is done, with the record and the status that go together. -/
def Worker.Ended (worker : Worker σ) (status : Status) : Prop :=
  (∃ record, worker.stage = .finished (some record) ∧ status = .built) ∨
    worker.stage = .finished none ∧ (status = .failed ∨ status = .skipped)

theorem Worker.Ended.record {worker : Worker σ} {status : Status} (h : worker.Ended status)
    (hbuilt : status = .built) : ∃ record, worker.stage = .finished (some record) := by
  rcases h with ⟨record, hfinished, -⟩ | ⟨-, hstatus⟩
  · exact ⟨record, hfinished⟩
  · rcases hstatus with hstatus | hstatus <;> exact nomatch hstatus.symm.trans hbuilt

theorem Worker.Ended.ne_upToDate {worker : Worker σ} {status : Status}
    (h : worker.Ended status) : status ≠ .upToDate := by
  rcases h with ⟨record, -, rfl⟩ | ⟨-, rfl | rfl⟩
  · exact fun h => nomatch h
  · exact fun h => nomatch h
  · exact fun h => nomatch h

namespace Crew

variable [FileSystem σ]

/-- **A crew sets the statuses of its own projects**: each of them ends as its
    worker does. -/
theorem work_statuses (w : Workplace σ) {stale : List Nat} (hnodup : stale.Nodup)
    (turns : List Turn) (run : Run σ) (hlt : ∀ i ∈ stale, i < run.statuses.size)
    (hstale : ∀ i ∈ stale, run.statuses.get i = .stale) :
    (work w stale turns run).2.statuses.size = run.statuses.size ∧
      (∀ j, j ∉ stale →
        (work w stale turns run).2.statuses.get j = run.statuses.get j) ∧
      ∀ i ∈ stale, ∃ worker ∈ (work w stale turns run).1, worker.index = i ∧
        worker.Ended ((work w stale turns run).2.statuses.get i) := by
  have h := work_local w turns run
    (G := fun run' => run'.statuses.size = run.statuses.size ∧
      ∀ j, j ∉ stale → run'.statuses.get j = run.statuses.get j)
    (I := fun i stage run' => stage.Shows (run'.statuses.get i)) hnodup ?_ ?_
    (fun _ run' h => ⟨h, fun _ _ h => h⟩) ⟨rfl, fun _ _ => rfl⟩ ?_
  · refine ⟨h.1.1, h.1.2, fun i hi => ?_⟩
    rw [← work_indices w stale turns run] at hi
    obtain ⟨worker, hworker, rfl⟩ := List.mem_map.mp hi
    refine ⟨worker, hworker, rfl, ?_⟩
    -- a worker ends with a record or without, and its stage shows in the status
    obtain ⟨record, hfinished⟩ := work_finished w stale turns run worker hworker
    have hshows := h.2 worker hworker
    rw [hfinished] at hshows
    cases record with
    | some record => exact Or.inl ⟨record, hfinished, hshows⟩
    | none => exact Or.inr ⟨hfinished, hshows⟩
  · rintro i hi stage run' ⟨hsize, hothers⟩ hshows
    refine ⟨⟨(Stage.step_size w i stage run').trans hsize, ?_⟩, ?_⟩
    · intro j hj
      have hne : j ≠ i := fun heq => hj (heq ▸ hi)
      rw [Stage.step_get_ne w hne stage run', hothers j hj]
    · exact Stage.step_shows w (hsize ▸ hlt i hi) hshows
  · rintro i hi j hj hij stage other run' - - hother
    rw [Stage.step_get_ne w hij.symm stage run']
    exact hother
  · intro i hi
    rw [hstale i hi]
    rfl

/-- Nobody does nothing. -/
theorem work_nil (w : Workplace σ) {turns : List Turn} (hturns : Turn.cancel ∉ turns)
    (run : Run σ) : work w [] turns run = ([], run) := by
  have h := work_induct w [] turns run
    (P := fun crew run' => crew = [] ∧ run' = run)
    (fun front worker back _ h => absurd h.1 (by simp)) (fun h => absurd h hturns) ⟨rfl, rfl⟩
  exact Prod.ext h.1 h.2

end Crew

/-! ## Decisions -/

/-- An entry that announces a status. -/
def Entry.Announces : Entry → Prop
  | .published _ _ => True
  | .finished _ _ => True
  | _ => False

/-- Workers may take their steps in any order, but no cancellation comes in. -/
def LevelSchedule.Undisturbed (schedule : LevelSchedule) : Prop :=
  true ∉ schedule.interruptions ∧ Turn.cancel ∉ schedule.turns

namespace Progress

section
variable [FileSystem σ]

theorem decide_run (g : Graph) (options : BuildOptions) (s : Progress σ) (i : Nat) :
    (decide g options s i).run
      = if (ruling options (ground g s i)).1.isTerminal
        then s.run.finish i (ruling options (ground g s i)).1
        else s.run.publish i (ruling options (ground g s i)).1 := rfl

/-- A decision publishes the status that is ruled. -/
theorem decide_statuses (g : Graph) (options : BuildOptions) (s : Progress σ) (i : Nat) :
    (decide g options s i).run.statuses
      = s.run.statuses.publish i (ruling options (ground g s i)).1 := by
  rw [decide_run]
  by_cases h : (ruling options (ground g s i)).1.isTerminal = true
  · rw [if_pos h, Run.finish_statuses]
  · rw [if_neg h, Run.publish_statuses]

/-- The project that is decided on has the status that is ruled. -/
theorem decide_get (g : Graph) (options : BuildOptions) {s : Progress σ} {i : Nat}
    (h : i < s.run.statuses.size) :
    (decide g options s i).run.statuses.get i = (ruling options (ground g s i)).1 := by
  rw [decide_statuses]
  exact StatusTable.get_publish h _

/-- A decision sets the status of its own project only. -/
theorem decide_get_ne (g : Graph) (options : BuildOptions) (s : Progress σ) {i j : Nat}
    (h : j ≠ i) : (decide g options s i).run.statuses.get j = s.run.statuses.get j := by
  rw [decide_statuses]
  exact StatusTable.get_publish_ne _ h _

theorem decide_site (g : Graph) (options : BuildOptions) (s : Progress σ) (i : Nat) :
    (decide g options s i).run.site = s.run.site := by
  rw [decide_run]
  by_cases h : (ruling options (ground g s i)).1.isTerminal = true
  · rw [if_pos h, Run.finish_site]
  · rw [if_neg h, Run.publish_site]

/-- A decision is announced, and nothing else is entered. -/
theorem decide_journal (g : Graph) (options : BuildOptions) (s : Progress σ) (i : Nat) :
    ∃ entries, (decide g options s i).run.journal = s.run.journal ++ entries ∧
      ∀ e ∈ entries, e.Announces := by
  rw [decide_run]
  by_cases hterminal : (ruling options (ground g s i)).1.isTerminal = true
  · rw [if_pos hterminal, Run.finish_journal]
    refine ⟨_, List.append_assoc _ _ _, ?_⟩
    intro e he
    rcases List.mem_append.mp he with he | he
    · rw [List.mem_singleton.mp he]
      exact True.intro
    · rw [List.mem_singleton.mp he]
      exact True.intro
  · rw [if_neg hterminal, Run.publish_journal]
    refine ⟨_, rfl, ?_⟩
    intro e he
    rw [List.mem_singleton.mp he]
    exact True.intro

/-- A decision only announces. -/
theorem mem_decide_journal {g : Graph} {options : BuildOptions} {s : Progress σ} {i : Nat}
    {entry : Entry} (h : entry ∈ (decide g options s i).run.journal) :
    entry ∈ s.run.journal ∨ entry.Announces := by
  obtain ⟨entries, hjournal, hannounce⟩ := decide_journal g options s i
  rw [hjournal] at h
  exact (List.mem_append.mp h).imp_right (hannounce entry)

/-- **Induction along the decisions of a level**, in order; `P` speaks of the
    projects that have been decided on. -/
theorem decideEach_induct (g : Graph) (options : BuildOptions) (s : Progress σ)
    (interruptions : List Bool) (level : List Nat) {P : List Nat → Progress σ → Prop}
    (hinterrupt : true ∈ interruptions → ∀ front s, P front s → P front (s.interrupt true))
    (hdecide : ∀ front i back s, level = front ++ i :: back → P front s →
      P (front ++ [i]) (decide g options s i))
    (h : P [] s) : P level (decideEach g options s interruptions level) := by
  have hall : ∀ (back front : List Nat) (interruptions' : List Bool) (s : Progress σ),
      level = front ++ back → (true ∈ interruptions' → true ∈ interruptions) → P front s →
      P level (decideEach g options s interruptions' back) := by
    intro back
    induction back with
    | nil =>
        intro front interruptions' s hsplit _ h
        rw [hsplit, List.append_nil]
        exact h
    | cons i back ih =>
        intro front interruptions' s hsplit hsub h
        refine ih (front ++ [i]) interruptions'.tail _ (by rw [hsplit]; simp) ?_ ?_
        · exact fun hmem => hsub (List.mem_of_mem_tail hmem)
        · refine hdecide front i back _ hsplit ?_
          cases interruptions' with
          | nil => exact h
          | cons first rest =>
              cases first with
              | false => exact h
              | true => exact hinterrupt (hsub List.mem_cons_self) front s h
  exact hall level [] interruptions s rfl id h

/-- In a level without repetitions each project is decided on once, behind others of
    the level. -/
theorem decideEach_induct_nodup (g : Graph) (options : BuildOptions) (s : Progress σ)
    (interruptions : List Bool) {level : List Nat} (hnodup : level.Nodup)
    {P : List Nat → Progress σ → Prop}
    (hinterrupt : true ∈ interruptions → ∀ front s, P front s → P front (s.interrupt true))
    (hdecide : ∀ front i s, i ∈ level → i ∉ front → front ⊆ level → P front s →
      P (front ++ [i]) (decide g options s i))
    (h : P [] s) : P level (decideEach g options s interruptions level) := by
  refine decideEach_induct g options s interruptions level hinterrupt ?_ h
  intro front i back s' hsplit hs'
  rw [hsplit] at hnodup hdecide
  have hfresh : i ∉ front := fun hfront =>
    (List.nodup_append.mp hnodup).2.2 i hfront i List.mem_cons_self rfl
  exact hdecide front i s' (List.mem_append_right _ List.mem_cons_self) hfresh
    (List.subset_append_left _ _) hs'

/-- Decisions touch no files. -/
theorem decideEach_files (g : Graph) (options : BuildOptions) (s : Progress σ)
    (interruptions : List Bool) (level : List Nat) :
    (decideEach g options s interruptions level).run.site.files = s.run.site.files := by
  refine decideEach_induct g options s interruptions level
    (P := fun _ s' => s'.run.site.files = s.run.site.files) ?_ ?_ rfl
  · exact fun _ _ _ h => h
  · intro _ i _ s' _ h
    rw [decide_site]
    exact h

/-- **Induction along the levels of a run.** -/
theorem levels_induct (g : Graph) (options : BuildOptions) (compiler : Compiler σ)
    (s : Progress σ) (schedules : List LevelSchedule) (parts : List (List Nat))
    {P : Nat → Progress σ → Prop}
    (hlevel : ∀ n (hn : n < parts.length), ∀ schedule s,
      (schedule ∈ schedules ∨ schedule = {}) → P n s →
      P (n + 1) (level g options compiler schedule s parts[n]))
    (h : P 0 s) :
    P parts.length (levels g options compiler s schedules parts) := by
  have hall : ∀ (back front : List (List Nat)) (schedules' : List LevelSchedule)
      (s : Progress σ), parts = front ++ back → (∀ x ∈ schedules', x ∈ schedules) →
      P front.length s → P parts.length (levels g options compiler s schedules' back) := by
    -- `back` are the levels still to come, and `front` those that have been run
    intro back
    induction back with
    | nil =>
        intro front schedules' s hsplit _ h
        rw [hsplit, List.append_nil]
        exact h
    | cons part back ih =>
        intro front schedules' s hsplit hsub h
        have hn : front.length < parts.length := by
          rw [hsplit, List.length_append, List.length_cons]
          omega
        have hpart : parts[front.length] = part := by
          simp only [hsplit]
          rw [List.getElem_append_right (Nat.le_refl _)]
          simp
        refine ih (front ++ [part]) schedules'.tail _ (by rw [hsplit]; simp) ?_ ?_
        · exact fun x hx => hsub x (List.mem_of_mem_tail hx)
        · rw [List.length_append, List.length_singleton, ← hpart]
          refine hlevel front.length hn _ s ?_ h
          cases schedules' with
          | nil => exact Or.inr rfl
          | cons first rest => exact Or.inl (hsub first List.mem_cons_self)
  exact hall parts [] schedules s rfl (fun x hx => hx) h

end

/-! ## Taking down what a crew leaves behind -/

theorem collect_run (s : Progress σ) (worker : Worker σ) : (s.collect worker).run = s.run := by
  have hset : ∀ reasons, ({ s with reasons := reasons } : Progress σ).run = s.run :=
    fun _ => rfl
  unfold collect
  dsimp only
  split
  · split <;> rfl
  · split <;> rfl

theorem foldl_collect_run (crew : Crew σ) (s : Progress σ) :
    (crew.foldl collect s).run = s.run := by
  induction crew generalizing s with
  | nil => rfl
  | cons worker rest ih =>
      rw [List.foldl_cons, ih, collect_run]

/-- Building a part of a level runs as its workers work. -/
theorem build_run [FileSystem σ] (g : Graph) (compiler : Compiler σ) (turns : List Turn)
    (s : Progress σ) (level : List Nat) :
    (build g compiler turns s level).run
      = (Crew.work ⟨g, compiler, s.records⟩ (s.stale level) turns s.run).2 :=
  foldl_collect_run _ _

/-- What a level comes to: decisions, and the work of a crew. -/
theorem level_eq [FileSystem σ] {g : Graph} {options : BuildOptions} (hdry : options.dryRun = false)
    (compiler : Compiler σ) (schedule : LevelSchedule) (s : Progress σ) (part : List Nat) :
    level g options compiler schedule s part
      = build g compiler schedule.turns
          (decideEach g options s schedule.interruptions part) part := by
  unfold level
  rw [hdry]
  rfl

/-- Workers are for those of a part that are stale. -/
theorem mem_stale {s : Progress σ} {level : List Nat} {i : Nat} :
    i ∈ s.stale level ↔ i ∈ level ∧ s.run.statuses.get i = .stale := by
  unfold stale
  rw [List.mem_filter, beq_iff_eq]

/-- The projects that the crew of a level builds. -/
theorem mem_stale_level {g : Graph} {n : Nat} (hn : n < g.levels.length) {s : Progress σ}
    {i : Nat} : i ∈ s.stale g.levels[n] ↔
      i < g.size ∧ g.levelOf i = n ∧ s.run.statuses.get i = .stale := by
  rw [mem_stale, Graph.mem_levels_getElem hn, and_assoc]

/-- The crew of a level builds no project of another one. -/
theorem not_mem_stale {g : Graph} {n i : Nat} (hn : n < g.levels.length) (h : g.levelOf i ≠ n)
    (s : Progress σ) : i ∉ s.stale g.levels[n] :=
  fun hi => h ((mem_stale_level hn).mp hi).2.1

/-- It builds no reference of a project up to its level. -/
theorem dependency_not_mem_stale {g : Graph} (hg : g.WellFormed) {n i j : Nat}
    (hn : n < g.levels.length) (hi : g.levelOf i ≤ n) (hj : j ∈ g.dependencies i)
    (s : Progress σ) : j ∉ s.stale g.levels[n] :=
  fun hmem => (Graph.dependency_before hg hn hi hj).2 (mem_stale.mp hmem).1

/-- No project has two workers. -/
theorem stale_nodup {level : List Nat} (h : level.Nodup) (s : Progress σ) :
    (s.stale level).Nodup :=
  h.filter _

end Progress

end ProjectBuild
