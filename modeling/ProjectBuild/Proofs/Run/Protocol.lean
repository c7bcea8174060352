import Mathlib.Data.List.Basic
import ProjectBuild.Compile.Scripted
import ProjectBuild.Proofs.Run.Precedence
import ProjectBuild.Proofs.Run.Reasons

/-! # What a run tells of each project

    The statuses of a project are written by the decision on it, by its
    worker, and its reason once more after the crew is done, in whatever order
    the workers take their steps.  What is told of one project is still one of
    a few courses (`Status.courses`): nobody but the project's own worker
    tells anything of it while the crew is at work (`Run.Goes.noticesOf_ne`),
    and the stage of the worker says how far its course has come
    (`Stage.Course`). -/

namespace ProjectBuild

variable {σ : Type}

/-! ## Courses -/

/-- The sequences of statuses that a project can go through in a run. -/
def Status.courses (dryRun : Bool) : List (List Status) :=
  if dryRun then [[.upToDate], [.stale], [.skipped]]
  else [[.upToDate], [.skipped], [.stale, .building, .built], [.stale, .building, .failed],
    [.stale, .building, .skipped], [.stale, .skipped]]

namespace Entry

/-- Whether an entry tells of a status. -/
def isNotice : Entry → Bool
  | published _ _ => true
  | started _ => true
  | finished _ _ => true
  | _ => false

/-- What is entered when a project takes on a status. -/
def notices (i : Nat) (status : Status) : List Entry :=
  published i status :: (if status = .building then [started i] else []) ++
    if status.isTerminal then [finished i status] else []

/-- The status that an entry publishes. -/
def status? : Entry → Option Status
  | published _ status => some status
  | _ => none

theorem notices_of_terminal (i : Nat) {status : Status} (h : status.isTerminal = true) :
    notices i status = [published i status, finished i status] := by
  cases status <;> first | rfl | exact nomatch h

end Entry

namespace Run

/-- What is told of a project in the course of a run. -/
def noticesOf (run : Run σ) (i : Nat) : List Entry :=
  (run.journal.filter Entry.isNotice).filter fun entry => entry.index == i

/-- The statuses that are published of a project, in order. -/
def publishedOf (run : Run σ) (i : Nat) : List Status :=
  (run.noticesOf i).filterMap Entry.status?

/-- The events of a run that are about a project, in order. -/
def eventsOf (g : Graph) (run : Run σ) (i : Nat) : List BuildEvent :=
  events g { run with journal := run.noticesOf i }

/-- A project has gone through a course so far, and all of it has been told. -/
def Tells (run : Run σ) (i : Nat) (course : List Status) : Prop :=
  run.noticesOf i = course.flatMap (Entry.notices i) ∧
    run.statuses.get i = course.getLast?.getD .unknown

/-- What the course of a project is told by: nothing else is told of it. -/
structure Goes (run run' : Run σ) (i : Nat) (more : List Status) : Prop where
  journal : ∃ entries, run'.journal = run.journal ++ entries ∧
    (∀ e ∈ entries, e.index = i) ∧
    entries.filter Entry.isNotice = more.flatMap (Entry.notices i)
  status : run'.statuses.get i = more.getLast?.getD (run.statuses.get i)
  others : ∀ j, j ≠ i → run'.statuses.get j = run.statuses.get j

/-- **A course goes on** by what is told. -/
theorem Goes.tells {run run' : Run σ} {i : Nat} {course more : List Status}
    (h : Goes run run' i more) (ht : run.Tells i course) : run'.Tells i (course ++ more) := by
  obtain ⟨entries, hjournal, hindex, hnotices⟩ := h.journal
  have hall : (entries.filter Entry.isNotice).filter (fun entry => entry.index == i)
      = entries.filter Entry.isNotice := by
    refine List.filter_eq_self.mpr fun e he => ?_
    rw [hindex e (List.mem_filter.mp he).1, beq_self_eq_true]
  constructor
  · unfold noticesOf
    rw [hjournal, List.filter_append, List.filter_append, hall, hnotices, List.flatMap_append]
    exact congrArg (· ++ _) ht.1
  · rw [h.status, ht.2, List.getLast?_append]
    cases more.getLast? <;> rfl

/-- Of other projects nothing is told. -/
theorem Goes.noticesOf_ne {run run' : Run σ} {i j : Nat} {more : List Status}
    (h : Goes run run' i more) (hne : j ≠ i) : run'.noticesOf j = run.noticesOf j := by
  obtain ⟨entries, hjournal, hindex, -⟩ := h.journal
  have hnone : (entries.filter Entry.isNotice).filter (fun entry => entry.index == j) = [] := by
    refine List.filter_eq_nil_iff.mpr fun e he => ?_
    rw [hindex e (List.mem_filter.mp he).1, beq_iff_eq]
    exact hne.symm
  unfold noticesOf
  rw [hjournal, List.filter_append, List.filter_append, hnone, List.append_nil]

/-- A step for one project tells nothing of the others. -/
theorem Goes.tells_ne {run run' : Run σ} {i j : Nat} {course more : List Status}
    (h : Goes run run' i more) (hne : j ≠ i) (ht : run.Tells j course) : run'.Tells j course :=
  ⟨(h.noticesOf_ne hne).trans ht.1, (h.others j hne).trans ht.2⟩

/-- An action that publishes a status and enters what belongs to it. -/
theorem goes_publish {run run' : Run σ} {i : Nat} {status : Status}
    (hi : i < run.statuses.size)
    (hjournal : run'.journal = run.journal ++ Entry.notices i status)
    (hstatuses : run'.statuses = run.statuses.publish i status) : Goes run run' i [status] where
  journal := by
    refine ⟨_, hjournal, ?_, ?_⟩
    · intro e he
      cases status <;> simp [Entry.notices, Status.isTerminal] at he <;>
        rcases he with rfl | rfl <;> rfl
    · cases status <;> rfl
  status := by
    rw [hstatuses]
    exact StatusTable.get_publish hi status
  others := fun j hj => by
    rw [hstatuses]
    exact StatusTable.get_publish_ne _ hj status

/-- Finishing a project tells of its last status. -/
theorem goes_finish (run : Run σ) {i : Nat} {status : Status} (hi : i < run.statuses.size)
    (hterminal : status.isTerminal = true) : Goes run (run.finish i status) i [status] := by
  refine goes_publish hi ?_ rfl
  rw [finish_journal, List.append_assoc, Entry.notices_of_terminal i hterminal]
  rfl

end Run

/-! ## Workers -/

namespace Stage

/-- The course that has been told of a project when its worker is at a
    stage. -/
def Course : Stage σ → List Status → Prop
  | waiting, course => course = [.stale]
  | finished _, course => course ∈ Status.courses false
  | _, course => course = [.stale, .building]

/-- Every verdict is terminal. -/
theorem verdict_isTerminal (result : Except Error BuildRecord) :
    (verdict result).isTerminal = true := by
  cases result with
  | ok record => rfl
  | error e => cases e <;> rfl

/-- A compile ends a course. -/
theorem verdict_course (result : Except Error BuildRecord) :
    [.stale, .building] ++ [verdict result] ∈ Status.courses false := by
  cases result with
  | ok record => exact (by decide : [.stale, .building, .built] ∈ Status.courses false)
  | error e =>
      cases e with
      | cancelled => exact (by decide : [.stale, .building, .skipped] ∈ Status.courses false)
      | _ => exact (by decide : [.stale, .building, .failed] ∈ Status.courses false)

variable [FileSystem σ]

/-- **One step of a worker** takes its project's course on by at most one
    status. -/
theorem step_goes (w : Workplace σ) {i : Nat} (stage : Stage σ) (run : Run σ)
    (hi : i < run.statuses.size) :
    ∃ more, Run.Goes run (stage.step w i run).2 i more ∧
      ∀ course, stage.Course course → (stage.step w i run).1.Course (course ++ more) := by
  have hstays : ∀ {course : List Status}, course = [.stale, .building] →
      course ++ [] = [.stale, .building] := fun h => (List.append_nil _).trans h
  obtain ⟨entries, hmove⟩ := step_moves w i stage run
  have hothers := fun j (hj : j ≠ i) => step_get_ne w hj stage run
  generalize stage.step w i run = next at hmove hothers ⊢
  -- the rest of `Goes` is known of every step
  suffices htold : ∃ more, entries.filter Entry.isNotice = more.flatMap (Entry.notices i) ∧
      next.2.statuses.get i = more.getLast?.getD (run.statuses.get i) ∧
      ∀ course, stage.Course course → next.1.Course (course ++ more) by
    obtain ⟨more, hnotices, hstatus, hcourse⟩ := htold
    exact ⟨more, ⟨⟨entries, hmove.journal, hmove.index, hnotices⟩, hstatus, hothers⟩, hcourse⟩
  cases hmove with
  | skipped =>
      refine ⟨[.skipped], rfl, StatusTable.get_publish hi _, ?_⟩
      rintro course rfl
      show _ ∈ Status.courses false
      decide
  | entered =>
      refine ⟨[.building], rfl, StatusTable.get_publish hi _, ?_⟩
      rintro course rfl
      rfl
  | closed result =>
      refine ⟨[verdict result], ?_, get_closed _ hi result, ?_⟩
      · rw [List.flatMap_singleton, Entry.notices_of_terminal i (verdict_isTerminal result)]
        rfl
      · rintro course rfl
        exact verdict_course result
  | rested record => exact ⟨[], rfl, rfl, fun course h => (List.append_nil course).symm ▸ h⟩
  | _ => exact ⟨[], rfl, rfl, fun _ => hstays⟩

end Stage

/-- **A crew tells a whole course of each of its projects**, and nothing of the
    others. -/
theorem Crew.work_tells [FileSystem σ] (w : Workplace σ) {stale : List Nat}
    (hnodup : stale.Nodup) (turns : List Turn) {run : Run σ}
    (hlt : ∀ i ∈ stale, i < run.statuses.size) (htells : ∀ i ∈ stale, run.Tells i [.stale]) :
    (∀ j course, j ∉ stale → run.Tells j course →
      (work w stale turns run).2.Tells j course) ∧
      ∀ i ∈ stale, ∃ course ∈ Status.courses false,
        (work w stale turns run).2.Tells i course := by
  have h := work_local w turns run
    (G := fun run' => run'.statuses.size = run.statuses.size ∧
      ∀ j course, j ∉ stale → run.Tells j course → run'.Tells j course)
    (I := fun i stage run' => ∃ course, stage.Course course ∧ run'.Tells i course) hnodup ?_ ?_
    (fun _ _ h => ⟨h, fun _ _ h => h⟩) ⟨rfl, fun _ _ _ h => h⟩ ?_
  · refine ⟨h.1.2, fun i hi => ?_⟩
    rw [← work_indices w stale turns run] at hi
    obtain ⟨worker, hworker, rfl⟩ := List.mem_map.mp hi
    obtain ⟨record, hfinished⟩ := work_finished w stale turns run worker hworker
    obtain ⟨course, hcourse, htold⟩ := h.2 worker hworker
    rw [hfinished] at hcourse
    exact ⟨course, hcourse, htold⟩
  · rintro i hi stage run' ⟨hsize, hothers⟩ ⟨course, hcourse, htold⟩
    obtain ⟨more, hgoes, hmore⟩ := Stage.step_goes w stage run' (hsize ▸ hlt i hi)
    refine ⟨⟨(Stage.step_size w i stage run').trans hsize, ?_⟩,
      course ++ more, hmore course hcourse, hgoes.tells htold⟩
    intro j course' hj htold'
    exact hgoes.tells_ne (fun heq => hj (heq ▸ hi)) (hothers j course' hj htold')
  · -- a step of one worker tells nothing of the project of another
    rintro i hi j hj hij stage other run' ⟨hsize, -⟩ - ⟨course, hcourse, htold⟩
    obtain ⟨more, hgoes, -⟩ := Stage.step_goes w stage run' (hsize ▸ hlt i hi)
    exact ⟨course, hcourse, hgoes.tells_ne hij.symm htold⟩
  · exact fun i hi => ⟨[.stale], rfl, htells i hi⟩

namespace Progress

/-! ## Decisions -/

section
variable [FileSystem σ]

/-- A decision begins the course of its project. -/
theorem decide_goes (g : Graph) (options : BuildOptions) {s : Progress σ} {i : Nat}
    (hi : i < s.run.statuses.size) :
    Run.Goes s.run (decide g options s i).run i [(ruling options (ground g s i)).1] := by
  rw [decide_run]
  rcases ruling_cases options (ground g s i) with h | h | ⟨h, -⟩
  · rw [h]
    exact Run.goes_finish _ hi rfl
  · rw [h]
    exact Run.goes_publish hi rfl rfl
  · rw [h]
    exact Run.goes_finish _ hi rfl

/-- **The decisions of a level** begin the courses of its projects. -/
theorem decideEach_tells (g : Graph) (options : BuildOptions) {level : List Nat}
    (hnodup : level.Nodup) (s : Progress σ) (hlt : ∀ i ∈ level, i < s.run.statuses.size)
    (htells : ∀ i ∈ level, s.run.Tells i []) (interruptions : List Bool) :
    (∀ j course, j ∉ level → s.run.Tells j course →
      (decideEach g options s interruptions level).run.Tells j course) ∧
      ∀ i ∈ level, ∃ status, (status = .skipped ∨ status = .stale ∨ status = .upToDate) ∧
        (decideEach g options s interruptions level).run.Tells i [status] := by
  have h := decideEach_induct_nodup g options s interruptions hnodup
    (P := fun front s' => s'.run.statuses.size = s.run.statuses.size ∧
      (∀ j course, j ∉ front → s.run.Tells j course → s'.run.Tells j course) ∧
      ∀ i ∈ front, ∃ status : Status,
        (status = .skipped ∨ status = .stale ∨ status = .upToDate) ∧ s'.run.Tells i [status])
    (fun _ _ _ h => h) ?_ ⟨rfl, fun _ _ _ h => h, fun i hi => nomatch hi⟩
  · exact h.2
  · rintro front i s' hi hself - ⟨hsize, hothers, hfront⟩
    have hfresh : ∀ j ∈ front, j ≠ i := fun j hj heq => hself (heq ▸ hj)
    have hgoes := decide_goes g options (s := s') (i := i) (hsize ▸ hlt i hi)
    refine ⟨?_, ?_, ?_⟩
    · rw [decide_statuses, StatusTable.size_publish]
      exact hsize
    · intro j course hj htold
      rw [List.mem_append, List.mem_singleton, not_or] at hj
      exact hgoes.tells_ne hj.2 (hothers j course hj.1 htold)
    · intro j hj
      rcases List.mem_append.mp hj with hj | hj
      · obtain ⟨status, hstatus, htold⟩ := hfront j hj
        exact ⟨status, hstatus, hgoes.tells_ne (hfresh j hj) htold⟩
      · rw [List.mem_singleton.mp hj]
        refine ⟨_, ?_, hgoes.tells (hothers i [] hself (htells i hi))⟩
        exact (ruling_cases options (ground g s' i)).imp_right (Or.imp_right And.left)

end

section
variable [FileSystem σ] {g : Graph} {options : BuildOptions}

/-! ## Levels -/

/-- A project that a course has led to being rebuilt is found so by its
    dependents. -/
theorem course_isRebuild {course : List Status} (h : course ∈ Status.courses options.dryRun)
    (hrebuild : (course.getLast?.getD .unknown).isRebuild = true) :
    course.getLast?.getD .unknown = rebuiltStatus options := by
  unfold rebuiltStatus
  revert course
  cases options.dryRun <;> decide

/-- A run before the level `n`: earlier projects have gone through a whole
    course, with a reason that agrees, and of the others nothing has been
    told. -/
structure Proceeds (g : Graph) (options : BuildOptions) (n : Nat) (s : Progress σ) : Prop where
  size : s.run.statuses.size = g.size
  reasons : s.reasons.length = g.size
  ahead : ∀ i, (i < g.size → n ≤ g.levelOf i) → s.run.Tells i []
  told : ∀ i < g.size, g.levelOf i < n →
    ∃ course ∈ Status.courses options.dryRun, s.run.Tells i course
  agrees : ∀ i < g.size, g.levelOf i < n →
    Agrees g options s.run.statuses.get s.reasonOf i

/-- A run in which the decisions of the level `n` have been made, and its crew has
    not set to work. -/
structure Judged (g : Graph) (options : BuildOptions) (n : Nat) (s : Progress σ) : Prop where
  size : s.run.statuses.size = g.size
  reasons : s.reasons.length = g.size
  ahead : ∀ i, (i < g.size → n < g.levelOf i) → s.run.Tells i []
  told : ∀ i < g.size, g.levelOf i < n →
    ∃ course ∈ Status.courses options.dryRun, s.run.Tells i course
  begun : ∀ i < g.size, g.levelOf i = n →
    ∃ status, (status = .skipped ∨ status = .stale ∨ status = .upToDate) ∧ s.run.Tells i [status]
  agrees : ∀ i < g.size, g.levelOf i ≤ n →
    Agrees g options s.run.statuses.get s.reasonOf i
  calling : ∀ i < g.size, g.levelOf i = n → s.run.statuses.get i = .stale →
    calls (s.reasonOf i) = true

/-- **The decisions of a level** agree with their reasons, and leave those before
    as they were. -/
theorem Proceeds.judged (hg : g.WellFormed) {n : Nat} (hn : n < g.levels.length)
    (interruptions : List Bool) {s : Progress σ} (h : s.Proceeds g options n) :
    (decideEach g options s interruptions g.levels[n]).Judged g options n := by
  have hmem : ∀ {k}, k ∈ g.levels[n] ↔ k < g.size ∧ g.levelOf k = n :=
    Graph.mem_levels_getElem hn
  have hnodup := Graph.levels_getElem_nodup hn
  have hlt : ∀ i ∈ g.levels[n], i < s.run.statuses.size :=
    fun i hi => h.size.symm ▸ (hmem.mp hi).1
  have hopened := (decideEach_spec g options hnodup s hlt interruptions).1
  have hreasoned := decideEach_reasons g options hnodup s hlt
    (fun i hi => h.reasons.symm ▸ (hmem.mp hi).1) interruptions
  have htold := decideEach_tells g options hnodup s hlt
    (fun i hi => h.ahead i fun _ => Nat.le_of_eq (hmem.mp hi).2.symm) interruptions
  generalize decideEach g options s interruptions g.levels[n] = s' at hopened hreasoned htold ⊢
  -- references lie on lower levels, whose statuses and reasons stand
  have hagrees : ∀ i ∈ g.levels[n], Agrees g options s'.run.statuses.get s'.reasonOf i ∧
      (s'.run.statuses.get i = .stale → calls (s'.reasonOf i) = true) := by
    intro i hi
    have hbelow : ∀ j ∈ g.dependencies i, g.levelOf j < n ∧ j ∉ g.levels[n] :=
      fun j hj => Graph.dependency_before hg hn (Nat.le_of_eq (hmem.mp hi).2) hj
    refine (hreasoned.ruled i hi).agrees ?_ ?_
    · exact fun j hj => ⟨(hbelow j hj).2, hopened.others j (hbelow j hj).2⟩
    · intro j hj hrebuild
      obtain ⟨course, hcourse, -, hstatus⟩ := h.told j (hg.dependency_lt hj).2 (hbelow j hj).1
      rw [hstatus] at hrebuild ⊢
      exact course_isRebuild hcourse hrebuild
  constructor
  case size => exact hopened.size.trans h.size
  case reasons => exact hreasoned.length.trans h.reasons
  case ahead =>
    intro i hi
    refine htold.1 i [] (fun hpart => ?_) (h.ahead i fun hsize => Nat.le_of_lt (hi hsize))
    exact Nat.ne_of_gt (hi (hmem.mp hpart).1) (hmem.mp hpart).2
  case told =>
    intro i hi hlevel
    obtain ⟨course, hcourse, ht⟩ := h.told i hi hlevel
    have hpart := Graph.not_mem_levels_getElem hn (Nat.ne_of_lt hlevel)
    exact ⟨course, hcourse, htold.1 i course hpart ht⟩
  case begun => exact fun i hi hlevel => htold.2 i (hmem.mpr ⟨hi, hlevel⟩)
  case agrees =>
    intro i hi hlevel
    rcases Graph.levelOf_cases hn hi (Nat.lt_succ_of_le hlevel) with ⟨hbefore, hpart⟩ | hpart
    · exact (h.agrees i hi hbefore).congr (hopened.others i hpart) (hreasoned.others i hpart)
        fun j hj => hopened.others j (Graph.dependency_before hg hn hlevel hj).2
    · exact (hagrees i hpart).1
  case calling => exact fun i hi hlevel => (hagrees i (hmem.mpr ⟨hi, hlevel⟩)).2

omit [FileSystem σ] in
/-- In a dry run the decisions are all. -/
theorem Judged.planned (hdry : options.dryRun = true) {n : Nat} {s : Progress σ}
    (h : s.Judged g options n) : s.Proceeds g options (n + 1) := by
  refine ⟨h.size, h.reasons, h.ahead, ?_,
    fun i hi hlevel => h.agrees i hi (Nat.le_of_lt_succ hlevel)⟩
  intro i hi hlevel
  rcases Nat.lt_succ_iff_lt_or_eq.mp hlevel with hlevel | hlevel
  · exact h.told i hi hlevel
  · obtain ⟨status, hstatus, ht⟩ := h.begun i hi hlevel
    refine ⟨[status], ?_, ht⟩
    rw [hdry]
    rcases hstatus with rfl | rfl | rfl <;> decide

/-- **The crew of a level** takes the stale projects to the end of their courses. -/
theorem Judged.built (hg : g.WellFormed) (hdry : options.dryRun = false) (compiler : Compiler σ)
    {n : Nat} (hn : n < g.levels.length) (turns : List Turn) {s : Progress σ}
    (h : s.Judged g options n) :
    (build g compiler turns s g.levels[n]).Proceeds g options (n + 1) := by
  have hnodup := stale_nodup (Graph.levels_getElem_nodup hn) s
  have hstale : ∀ i ∈ s.stale g.levels[n], i < g.size ∧ g.levelOf i = n := by
    intro i hi
    exact (Graph.mem_levels_getElem hn).mp (mem_stale.mp hi).1
  have hlt : ∀ i ∈ s.stale g.levels[n], i < s.run.statuses.size :=
    fun i hi => h.size.symm ▸ (hstale i hi).1
  have hopen : ∀ i ∈ s.stale g.levels[n], s.run.Tells i [.stale] := by
    intro i hi
    obtain ⟨status, -, ht⟩ := h.begun i (hstale i hi).1 (hstale i hi).2
    obtain rfl : status = .stale := ht.2.symm.trans (mem_stale.mp hi).2
    exact ht
  have hwork := Crew.work_tells ⟨g, compiler, s.records⟩ hnodup turns hlt hopen
  have hstatuses := Crew.work_statuses ⟨g, compiler, s.records⟩ hnodup turns s.run hlt
    (fun i hi => (mem_stale.mp hi).2)
  rw [← build_run] at hwork hstatuses
  have hreason := fun {j} (hj : j < g.size) => reasonOf_build g compiler turns
    (s := s) g.levels[n] (j := j) (h.reasons.symm ▸ hj)
  have hlength := build_reasons_length g compiler turns s g.levels[n]
  generalize build g compiler turns s g.levels[n] = s' at hwork hstatuses hreason hlength ⊢
  constructor
  case size => exact hstatuses.1.trans h.size
  case reasons => exact hlength.trans h.reasons
  case ahead =>
    intro i hi
    refine hwork.1 i [] (fun hmem => ?_) (h.ahead i hi)
    exact Nat.ne_of_gt (hi (hstale i hmem).1) (hstale i hmem).2
  case told =>
    intro i hi hlevel
    by_cases hmem : i ∈ s.stale g.levels[n]
    · rw [hdry]
      exact hwork.2 i hmem
    · rcases Nat.lt_succ_iff_lt_or_eq.mp hlevel with hlevel | hlevel
      · obtain ⟨course, hcourse, ht⟩ := h.told i hi hlevel
        exact ⟨course, hcourse, hwork.1 i course hmem ht⟩
      · -- what the crew does not build has been decided for good
        obtain ⟨status, hstatus, ht⟩ := h.begun i hi hlevel
        refine ⟨[status], ?_, hwork.1 i [status] hmem ht⟩
        rw [hdry]
        rcases hstatus with rfl | rfl | rfl
        · decide
        · have hpart := (Graph.mem_levels_getElem hn).mpr ⟨hi, hlevel⟩
          exact absurd (mem_stale.mpr ⟨hpart, ht.2⟩) hmem
        · decide
  case agrees =>
    intro i hi hlevel
    have hle := Nat.le_of_lt_succ hlevel
    have hreferences : ∀ j ∈ g.dependencies i,
        s'.run.statuses.get j = s.run.statuses.get j := by
      intro j hj
      refine hstatuses.2.1 j fun hmem => ?_
      exact (Graph.dependency_before hg hn hle hj).2 (mem_stale.mp hmem).1
    -- a worker ends its project for the reason that called for it, unless it gives up
    by_cases hmem : i ∈ s.stale g.levels[n]
    · have hcalls := h.calling i hi (hstale i hmem).2 (mem_stale.mp hmem).2
      refine (h.agrees i hi hle).ended hcalls hreferences ?_
      rw [hreason hi]
      obtain ⟨worker, -, -, ⟨record, -, hbuilt⟩ | ⟨-, hfailed | hskipped⟩⟩ :=
        hstatuses.2.2 i hmem
      · refine Or.inr ⟨Or.inl hbuilt, if_neg fun hskipped => ?_⟩
        exact nomatch hbuilt.symm.trans hskipped.1
      · refine Or.inr ⟨Or.inr hfailed, if_neg fun hskipped => ?_⟩
        exact nomatch hfailed.symm.trans hskipped.1
      · exact Or.inl ⟨hskipped, if_pos ⟨hskipped, hmem⟩⟩
    · refine (h.agrees i hi hle).congr (hstatuses.2.1 i hmem) ?_ hreferences
      rw [hreason hi, if_neg fun hskipped => hmem hskipped.2]

/-- **One level**, whatever its workers and cancellations do. -/
theorem Proceeds.level (hg : g.WellFormed) (compiler : Compiler σ) {n : Nat}
    (hn : n < g.levels.length) (schedule : LevelSchedule) {s : Progress σ}
    (h : s.Proceeds g options n) :
    (Progress.level g options compiler schedule s g.levels[n]).Proceeds g options (n + 1) := by
  have hjudged := h.judged hg hn schedule.interruptions
  by_cases hdry : options.dryRun = true
  · unfold Progress.level
    rw [if_pos hdry]
    exact hjudged.planned hdry
  · rw [Bool.not_eq_true] at hdry
    rw [level_eq hdry]
    exact hjudged.built hg hdry compiler hn schedule.turns

theorem start_proceeds (site : Site σ) (g : Graph) :
    (Progress.start site g).Proceeds g options 0 := by
  refine ⟨StatusTable.size_ofSize g.size, start_reasons_length site g, fun i _ => ⟨rfl, ?_⟩,
    fun _ _ hlevel => absurd hlevel (Nat.not_lt_zero _),
    fun _ _ hlevel => absurd hlevel (Nat.not_lt_zero _)⟩
  exact StatusTable.get_ofSize g.size i

end

end Progress

/-! ## The whole run -/

/-- A list falls apart into the parts of its keys. -/
theorem perm_flatMap_filter {α : Type} (key : α → Nat) (keys : List Nat) (hnodup : keys.Nodup)
    (xs : List α) (hkeys : ∀ x ∈ xs, key x ∈ keys) :
    xs.Perm (keys.flatMap fun k => xs.filter fun x => key x == k) := by
  induction keys generalizing xs with
  | nil =>
      have hnil : xs = [] := List.eq_nil_iff_forall_not_mem.mpr fun x hx => nomatch hkeys x hx
      rw [hnil]
      exact List.Perm.refl _
  | cons k rest ih =>
      obtain ⟨hk, hrest⟩ := List.nodup_cons.mp hnodup
      have hothers := ih hrest (xs.filter fun x => !(key x == k)) (by
        intro x hx
        obtain ⟨hmem, hne⟩ := List.mem_filter.mp hx
        refine (List.mem_cons.mp (hkeys x hmem)).resolve_left fun heq => ?_
        rw [heq, beq_self_eq_true] at hne
        exact nomatch hne)
      have hsame : (rest.flatMap fun j => (xs.filter fun x => !(key x == k)).filter
          fun x => key x == j) = rest.flatMap fun j => xs.filter fun x => key x == j := by
        refine List.flatMap_congr fun j hj => ?_
        rw [List.filter_filter]
        refine List.filter_congr fun x _ => ?_
        by_cases hx : key x = j
        · have hne : (key x == k) = false := beq_false_of_ne fun heq => hk (heq.symm.trans hx ▸ hj)
          rw [hne, Bool.not_false, Bool.and_true]
        · rw [beq_false_of_ne hx, Bool.false_and]
      rw [List.flatMap_cons, ← hsame]
      exact (List.filter_append_perm (fun x => key x == k) xs).symm.trans
        (List.Perm.append_left _ hothers)

namespace Run

/-- What is told of a project in a whole run.  It goes through one of the
    courses, which ends with its final status; no status before that is
    terminal, and without a dry run the last one is.  Its events are that it
    was started, if it got so far, and then that it finished, if it did. -/
structure Follows (g : Graph) (options : BuildOptions) (run : Run σ) (i : Nat) : Prop where
  course : run.publishedOf i ∈ Status.courses options.dryRun
  final : (run.publishedOf i).getLast? = some (run.statuses.get i)
  before : ∀ status ∈ (run.publishedOf i).dropLast, status.isTerminal = false
  ended : options.dryRun = false → (run.statuses.get i).isTerminal = true
  events : run.eventsOf g i =
    (if .building ∈ run.publishedOf i then [.started (g.node i).configPath] else []) ++
      if (run.statuses.get i).isTerminal
        then [.finished (g.node i).configPath (run.statuses.get i)] else []

/-- What is told of a project is what has been published of it. -/
theorem Tells.publishedOf_eq {run : Run σ} {i : Nat} {course : List Status}
    (h : run.Tells i course) : run.publishedOf i = course := by
  have hone : ∀ status, (Entry.notices i status).filterMap Entry.status? = [status] := by
    intro status
    cases status <;> rfl
  unfold publishedOf
  rw [h.1]
  clear h
  induction course with
  | nil => rfl
  | cons status rest ih =>
      rw [List.flatMap_cons, List.filterMap_append, hone, ih]
      rfl

/-- The courses, as they are. -/
theorem courses_spec (dryRun : Bool) : ∀ course ∈ Status.courses dryRun,
    (∀ status ∈ course.dropLast, status.isTerminal = false) ∧
      course.getLast? = some (course.getLast?.getD .unknown) ∧
      (dryRun = false → (course.getLast?.getD .unknown).isTerminal = true) := by
  cases dryRun <;> decide

/-- **What is told of a project follows the protocol.** -/
theorem Tells.follows {g : Graph} {options : BuildOptions} {run : Run σ} {i : Nat}
    {course : List Status} (hcourse : course ∈ Status.courses options.dryRun)
    (h : run.Tells i course) : run.Follows g options i := by
  obtain ⟨hbefore, hfinal, hended⟩ := courses_spec options.dryRun course hcourse
  have hevents : run.eventsOf g i =
      (if .building ∈ course then [.started (g.node i).configPath] else []) ++
        if (course.getLast?.getD .unknown).isTerminal
          then [.finished (g.node i).configPath (course.getLast?.getD .unknown)] else [] := by
    unfold eventsOf Run.events
    rw [h.1]
    cases hdry : options.dryRun with
    | true =>
        rw [hdry] at hcourse
        simp only [Status.courses, if_true, List.mem_cons, List.not_mem_nil, or_false] at hcourse
        rcases hcourse with rfl | rfl | rfl <;> rfl
    | false =>
        rw [hdry] at hcourse
        simp only [Status.courses, Bool.false_eq_true, if_false, List.mem_cons, List.not_mem_nil,
          or_false] at hcourse
        rcases hcourse with rfl | rfl | rfl | rfl | rfl | rfl <;> rfl
  rw [← h.2, ← h.publishedOf_eq] at hevents
  rw [← h.2] at hfinal hended
  rw [← h.publishedOf_eq] at hcourse hbefore hfinal
  exact ⟨hcourse, hfinal, hbefore, hended, hevents⟩

/-- **The events of a run are those of its projects**, if nothing is told of
    others. -/
theorem events_perm (g : Graph) {run : Run σ} (hothers : ∀ i, g.size ≤ i → run.noticesOf i = []) :
    (run.events g).Perm (g.indices.flatMap (run.eventsOf g)) := by
  have hnotices : run.events g = events g { run with journal := run.journal.filter Entry.isNotice }
      := by
    unfold events
    rw [List.filterMap_filter]
    congr 1
    funext entry
    cases entry <;> rfl
  have hperm := perm_flatMap_filter Entry.index g.indices List.nodup_range
    (run.journal.filter Entry.isNotice) ?_
  · rw [hnotices]
    refine (hperm.filterMap _).trans ?_
    rw [List.filterMap_flatMap]
    exact List.Perm.refl _
  · intro entry hentry
    rw [Graph.indices, List.mem_range]
    by_contra hge
    have hnone := hothers entry.index (Nat.le_of_not_lt hge)
    have hmem : entry ∈ run.noticesOf entry.index :=
      List.mem_filter.mpr ⟨hentry, beq_self_eq_true _⟩
    rw [hnone] at hmem
    cases hmem

end Run

/-- **The protocol of a run**, whatever its options, compiler, interleaving and
    cancellations.  Every project follows one of the courses, with the events
    that belong to it, and these are all events of the run.  The report lists
    every project once, level by level, with its final status and a reason
    that agrees with it. -/
theorem buildGraph_protocol [FileSystem σ] {g : Graph} (hg : g.WellFormed)
    (options : BuildOptions) (compiler : Compiler σ) (schedules : List LevelSchedule)
    (site : Site σ) :
    let result := buildGraph options compiler schedules g site
    (∀ i < g.size, result.2.Follows g options i) ∧
      (result.2.events g).Perm (g.indices.flatMap (result.2.eventsOf g)) ∧
      g.levels.flatten.Perm g.indices ∧
      (g.levels.flatten.Pairwise fun i j => g.levelOf i ≤ g.levelOf j) ∧
      ∃ reason : Nat → Reason,
        result.1.projects = (g.levels.flatten.map fun i => {
          project := (g.node i).configPath
          status := result.2.statuses.get i
          reason := reason i
          level := g.levelOf i }) ∧
        ∀ i < g.size, Progress.Agrees g options result.2.statuses.get reason i := by
  intro result
  have h := Progress.levels_induct g options compiler (Progress.start site g) schedules g.levels
    (P := fun n s => s.Proceeds g options n)
    (fun n hn schedule s _ h => h.level hg compiler hn schedule)
    (Progress.start_proceeds site g)
  have hlast : ∀ i < g.size, g.levelOf i < g.levels.length := fun i hi => Graph.levelOf_lt_length hi
  refine ⟨fun i hi => ?_, Run.events_perm g fun i hi => ?_, g.levels_flatten_perm,
    g.levels_flatten_pairwise, _, Progress.report_projects g options _,
    fun i hi => h.agrees i hi (hlast i hi)⟩
  · obtain ⟨course, hcourse, htold⟩ := h.told i hi (hlast i hi)
    exact Run.Tells.follows hcourse htold
  · exact (h.ahead i fun hlt => absurd hlt (Nat.not_lt.mpr hi)).1

/-- What is told of two projects of which the second references the first. -/
theorem buildGraph_protocol_pair :
    let result := buildGraph {} (CompileScript.compiler {}) [] Progress.barePair
      (⟨{}, false, []⟩ : Site MemoryFs)
    result.2.publishedOf 1 = [.stale, .building, .built] ∧
      result.2.Follows Progress.barePair {} 1 := by
  have hwell : Progress.barePair.WellFormed := ⟨⟨by decide, by decide⟩, by decide⟩
  have hsize : 1 < Progress.barePair.size := by decide
  have h := buildGraph_protocol (σ := MemoryFs) hwell {} (CompileScript.compiler {}) []
    ⟨{}, false, []⟩
  dsimp only at h ⊢
  refine ⟨?_, h.1 1 hsize⟩
  decide +kernel

end ProjectBuild
