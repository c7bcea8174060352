import ProjectBuild.Proofs.Graph.Level
import ProjectBuild.Proofs.Run.Footprint

/-! # Moments of a run

    A run can be looked at, or break off, between any two steps.  Up to such a
    moment some levels have been completed; of the next one the projects have
    been decided on, and its crew has taken some turns (`Progress.moment`).
    Turns are all that ever happens to a crew: completing the workers one after
    the other is taking more of them (`Crew.work_eq_interleave`).  So the
    moments of all schedules are all moments of all runs, and what holds of
    every moment holds whenever a run is interrupted. -/

namespace ProjectBuild

open Staleness (recordOf? Records)

variable {σ : Type} [FileSystem σ]

/-! ## Completing is taking turns -/

omit [FileSystem σ] in
/-- The number of steps of a job, when nobody disturbs it. -/
def Job.length : Job σ → Site σ → Nat
  | .done _, _ => 0
  | .step effect next, s => (next s).length (effect s) + 1

namespace Stage

theorem steps_add (w : Workplace σ) (i m n : Nat) (stage : Stage σ) (run : Run σ) :
    steps w i (m + n) stage run
      = steps w i n (steps w i m stage run).1 (steps w i m stage run).2 := by
  induction m generalizing stage run with
  | zero => rw [Nat.zero_add]; rfl
  | succ m ih => rw [Nat.succ_add, steps_succ, ih, steps_succ]

/-- The number of steps that `settle` takes. -/
def settling (run : Run σ) : Stage σ → Nat
  | compiling job => job.length run.site
  | _ => 0

/-- Settling is a number of steps. -/
theorem settle_eq_steps (w : Workplace σ) (i : Nat) (stage : Stage σ) (run : Run σ) :
    stage.settle run = steps w i (stage.settling run) stage run := by
  cases stage with
  | compiling job =>
      induction job generalizing run with
      | done result => rfl
      | step effect next ih => exact ih run.site { run with site := effect run.site }
  | waiting => rfl
  | started => rfl
  | returned => rfl
  | recorded record => rfl
  | closing result => rfl
  | finished record => rfl

/-- The number of steps that `complete` takes. -/
def remaining (w : Workplace σ) (i : Nat) (stage : Stage σ) (run : Run σ) : Nat :=
  2 + (steps w i 2 stage run).1.settling (steps w i 2 stage run).2 + 4

/-- Finishing is a number of steps. -/
theorem complete_eq_steps (w : Workplace σ) (i : Nat) (stage : Stage σ) (run : Run σ) :
    stage.complete w i run = steps w i (stage.remaining w i run) stage run := by
  rw [complete_eq, settle_eq_steps w i, remaining, steps_add, steps_add]

end Stage

namespace Crew

theorem interleave_append (w : Workplace σ) (crew : Crew σ) (run : Run σ)
    (turns more : List Turn) :
    interleave w crew run (turns ++ more)
      = interleave w (interleave w crew run turns).1 (interleave w crew run turns).2 more := by
  induction turns generalizing crew run with
  | nil => rfl
  | cons turn turns ih =>
      cases turn with
      | worker place => exact ih _ _
      | cancel => exact ih _ _

/-- A turn moves the worker in its place, and no other. -/
theorem advance_at (w : Workplace σ) (front : Crew σ) (worker : Worker σ) (back : Crew σ)
    (run : Run σ) :
    advance w (front ++ worker :: back) run front.length
      = (front ++ moved w worker run :: back, (worker.stage.step w worker.index run).2) := by
  induction front with
  | nil => rfl
  | cons first front ih =>
      have hadvance : advance w (first :: (front ++ worker :: back)) run (front.length + 1)
          = (first :: (advance w (front ++ worker :: back) run front.length).1,
            (advance w (front ++ worker :: back) run front.length).2) := rfl
      rw [ih] at hadvance
      exact hadvance

/-- The turns of one member are its steps. -/
theorem interleave_replicate (w : Workplace σ) (front : Crew σ) (worker : Worker σ)
    (back : Crew σ) (run : Run σ) (n : Nat) :
    interleave w (front ++ worker :: back) run (List.replicate n (.worker front.length))
      = (front ++ { worker with stage := (worker.stage.steps w worker.index n run).1 } :: back,
        (worker.stage.steps w worker.index n run).2) := by
  induction n generalizing worker run with
  | zero => rfl
  | succ n ih =>
      rw [List.replicate_succ]
      show interleave w (advance w (front ++ worker :: back) run front.length).1
        (advance w (front ++ worker :: back) run front.length).2
        (List.replicate n (.worker front.length)) = _
      rw [advance_at, ih]
      rfl

/-- The turns in which a crew completes, from a place on. -/
def completion (w : Workplace σ) : Nat → Crew σ → Run σ → List Turn
  | _, [], _ => []
  | place, worker :: rest, run =>
    List.replicate (worker.stage.remaining w worker.index run) (.worker place)
      ++ completion w (place + 1) rest (worker.stage.complete w worker.index run).2

/-- **Finishing a crew is taking certain turns.** -/
theorem complete_eq_interleave (w : Workplace σ) (front crew : Crew σ) (run : Run σ) :
    (front ++ (complete w crew run).1, (complete w crew run).2)
      = interleave w (front ++ crew) run (completion w front.length crew run) := by
  induction crew generalizing front run with
  | nil => rfl
  | cons worker rest ih =>
      have hrest := ih (front ++ [{ worker with
        stage := (worker.stage.complete w worker.index run).1 }])
        (worker.stage.complete w worker.index run).2
      rw [List.append_assoc, List.append_assoc, List.length_append] at hrest
      rw [completion, interleave_append, interleave_replicate, ← Stage.complete_eq_steps]
      exact hrest

/-- All turns of a crew: those that are given, and those in which it completes. -/
def course (w : Workplace σ) (stale : List Nat) (turns : List Turn) (run : Run σ) : List Turn :=
  let (crew, run) := interleave w (stale.map fun i => { index := i }) run turns
  turns ++ completion w 0 crew run

/-- **The whole work of a crew is a sequence of turns**, which begins with the
    given ones. -/
theorem work_eq_interleave (w : Workplace σ) (stale : List Nat) (turns : List Turn)
    (run : Run σ) :
    work w stale turns run
      = interleave w (stale.map fun i => { index := i }) run (course w stale turns run) := by
  rw [course, interleave_append]
  exact complete_eq_interleave w [] _ _

end Crew

/-! ## Moments -/

/-- A crew, and what the run has come to. -/
structure Moment (σ : Type) where
  crew : Crew σ
  progress : Progress σ

namespace Moment

/-- What the workers of the crew share. -/
def workplace (m : Moment σ) (g : Graph) (compiler : Compiler σ) : Workplace σ :=
  ⟨g, compiler, m.progress.records⟩

end Moment

namespace Progress

/-- The run over the first `n` levels. -/
def reach (g : Graph) (options : BuildOptions) (compiler : Compiler σ) (site : Site σ)
    (schedules : List LevelSchedule) (n : Nat) : Progress σ :=
  levels g options compiler (start site g) schedules (g.levels.take n)

/-- The projects of the level `n`, decided on. -/
def opening (g : Graph) (options : BuildOptions) (compiler : Compiler σ) (site : Site σ)
    (schedules : List LevelSchedule) (n : Nat) : Progress σ :=
  decideEach g options (reach g options compiler site schedules n)
    (schedules.getD n {}).interruptions (g.levels.getD n [])

/-- The projects that the crew of the level `n` builds; none in a dry run. -/
def crewOf (g : Graph) (options : BuildOptions) (s : Progress σ) (n : Nat) : List Nat :=
  if options.dryRun then [] else s.stale (g.levels.getD n [])

/-- The moment of the level `n` at which its crew has taken the turns of its
    schedule, and no others. -/
def moment (g : Graph) (options : BuildOptions) (compiler : Compiler σ) (site : Site σ)
    (schedules : List LevelSchedule) (n : Nat) : Moment σ :=
  let s := opening g options compiler site schedules n
  let (crew, run) := Crew.interleave ⟨g, compiler, s.records⟩
    ((crewOf g options s n).map fun i => { index := i }) s.run (schedules.getD n {}).turns
  ⟨crew, { s with run := run }⟩

theorem levels_append (g : Graph) (options : BuildOptions) (compiler : Compiler σ)
    (s : Progress σ) (schedules : List LevelSchedule) (front back : List (List Nat)) :
    levels g options compiler s schedules (front ++ back)
      = levels g options compiler (levels g options compiler s schedules front)
          (schedules.drop front.length) back := by
  induction front generalizing s schedules with
  | nil => rfl
  | cons part front ih =>
      rw [List.length_cons, ← List.drop_tail]
      exact ih _ _

section
variable (g : Graph) (options : BuildOptions) (compiler : Compiler σ) (site : Site σ)
  (schedules : List LevelSchedule) (n : Nat)

/-- The run of a moment is where the turns have led the crew. -/
theorem moment_run :
    (moment g options compiler site schedules n).progress.run
      = (Crew.interleave ⟨g, compiler, (opening g options compiler site schedules n).records⟩
          ((crewOf g options (opening g options compiler site schedules n) n).map
            fun i => { index := i })
          (opening g options compiler site schedules n).run (schedules.getD n {}).turns).2 := rfl

theorem moment_records :
    (moment g options compiler site schedules n).progress.records
      = (opening g options compiler site schedules n).records := rfl

omit [FileSystem σ] in
/-- A project of the crew is one of its level that is stale, in a run that is
    no dry one. -/
theorem mem_crewOf {s : Progress σ} {i : Nat} (h : i ∈ crewOf g options s n) :
    options.dryRun = false ∧ i ∈ g.levels.getD n [] ∧ s.run.statuses.get i = .stale := by
  unfold crewOf at h
  by_cases hdry : options.dryRun = true
  · rw [if_pos hdry] at h
    exact nomatch h
  · rw [if_neg hdry] at h
    exact ⟨Bool.not_eq_true _ ▸ hdry, mem_stale.mp h⟩

omit [FileSystem σ] in
/-- No two workers of a crew have the same project. -/
theorem crewOf_nodup (s : Progress σ) : (crewOf g options s n).Nodup := by
  unfold crewOf
  split
  · exact List.nodup_nil
  · refine stale_nodup ?_ s
    by_cases hn : n < g.levels.length
    · rw [Graph.levels_getD hn]
      exact Graph.levels_getElem_nodup hn
    · rw [List.getD_eq_getElem?_getD, List.getElem?_eq_none (Nat.not_lt.mp hn)]
      exact List.nodup_nil

/-- What every level goes on with holds after any number of them. -/
theorem reach_induct {P : Nat → Progress σ → Prop}
    (hlevel : ∀ k (hk : k < g.levels.length), ∀ schedule s, P k s →
      P (k + 1) (level g options compiler schedule s g.levels[k]))
    (h : P 0 (start site g)) (hn : n ≤ g.levels.length) :
    P n (reach g options compiler site schedules n) := by
  have hlength : (g.levels.take n).length = n := List.length_take_of_le hn
  have hall := levels_induct g options compiler (start site g) schedules (g.levels.take n) (P := P)
    (fun k hk schedule s _ hs => by
      have hk' : k < g.levels.length := by omega
      have hget : (g.levels.take n)[k] = g.levels[k] := List.getElem_take
      rw [hget]
      exact hlevel k hk' schedule s hs) h
  rw [hlength] at hall
  exact hall

/-- A level opens when it has been decided on. -/
theorem opening_eq (hn : n < g.levels.length) :
    opening g options compiler site schedules n
      = decideEach g options (reach g options compiler site schedules n)
          (schedules.getD n {}).interruptions g.levels[n] := by
  unfold opening
  rw [Graph.levels_getD hn]

/-- The next level is reached when this one has been built. -/
theorem reach_succ (hn : n < g.levels.length) :
    reach g options compiler site schedules (n + 1)
      = level g options compiler (schedules.getD n {}) (reach g options compiler site schedules n)
          g.levels[n] := by
  have hlength : (g.levels.take n).length = n := List.length_take_of_le (Nat.le_of_lt hn)
  have hhead : (schedules.drop n).headD {} = schedules.getD n {} := by
    rw [List.headD_eq_head?_getD, List.head?_drop, List.getD_eq_getElem?_getD]
  unfold reach
  rw [List.take_add_one, List.getElem?_eq_getElem hn, levels_append, hlength, ← hhead]
  rfl

/-- When all levels are done, the run is at its end. -/
theorem reach_of_le (hn : g.levels.length ≤ n) :
    reach g options compiler site schedules n
      = levels g options compiler (start site g) schedules g.levels := by
  unfold reach
  rw [List.take_of_length_le hn]

end

end Progress

end ProjectBuild
