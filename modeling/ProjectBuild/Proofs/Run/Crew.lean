import Mathlib.Data.List.Basic
import ProjectBuild.Run.Crew

/-! # Crews at work

    A step of a worker is one of a few moves (`Stage.Move`), and what every move
    keeps is kept by every step (`Stage.step_moves`).

    What a crew does is a sequence of single steps of its workers, with
    cancellations in between, whatever the turns are: `Crew.work_induct` is
    induction along that sequence.  In the end every worker is finished
    (`Crew.work_finished`).

    Most invariants concern one worker at a time.  `Crew.work_local` asks for
    two facts about single steps, that a worker's step keeps its own
    invariant and that it keeps the invariants of the others, and carries
    them through the whole work of a crew. -/

namespace ProjectBuild

/-- The project that an entry is about. -/
def Entry.index : Entry → Nat
  | published i _ => i
  | started i => i
  | cleared i => i
  | handed i => i
  | returned i _ => i
  | captured i _ => i
  | finished i _ => i

variable {σ : Type} [FileSystem σ]

/-! ## One worker -/

namespace Stage

/-- **What a step of a worker can be**, with the entries that it makes in the
    journal.  Whatever is kept by every move is kept by every step
    (`step_moves`). -/
inductive Move (w : Workplace σ) (i : Nat) (run : Run σ) :
    Stage σ → List Entry → Stage σ × Run σ → Prop where
  /-- The run has been cancelled: the project is given up. -/
  | skipped (hcancelled : run.site.cancelled = true) :
      Move w i run waiting [.published i .skipped, .finished i .skipped]
        (finished none, run.finish i .skipped)
  | entered (hrunning : run.site.cancelled = false) :
      Move w i run waiting [.published i .building, .started i]
        (started, ((run.publish i .building).enter [.started i]).note
          [.log (.building (w.graph.node i).configPath)])
  /-- The old record cannot be removed: the project is not compiled. -/
  | kept {e : Error} {files : σ}
      (hremoved : BuildRecord.invalidate run.site.files (w.graph.node i) = (.error e, files)) :
      Move w i run started [.cleared i]
        (closing (.error e), (run.setFiles files).enter [.cleared i])
  | handed {existed : Bool} {files : σ}
      (hremoved : BuildRecord.invalidate run.site.files (w.graph.node i) = (.ok existed, files)) :
      Move w i run started [.cleared i, .handed i]
        (compiling (w.compiler w.graph i), (run.setFiles files).enter [.cleared i, .handed i])
  | worked (effect : Site σ → Site σ) (next : Site σ → Job σ) :
      Move w i run (compiling (.step effect next)) []
        (compiling (next run.site), { run with site := effect run.site })
  | succeeded (messages : List String) :
      Move w i run (compiling (.done (.ok messages))) [.returned i true]
        (returned, (run.diagnose (w.graph.node i).configPath messages).enter [.returned i true])
  | failed (e : Error) :
      Move w i run (compiling (.done (.error e))) [.returned i false]
        (closing (.error e), run.enter [.returned i false])
  | captured {r : BuildRecord}
      (hcaptured : r = BuildRecord.capture run.site.files (w.graph.node i)
        (referenceStamps w.graph w.records i)) :
      Move w i run returned [.captured i r] (recorded r, run.enter [.captured i r])
  | saved {r : BuildRecord} {result : Except Error Unit} {files : σ}
      (hsaved : BuildRecord.save run.site.files (w.graph.node i) r = (result, files)) :
      Move w i run (recorded r) [] (closing (result.map fun _ => r), run.setFiles files)
  | closed (result : Except Error BuildRecord) :
      Move w i run (closing result) [.published i (verdict result), .finished i (verdict result)]
        (finished (recordOf? result),
          (explain (w.graph.node i) run result).finish i (verdict result))
  | rested (record : Option BuildRecord) :
      Move w i run (finished record) [] (finished record, run)

/-- **Every step is a move.** -/
theorem step_moves (w : Workplace σ) (i : Nat) (stage : Stage σ) (run : Run σ) :
    ∃ entries, Move w i run stage entries (stage.step w i run) := by
  cases stage with
  | waiting =>
      show ∃ entries, Move w i run waiting entries (enter (w.graph.node i) i run)
      unfold enter
      cases hcancelled : run.site.cancelled with
      | true => exact ⟨_, .skipped hcancelled⟩
      | false => exact ⟨_, .entered hcancelled⟩
  | started =>
      show ∃ entries, Move w i run started entries (handOver w i run)
      unfold handOver
      rcases hremoved : BuildRecord.invalidate run.site.files (w.graph.node i) with
        ⟨result, files⟩
      cases result with
      | ok existed => exact ⟨_, .handed hremoved⟩
      | error e => exact ⟨_, .kept hremoved⟩
  | compiling job =>
      cases job with
      | done result =>
          cases result with
          | ok messages => exact ⟨_, .succeeded messages⟩
          | error e => exact ⟨_, .failed e⟩
      | step effect next => exact ⟨_, .worked effect next⟩
  | returned => exact ⟨_, .captured rfl⟩
  | recorded r => exact ⟨_, .saved rfl⟩
  | closing result => exact ⟨_, .closed result⟩
  | finished record => exact ⟨_, .rested record⟩

theorem steps_succ (w : Workplace σ) (i n : Nat) (stage : Stage σ) (run : Run σ) :
    steps w i (n + 1) stage run
      = steps w i n (stage.step w i run).1 (stage.step w i run).2 := rfl

/-- What each step keeps, several steps keep. -/
theorem steps_induct {w : Workplace σ} {i : Nat} {P : Stage σ → Run σ → Prop}
    (hstep : ∀ stage run, P stage run →
      P (stage.step w i run).1 (stage.step w i run).2)
    (n : Nat) {stage : Stage σ} {run : Run σ} (h : P stage run) :
    P (steps w i n stage run).1 (steps w i n stage run).2 := by
  induction n generalizing stage run with
  | zero => exact h
  | succ n ih =>
      rw [steps_succ]
      exact ih (hstep stage run h)

/-- What each step keeps, running a job to its last step keeps. -/
theorem settle_induct {w : Workplace σ} {i : Nat} {P : Stage σ → Run σ → Prop}
    (hstep : ∀ stage run, P stage run →
      P (stage.step w i run).1 (stage.step w i run).2)
    {stage : Stage σ} {run : Run σ} (h : P stage run) :
    P (stage.settle run).1 (stage.settle run).2 := by
  cases stage with
  | compiling job =>
      induction job generalizing run with
      | done result => exact h
      | step effect next ih =>
          exact ih run.site (hstep (.compiling (.step effect next)) run h)
  | waiting => exact h
  | started => exact h
  | returned => exact h
  | recorded record => exact h
  | closing result => exact h
  | finished record => exact h

theorem complete_eq (w : Workplace σ) (i : Nat) (stage : Stage σ) (run : Run σ) :
    stage.complete w i run
      = steps w i 4
          ((steps w i 2 stage run).1.settle (steps w i 2 stage run).2).1
          ((steps w i 2 stage run).1.settle (steps w i 2 stage run).2).2 := rfl

/-- What single steps keep up is kept up while a worker finishes. -/
theorem complete_induct {w : Workplace σ} {i : Nat} {P : Stage σ → Run σ → Prop}
    (hstep : ∀ stage run, P stage run →
      P (stage.step w i run).1 (stage.step w i run).2)
    {stage : Stage σ} {run : Run σ} (h : P stage run) :
    P (stage.complete w i run).1 (stage.complete w i run).2 := by
  rw [complete_eq]
  exact steps_induct hstep 4 (settle_induct hstep (steps_induct hstep 2 h))

/-- The number of steps that are left, with a compile at its last step. -/
def left : Stage σ → Nat
  | waiting => 6
  | started => 5
  | compiling _ => 4
  | returned => 3
  | recorded _ => 2
  | closing _ => 1
  | finished _ => 0

omit [FileSystem σ] in
/-- A worker has six steps to go at most. -/
theorem left_le (stage : Stage σ) : stage.left ≤ 6 := by
  cases stage with
  | waiting => exact Nat.le_refl 6
  | started => exact Nat.le_succ 5
  | compiling job => exact (by decide : 4 ≤ 6)
  | returned => exact (by decide : 3 ≤ 6)
  | recorded record => exact (by decide : 2 ≤ 6)
  | closing result => exact (by decide : 1 ≤ 6)
  | finished record => exact Nat.zero_le 6

omit [FileSystem σ] in
/-- Nothing is left for a finished worker only. -/
theorem finished_of_left {stage : Stage σ} (h : stage.left = 0) :
    ∃ record, stage = .finished record := by
  cases stage with
  | waiting => exact absurd h (by decide : ¬ 6 = 0)
  | started => exact absurd h (by decide : ¬ 5 = 0)
  | compiling job => exact absurd h (by decide : ¬ 4 = 0)
  | returned => exact absurd h (by decide : ¬ 3 = 0)
  | recorded record => exact absurd h (by decide : ¬ 2 = 0)
  | closing result => exact absurd h (by decide : ¬ 1 = 0)
  | finished record => exact ⟨record, rfl⟩

/-- Whether a step can be taken without a compile going on. -/
def Settled : Stage σ → Prop
  | compiling (.step _ _) => False
  | _ => True

omit [FileSystem σ] in
theorem settle_settled (stage : Stage σ) (run : Run σ) : (stage.settle run).1.Settled := by
  cases stage <;> exact True.intro

/-- A step that is not in the middle of a compile brings a worker nearer to
    its end. -/
theorem left_step (w : Workplace σ) (i : Nat) (stage : Stage σ) (run : Run σ)
    (h : stage.Settled) : (stage.step w i run).1.left ≤ stage.left - 1 := by
  obtain ⟨entries, hmove⟩ := step_moves w i stage run
  generalize stage.step w i run = next at hmove ⊢
  cases hmove with
  | worked effect next => exact h.elim
  | _ => simp [left]

/-- Once a compile is over, every stage that follows is settled. -/
theorem settled_step (w : Workplace σ) (i : Nat) (stage : Stage σ) (run : Run σ)
    (h : stage.Settled) (hleft : stage.left ≤ 4) : (stage.step w i run).1.Settled := by
  obtain ⟨entries, hmove⟩ := step_moves w i stage run
  generalize stage.step w i run = next at hmove ⊢
  cases hmove with
  | entered => exact absurd hleft (by decide : ¬ 6 ≤ 4)
  | handed => exact absurd hleft (by decide : ¬ 5 ≤ 4)
  | worked effect next => exact h.elim
  | _ => exact True.intro

/-- Each step leaves one less to go. -/
theorem left_steps (w : Workplace σ) (i n : Nat) (stage : Stage σ) (run : Run σ)
    (h : stage.Settled) (hleft : stage.left ≤ 4) :
    (steps w i n stage run).1.left ≤ stage.left - n := by
  induction n generalizing stage run with
  | zero => exact Nat.le_refl _
  | succ n ih =>
      rw [steps_succ]
      have h1 := left_step w i stage run h
      have h2 := ih (stage.step w i run).1 (stage.step w i run).2
        (settled_step w i stage run h hleft) (by omega)
      omega

/-- Two steps lead into the compile, or past it. -/
theorem left_steps_two (w : Workplace σ) (i : Nat) (stage : Stage σ) (run : Run σ) :
    (steps w i 2 stage run).1.left ≤ 4 := by
  have hone : ∀ (stage : Stage σ) (run : Run σ),
      (stage.step w i run).1.left ≤ max 4 (stage.left - 1) := by
    intro stage run
    by_cases hs : stage.Settled
    · exact Nat.le_trans (left_step w i stage run hs) (Nat.le_max_right _ _)
    · cases stage with
      | compiling job =>
          cases job with
          | done result => exact absurd True.intro hs
          | step effect next => exact Nat.le_refl 4
      | waiting => exact absurd True.intro hs
      | started => exact absurd True.intro hs
      | returned => exact absurd True.intro hs
      | recorded record => exact absurd True.intro hs
      | closing result => exact absurd True.intro hs
      | finished record => exact absurd True.intro hs
  have htop := stage.left_le
  have h1 := hone stage run
  have h2 := hone (stage.step w i run).1 (stage.step w i run).2
  show ((stage.step w i run).1.step w i (stage.step w i run).2).1.left ≤ 4
  omega

omit [FileSystem σ] in
theorem left_settle (stage : Stage σ) (run : Run σ) :
    (stage.settle run).1.left = stage.left := by
  cases stage <;> rfl

/-- **A worker that completes is finished.** -/
theorem complete_finished (w : Workplace σ) (i : Nat) (stage : Stage σ) (run : Run σ) :
    ∃ record, (stage.complete w i run).1 = .finished record := by
  have hleft : ((steps w i 2 stage run).1.settle (steps w i 2 stage run).2).1.left ≤ 4 := by
    rw [left_settle]
    exact left_steps_two w i stage run
  have hzero := left_steps w i 4 _ ((steps w i 2 stage run).1.settle
    (steps w i 2 stage run).2).2 (settle_settled _ _) hleft
  rw [complete_eq]
  exact finished_of_left (by omega)

end Stage

/-! ## A crew -/

namespace Crew

/-- A worker after one step of its own. -/
def moved (w : Workplace σ) (worker : Worker σ) (run : Run σ) : Worker σ :=
  { worker with stage := (worker.stage.step w worker.index run).1 }

/-- A turn of a worker is a step of some member of the crew, or nothing. -/
theorem advance_cases (w : Workplace σ) (crew : Crew σ) (run : Run σ) (place : Nat) :
    advance w crew run place = (crew, run) ∨
      ∃ front worker back, crew = front ++ worker :: back ∧
        advance w crew run place
          = (front ++ moved w worker run :: back, (worker.stage.step w worker.index run).2) := by
  induction crew generalizing place with
  | nil => exact Or.inl rfl
  | cons first rest ih =>
      cases place with
      | zero => exact Or.inr ⟨[], first, rest, rfl, rfl⟩
      | succ place =>
          have hadvance : advance w (first :: rest) run (place + 1)
              = (first :: (advance w rest run place).1, (advance w rest run place).2) := rfl
          rcases ih place with h | ⟨front, worker, back, hrest, h⟩
          · rw [hadvance, h]
            exact Or.inl rfl
          · refine Or.inr ⟨first :: front, worker, back, ?_, ?_⟩
            · rw [hrest]
              rfl
            · rw [hadvance, h]
              rfl

section induct

variable {w : Workplace σ} {P : Crew σ → Run σ → Prop}

/-- **What single steps keep up is kept up by any turns.** -/
theorem interleave_induct {turns : List Turn}
    (hstep : ∀ front worker back run, P (front ++ worker :: back) run →
      P (front ++ moved w worker run :: back) (worker.stage.step w worker.index run).2)
    (hcancel : Turn.cancel ∈ turns → ∀ crew run, P crew run → P crew run.cancel)
    {crew : Crew σ} {run : Run σ} (h : P crew run) :
    P (interleave w crew run turns).1 (interleave w crew run turns).2 := by
  induction turns generalizing crew run with
  | nil => exact h
  | cons turn turns ih =>
      have hrest : Turn.cancel ∈ turns → ∀ crew run, P crew run → P crew run.cancel :=
        fun hmem => hcancel (List.mem_cons_of_mem turn hmem)
      cases turn with
      | worker place =>
          refine ih hrest ?_
          rcases advance_cases w crew run place with heq | ⟨front, worker, back, hcrew, heq⟩
          · rw [heq]
            exact h
          · rw [heq]
            exact hstep front worker back run (hcrew ▸ h)
      | cancel => exact ih hrest (hcancel List.mem_cons_self crew run h)

/-- The members in front have been completed already. -/
theorem complete_induct_behind
    (hstep : ∀ front worker back run, P (front ++ worker :: back) run →
      P (front ++ moved w worker run :: back) (worker.stage.step w worker.index run).2)
    (front : Crew σ) {crew : Crew σ} {run : Run σ} (h : P (front ++ crew) run) :
    P (front ++ (complete w crew run).1) (complete w crew run).2 := by
  induction crew generalizing front run with
  | nil => exact h
  | cons worker rest ih =>
      have hone := Stage.complete_induct (w := w) (i := worker.index)
        (P := fun stage run => P (front ++ { worker with stage := stage } :: rest) run)
        (fun stage run h => hstep front { worker with stage := stage } rest run h) h
      have hrest := ih (front ++ [{ worker with
        stage := (worker.stage.complete w worker.index run).1 }])
        (show P _ (worker.stage.complete w worker.index run).2 by
          rw [List.append_assoc]
          exact hone)
      rw [List.append_assoc] at hrest
      exact hrest

/-- **Induction along the work of a crew**: what every step of a member and
    every cancellation keep, the whole work keeps. -/
theorem work_induct (w : Workplace σ) (stale : List Nat) (turns : List Turn) (run : Run σ)
    (hstep : ∀ front worker back run, P (front ++ worker :: back) run →
      P (front ++ moved w worker run :: back) (worker.stage.step w worker.index run).2)
    (hcancel : Turn.cancel ∈ turns → ∀ crew run, P crew run → P crew run.cancel)
    (h : P (stale.map fun i => { index := i }) run) :
    P (work w stale turns run).1 (work w stale turns run).2 :=
  complete_induct_behind hstep [] (interleave_induct hstep hcancel h)

end induct

theorem interleave_indices (w : Workplace σ) (stale : List Nat) (run : Run σ)
    (turns : List Turn) :
    (interleave w (stale.map fun i => { index := i }) run turns).1.map Worker.index = stale := by
  refine interleave_induct (P := fun crew _ => crew.map Worker.index = stale) ?_ ?_ ?_
  · intro front worker back run h
    rw [List.map_append, List.map_cons] at h ⊢
    exact h
  · intro _ crew run h
    exact h
  · rw [List.map_map]
    exact List.map_id stale

/-- A crew keeps its members. -/
theorem work_indices (w : Workplace σ) (stale : List Nat) (turns : List Turn) (run : Run σ) :
    (work w stale turns run).1.map Worker.index = stale := by
  refine work_induct w stale turns run (P := fun crew _ => crew.map Worker.index = stale) ?_ ?_ ?_
  · intro front worker back run h
    rw [List.map_append, List.map_cons] at h ⊢
    exact h
  · intro _ crew run h
    exact h
  · rw [List.map_map]
    exact List.map_id stale

/-- Once all have finished, each worker has its record or none. -/
theorem complete_all_finished (w : Workplace σ) (crew : Crew σ) (run : Run σ) :
    ∀ worker ∈ (complete w crew run).1, ∃ record, worker.stage = .finished record := by
  induction crew generalizing run with
  | nil => exact fun worker h => nomatch h
  | cons first rest ih =>
      intro worker h
      rcases List.mem_cons.mp h with rfl | h
      · exact Stage.complete_finished w first.index first.stage run
      · exact ih _ worker h

/-- **At the end of its work every member of a crew is finished.** -/
theorem work_finished (w : Workplace σ) (stale : List Nat) (turns : List Turn) (run : Run σ) :
    ∀ worker ∈ (work w stale turns run).1, ∃ record, worker.stage = .finished record :=
  complete_all_finished w _ _

section local_invariants

variable {w : Workplace σ} {stale : List Nat} {G : Run σ → Prop}
  {I : Nat → Stage σ → Run σ → Prop}

/-- The crew of some projects, the run, and every worker are as they should
    be. -/
def Sound (stale : List Nat) (G : Run σ → Prop) (I : Nat → Stage σ → Run σ → Prop)
    (crew : Crew σ) (run : Run σ) : Prop :=
  crew.map Worker.index = stale ∧ G run ∧ ∀ worker ∈ crew, I worker.index worker.stage run

omit [FileSystem σ] in
/-- A crew that waits is sound if its workers are. -/
theorem sound_waiting {run : Run σ} (hG : G run) (hI : ∀ i ∈ stale, I i .waiting run) :
    Sound stale G I (stale.map fun i => { index := i }) run := by
  refine ⟨?_, hG, ?_⟩
  · rw [List.map_map]
    exact List.map_id stale
  · intro worker hw
    obtain ⟨i, hi, rfl⟩ := List.mem_map.mp hw
    exact hI i hi

/-- A step of a worker brings about its own invariant and those of the others,
    which may be other ones than before the step. -/
theorem Sound.turn {G' : Run σ → Prop} {I' : Nat → Stage σ → Run σ → Prop} (hnodup : stale.Nodup)
    {front back : Crew σ} {worker : Worker σ} {run : Run σ}
    (h : Sound stale G I (front ++ worker :: back) run)
    (hown : worker.index ∈ stale → G run → I worker.index worker.stage run →
      G' (worker.stage.step w worker.index run).2 ∧
        I' worker.index (worker.stage.step w worker.index run).1
          (worker.stage.step w worker.index run).2)
    (hother : worker.index ∈ stale → G run → I worker.index worker.stage run → ∀ j ∈ stale,
      worker.index ≠ j → ∀ other, I j other run →
        I' j other (worker.stage.step w worker.index run).2) :
    Sound stale G' I' (front ++ Crew.moved w worker run :: back)
      (worker.stage.step w worker.index run).2 := by
  obtain ⟨hstale, hG, hI⟩ := h
  have hmem : ∀ other ∈ front ++ worker :: back, other.index ∈ stale := by
    intro other hother
    rw [← hstale]
    exact List.mem_map_of_mem hother
  have hself : worker ∈ front ++ worker :: back := by simp
  have hone := hown (hmem worker hself) hG (hI worker hself)
  -- indices do not repeat, so no other worker has this one
  have hne : ∀ other ∈ front ++ back, worker.index ≠ other.index := by
    intro other hother heq
    rw [← hstale, List.map_append, List.map_cons] at hnodup
    have hperm : (front.map Worker.index ++ worker.index :: back.map Worker.index).Perm
        (worker.index :: (front.map Worker.index ++ back.map Worker.index)) :=
      List.perm_middle
    have hnotin := (List.nodup_cons.mp (hperm.nodup hnodup)).1
    rw [heq, ← List.map_append] at hnotin
    exact hnotin (List.mem_map_of_mem hother)
  refine ⟨?_, hone.1, ?_⟩
  · rw [List.map_append, List.map_cons] at hstale ⊢
    exact hstale
  · intro other hmoved
    have hcases : other = Crew.moved w worker run ∨ other ∈ front ++ back := by
      rcases List.mem_append.mp hmoved with h | h
      · exact Or.inr (List.mem_append.mpr (Or.inl h))
      · rcases List.mem_cons.mp h with h | h
        · exact Or.inl h
        · exact Or.inr (List.mem_append.mpr (Or.inr h))
    rcases hcases with rfl | hrest
    · exact hone.2
    · have hbefore : other ∈ front ++ worker :: back := by
        rcases List.mem_append.mp hrest with h | h
        · exact List.mem_append.mpr (Or.inl h)
        · exact List.mem_append.mpr (Or.inr (List.mem_cons_of_mem worker h))
      exact hother (hmem worker hself) hG (hI worker hself) other.index (hmem other hbefore)
        (hne other hrest) other.stage (hI other hbefore)

/-- A step that keeps the worker's own invariant and those of the others keeps
    them all. -/
theorem Sound.moved (hnodup : stale.Nodup)
    (hown : ∀ i ∈ stale, ∀ stage run, G run → I i stage run →
      G (stage.step w i run).2 ∧ I i (stage.step w i run).1 (stage.step w i run).2)
    (hother : ∀ i ∈ stale, ∀ j ∈ stale, i ≠ j → ∀ stage other run,
      G run → I i stage run → I j other run → I j other (stage.step w i run).2)
    {front back : Crew σ} {worker : Worker σ} {run : Run σ}
    (h : Sound stale G I (front ++ worker :: back) run) :
    Sound stale G I (front ++ Crew.moved w worker run :: back)
      (worker.stage.step w worker.index run).2 :=
  h.turn hnodup (fun hi hG hI => hown _ hi _ _ hG hI)
    fun hi hG hI j hj hne other hJ => hother _ hi j hj hne _ other _ hG hI hJ

/-- **Invariants of single workers**: let a step of a worker keep its own
    invariant and those of the others.  Then any turns of a crew keep them
    all, together with what the steps keep of the run. -/
theorem interleave_local (w : Workplace σ) (turns : List Turn) (hnodup : stale.Nodup)
    (hown : ∀ i ∈ stale, ∀ stage run, G run → I i stage run →
      G (stage.step w i run).2 ∧ I i (stage.step w i run).1 (stage.step w i run).2)
    (hother : ∀ i ∈ stale, ∀ j ∈ stale, i ≠ j → ∀ stage other run,
      G run → I i stage run → I j other run → I j other (stage.step w i run).2)
    (hcancel : Turn.cancel ∈ turns → ∀ run, G run →
      G run.cancel ∧ ∀ i stage, I i stage run → I i stage run.cancel)
    {crew : Crew σ} {run : Run σ} (h : Sound stale G I crew run) :
    Sound stale G I (interleave w crew run turns).1 (interleave w crew run turns).2 := by
  refine interleave_induct (fun front worker back run => Sound.moved hnodup hown hother) ?_ h
  rintro hturn crew run ⟨hstale, hG, hI⟩
  have h := hcancel hturn run hG
  exact ⟨hstale, h.1, fun worker hw => h.2 _ _ (hI worker hw)⟩

/-- So does the whole work of a crew. -/
theorem work_local (w : Workplace σ) {stale : List Nat} (turns : List Turn) (run : Run σ)
    {G : Run σ → Prop} {I : Nat → Stage σ → Run σ → Prop} (hnodup : stale.Nodup)
    (hown : ∀ i ∈ stale, ∀ stage run, G run → I i stage run →
      G (stage.step w i run).2 ∧ I i (stage.step w i run).1 (stage.step w i run).2)
    (hother : ∀ i ∈ stale, ∀ j ∈ stale, i ≠ j → ∀ stage other run,
      G run → I i stage run → I j other run → I j other (stage.step w i run).2)
    (hcancel : Turn.cancel ∈ turns → ∀ run, G run →
      G run.cancel ∧ ∀ i stage, I i stage run → I i stage run.cancel)
    (hG : G run) (hI : ∀ i ∈ stale, I i .waiting run) :
    G (work w stale turns run).2 ∧
      ∀ worker ∈ (work w stale turns run).1,
        I worker.index worker.stage (work w stale turns run).2 := by
  have h : Sound stale G I (work w stale turns run).1 (work w stale turns run).2 :=
    complete_induct_behind (fun front worker back run => Sound.moved hnodup hown hother) []
      (interleave_local w turns hnodup hown hother hcancel (sound_waiting hG hI))
  exact h.2

end local_invariants

end Crew

end ProjectBuild
