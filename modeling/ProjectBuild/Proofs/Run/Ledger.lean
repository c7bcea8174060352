import ProjectBuild.Proofs.Run.Moment

/-! # What compiles and builds end with

    A compile ends with messages or an error; the build of its project goes on
    from there, and ends with a record or an error.  Both can be seen from the
    stage of the project's worker (`Stage.ending?`) before anybody is told of
    them.  The ledger of a run has them all, in the order in which its turns
    bring them about (`Crew.ledger`, `Progress.ledger`).

    Invariants of single workers may speak of the ledger as well, since a worker
    enters only what its own project has come to (`Crew.interleave_ledger`). -/

namespace ProjectBuild

/-- What ends at a stage. -/
inductive Ending
  | compile (answer : Except Error (List String))
  | build (result : Except Error BuildRecord)

/-- Endings, with the indices of their projects. -/
abbrev Ledger := List (Nat × Ending)

/-- What a ledger has of a project. -/
def Ledger.of (ledger : Ledger) (i : Nat) : List Ending :=
  (ledger.filter fun entry => entry.1 == i).map Prod.snd

namespace Ledger

/-- What a longer ledger says of a project comes in its order. -/
theorem of_append (ledger more : Ledger) (i : Nat) :
    Ledger.of (ledger ++ more) i = ledger.of i ++ Ledger.of more i := by
  unfold Ledger.of
  rw [List.filter_append, List.map_append]

/-- What one worker has entered is about its project. -/
theorem of_entries (i : Nat) (endings : List Ending) :
    Ledger.of (endings.map fun ending => (i, ending)) i = endings := by
  have hall : (endings.map fun ending => (i, ending)).filter (fun entry => entry.1 == i)
      = endings.map fun ending => (i, ending) := by
    refine List.filter_eq_self.mpr fun entry hentry => ?_
    obtain ⟨ending, -, rfl⟩ := List.mem_map.mp hentry
    exact beq_self_eq_true i
  unfold Ledger.of
  rw [hall, List.map_map]
  exact List.map_id endings

/-- What one worker has entered is about no other project. -/
theorem of_entries_ne {i j : Nat} (h : i ≠ j) (endings : List Ending) :
    Ledger.of (endings.map fun ending => (i, ending)) j = [] := by
  have hnone : (endings.map fun ending => (i, ending)).filter (fun entry => entry.1 == j) = [] := by
    refine List.filter_eq_nil_iff.mpr fun entry hentry => ?_
    obtain ⟨ending, -, rfl⟩ := List.mem_map.mp hentry
    rwa [beq_iff_eq]
  unfold Ledger.of
  rw [hnone]
  rfl

end Ledger

variable {σ : Type}

/-- What the next step of a worker sees the end of. -/
def Stage.ending? : Stage σ → Option Ending
  | compiling (.done answer) => some (.compile answer)
  | closing result => some (.build result)
  | _ => none

/-- What a worker enters with its next step. -/
def Worker.entries (worker : Worker σ) : Ledger :=
  worker.stage.ending?.toList.map fun ending => (worker.index, ending)

variable [FileSystem σ]

namespace Crew

/-- What some turns of a crew enter. -/
def ledger (w : Workplace σ) (crew : Crew σ) (run : Run σ) : List Turn → Ledger
  | [] => []
  | .worker place :: turns =>
    (crew[place]?.toList.flatMap Worker.entries) ++
      ledger w (advance w crew run place).1 (advance w crew run place).2 turns
  | .cancel :: turns => ledger w crew run.cancel turns

/-- Nobody enters nothing. -/
theorem ledger_nil (w : Workplace σ) (run : Run σ) (turns : List Turn) :
    ledger w [] run turns = [] := by
  induction turns generalizing run with
  | nil => rfl
  | cons turn turns ih =>
      cases turn with
      | worker place => exact ih run
      | cancel => exact ih run.cancel

theorem advance_none (w : Workplace σ) {crew : Crew σ} (run : Run σ) {place : Nat}
    (h : crew[place]? = none) : advance w crew run place = (crew, run) := by
  induction crew generalizing place with
  | nil => rfl
  | cons first rest ih =>
      cases place with
      | zero => exact nomatch h
      | succ place =>
          have hadvance : advance w (first :: rest) run (place + 1)
              = (first :: (advance w rest run place).1, (advance w rest run place).2) := rfl
          rw [hadvance, ih h]

omit [FileSystem σ] in
/-- The worker in a place stands between those before and those behind. -/
theorem exists_split {crew : Crew σ} {place : Nat} {worker : Worker σ}
    (h : crew[place]? = some worker) :
    ∃ front back, crew = front ++ worker :: back ∧ front.length = place := by
  obtain ⟨hplace, rfl⟩ := List.getElem?_eq_some_iff.mp h
  refine ⟨crew.take place, crew.drop (place + 1), ?_, List.length_take_of_le (Nat.le_of_lt hplace)⟩
  rw [← List.drop_eq_getElem_cons, List.take_append_drop]

variable {w : Workplace σ} {stale : List Nat} {G : Run σ → Ledger → Prop}
  {I : Nat → Stage σ → Run σ → List Ending → Prop}

/-- **Invariants of single workers, and of what they enter**: let a step of a worker keep its
    own invariant, with what it enters, and those of the others.  Then any turns of a crew keep
    them all. -/
theorem interleave_ledger (turns : List Turn) (hnodup : stale.Nodup)
    (hown : ∀ i ∈ stale, ∀ (stage : Stage σ) run ledger, G run ledger → I i stage run (Ledger.of ledger i) →
      G (stage.step w i run).2 (ledger ++ stage.ending?.toList.map fun ending => (i, ending)) ∧
        I i (stage.step w i run).1 (stage.step w i run).2
          (Ledger.of ledger i ++ stage.ending?.toList))
    (hother : ∀ i ∈ stale, ∀ j ∈ stale, i ≠ j → ∀ (stage : Stage σ) other run endings,
      I j other run endings → I j other (stage.step w i run).2 endings)
    (hcancel : ∀ run ledger, G run ledger →
      G run.cancel ledger ∧ ∀ i stage endings, I i stage run endings → I i stage run.cancel endings)
    {crew : Crew σ} {run : Run σ} {before : Ledger}
    (h : Sound stale (G · before) (fun i stage run' => I i stage run' (before.of i)) crew run) :
    Sound stale (G · (before ++ ledger w crew run turns))
      (fun i stage run' => I i stage run' (Ledger.of (before ++ ledger w crew run turns) i))
      (interleave w crew run turns).1 (interleave w crew run turns).2 := by
  -- on the turns, where `before` grows by what each of them enters
  induction turns generalizing crew run before with
  | nil =>
      rw [ledger, List.append_nil]
      exact h
  | cons turn turns ih =>
      cases turn with
      | cancel =>
          obtain ⟨hG, hI⟩ := hcancel run before h.2.1
          exact ih ⟨h.1, hG, fun worker hworker => hI _ _ _ (h.2.2 worker hworker)⟩
      | worker place =>
          have hledger : ledger w crew run (.worker place :: turns)
              = (crew[place]?.toList.flatMap Worker.entries) ++ ledger w
                (advance w crew run place).1 (advance w crew run place).2 turns := rfl
          have hturn : interleave w crew run (.worker place :: turns)
              = interleave w (advance w crew run place).1 (advance w crew run place).2 turns := rfl
          rw [hledger, hturn, ← List.append_assoc]
          refine ih ?_
          cases hworker : crew[place]? with
          | none =>
              rw [advance_none w run hworker]
              simpa using h
          | some worker =>
              obtain ⟨front, back, rfl, rfl⟩ := exists_split hworker
              rw [advance_at]
              have hentries : (some worker).toList.flatMap Worker.entries = worker.entries :=
                List.append_nil _
              rw [hentries]
              refine h.turn hnodup (fun hi hG hI => ?_) fun hi hG hI j hj hne other hJ => ?_
              · have hstep := hown worker.index hi worker.stage run before hG hI
                rw [Ledger.of_append]
                unfold Worker.entries
                rw [Ledger.of_entries]
                exact hstep
              · rw [Ledger.of_append]
                unfold Worker.entries
                rw [Ledger.of_entries_ne hne, List.append_nil]
                exact hother worker.index hi j hj hne worker.stage other run _ hJ

end Crew

namespace Progress

/-- What the crew of the level `n` enters in the course of its work. -/
def ledgerAt (g : Graph) (options : BuildOptions) (compiler : Compiler σ) (site : Site σ)
    (schedules : List LevelSchedule) (n : Nat) : Ledger :=
  let s := opening g options compiler site schedules n
  let w : Workplace σ := ⟨g, compiler, s.records⟩
  let crew := crewOf g options s n
  Crew.ledger w (crew.map fun i => { index := i }) s.run
    (Crew.course w crew (schedules.getD n {}).turns s.run)

/-- The ledger of a run over the first `n` levels. -/
def ledger (g : Graph) (options : BuildOptions) (compiler : Compiler σ) (site : Site σ)
    (schedules : List LevelSchedule) (n : Nat) : Ledger :=
  (List.range n).flatMap (ledgerAt g options compiler site schedules)

/-- One more level adds its entries to the ledger. -/
theorem ledger_succ (g : Graph) (options : BuildOptions) (compiler : Compiler σ) (site : Site σ)
    (schedules : List LevelSchedule) (n : Nat) :
    ledger g options compiler site schedules (n + 1)
      = ledger g options compiler site schedules n
        ++ ledgerAt g options compiler site schedules n := by
  unfold ledger
  rw [List.range_succ, List.flatMap_append, List.flatMap_singleton]

end Progress

end ProjectBuild
