import ProjectBuild.Proofs.Compile.Effects
import ProjectBuild.Proofs.Run.Propagation

/-! # Halted runs

    Once a run is cancelled, what comes of every project is settled but for the
    compiles in flight.  A decision that is still to come skips its project,
    and so does a worker that has not entered yet; a project that is final
    stays so.  A compile in flight goes on, and it decides the status of its
    own project.

    `Run.Halted` says this of a run and one that has been cancelled before it.
    Decisions and steps of workers keep it (`Progress.Halted.decideEach`,
    `Stage.step_halted`), and so do whole levels (`Progress.Halted.level`). -/

namespace ProjectBuild

variable {σ : Type}

/-! ## Records that are looked at -/

/-- What is seen of the records of a graph's projects does not change when the
    record of another project is written or removed. -/
structure Graph.SeesApart {β : Type} [FileSystem σ] (g : Graph) (see : σ → Nat → β) : Prop where
  replace : ∀ i < g.size, ∀ j < g.size, i ≠ j → ∀ fs text,
    see (FileSystem.replace fs (g.node i).recordPath text).2 j = see fs j
  remove : ∀ i < g.size, ∀ j < g.size, i ≠ j → ∀ fs,
    see (FileSystem.remove fs (g.node i).recordPath).2 j = see fs j

/-- The effects of compiles that are asked for: no cancellation is taken back,
    and no record is touched, as far as it is seen. -/
def Graph.Harmless {β : Type} (g : Graph) (see : σ → Nat → β) (s s' : Site σ) : Prop :=
  s.StaysCancelled s' ∧ ∀ j < g.size, see s'.files j = see s.files j

/-! ## Pending projects -/

/-- The decision on the project, or the entry of its worker, is still to come. -/
def Status.isPending : Status → Bool
  | .unknown => true
  | .stale => true
  | _ => false

/-- What is not pending is being built or has ended. -/
theorem Status.not_pending_iff {status : Status} :
    status.isPending = false ↔ status = .building ∨ status.isTerminal = true := by
  cases status <;> decide

/-- What a worker that has entered comes to. -/
def Status.isResult : Status → Bool
  | .built => true
  | .failed => true
  | .skipped => true
  | _ => false

/-- What a worker has entered is not pending. -/
theorem Status.not_pending_of_entered {status : Status}
    (h : status = .building ∨ status.isResult = true) : status.isPending = false := by
  revert h
  cases status <;> decide

/-- Nothing has been done about the project: its record was not to be removed,
    and it was not given to the compiler. -/
def Run.Untouched (run : Run σ) (i : Nat) : Prop :=
  .cleared i ∉ run.journal ∧ .handed i ∉ run.journal

/-- Untouched stays what others act upon. -/
theorem Run.Untouched.append {run run' : Run σ} {i : Nat} {entries : List Entry}
    (h : run.Untouched i) (hjournal : run'.journal = run.journal ++ entries)
    (hentries : ∀ e ∈ entries, e ≠ .cleared i ∧ e ≠ .handed i) : run'.Untouched i := by
  unfold Untouched
  rw [hjournal, List.mem_append, List.mem_append, not_or, not_or]
  exact ⟨⟨h.1, fun he => (hentries _ he).1 rfl⟩, h.2, fun he => (hentries _ he).2 rfl⟩

/-- A step for one project leaves the others untouched. -/
theorem Run.Goes.untouched_ne {run run' : Run σ} {i j : Nat} {more : List Status}
    (h : Goes run run' i more) (hne : j ≠ i) (hrun : run.Untouched j) : run'.Untouched j := by
  obtain ⟨entries, hjournal, hindex, -⟩ := h.journal
  refine hrun.append hjournal fun e he => ⟨?_, ?_⟩
  · rintro rfl
    exact hne (hindex _ he)
  · rintro rfl
    exact hne (hindex _ he)

/-- Finishing a project leaves the others untouched. -/
theorem Run.Untouched.finish {run : Run σ} {j : Nat} (h : run.Untouched j) (i : Nat)
    (status : Status) : (run.finish i status).Untouched j := by
  have hjournal : (run.finish i status).journal
      = run.journal ++ [.published i status, .finished i status] := by
    rw [finish_journal, List.append_assoc]
    rfl
  refine h.append hjournal fun e he => ?_
  simp only [List.mem_cons, List.not_mem_nil, or_false] at he
  rcases he with rfl | rfl <;> exact ⟨fun h => (nomatch h), fun h => (nomatch h)⟩

/-- Nothing has been done about any pending project. -/
def Run.Orderly (run : Run σ) : Prop :=
  ∀ i, (run.statuses.get i).isPending = true → run.Untouched i

/-! ## Halted runs -/

/-- What has come of a run, after it was cancelled `now`. -/
structure Run.Halted {β : Type} (g : Graph) (see : σ → Nat → β) (run now : Run σ) : Prop where
  size : run.statuses.size = g.size
  cancelled : run.site.cancelled = true
  pending : ∀ i, (now.statuses.get i).isPending = true →
    run.statuses.get i = now.statuses.get i ∨ run.statuses.get i = .skipped
  untouched : ∀ i, (now.statuses.get i).isPending = true → run.Untouched i
  inFlight : ∀ i, now.statuses.get i = .building →
    run.statuses.get i = .building ∨ (run.statuses.get i).isResult = true
  terminal : ∀ i, (now.statuses.get i).isTerminal = true →
    run.statuses.get i = now.statuses.get i
  seen : ∀ i < g.size, now.statuses.get i ≠ .building →
    see run.site.files i = see now.site.files i

namespace Run.Halted

variable {β : Type} {g : Graph} {see : σ → Nat → β} {now run : Run σ}

/-- When a run is cancelled, nothing has come of it yet. -/
theorem refl (hsize : now.statuses.size = g.size) (hcancelled : now.site.cancelled = true)
    (horderly : now.Orderly) : Halted g see now now := by
  refine ⟨hsize, hcancelled, fun _ _ => Or.inl rfl, horderly, ?_, fun _ _ => rfl,
    fun _ _ _ => rfl⟩
  exact fun i hi => Or.inl hi

/-- What is pending was pending when the run was cancelled. -/
theorem of_pending (h : Halted g see run now) {i : Nat}
    (hi : (run.statuses.get i).isPending = true) : (now.statuses.get i).isPending = true := by
  cases hpending : (now.statuses.get i).isPending with
  | true => rfl
  | false =>
      rcases Status.not_pending_iff.mp hpending with hbuilding | hterminal
      · exact (Status.not_pending_of_entered (h.inFlight i hbuilding)).symm.trans hi
      · rw [h.terminal i hterminal, hpending] at hi
        exact nomatch hi

/-- What is being built was being built then. -/
theorem of_building (h : Halted g see run now) {i : Nat}
    (hi : run.statuses.get i = .building) : now.statuses.get i = .building := by
  cases hpending : (now.statuses.get i).isPending with
  | true =>
      rcases h.pending i hpending with hsame | hskipped
      · rw [← hsame, hi] at hpending
        exact nomatch hpending
      · exact nomatch hi.symm.trans hskipped
  | false =>
      refine (Status.not_pending_iff.mp hpending).resolve_right fun hterminal => ?_
      rw [← h.terminal i hterminal, hi] at hterminal
      exact nomatch hterminal

/-- Skipping a pending project. -/
theorem finish (h : Halted g see run now) {i : Nat} (hi : i < g.size)
    (hpending : (run.statuses.get i).isPending = true) :
    Halted g see (run.finish i .skipped) now := by
  have hnow := h.of_pending hpending
  have hself : (run.finish i .skipped).statuses.get i = .skipped :=
    StatusTable.get_publish (h.size.symm ▸ hi) _
  have hother : ∀ j, j ≠ i → (run.finish i .skipped).statuses.get j = run.statuses.get j :=
    fun j hj => StatusTable.get_publish_ne _ hj _
  refine ⟨?_, h.cancelled, ?_, fun j hj => (h.untouched j hj).finish i .skipped, ?_, ?_, h.seen⟩
  · rw [Run.finish_statuses, StatusTable.size_publish]
    exact h.size
  · intro j hj
    by_cases hji : j = i
    · exact Or.inr (hji ▸ hself)
    · rw [hother j hji]
      exact h.pending j hj
  · intro j hj
    have hji : j ≠ i := by
      rintro rfl
      rw [hj] at hnow
      exact nomatch hnow
    rw [hother j hji]
    exact h.inFlight j hj
  · intro j hj
    have hji : j ≠ i := by
      rintro rfl
      rw [← h.terminal j hj] at hj
      -- a pending status is not terminal
      revert hpending hj
      cases run.statuses.get j <;> decide
    rw [hother j hji]
    exact h.terminal j hj

theorem cancel (h : Halted g see run now) : Halted g see run.cancel now :=
  ⟨h.size, rfl, h.pending, h.untouched, h.inFlight, h.terminal, h.seen⟩

end Run.Halted

/-! ## Workers -/

namespace Stage

/-- The status of a project when its worker is at a stage. -/
def Held : Stage σ → Status → Prop
  | waiting, status => status = .stale
  | finished _, status => status.isResult = true
  | _, status => status = .building

/-- All effects of the compile that a worker is at are of this kind. -/
def CompilesAlways (R : Site σ → Site σ → Prop) : Stage σ → Prop
  | compiling job => job.Always R
  | _ => True

variable [FileSystem σ]

/-- What always holds of compiles holds of what a step leaves to be compiled. -/
theorem step_compilesAlways (w : Workplace σ) (i : Nat) {R : Site σ → Site σ → Prop}
    (hcompiler : (w.compiler w.graph i).Always R) {stage : Stage σ}
    (h : stage.CompilesAlways R) (run : Run σ) : (stage.step w i run).1.CompilesAlways R := by
  obtain ⟨entries, hmove⟩ := step_moves w i stage run
  generalize stage.step w i run = next at hmove ⊢
  cases hmove with
  | handed => exact hcompiler
  | worked effect next => exact (h run.site).2
  | _ => exact True.intro

omit [FileSystem σ] in
/-- A verdict is a result. -/
theorem verdict_isResult (result : Except Error BuildRecord) :
    (verdict result).isResult = true := by
  cases result with
  | ok record => rfl
  | error e => cases e <;> rfl

/-- **The status goes with the stage**, and after a step the worker has
    entered. -/
theorem step_held (w : Workplace σ) {i : Nat} {stage : Stage σ} {run : Run σ}
    (hi : i < run.statuses.size) (h : stage.Held (run.statuses.get i)) :
    (stage.step w i run).1.Held ((stage.step w i run).2.statuses.get i) ∧
      ((stage.step w i run).2.statuses.get i = .building ∨
        ((stage.step w i run).2.statuses.get i).isResult = true) := by
  obtain ⟨entries, hmove⟩ := step_moves w i stage run
  generalize stage.step w i run = next at hmove ⊢
  cases hmove with
  | skipped =>
      have hskipped := congrArg Status.isResult (StatusTable.get_publish hi .skipped)
      exact ⟨hskipped, Or.inr hskipped⟩
  | entered =>
      have hbuilding := StatusTable.get_publish hi .building
      exact ⟨hbuilding, Or.inl hbuilding⟩
  | closed result =>
      have hverdict := (congrArg Status.isResult (get_closed (w.graph.node i) hi result)).trans
        (verdict_isResult result)
      exact ⟨hverdict, Or.inr hverdict⟩
  | rested record => exact ⟨h, Or.inr h⟩
  | _ => exact ⟨h, Or.inl h⟩

/-- A worker never takes a cancellation back. -/
theorem step_cancelled (w : Workplace σ) (i : Nat) {stage : Stage σ}
    (hstage : stage.CompilesAlways Site.StaysCancelled) {run : Run σ}
    (h : run.site.cancelled = true) : (stage.step w i run).2.site.cancelled = true := by
  rcases step_site w i stage run with ⟨effect, next, rfl, hsite⟩ | ⟨hsame, -⟩
  · rw [hsite]
    exact (hstage run.site).1 h
  · exact hsame.trans h

variable {β : Type} {see : σ → Nat → β}

/-- A worker leaves the records of other projects alone. -/
theorem step_sees {w : Workplace σ} (hsees : w.graph.SeesApart see) {i j : Nat}
    (hi : i < w.graph.size) (hj : j < w.graph.size) (hij : i ≠ j) {stage : Stage σ}
    (hstage : stage.CompilesAlways (w.graph.Harmless see)) (run : Run σ) :
    see (stage.step w i run).2.site.files j = see run.site.files j := by
  rcases step_site w i stage run with
    ⟨effect, next, rfl, hsite⟩ | ⟨-, hsame | hremoved | ⟨text, hreplaced⟩⟩
  · rw [hsite]
    exact (hstage run.site).1.2 j hj
  · rw [hsame]
  · rw [hremoved]
    exact hsees.remove i hi j hj hij run.site.files
  · rw [hreplaced]
    exact hsees.replace i hi j hj hij run.site.files text

omit [FileSystem σ] in
theorem CompilesAlways.imp {R R' : Site σ → Site σ → Prop} (himp : ∀ s s', R s s' → R' s s')
    {stage : Stage σ} (h : stage.CompilesAlways R) : stage.CompilesAlways R' := by
  cases stage with
  | compiling job => exact Job.Always.imp himp h
  | _ => exact True.intro

/-- **One step of a worker after a cancellation**: one that waits gives up its
    project, and one that builds goes on with it. -/
theorem step_halted {w : Workplace σ} (hsees : w.graph.SeesApart see) {i : Nat}
    (hi : i < w.graph.size) {stage : Stage σ}
    (hstage : stage.CompilesAlways (w.graph.Harmless see)) {now run : Run σ}
    (h : run.Halted w.graph see now) (hheld : stage.Held (run.statuses.get i)) :
    (stage.step w i run).2.Halted w.graph see now := by
  have hlt : i < run.statuses.size := h.size.symm ▸ hi
  -- a project that is being built was in flight when the run was cancelled
  have hbuilding : run.statuses.get i = .building →
      (stage.step w i run).2.Halted w.graph see now := by
    intro hbuild
    have hnow := h.of_building hbuild
    obtain ⟨more, hgoes, -⟩ := step_goes w stage run hlt
    have hne : ∀ {j}, (now.statuses.get j).isPending = true ∨
        (now.statuses.get j).isTerminal = true → j ≠ i := by
      rintro j hj rfl
      rw [hnow] at hj
      rcases hj with hj | hj <;> exact nomatch hj
    constructor
    case size => exact (step_size w i stage run).trans h.size
    case cancelled => exact step_cancelled w i (hstage.imp fun _ _ hboth => hboth.1) h.cancelled
    case pending =>
      intro j hj
      rw [hgoes.others j (hne (Or.inl hj))]
      exact h.pending j hj
    case untouched => exact fun j hj => hgoes.untouched_ne (hne (Or.inl hj)) (h.untouched j hj)
    case inFlight =>
      intro j hj
      by_cases hji : j = i
      · subst hji
        exact (step_held w hlt hheld).2
      · rw [hgoes.others j hji]
        exact h.inFlight j hj
    case terminal =>
      intro j hj
      rw [hgoes.others j (hne (Or.inr hj))]
      exact h.terminal j hj
    case seen =>
      intro j hj hrest
      have hij : i ≠ j := fun heq => hrest (heq ▸ hnow)
      rw [step_sees hsees hi hj hij hstage]
      exact h.seen j hj hrest
  cases stage with
  | waiting =>
      have hstale : run.statuses.get i = .stale := hheld
      have hskipped : step w i run waiting = (finished none, run.finish i .skipped) :=
        if_pos h.cancelled
      rw [hskipped]
      exact h.finish hi (by rw [hstale]; rfl)
  | finished record => exact h
  | started => exact hbuilding hheld
  | compiling job => exact hbuilding hheld
  | returned => exact hbuilding hheld
  | recorded record => exact hbuilding hheld
  | closing result => exact hbuilding hheld

end Stage

namespace Crew

variable [FileSystem σ] {β : Type} {see : σ → Nat → β} {w : Workplace σ} {stale : List Nat}

/-- A crew at work, as far as cancelling is concerned. -/
def AtWork (see : σ → Nat → β) (w : Workplace σ) (stale : List Nat) (G : Run σ → Prop) :
    Crew σ → Run σ → Prop :=
  Sound stale G fun i stage run => stage.Held (run.statuses.get i) ∧
    stage.CompilesAlways (w.graph.Harmless see)

section
variable (hcompiler : ∀ i < w.graph.size, (w.compiler w.graph i).Always (w.graph.Harmless see))
  (hnodup : stale.Nodup) (hstale : ∀ i ∈ stale, i < w.graph.size)
include hcompiler hnodup hstale

/-- **Any turns of a crew leave pending projects alone**, whether the run is
    cancelled or not. -/
theorem interleave_orderly (turns : List Turn) {run : Run σ}
    (hsize : run.statuses.size = w.graph.size) (horderly : run.Orderly)
    (hstatus : ∀ i ∈ stale, run.statuses.get i = .stale) :
    AtWork see w stale (fun run' => run'.statuses.size = w.graph.size ∧ run'.Orderly ∧
        ∀ j, j ∉ stale → run'.statuses.get j = run.statuses.get j)
      (interleave w (stale.map fun i => { index := i }) run turns).1
      (interleave w (stale.map fun i => { index := i }) run turns).2 := by
  refine interleave_local w turns hnodup ?_ ?_ (fun _ _ h => ⟨h, fun _ _ h => h⟩)
    (sound_waiting ⟨hsize, horderly, fun _ _ => rfl⟩ fun i hi => ⟨hstatus i hi, True.intro⟩)
  · rintro i hi stage run' ⟨hsize', horderly', hothers⟩ ⟨hheld, halways⟩
    have hlt : i < run'.statuses.size := hsize'.symm ▸ hstale i hi
    obtain ⟨hheld', hentered⟩ := Stage.step_held w hlt hheld
    obtain ⟨more, hgoes, -⟩ := Stage.step_goes w stage run' hlt
    have hnot := Status.not_pending_of_entered hentered
    refine ⟨⟨(Stage.step_size w i stage run').trans hsize', ?_, ?_⟩, hheld',
      Stage.step_compilesAlways w i (hcompiler i (hstale i hi)) halways run'⟩
    · intro j hj
      have hji : j ≠ i := by
        rintro rfl
        exact nomatch hnot.symm.trans hj
      rw [hgoes.others j hji] at hj
      exact hgoes.untouched_ne hji (horderly' j hj)
    · intro j hj
      rw [hgoes.others j fun heq => hj (heq ▸ hi)]
      exact hothers j hj
  · rintro i - j - hij stage other run' - - ⟨hheld, halways⟩
    rw [Stage.step_get_ne w hij.symm]
    exact ⟨hheld, halways⟩

/-- **A crew that is at work when the run has been cancelled** keeps to what is
    settled. -/
theorem interleave_halted (hsees : w.graph.SeesApart see) (turns : List Turn) {now run : Run σ}
    {crew : Crew σ} (h : AtWork see w stale (fun run' => run'.Halted w.graph see now) crew run) :
    (interleave w crew run turns).2.Halted w.graph see now := by
  refine (interleave_local w turns hnodup ?_ ?_ (fun _ _ h => ⟨h.cancel, fun _ _ h => h⟩) h).2.1
  · rintro i hi stage run' hhalted ⟨hheld, halways⟩
    exact ⟨Stage.step_halted hsees (hstale i hi) halways hhalted hheld,
      (Stage.step_held w (hhalted.size.symm ▸ hstale i hi) hheld).1,
      Stage.step_compilesAlways w i (hcompiler i (hstale i hi)) halways run'⟩
  · rintro i - j - hij stage other run' - - ⟨hheld, halways⟩
    rw [Stage.step_get_ne w hij.symm]
    exact ⟨hheld, halways⟩

end

end Crew

/-! ## Decisions -/

namespace Progress

variable [FileSystem σ] {β : Type} {see : σ → Nat → β} {g : Graph} {options : BuildOptions}

/-- In a cancelled run every decision is to give up. -/
theorem decide_of_cancelled (g : Graph) (options : BuildOptions) {s : Progress σ}
    (h : s.run.site.cancelled = true) (i : Nat) :
    decide g options s i = { s with
      run := s.run.finish i .skipped
      reasons := s.reasons.set i .cancelled } := by
  unfold decide ground
  rw [if_pos h]
  rfl

/-- Decisions on pending projects do nothing about them. -/
theorem decideEach_orderly (g : Graph) (options : BuildOptions) {level : List Nat}
    (hnodup : level.Nodup) {s : Progress σ}
    (hpending : ∀ i ∈ level, (s.run.statuses.get i).isPending = true) (h : s.run.Orderly)
    (interruptions : List Bool) :
    (decideEach g options s interruptions level).run.Orderly := by
  refine (decideEach_induct_nodup g options s interruptions hnodup
    (P := fun front s' => Opened s s' front ∧ s'.run.Orderly)
    (fun _ _ _ h => ⟨h.1.interrupt, h.2⟩) ?_ ⟨Opened.refl s, h⟩).2
  rintro front i s' hi hfresh - ⟨hopened, horderly⟩
  refine ⟨hopened.decide i, fun j hj => ?_⟩
  have hbefore : (s'.run.statuses.get j).isPending = true := by
    by_cases hji : j = i
    · rw [hji, hopened.others i hfresh]
      exact hpending i hi
    · rw [decide_get_ne g options s' hji] at hj
      exact hj
  obtain ⟨entries, hjournal, hannounce⟩ := decide_journal g options s' i
  refine (horderly j hbefore).append hjournal fun e he => ⟨?_, ?_⟩
  · rintro rfl
    exact hannounce _ he
  · rintro rfl
    exact hannounce _ he

/-- A halted run, with the reasons that it has kept. -/
structure Halted (g : Graph) (see : σ → Nat → β) (s : Progress σ) (now : Run σ) : Prop where
  run : s.run.Halted g see now
  reasons : s.reasons.length = g.size
  reason : ∀ i < g.size, (now.statuses.get i).isPending = true →
    s.run.statuses.get i = .skipped → s.reasonOf i = .cancelled

/-- **The decisions after a cancellation** skip their projects. -/
theorem Halted.decideEach {s : Progress σ} {now : Run σ} (h : s.Halted g see now)
    (options : BuildOptions) {level : List Nat} (hnodup : level.Nodup)
    (hlt : ∀ i ∈ level, i < g.size)
    (hpending : ∀ i ∈ level, (s.run.statuses.get i).isPending = true)
    (interruptions : List Bool) :
    (Progress.decideEach g options s interruptions level).Halted g see now := by
  refine (decideEach_induct_nodup g options s interruptions hnodup
    (P := fun front s' => Opened s s' front ∧ s'.Halted g see now)
    (fun _ _ _ h => ⟨h.1.interrupt, h.2.run.cancel, h.2.reasons, h.2.reason⟩) ?_
    ⟨Opened.refl s, h⟩).2
  rintro front i s' hi hfresh - ⟨hopened, hhalted⟩
  have hopen : (s'.run.statuses.get i).isPending = true := by
    rw [hopened.others i hfresh]
    exact hpending i hi
  have hdecide := decide_of_cancelled g options hhalted.run.cancelled i
  refine ⟨hopened.decide i, ?_, ?_, ?_⟩
  · rw [hdecide]
    exact hhalted.run.finish (hlt i hi) hopen
  · rw [decide_reasons, List.length_set]
    exact hhalted.reasons
  · intro j hj hnow hskipped
    by_cases hji : j = i
    · subst hji
      rw [reasonOf_decide g options (hhalted.reasons.symm ▸ hj)]
      unfold ground
      rw [if_pos hhalted.run.cancelled]
      rfl
    · rw [decide_get_ne g options s' hji] at hskipped
      rw [reasonOf_decide_ne g options s' hji]
      exact hhalted.reason j hj hnow hskipped

/-! ## Levels -/

/-- The work of a crew that keeps to what is settled, taken down. -/
theorem Halted.build {compiler : Compiler σ} {turns : List Turn} {s : Progress σ} {now : Run σ}
    {part : List Nat} (hnodup : part.Nodup) (hlt : ∀ i ∈ part, i < s.run.statuses.size)
    (hreasons : s.reasons.length = g.size)
    (hreason : ∀ i < g.size, (now.statuses.get i).isPending = true →
      s.run.statuses.get i = .skipped → s.reasonOf i = .cancelled)
    (hwork : (Crew.work ⟨g, compiler, s.records⟩ (s.stale part) turns s.run).2.Halted g see
      now) :
    (Progress.build g compiler turns s part).Halted g see now := by
  have hstatuses := Crew.work_statuses ⟨g, compiler, s.records⟩ (stale_nodup hnodup s) turns
    s.run (fun i hi => hlt i (mem_stale.mp hi).1) (fun i hi => (mem_stale.mp hi).2)
  refine ⟨?_, (build_reasons_length _ _ _ _ _).trans hreasons, ?_⟩
  · rw [build_run]
    exact hwork
  · intro i hi hnow hskipped
    rw [reasonOf_build g compiler turns part (hreasons.symm ▸ hi)]
    by_cases hmem : i ∈ s.stale part
    · exact if_pos ⟨hskipped, hmem⟩
    · rw [if_neg fun h => hmem h.2]
      rw [build_run, hstatuses.2.1 i hmem] at hskipped
      exact hreason i hi hnow hskipped

section
variable (hg : g.WellFormed) (hdry : options.dryRun = false) {compiler : Compiler σ}
  (hsees : g.SeesApart see) (hcompiler : ∀ i < g.size, (compiler g i).Always (g.Harmless see))
  {n : Nat} (hn : n < g.levels.length) (schedule : LevelSchedule) {s : Progress σ}
  (hproceeds : s.Proceeds g options n)

omit [FileSystem σ] in
include hproceeds in
/-- Nothing has been told of the projects of a level before it begins. -/
theorem Proceeds.pending {i : Nat} (hi : i ∈ g.levels[n]) :
    (s.run.statuses.get i).isPending = true := by
  have hlevel := ((Graph.mem_levels_getElem hn).mp hi).2
  have hahead := hproceeds.ahead i fun _ => Nat.le_of_eq hlevel.symm
  rw [hahead.2]
  rfl

include hsees hcompiler in
/-- The work of a level whose crew finds the run cancelled. -/
theorem Halted.work {s : Progress σ} {now : Run σ} (h : s.Halted g see now)
    (turns : List Turn) : (Progress.build g compiler turns s g.levels[n]).Halted g see now := by
  have hlt : ∀ i ∈ g.levels[n], i < g.size := fun i hi => ((Graph.mem_levels_getElem hn).mp hi).1
  have hnodup := Graph.levels_getElem_nodup hn
  refine Halted.build hnodup (fun i hi => h.run.size.symm ▸ hlt i hi) h.reasons h.reason ?_
  rw [Crew.work_eq_interleave]
  exact Crew.interleave_halted (w := ⟨g, compiler, s.records⟩) hcompiler (stale_nodup hnodup s)
    (fun i hi => ((mem_stale_level hn).mp hi).1) hsees _
    (Crew.sound_waiting h.run fun i hi => ⟨(mem_stale.mp hi).2, True.intro⟩)

include hdry hsees hcompiler hproceeds in
/-- **A level after the cancellation.** -/
theorem Halted.level {now : Run σ} (h : s.Halted g see now) :
    (Progress.level g options compiler schedule s g.levels[n]).Halted g see now := by
  rw [level_eq hdry]
  exact (h.decideEach options (Graph.levels_getElem_nodup hn)
    (fun i hi => ((Graph.mem_levels_getElem hn).mp hi).1) (fun i hi => hproceeds.pending hn hi)
    schedule.interruptions).work hsees hcompiler hn schedule.turns

include hdry hcompiler hproceeds in
/-- A level does nothing about projects that are pending when it is over. -/
theorem level_orderly (h : s.run.Orderly) :
    (Progress.level g options compiler schedule s g.levels[n]).run.Orderly := by
  have hnodup := Graph.levels_getElem_nodup hn
  have hsize := (decideEach_spec g options hnodup s
    (fun i hi => hproceeds.size.symm ▸ ((Graph.mem_levels_getElem hn).mp hi).1)
    schedule.interruptions).1.size
  have horderly := decideEach_orderly g options hnodup
    (fun i hi => hproceeds.pending hn hi) h schedule.interruptions
  rw [level_eq hdry, build_run]
  generalize Progress.decideEach g options s schedule.interruptions g.levels[n] = s'
    at hsize horderly ⊢
  rw [Crew.work_eq_interleave]
  exact (Crew.interleave_orderly (w := ⟨g, compiler, s'.records⟩) hcompiler
    (stale_nodup hnodup s') (fun i hi => ((mem_stale_level hn).mp hi).1)
    _ (hsize.trans hproceeds.size) horderly
    (fun i hi => (mem_stale.mp hi).2)).2.1.2.1

end

end Progress

end ProjectBuild
