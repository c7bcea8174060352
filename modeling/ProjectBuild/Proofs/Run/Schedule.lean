import ProjectBuild.Proofs.Compile.Effects
import ProjectBuild.Proofs.Run.Apart
import ProjectBuild.Proofs.Run.Halt
import ProjectBuild.Proofs.Run.Idempotence

/-! # Schedules make no difference

    The order in which the projects of a level are built, and how their builds
    are interleaved, shows in the times of files, in the stamps of records and
    in the order of the journal.  It does not show in what becomes of the
    projects.  What becomes of one follows from what became of its references,
    and from files and records as they were at the beginning: this is an
    equation for every project (`Graph.share`).

    Every run that is not cancelled solves these equations, whatever its
    schedule (`Progress.levels_solved`), and since references come first they
    have one solution only (`Graph.share_unique`). -/

namespace ProjectBuild

open Staleness (recordOf? stampOf? Records check)
open MemoryFs (Edit)

/-! ## Builds on their own -/

namespace Graph

/-- The files that the compile of a project may read, besides its own outputs: its
    inputs, and the outputs of its direct references. -/
def reads (g : Graph) (i : Nat) : List Path :=
  (g.node i).inputs ++ (g.dependencies i).flatMap fun j => (g.node j).expectedOutputs

/-- The compile of a project comes to what the `outcome` says, which knows only what
    the files that it reads and its own outputs hold at first. -/
def Determines (g : Graph) (compiler : Compiler MemoryFs)
    (outcome : Contents → Contents → Made) (i : Nat) : Prop :=
  ∀ found held, (compiler g i).Yields (g.reads i) (g.node i).expectedOutputs found
    (outcome found held) held

/-- The build of a project writes and removes expected outputs and the record of
    this project only, and these are neither inputs nor known outputs of other
    projects. -/
structure Secluded (g : Graph) (fs : MemoryFs) (compiler : Compiler MemoryFs) (i : Nat) :
    Prop where
  compile : (compiler g i).Only (g.OwnOutputs i)
  apart : ∀ p ∈ (g.node i).products, ∀ q ∈ g.foreignFiles fs i, p.same q = false

/-- So it leaves all these files alone. -/
theorem Secluded.edits_frame {g : Graph} {fs : MemoryFs} {compiler : Compiler MemoryFs} {i : Nat}
    (h : g.Secluded fs compiler i) {es : List Edit}
    (hes : ∀ e ∈ es, e.path = (g.node i).recordPath ∨ g.OwnOutputs i e) {q : Path}
    (hq : q ∈ g.foreignFiles fs i) (files : MemoryFs) :
    (files.edits es).file? q = files.file? q := by
  refine MemoryFs.file?_edits_ne files fun e he => Path.same_eq_false_iff.mp ?_
  rcases hes e he with hrecord | ⟨p, hp, hsame⟩
  · rw [hrecord]
    exact h.apart _ (List.mem_append_right _ (List.mem_singleton_self _)) q hq
  · have hapart := h.apart p (List.mem_append_left _ hp) q hq
    rw [Path.same_eq_false_iff] at hapart ⊢
    rwa [Path.same_iff.mp hsame]

/-- What a compile reads is foreign to all projects but references of its own. -/
theorem mem_foreignFiles_reads {g : Graph} (hg : g.WellFormed) (fs : MemoryFs) {i k : Nat}
    (hi : i < g.size) (hk : k ∉ g.dependencies i) {q : Path} (hq : q ∈ g.reads i) :
    q ∈ g.foreignFiles fs k := by
  rcases List.mem_append.mp hq with hq | hq
  · exact mem_foreignFiles_input fs k hi hq
  · obtain ⟨j, hj, hq⟩ := List.mem_flatMap.mp hq
    have hjk : j ≠ k := fun heq => hk (heq ▸ hj)
    exact mem_foreignFiles_output (hg.dependency_lt hj).2 hjk (List.mem_append_left _ hq)

end Graph

/-! ## What becomes of a project -/

/-- The status that a project ends in after its compile. -/
def Made.status (made : Made) : Status :=
  match made.result with
  | .ok _ => .built
  | .error .cancelled => .skipped
  | .error _ => .failed

/-- What becomes of one project in a run. -/
structure Share where
  status : Status
  reason : Reason
  /-- How often it is given to the compiler. -/
  compiles : Nat
  /-- What its outputs hold. -/
  outputs : Contents

/-- What becomes of a project in a run over these files and records, if the statuses
    and the outputs of its references are those given. -/
def Graph.share (g : Graph) (options : BuildOptions) (outcome : Nat → Contents → Contents → Made)
    (fs : MemoryFs) (records : Records) (statuses : StatusTable) (outputs : Nat → Contents)
    (i : Nat) : Share :=
  let (status, reason) := Progress.ruling options (check fs g statuses records i)
  let held := fs.contents (g.node i).expectedOutputs
  if status = .stale ∧ options.dryRun = false then
    let made := outcome i (fs.contents (g.node i).inputs ++ (g.dependencies i).flatMap outputs) held
    { status := made.status
      reason := if made.status = .skipped then .cancelled else reason
      compiles := 1
      outputs := made.outputs }
  else
    { status := status
      reason := reason
      compiles := 0
      outputs := held }

namespace Graph

variable {g : Graph} {options : BuildOptions} {outcome : Nat → Contents → Contents → Made}
  {fs : MemoryFs} {records : Records}

/-- Of its references a project's share wants to know the statuses and the outputs. -/
theorem share_congr {statuses statuses' : StatusTable} {outputs outputs' : Nat → Contents}
    {i : Nat} (hstatuses : ∀ j ∈ g.dependencies i, statuses'.get j = statuses.get j)
    (houtputs : ∀ j ∈ g.dependencies i, outputs' j = outputs j) :
    g.share options outcome fs records statuses' outputs' i
      = g.share options outcome fs records statuses outputs i := by
  have hcheck := Staleness.check_statuses_congr fs records hstatuses
  have hfound : (g.dependencies i).flatMap outputs' = (g.dependencies i).flatMap outputs :=
    List.flatMap_congr houtputs
  simp only [share, hcheck, hfound]

/-- Shares that say of every project what becomes of it when its references have
    come to what they say. -/
def Solves (g : Graph) (options : BuildOptions) (outcome : Nat → Contents → Contents → Made)
    (fs : MemoryFs) (records : Records) (statuses : StatusTable) (shares : Nat → Share) : Prop :=
  ∀ i < g.size, (shares i).status = statuses.get i ∧
    shares i = g.share options outcome fs records statuses (fun j => (shares j).outputs) i

/-- **There is one solution only.** -/
theorem share_unique (hg : g.WellFormed) {statuses statuses' : StatusTable}
    {shares shares' : Nat → Share} (h : g.Solves options outcome fs records statuses shares)
    (h' : g.Solves options outcome fs records statuses' shares') {i : Nat} (hi : i < g.size) :
    shares' i = shares i := by
  -- induction on the level: the shares of the references are the same
  induction hlevel : g.levelOf i using Nat.strong_induction_on generalizing i with
  | _ n ih =>
      have hreferences : ∀ j ∈ g.dependencies i, j < g.size ∧ shares' j = shares j := by
        intro j hj
        have hlt := (hg.dependency_lt hj).2
        exact ⟨hlt, ih (g.levelOf j) (hlevel ▸ levelOf_lt hg hj) hlt rfl⟩
      rw [(h i hi).2, (h' i hi).2]
      refine share_congr ?_ ?_
      · intro j hj
        obtain ⟨hlt, hsame⟩ := hreferences j hj
        rw [← (h j hlt).1, ← (h' j hlt).1, hsame]
      · intro j hj
        rw [(hreferences j hj).2]

end Graph

/-! ## Workers -/

namespace Stage

/-- What is known at each stage of a worker whose compile is determined: what the
    outputs of its project hold `now`, how often that has been given to the
    compiler, and its status. -/
def Makes (reads outputs : List Path) (found held : Contents) (made : Made) (now : Contents)
    (compiles : Nat) (status : Status) : Stage MemoryFs → Prop
  | waiting => now = held ∧ compiles = 0
  | started => now = held ∧ compiles = 0
  | compiling job => job.Yields reads outputs found made now ∧ compiles = 1
  | returned => made.status = .built ∧ now = made.outputs ∧ compiles = 1
  | recorded r => r.Canonical ∧ made.status = .built ∧ now = made.outputs ∧ compiles = 1
  | closing result => verdict result = made.status ∧ now = made.outputs ∧ compiles = 1
  | finished _ => status = made.status ∧ now = made.outputs ∧ compiles = 1

/-- Editing the record of a project leaves its outputs alone. -/
theorem contents_edit_record (fs : MemoryFs) {p : Project} {e : Edit} (he : e.path = p.recordPath) :
    (fs.edits [e]).contents p.expectedOutputs = fs.contents p.expectedOutputs := by
  refine MemoryFs.contents_congr fun q hq => MemoryFs.file?_edits_ne fs fun e' he' => ?_
  rw [List.mem_singleton.mp he', he]
  exact Project.recordPath_ne_output hq

/-- **One step of a worker whose compile is determined**, in a run that is not
    cancelled. -/
theorem step_makes {w : Workplace MemoryFs} {i : Nat} {run : Run MemoryFs}
    (hi : i < run.statuses.size) (htimely : run.site.files.Timely) {reads : List Path}
    {found held : Contents} {made : Made}
    (hcompiler : (w.compiler w.graph i).Yields reads (w.graph.node i).expectedOutputs found made
      held)
    (hfound : run.site.files.contents reads = found) {stage : Stage MemoryFs}
    (hbefore : run.site.cancelled = false)
    (hafter : (stage.step w i run).2.site.cancelled = false)
    (h : stage.Makes reads (w.graph.node i).expectedOutputs found held made
      (run.site.files.contents (w.graph.node i).expectedOutputs) (run.handed.count i)
      (run.statuses.get i)) :
    (stage.step w i run).1.Makes reads (w.graph.node i).expectedOutputs found held made
      ((stage.step w i run).2.site.files.contents (w.graph.node i).expectedOutputs)
      ((stage.step w i run).2.handed.count i) ((stage.step w i run).2.statuses.get i) := by
  obtain ⟨entries, hmove⟩ := step_moves w i stage run
  generalize stage.step w i run = next at hmove hafter ⊢
  have hrecord := fun e he => contents_edit_record run.site.files (p := w.graph.node i) (e := e) he
  cases hmove with
  | skipped hcancelled => exact absurd (hbefore.symm.trans hcancelled) Bool.false_ne_true
  | entered => simpa [Makes, Run.handed] using h
  | kept hremoved =>
      -- files in memory can always be removed
      obtain ⟨failure, hfailed, -⟩ := BuildRecord.invalidate_error hremoved
      cases (show Except.ok _ = Except.error failure from hfailed)
  | handed hremoved =>
      obtain ⟨rfl, hnone⟩ := h
      obtain rfl := BuildRecord.invalidate_files hremoved
      refine ⟨?_, by simp [Run.handed, ← hnone]⟩
      exact (hrecord (.remove _) rfl).symm ▸ hcompiler
  | worked effect next => exact ⟨h.1 run.site hbefore hfound rfl hafter, h.2⟩
  | succeeded messages =>
      obtain ⟨hjob, honce⟩ := h
      obtain rfl : made = _ := hjob
      exact ⟨rfl, rfl, by simpa [Run.handed] using honce⟩
  | failed e =>
      obtain ⟨hjob, honce⟩ := h
      obtain rfl : made = _ := hjob
      refine ⟨?_, rfl, by simpa [Run.handed] using honce⟩
      cases e <;> rfl
  | captured hcaptured =>
      refine ⟨?_, h.1, h.2.1, by simpa [Run.handed] using h.2.2⟩
      rw [hcaptured]
      exact BuildRecord.capture_canonical htimely (PathMap.sorted_ofList _)
  | saved hsaved =>
      obtain ⟨hcanonical, hbuilt, hnow, honce⟩ := h
      obtain ⟨rfl, rfl⟩ := Prod.mk.inj ((BuildRecord.save_eq hcanonical).symm.trans hsaved)
      exact ⟨hbuilt.symm, (hrecord (.write _ _) rfl).trans hnow, honce⟩
  | closed result =>
      obtain ⟨hverdict, hnow, honce⟩ := h
      refine ⟨(get_closed _ hi result).trans hverdict, ?_, by simpa [Run.handed] using honce⟩
      rw [Run.finish_site, explain_files]
      exact hnow
  | rested record => exact h

end Stage

/-! ## Crews -/

/-- What a crew leaves alone whose members keep to themselves. -/
structure Graph.Sparing (g : Graph) (fs : MemoryFs) (before : Run MemoryFs) (stale : List Nat)
    (run : Run MemoryFs) : Prop where
  later : before.site.files.Later run.site.files
  size : run.statuses.size = before.statuses.size
  files : ∀ q, (∀ i ∈ stale, q ∈ g.foreignFiles fs i) →
    run.site.files.file? q = before.site.files.file? q
  handed : ∀ j, j ∉ stale → run.handed.count j = before.handed.count j

namespace Crew

/-- A crew never takes a cancellation back. -/
theorem work_cancelled {σ : Type} [FileSystem σ] (w : Workplace σ) {stale : List Nat}
    (turns : List Turn) (hnodup : stale.Nodup)
    (hstays : ∀ i ∈ stale, (w.compiler w.graph i).Always Site.StaysCancelled) {run : Run σ}
    (h : run.site.cancelled = true) : (work w stale turns run).2.site.cancelled = true := by
  refine (work_local w turns run (G := fun run' => run'.site.cancelled = true)
    (I := fun _ stage _ => stage.CompilesAlways Site.StaysCancelled) hnodup ?_
    (fun _ _ _ _ _ _ _ _ _ _ h => h) (fun _ _ _ => ⟨rfl, fun _ _ h => h⟩) h
    (fun _ _ => True.intro)).1
  intro i hi stage run' hcancelled hstage
  exact ⟨Stage.step_cancelled w i hstage hcancelled,
    Stage.step_compilesAlways w i (hstays i hi) hstage run'⟩

section
variable {g : Graph} {fs : MemoryFs} {compiler : Compiler MemoryFs}
  {outcome : Nat → Contents → Contents → Made} {stale : List Nat}

/-- **The work of a crew whose compiles are determined**: when it is over and has not
    been cancelled, every project has come to what follows from what the files held
    when the crew set to work. -/
theorem work_makes (records : Records) (hg : g.WellFormed) (turns : List Turn) {run : Run MemoryFs}
    (hnodup : stale.Nodup) (hlt : ∀ i ∈ stale, i < g.size)
    (hapart : ∀ i ∈ stale, ∀ k ∈ stale, k ∉ g.dependencies i)
    (hstays : ∀ i ∈ stale, (compiler g i).Always Site.StaysCancelled)
    (hsecluded : ∀ i ∈ stale, g.Secluded fs compiler i)
    (houtcome : ∀ i ∈ stale, g.Determines compiler (outcome i) i)
    (hsize : run.statuses.size = g.size) (htimely : run.site.files.Timely)
    (hfresh : ∀ i ∈ stale, run.handed.count i = 0) :
    g.Sparing fs run stale (work ⟨g, compiler, records⟩ stale turns run).2 ∧
      ((work ⟨g, compiler, records⟩ stale turns run).2.site.cancelled = false →
        ∀ i ∈ stale,
          let made := outcome i (run.site.files.contents (g.reads i))
            (run.site.files.contents (g.node i).expectedOutputs)
          let run' := (work ⟨g, compiler, records⟩ stale turns run).2
          run'.statuses.get i = made.status ∧
            run'.site.files.contents (g.node i).expectedOutputs = made.outputs ∧
            run'.handed.count i = 1) := by
  have hrunning : ∀ {i : Nat} {stage : Stage MemoryFs} {run' : Run MemoryFs},
      stage.CompilesAlways Site.StaysCancelled →
      (stage.step ⟨g, compiler, records⟩ i run').2.site.cancelled = false →
      run'.site.cancelled = false := by
    intro i stage run' hstage hafter
    rw [← Bool.not_eq_true] at hafter ⊢
    exact fun hbefore => hafter (Stage.step_cancelled _ i hstage hbefore)
  have h := work_local ⟨g, compiler, records⟩ turns run
    (G := fun run' => g.Sparing fs run stale run')
    (I := fun i stage run' => stage.CompilesOnly (g.OwnOutputs i) ∧
      stage.CompilesAlways Site.StaysCancelled ∧ (run'.site.cancelled = false →
        stage.Makes (g.reads i) (g.node i).expectedOutputs (run.site.files.contents (g.reads i))
          (run.site.files.contents (g.node i).expectedOutputs)
          (outcome i (run.site.files.contents (g.reads i))
            (run.site.files.contents (g.node i).expectedOutputs))
          (run'.site.files.contents (g.node i).expectedOutputs) (run'.handed.count i)
          (run'.statuses.get i)))
    hnodup ?own ?other ?cancel ⟨MemoryFs.Later.refl _, rfl, fun _ _ => rfl, fun _ _ => rfl⟩
    (fun i hi => ⟨True.intro, True.intro, fun _ => ⟨rfl, hfresh i hi⟩⟩)
  case own =>
    rintro i hi stage run' hsparing ⟨honly, hstage, hmakes⟩
    obtain ⟨es, hes, hpaths⟩ := Stage.step_files ⟨g, compiler, records⟩ i honly run'
    refine ⟨⟨?_, ?_, ?_, ?_⟩, Stage.step_compilesOnly _ i (hsecluded i hi).compile honly run',
      Stage.step_compilesAlways _ i (hstays i hi) hstage run', ?_⟩
    · rw [hes]
      exact hsparing.later.trans (MemoryFs.edits_later _ es)
    · exact (Stage.step_size _ i stage run').trans hsparing.size
    · intro q hq
      rw [hes, (hsecluded i hi).edits_frame hpaths (hq i hi)]
      exact hsparing.files q hq
    · intro j hj
      have hji : j ≠ i := fun heq => hj (heq ▸ hi)
      rw [Stage.count_handed_ne _ hji]
      exact hsparing.handed j hj
    · intro hafter
      have hbefore := hrunning hstage hafter
      -- nobody in the crew writes what this compile reads
      have hfound : run'.site.files.contents (g.reads i) = run.site.files.contents (g.reads i) :=
        MemoryFs.contents_congr fun q hq => hsparing.files q fun k hk =>
          Graph.mem_foreignFiles_reads hg fs (hlt i hi) (hapart i hi k hk) hq
      exact Stage.step_makes (hsparing.size.trans hsize ▸ hlt i hi)
        (hsparing.later.timely htimely) (houtcome i hi _ _) hfound hbefore hafter
        (hmakes hbefore)
  case other =>
    rintro i hi j hj hij stage other run' - ⟨honly, hstage, -⟩ ⟨hother, hstays', hmakes⟩
    obtain ⟨es, hes, hpaths⟩ := Stage.step_files ⟨g, compiler, records⟩ i honly run'
    refine ⟨hother, hstays', fun hafter => ?_⟩
    have hheld : (run'.site.files.edits es).contents (g.node j).expectedOutputs
        = run'.site.files.contents (g.node j).expectedOutputs := by
      refine MemoryFs.contents_congr fun q hq => (hsecluded i hi).edits_frame hpaths ?_ _
      exact Graph.mem_foreignFiles_output (hlt j hj) hij.symm (List.mem_append_left _ hq)
    rw [hes, hheld, Stage.count_handed_ne _ hij.symm, Stage.step_get_ne _ hij.symm]
    exact hmakes (hrunning hstage hafter)
  case cancel =>
    rintro - run' hsparing
    exact ⟨⟨hsparing.later, hsparing.size, hsparing.files, hsparing.handed⟩,
      fun i stage hI => ⟨hI.1, hI.2.1, fun hrunning => nomatch hrunning⟩⟩
  refine ⟨h.1, fun hend i hi => ?_⟩
  rw [← work_indices ⟨g, compiler, records⟩ stale turns run] at hi
  obtain ⟨worker, hworker, rfl⟩ := List.mem_map.mp hi
  obtain ⟨record, hfinished⟩ :=
    work_finished ⟨g, compiler, records⟩ stale turns run worker hworker
  have hmakes := (h.2 worker hworker).2.2 hend
  rw [hfinished] at hmakes
  exact hmakes

end

end Crew

/-! ## Levels -/

namespace Progress

variable {g : Graph} {options : BuildOptions} {outcome : Nat → Contents → Contents → Made}
  {compiler : Compiler MemoryFs} {fs : MemoryFs} {records : Records} {n : Nat}

/-- What the outputs of a project hold. -/
def outputsOf (g : Graph) (s : Progress MemoryFs) (i : Nat) : Contents :=
  s.run.site.files.contents (g.node i).expectedOutputs

/-- What has become of a project so far. -/
def shareOf (g : Graph) (s : Progress MemoryFs) (i : Nat) : Share where
  status := s.run.statuses.get i
  reason := s.reasonOf i
  compiles := s.run.handed.count i
  outputs := s.outputsOf g i

/-- A run before the level `n`, in which every project so far has come to its share,
    and whatever concerns the others is as it was. -/
structure Solved (g : Graph) (options : BuildOptions)
    (outcome : Nat → Contents → Contents → Made) (fs : MemoryFs) (records : Records) (n : Nat)
    (s : Progress MemoryFs) : Prop where
  later : fs.Later s.run.site.files
  size : s.run.statuses.size = g.size
  reasons : s.reasons.length = g.size
  known : s.records.length = g.size
  files : ∀ j < g.size, n ≤ g.levelOf j → ∀ q ∈ (g.node j).inputs ++ knownOutputs fs (g.node j),
    s.run.site.files.file? q = fs.file? q
  onRecord : ∀ j < g.size, n ≤ g.levelOf j ∨ (s.run.statuses.get j).isRebuild = false →
    recordOf? s.records j = recordOf? records j
  compiles : ∀ j, (j < g.size → n ≤ g.levelOf j) → s.run.handed.count j = 0
  done : ∀ j < g.size, g.levelOf j < n → s.shareOf g j
    = g.share options outcome fs records s.run.statuses (s.outputsOf g) j

/-- A share does not change any more when later levels change theirs. -/
theorem Solved.share_eq (hg : g.WellFormed) {s s' : Progress MemoryFs}
    (hlevel : ∀ j < g.size, g.levelOf j < n → s'.shareOf g j = s.shareOf g j) {i : Nat}
    (hi : g.levelOf i ≤ n) :
    g.share options outcome fs records s'.run.statuses (s'.outputsOf g) i
      = g.share options outcome fs records s.run.statuses (s.outputsOf g) i := by
  have hreference : ∀ j ∈ g.dependencies i, s'.shareOf g j = s.shareOf g j := by
    intro j hj
    have hbelow := Graph.levelOf_lt hg hj
    exact hlevel j (hg.dependency_lt hj).2 (by omega)
  exact Graph.share_congr (fun j hj => congrArg Share.status (hreference j hj))
    (fun j hj => congrArg Share.outputs (hreference j hj))

/-- **A check** finds what it would have found at the beginning, with the statuses
    that the references have come to. -/
theorem Solved.check_eq (hg : g.WellFormed)
    (hrecords : ∀ j < g.size, recordOf? records j = (BuildRecord.load fs (g.node j)).value)
    {s : Progress MemoryFs} (h : s.Solved g options outcome fs records n) {i : Nat}
    (hi : i < g.size) (hlevel : g.levelOf i = n) {found : StatusTable}
    (hfound : ∀ j ∈ g.dependencies i, found.get j = s.run.statuses.get j) :
    check s.run.site.files g found s.records i = check fs g s.run.statuses records i := by
  refine Staleness.check_congr (fun j hj => by rw [hfound j hj]) (fun j hj => by rw [hfound j hj])
    (h.onRecord i hi (Or.inl hlevel.symm.le)) ?_ ?_
  · intro r hr
    refine Staleness.ownReason?_congr fun q hq => h.files i hi hlevel.symm.le q ?_
    rw [hrecords i hi] at hr
    simp only [knownOutputs, hr, Option.elim_some, List.mem_append] at hq ⊢
    tauto
  · intro j hj hquiet
    simp only [stampOf?, h.onRecord j (hg.dependency_lt hj).2 (Or.inr hquiet)]

/-- If nobody has cancelled the run when the decisions of a level are over, nobody
    has come in between them. -/
theorem decideEach_undisturbed {σ : Type} [FileSystem σ] (g : Graph) (options : BuildOptions)
    {s : Progress σ} {interruptions : List Bool} {level : List Nat}
    (h : (decideEach g options s interruptions level).run.site.cancelled = false) :
    decideEach g options s interruptions level = decideEach g options s [] level ∧
      s.run.site.cancelled = false := by
  induction level generalizing s interruptions with
  | nil => exact ⟨rfl, h⟩
  | cons i level ih =>
      obtain ⟨hrest, hrunning⟩ := ih h
      rw [decide_site] at hrunning
      cases hhead : interruptions.headD false with
      | true =>
          rw [hhead] at hrunning
          exact nomatch hrunning
      | false =>
          rw [hhead] at hrest hrunning
          refine ⟨?_, hrunning⟩
          show decideEach g options (decide g options (s.interrupt (interruptions.headD false)) i)
            interruptions.tail level = decideEach g options (decide g options s i) [] level
          rw [hhead]
          exact hrest

/-- **The decisions of a level** are what the equations say. -/
theorem Solved.decided (hg : g.WellFormed)
    (hrecords : ∀ j < g.size, recordOf? records j = (BuildRecord.load fs (g.node j)).value)
    (hn : n < g.levels.length) {interruptions : List Bool} {s : Progress MemoryFs}
    (h : s.Solved g options outcome fs records n)
    (hrunning : (decideEach g options s interruptions g.levels[n]).run.site.cancelled = false) :
    (decideEach g options s interruptions g.levels[n]).Solved g options outcome fs records n ∧
      ∀ i ∈ g.levels[n], ((decideEach g options s interruptions g.levels[n]).run.statuses.get i,
          (decideEach g options s interruptions g.levels[n]).reasonOf i)
        = ruling options (check fs g
            (decideEach g options s interruptions g.levels[n]).run.statuses records i) := by
  obtain ⟨hquiet, hbefore⟩ := decideEach_undisturbed g options hrunning
  have hmem : ∀ {k}, k ∈ g.levels[n] ↔ k < g.size ∧ g.levelOf k = n :=
    Graph.mem_levels_getElem hn
  have hnodup := Graph.levels_getElem_nodup hn
  have hlt : ∀ i ∈ g.levels[n], i < s.run.statuses.size :=
    fun i hi => h.size.symm ▸ (hmem.mp hi).1
  rw [hquiet]
  have hopened := (decideEach_spec g options hnodup s hlt []).1
  have hreasoned := decideEach_reasons g options hnodup s hlt
    (fun i hi => h.reasons.symm ▸ (hmem.mp hi).1) []
  generalize decideEach g options s [] g.levels[n] = s' at hopened hreasoned ⊢
  -- shares of lower levels are as the level found them
  have hothers : ∀ j < g.size, g.levelOf j < n → s'.shareOf g j = s.shareOf g j := by
    intro j _ hlevel
    have hpart := Graph.not_mem_levels_getElem hn (Nat.ne_of_lt hlevel)
    simp only [shareOf, outputsOf, hopened.others j hpart, hreasoned.others j hpart,
      hopened.handed, hopened.files]
  refine ⟨⟨hopened.files.symm ▸ h.later, hopened.size.trans h.size,
    hreasoned.length.trans h.reasons, hopened.records ▸ h.known, ?_, ?_, ?_, ?_⟩, ?_⟩
  · rw [hopened.files]
    exact h.files
  · intro j hj hwhy
    rw [hopened.records]
    refine h.onRecord j hj ?_
    by_cases hlevel : n ≤ g.levelOf j
    · exact Or.inl hlevel
    · have hpart := Graph.not_mem_levels_getElem hn (Nat.ne_of_lt (Nat.lt_of_not_le hlevel))
      rw [hopened.others j hpart] at hwhy
      exact hwhy
  · rw [hopened.handed]
    exact h.compiles
  · intro j hj hlevel
    rw [hothers j hj hlevel, Solved.share_eq hg hothers hlevel.le]
    exact h.done j hj hlevel
  · intro i hi
    obtain ⟨hsize, hlevel⟩ := hmem.mp hi
    have hbelow : ∀ j ∈ g.dependencies i, j ∉ g.levels[n] :=
      fun j hj => (Graph.dependency_before hg hn hlevel.le hj).2
    obtain ⟨found, hfound, hpair⟩ :=
      (hreasoned.ruled i hi).checked hbefore List.not_mem_nil
    rw [hpair, h.check_eq hg hrecords hsize hlevel fun j hj => hfound j (hbelow j hj)]
    refine congrArg (ruling options) (Staleness.check_statuses_congr fs records fun j hj => ?_).symm
    exact hopened.others j (hbelow j hj)

/-- When its level begins, the outputs of a project are as they were before the
    run. -/
theorem Solved.held {s : Progress MemoryFs} (h : s.Solved g options outcome fs records n) {i : Nat}
    (hi : i < g.size) (hlevel : g.levelOf i = n) :
    s.outputsOf g i = fs.contents (g.node i).expectedOutputs :=
  MemoryFs.contents_congr fun q hq => h.files i hi hlevel.symm.le q
    (List.mem_append_right _ (List.mem_append_left _ hq))

/-- A compile then reads inputs that are as they were, and the outputs that the
    references have come to. -/
theorem Solved.found {s : Progress MemoryFs} (h : s.Solved g options outcome fs records n) {i : Nat}
    (hi : i < g.size) (hlevel : g.levelOf i = n) :
    s.run.site.files.contents (g.reads i)
      = fs.contents (g.node i).inputs ++ (g.dependencies i).flatMap (s.outputsOf g) := by
  simp only [Graph.reads, MemoryFs.contents_append, MemoryFs.contents_flatMap]
  rw [MemoryFs.contents_congr fun q hq =>
    h.files i hi hlevel.symm.le q (List.mem_append_left _ hq)]
  rfl

/-- A project that has been decided on, and is not to be built, has come to its
    share. -/
theorem Solved.share_ruled {s : Progress MemoryFs} (h : s.Solved g options outcome fs records n)
    {i : Nat} (hi : i < g.size) (hlevel : g.levelOf i = n)
    (hruled : (s.run.statuses.get i, s.reasonOf i)
      = ruling options (check fs g s.run.statuses records i))
    (hrest : ¬ (s.run.statuses.get i = .stale ∧ options.dryRun = false)) :
    s.shareOf g i = g.share options outcome fs records s.run.statuses (s.outputsOf g) i := by
  simp only [Graph.share, ← hruled, if_neg hrest, shareOf, h.held hi hlevel,
    h.compiles i fun _ => hlevel.symm.le]

/-- A level brings its own projects to their shares, and leaves alone what concerns
    the others. -/
theorem Solved.next (hg : g.WellFormed) (hn : n < g.levels.length) {s s' : Progress MemoryFs}
    (h : s.Solved g options outcome fs records n)
    (hlater : s.run.site.files.Later s'.run.site.files)
    (hsize : s'.run.statuses.size = s.run.statuses.size)
    (hreasons : s'.reasons.length = s.reasons.length)
    (hknown : s'.records.length = s.records.length)
    (hfiles : ∀ j < g.size, n < g.levelOf j →
      ∀ q ∈ (g.node j).inputs ++ knownOutputs fs (g.node j),
        s'.run.site.files.file? q = s.run.site.files.file? q)
    (hrecord : ∀ j < g.size, n < g.levelOf j ∨ (s'.run.statuses.get j).isRebuild = false →
      recordOf? s'.records j = recordOf? records j)
    (hcompiles : ∀ j, (j < g.size → n < g.levelOf j) →
      s'.run.handed.count j = s.run.handed.count j)
    (hothers : ∀ j < g.size, g.levelOf j < n → s'.shareOf g j = s.shareOf g j)
    (hown : ∀ j ∈ g.levels[n], s'.shareOf g j
      = g.share options outcome fs records s.run.statuses (s.outputsOf g) j) :
    s'.Solved g options outcome fs records (n + 1) := by
  refine ⟨h.later.trans hlater, hsize.trans h.size, hreasons.trans h.reasons,
    hknown.trans h.known, ?_, hrecord, ?_, ?_⟩
  · intro j hj hlevel q hq
    rw [hfiles j hj hlevel q hq]
    exact h.files j hj (Nat.le_of_succ_le hlevel) q hq
  · intro j hj
    rw [hcompiles j hj]
    exact h.compiles j fun hlt => Nat.le_of_succ_le (hj hlt)
  · intro j hj hlevel
    rw [Solved.share_eq hg hothers (Nat.le_of_lt_succ hlevel)]
    rcases Graph.levelOf_cases hn hj hlevel with ⟨hbefore, -⟩ | hpart
    · exact (hothers j hj hbefore).trans (h.done j hj hbefore)
    · exact hown j hpart

/-- **The crew of a level** brings the projects that it builds to their shares. -/
theorem Solved.build (hg : g.WellFormed) (htimely : fs.Timely) (hdry : options.dryRun = false)
    (hstays : ∀ i < g.size, (compiler g i).Always Site.StaysCancelled)
    (hsecluded : ∀ i < g.size, g.Secluded fs compiler i)
    (houtcome : ∀ i < g.size, g.Determines compiler (outcome i) i) (hn : n < g.levels.length)
    (turns : List Turn) {s : Progress MemoryFs} (h : s.Solved g options outcome fs records n)
    (hruled : ∀ i ∈ g.levels[n], (s.run.statuses.get i, s.reasonOf i)
      = ruling options (check fs g s.run.statuses records i))
    (hrunning : (Progress.build g compiler turns s g.levels[n]).run.site.cancelled = false) :
    (Progress.build g compiler turns s g.levels[n]).Solved g options outcome fs records
      (n + 1) := by
  have hmem : ∀ {k}, k ∈ g.levels[n] ↔ k < g.size ∧ g.levelOf k = n :=
    Graph.mem_levels_getElem hn
  have hparts := Graph.levels_getElem_nodup hn
  have hnodup := stale_nodup hparts s
  have hstale : ∀ {i}, i ∈ s.stale g.levels[n] →
      i < g.size ∧ g.levelOf i = n ∧ s.run.statuses.get i = .stale := (mem_stale_level hn).mp
  have hapart : ∀ i ∈ s.stale g.levels[n], ∀ k ∈ s.stale g.levels[n], k ∉ g.dependencies i := by
    intro i hi k hk hdep
    have hlt := Graph.levelOf_lt hg hdep
    rw [(hstale hi).2.1, (hstale hk).2.1] at hlt
    exact Nat.lt_irrefl n hlt
  have hstatuses := Crew.work_statuses ⟨g, compiler, s.records⟩ hnodup turns s.run
    (fun i hi => h.size.symm ▸ (hstale hi).1) (fun i hi => (hstale hi).2.2)
  obtain ⟨hsparing, hmade⟩ := Crew.work_makes s.records hg turns hnodup
    (fun i hi => (hstale hi).1) hapart (fun i hi => hstays i (hstale hi).1)
    (fun i hi => hsecluded i (hstale hi).1) (fun i hi => houtcome i (hstale hi).1) h.size
    (h.later.timely htimely) (fun i hi => h.compiles i fun _ => (hstale hi).2.1.symm.le)
  -- what is foreign to the whole crew
  have hforeign : ∀ j < g.size, ∀ i ∈ s.stale g.levels[n], j ≠ i →
      ∀ q ∈ (g.node j).inputs ++ knownOutputs fs (g.node j), q ∈ g.foreignFiles fs i := by
    intro j hj i _ hji q hq
    exact (List.mem_append.mp hq).elim (Graph.mem_foreignFiles_input fs i hj)
      (Graph.mem_foreignFiles_output hj hji)
  have hreason := fun {j} (hj : j < g.size) => reasonOf_build g compiler turns
    (s := s) g.levels[n] (j := j) (h.reasons.symm ▸ hj)
  rw [← build_run] at hsparing hmade hstatuses
  -- of a project that is not built nothing changes
  have hrest : ∀ j < g.size, j ∉ s.stale g.levels[n] →
      (Progress.build g compiler turns s g.levels[n]).shareOf g j = s.shareOf g j := by
    intro j hj hnot
    have houtputs : (Progress.build g compiler turns s g.levels[n]).outputsOf g j
        = s.outputsOf g j := by
      refine MemoryFs.contents_congr fun q hq => hsparing.files q fun i hi => ?_
      exact hforeign j hj i hi (fun heq => hnot (heq ▸ hi)) q
        (List.mem_append_right _ (List.mem_append_left _ hq))
    simp only [shareOf, hstatuses.2.1 j hnot, hreason hj, hnot, and_false, if_false,
      hsparing.handed j hnot, houtputs]
  refine h.next hg hn hsparing.later hsparing.size (build_reasons_length _ _ _ _ _)
    build_records_length ?_ ?_ ?_ ?_ ?_
  · intro j hj hlevel q hq
    refine hsparing.files q fun i hi => hforeign j hj i hi ?_ q hq
    rintro rfl
    exact Nat.ne_of_gt hlevel (hstale hi).2.1
  · intro j hj hwhy
    by_cases hj' : j ∈ s.stale g.levels[n]
    · -- whoever has been built in vain leaves no new record
      obtain ⟨worker, hworker, rfl, hended⟩ := hstatuses.2.2 j hj'
      have hold := h.onRecord worker.index hj (Or.inl (hstale hj').2.1.symm.le)
      rcases hended with ⟨record, -, hbuilt⟩ | ⟨hfinished, -⟩
      · rw [hbuilt] at hwhy
        exact absurd (hstale hj').2.1.symm (hwhy.resolve_right fun h => nomatch h).ne
      · rw [recordOf?_build hparts hworker (h.known.symm ▸ hj) hfinished]
        exact hold
    · rw [recordOf?_build_ne hj']
      refine h.onRecord j hj (hwhy.imp Nat.le_of_lt fun hquiet => ?_)
      rwa [hstatuses.2.1 j hj'] at hquiet
  · intro j hj
    refine hsparing.handed j fun hmem' => ?_
    obtain ⟨hlt, hlevel, -⟩ := hstale hmem'
    exact Nat.ne_of_gt (hj hlt) hlevel
  · intro j hj hlevel
    exact hrest j hj fun hmem' => Nat.ne_of_lt hlevel (hstale hmem').2.1
  · intro j hpart
    obtain ⟨hj, hlevel⟩ := hmem.mp hpart
    by_cases hj' : j ∈ s.stale g.levels[n]
    · obtain ⟨hstatus, houtputs, hcount⟩ := hmade hrunning j hj'
      rw [h.found hj hlevel, show s.run.site.files.contents _ = _ from h.held hj hlevel]
        at hstatus houtputs
      simp only [Graph.share, ← hruled j hpart, (hstale hj').2.2, hdry, and_self, if_true, shareOf,
        outputsOf, hreason hj, hj', and_true, hstatus, houtputs, hcount]
    · rw [hrest j hj hj']
      exact h.share_ruled hj hlevel (hruled j hpart) fun hst => hj' (mem_stale.mpr ⟨hpart, hst.1⟩)

/-- A level never takes a cancellation back. -/
theorem level_cancelled {σ : Type} [FileSystem σ] {g : Graph} (options : BuildOptions)
    {compiler : Compiler σ} (hstays : ∀ i < g.size, (compiler g i).Always Site.StaysCancelled)
    (hn : n < g.levels.length) {schedule : LevelSchedule} {s : Progress σ}
    (h : (level g options compiler schedule s g.levels[n]).run.site.cancelled = false) :
    (decideEach g options s schedule.interruptions g.levels[n]).run.site.cancelled = false := by
  by_cases hdry : options.dryRun = true
  · simpa only [level, if_pos hdry] using h
  · rw [Bool.not_eq_true] at hdry
    rw [level_eq hdry, build_run] at h
    rw [← Bool.not_eq_true] at h ⊢
    refine fun hcancelled => h (Crew.work_cancelled _ _
      (stale_nodup (Graph.levels_getElem_nodup hn) _) (fun i hi => ?_) hcancelled)
    exact hstays i ((mem_stale_level hn).mp hi).1

/-- **One level** of a run that is not cancelled. -/
theorem Solved.level (hg : g.WellFormed) (htimely : fs.Timely)
    (hrecords : ∀ j < g.size, recordOf? records j = (BuildRecord.load fs (g.node j)).value)
    (hstays : ∀ i < g.size, (compiler g i).Always Site.StaysCancelled)
    (hsecluded : ∀ i < g.size, g.Secluded fs compiler i)
    (houtcome : ∀ i < g.size, g.Determines compiler (outcome i) i) (hn : n < g.levels.length)
    (schedule : LevelSchedule) {s : Progress MemoryFs}
    (h : s.Solved g options outcome fs records n)
    (hrunning : (Progress.level g options compiler schedule s
      g.levels[n]).run.site.cancelled = false) :
    (Progress.level g options compiler schedule s g.levels[n]).Solved g options outcome fs
      records (n + 1) := by
  obtain ⟨hdecided, hruled⟩ := h.decided hg hrecords hn (level_cancelled options hstays hn hrunning)
  by_cases hdry : options.dryRun = true
  · simp only [Progress.level, if_pos hdry]
    refine hdecided.next hg hn (MemoryFs.Later.refl _) rfl rfl rfl (fun _ _ _ _ _ => rfl) ?_
      (fun _ _ => rfl) (fun _ _ _ => rfl) fun i hi => ?_
    · exact fun j hj hwhy => hdecided.onRecord j hj (hwhy.imp_left Nat.le_of_lt)
    · obtain ⟨hsize, hlevel⟩ := (Graph.mem_levels_getElem hn).mp hi
      exact hdecided.share_ruled hsize hlevel (hruled i hi) (by simp [hdry])
  · rw [Bool.not_eq_true] at hdry
    rw [level_eq hdry] at hrunning ⊢
    exact hdecided.build hg htimely hdry hstays hsecluded houtcome hn schedule.turns hruled hrunning

theorem start_solved (g : Graph) (site : Site MemoryFs) :
    (start site g).Solved g options outcome site.files (start site g).records 0 where
  later := MemoryFs.Later.refl _
  size := StatusTable.size_ofSize g.size
  reasons := start_reasons_length site g
  known := start_records_length site g
  files := fun _ _ _ _ _ => rfl
  onRecord := fun _ _ _ => rfl
  compiles := fun _ _ => rfl
  done := fun _ _ hlevel => absurd hlevel (Nat.not_lt_zero _)

/-- **Every run that is not cancelled solves the equations**, whatever its
    schedule. -/
theorem levels_solved (hg : g.WellFormed) {site : Site MemoryFs} (htimely : site.files.Timely)
    (hstays : ∀ i < g.size, (compiler g i).Always Site.StaysCancelled)
    (hsecluded : ∀ i < g.size, g.Secluded site.files compiler i)
    (houtcome : ∀ i < g.size, g.Determines compiler (outcome i) i)
    (schedules : List LevelSchedule)
    (hrunning : (levels g options compiler (start site g) schedules
      g.levels).run.site.cancelled = false) :
    (levels g options compiler (start site g) schedules g.levels).Solved g options outcome
      site.files (start site g).records g.levels.length := by
  refine levels_induct g options compiler (start site g) schedules g.levels
    (P := fun n s => s.run.site.cancelled = false →
      s.Solved g options outcome site.files (start site g).records n)
    ?_ (fun _ => start_solved g site) hrunning
  intro n hn schedule s _ hsolved hend
  -- a run that is not cancelled after a level has not been cancelled before it
  have hbefore := (decideEach_undisturbed g options (level_cancelled options hstays hn hend)).2
  exact (hsolved hbefore).level hg htimely (fun j hj => recordOf?_start site hj) hstays hsecluded
    houtcome hn schedule hend

/-- What has been solved to its end solves the graph. -/
theorem Solved.solves {s : Progress MemoryFs}
    (h : s.Solved g options outcome fs records g.levels.length) :
    g.Solves options outcome fs records s.run.statuses (s.shareOf g) :=
  fun i hi => ⟨rfl, h.done i hi (Graph.levelOf_lt_length hi)⟩

/-- What is reported of a project is part of what becomes of it. -/
theorem outcomeOf_congr {s s' : Progress MemoryFs} {i : Nat} (h : s'.shareOf g i = s.shareOf g i) :
    s'.outcomeOf g i = s.outcomeOf g i := by
  have hstatus : s'.run.statuses.get i = s.run.statuses.get i := congrArg Share.status h
  have hreason : s'.reasonOf i = s.reasonOf i := congrArg Share.reason h
  simp only [outcomeOf, hstatus, hreason]

end Progress

/-! ## Two schedules -/

/-- **Schedules make no difference.**  Let the outcome of every compile be determined
    by what the inputs of the project and the outputs of its direct references and of
    itself hold when it begins, and let every build keep to its own outputs and its
    own record, which are no inputs and no outputs of others.  Then two runs from the
    same state that nobody cancels report the same of every project, whatever the
    order in which projects are built and however their builds are interleaved: the
    same status, the same reason and the same level.  They compile the same projects
    as often, end with the same exit code, and leave the same in all outputs. -/
theorem buildGraph_schedule {g : Graph} (hg : g.WellFormed) (options : BuildOptions)
    {compiler : Compiler MemoryFs} {site : Site MemoryFs} (hfiles : site.files.Reachable)
    (hstays : ∀ i < g.size, (compiler g i).Always Site.StaysCancelled)
    (hsecluded : ∀ i < g.size, g.Secluded site.files compiler i)
    {outcome : Nat → Contents → Contents → Made}
    (houtcome : ∀ i < g.size, g.Determines compiler (outcome i) i)
    (schedules schedules' : List LevelSchedule)
    (hrunning : (buildGraph options compiler schedules g site).1.cancelled = false)
    (hrunning' : (buildGraph options compiler schedules' g site).1.cancelled = false) :
    let first := buildGraph options compiler schedules g site
    let second := buildGraph options compiler schedules' g site
    first.1.projects = second.1.projects ∧
      (∀ i < g.size, first.2.statuses.get i = second.2.statuses.get i) ∧
      first.2.handed.Perm second.2.handed ∧ first.1.compiled = second.1.compiled ∧
      first.1.exitCode = second.1.exitCode ∧
      ∀ i < g.size, first.2.site.files.contents (g.node i).expectedOutputs
        = second.2.site.files.contents (g.node i).expectedOutputs := by
  intro first second
  have hsolved : Progress.Solved g options outcome site.files (Progress.start site g).records
      g.levels.length _ :=
    Progress.levels_solved hg hfiles.timely hstays hsecluded houtcome schedules hrunning
  have hsolved' : Progress.Solved g options outcome site.files (Progress.start site g).records
      g.levels.length _ :=
    Progress.levels_solved hg hfiles.timely hstays hsecluded houtcome schedules' hrunning'
  have hshares := fun i hi => Graph.share_unique hg hsolved'.solves hsolved.solves (i := i) hi
  have hprojects : first.1.projects = second.1.projects := by
    show (Progress.report g options _).projects = (Progress.report g options _).projects
    rw [Progress.report_projects, Progress.report_projects]
    exact List.map_congr_left fun i hi =>
      Progress.outcomeOf_congr (hshares i (Graph.mem_levels_flatten.mp hi))
  have hhanded : first.2.handed.Perm second.2.handed := by
    refine List.perm_iff_count.mpr fun i => ?_
    by_cases hi : i < g.size
    · exact congrArg Share.compiles (hshares i hi)
    · -- whatever is not in the graph is compiled in neither run
      have hnone := hsolved.compiles i fun hlt => absurd hlt hi
      exact hnone.trans (hsolved'.compiles i fun hlt => absurd hlt hi).symm
  refine ⟨hprojects, fun i hi => congrArg Share.status (hshares i hi), hhanded, hhanded.length_eq,
    ?_, fun i hi => congrArg Share.outputs (hshares i hi)⟩
  have hcancelled : first.1.cancelled = second.1.cancelled := hrunning.trans hrunning'.symm
  unfold BuildReport.exitCode BuildReport.isSuccess
  rw [hcancelled, hprojects]

/-- A project with one input in a directory of its own. -/
def singleProject (dir : String) : Project :=
  { emptyProject dir with
    rootDir := ⟨dir⟩
    outDir := ⟨dir ++ "/out"⟩
    inputs := [⟨dir ++ "/a.ts"⟩] }

/-- Three such projects; the second and the third reference the first. -/
def singleThree : Graph where
  nodes := [singleProject "/a", singleProject "/b", singleProject "/c"]
  edges := [(1, 0), (2, 0)]

def singleFiles : MemoryFs :=
  .ofTexts [("/a/a.ts", ""), ("/b/a.ts", ""), ("/c/a.ts", "")]

/-- The compile of the second project fails. -/
def failingScript : CompileScript where
  verify := false
  failures := [("/b/tsconfig.json", ["no"])]

/-- In the second level the workers take turns, and the last one begins. -/
def crossedSchedule : List LevelSchedule :=
  [{}, ⟨[], (List.replicate 7 [.worker 1, .worker 0]).flatten⟩]

/-- One after the other, or both at once and the other way round: the two dependents
    come to the same. -/
theorem buildGraph_schedule_crossed :
    let first := buildGraph {} failingScript.compiler [] singleThree ⟨singleFiles, false, []⟩
    let second := buildGraph {} failingScript.compiler crossedSchedule singleThree
      ⟨singleFiles, false, []⟩
    first.2.handed = [0, 1, 2] ∧ second.2.handed = [0, 2, 1] ∧
      first.2.statuses.slots = [.built, .failed, .built] ∧
      first.1.projects = second.1.projects ∧ first.1.exitCode = second.1.exitCode := by
  intro first second
  have hwell : singleThree.WellFormed := ⟨⟨by decide, by decide⟩, by decide⟩
  have hapart : ∀ i < 3, ∀ p ∈ (singleThree.node i).products,
      ∀ q ∈ singleThree.foreignFiles singleFiles i, p.same q = false := by
    decide +kernel
  have hfirst : first.2.handed = [0, 1, 2] ∧ first.1.cancelled = false ∧
      first.2.statuses.slots = [.built, .failed, .built] := by
    decide +kernel
  have hsecond : second.2.handed = [0, 2, 1] ∧ second.1.cancelled = false := by
    decide +kernel
  have hsecluded : ∀ i < singleThree.size,
      singleThree.Secluded singleFiles failingScript.compiler i := by
    intro i hi
    refine ⟨(failingScript.compiler_only singleThree i).imp fun e he => ?_, hapart i hi⟩
    exact ⟨e.path, he, Path.same_iff.mpr rfl⟩
  have houtcome : ∀ i < singleThree.size, singleThree.Determines failingScript.compiler
      (fun _ held => failingScript.made (singleThree.node i) held) i :=
    fun i _ found held => CompileScript.compiler_yields rfl rfl singleThree i _ found held
  have h := buildGraph_schedule hwell {}
    (show (⟨singleFiles, false, []⟩ : Site MemoryFs).files.Reachable from
      MemoryFs.ofTexts_reachable _)
    (fun i _ => failingScript.compiler_staysCancelled singleThree i) hsecluded houtcome
    [] crossedSchedule hfirst.2.1 hsecond.2
  exact ⟨hfirst.1, hsecond.1, hfirst.2.2, h.1, h.2.2.2.2.1⟩

end ProjectBuild
