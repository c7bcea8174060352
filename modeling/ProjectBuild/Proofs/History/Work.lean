import ProjectBuild.Proofs.History.Told

/-! # Workers make the tale

    Every step of a worker adds at most one deed to the tale, about the
    worker's own project (`Stage.step_deeds`), and keeps files and tale fitting
    together (`Stage.telling_step`).  What a worker has to know for that grows
    with its stages (`Stage.Telling`), and is not disturbed by the steps of
    other workers. -/

namespace ProjectBuild

open MemoryFs (Edit)
open Staleness (recordOf? stampOf? Records)

/-! ## The deeds of a step -/

/-- What has been noted since adds its deeds to those of a run. -/
theorem Run.deeds_append {σ : Type} {run run' : Run σ} (g : Graph) (entries : List Entry)
    (h : run'.journal = run.journal ++ entries) :
    run'.deeds g = run.deeds g ++ entries.filterMap (Entry.deed? g) := by
  unfold deeds
  rw [h, List.filterMap_append]

/-- A deed is one of the project that its entry is about. -/
theorem Entry.project_of_deed? {g : Graph} {e : Entry} {d : Deed} (h : e.deed? g = some d) :
    d.project = g.node e.index := by
  cases e with
  | handed i => exact Option.some.inj h ▸ rfl
  | returned i success => exact Option.some.inj h ▸ rfl
  | captured i r => exact Option.some.inj h ▸ rfl
  | _ => exact nomatch h

namespace Stage

variable {σ : Type}

/-- **A step adds deeds about the worker's project only.** -/
theorem step_deeds [FileSystem σ] (w : Workplace σ) (i : Nat) (stage : Stage σ) (run : Run σ) :
    ∃ more, (stage.step w i run).2.deeds w.graph = run.deeds w.graph ++ more ∧
      ∀ d ∈ more, d.project = w.graph.node i := by
  obtain ⟨entries, hmove⟩ := step_moves w i stage run
  refine ⟨_, Run.deeds_append w.graph entries hmove.journal, fun d hd => ?_⟩
  obtain ⟨e, he, hdeed⟩ := List.mem_filterMap.mp hd
  rw [Entry.project_of_deed? hdeed, hmove.index e he]

end Stage

/-! ## What a worker knows -/

/-- All records that are known have been taken before a position. -/
def Tale.Known (tale : Tale) (records : Records) (position : Nat) : Prop :=
  ∀ k r, recordOf? records k = some r →
    ∃ m p, m < position ∧ tale[m]? = some (.captured p r)

/-- The building of a project is under way: it was handed over at `start`, and
    nothing but what happened at the given positions is told of it since then.
    All outputs that had been recorded by then are as old as `moment`. -/
structure Tale.Underway (tale : Tale) (p : Project) (records : Records) (start moment : Nat)
    (since : List Nat) : Prop where
  handed : tale[start]? = some (.handed p)
  latest : ∀ m d, start < m → tale[m]? = some d → d.About p → m ∈ since
  old : ∀ m p' r, m < start → tale[m]? = some (.captured p' r) → r.OutputsBy moment
  known : tale.Known records start

/-- The latest deed about a project is that a record of it was taken. -/
def Tale.JustTaken (tale : Tale) (p : Project) (r : BuildRecord) : Prop :=
  ∃ n : Nat, tale[n]? = some (.captured p r) ∧
    ∀ m d, n < m → tale[m]? = some d → ¬ d.About p

/-- Records that are known stay so. -/
theorem Tale.Known.append {tale : Tale} {records : Records} {position : Nat}
    (h : tale.Known records position) (more : Tale) : (tale ++ more).Known records position := by
  intro k r hr
  obtain ⟨m, p, hm, hcaptured⟩ := h k r hr
  exact ⟨m, p, hm, Tale.get_append hcaptured⟩

/-- A compile is under way until more is told of its project. -/
theorem Tale.Underway.append {tale more : Tale} {p : Project} {records : Records}
    {start moment : Nat} {since : List Nat} (h : tale.Underway p records start moment since)
    (hmore : ∀ d ∈ more, ¬ d.About p) :
    (tale ++ more).Underway p records start moment since := by
  refine ⟨Tale.get_append h.handed, ?_, ?_, h.known.append more⟩
  · intro m d hm hd habout
    rcases Tale.get_append_cases hd with hd | ⟨-, hmem⟩
    · exact h.latest m d hm hd habout
    · exact absurd habout (hmore d hmem)
  · intro m p' r hm hcaptured
    rw [Tale.get_of_append (Nat.lt_trans hm (Tale.lt_of_get h.handed))] at hcaptured
    exact h.old m p' r hm hcaptured

/-- A record is the latest until more is told of its project. -/
theorem Tale.JustTaken.append {tale more : Tale} {p : Project} {r : BuildRecord}
    (h : tale.JustTaken p r) (hmore : ∀ d ∈ more, ¬ d.About p) :
    (tale ++ more).JustTaken p r := by
  obtain ⟨n, hn, hlatest⟩ := h
  refine ⟨n, Tale.get_append hn, ?_⟩
  intro m d hm hd
  rcases Tale.get_append_cases hd with hd | ⟨-, hmem⟩
  · exact hlatest m d hm hd
  · exact hmore d hmem

/-- The edits that a compile may make: no forging, and, under `keeps`, no
    removing. -/
def CompileEdit (keeps : Prop) (e : Edit) : Prop :=
  e.Honest ∧ (keeps → ∀ q, e ≠ .remove q)

/-- The edits that a run may make: those of record files, and those of
    compiles. -/
def BuildEdit (keeps : Prop) (e : Edit) : Prop :=
  (∃ p : Project, e.path = p.recordPath) ∨ CompileEdit keeps e

/-- What is known at each stage of a worker. -/
def Stage.Telling (keeps : Prop) (fs : MemoryFs) (tale : Tale) (p : Project) (records : Records) :
    Stage MemoryFs → Prop
  | waiting => True
  | started => True
  | compiling job => ∃ start moment due, tale.Underway p records start moment [] ∧
      moment ≤ fs.clock ∧ job.Delivers p.expectedOutputs due ∧
      fs.Delivered moment p.expectedOutputs due ∧ (keeps → fs.Present p.expectedOutputs due)
  | returned => ∃ start finish moment, tale.Underway p records start moment [finish] ∧
      start < finish ∧ tale[finish]? = some (.returned p true) ∧ moment ≤ fs.clock ∧
      fs.Delivered moment p.expectedOutputs [] ∧ (keeps → fs.Present p.expectedOutputs [])
  | recorded r => tale.JustTaken p r ∧ r.Canonical ∧ r.version = BuildRecord.currentVersion ∧
      (keeps → fs.Present p.expectedOutputs [])
  | closing (.ok r) => (∃ n : Nat, tale[n]? = some (.captured p r)) ∧
      (keeps → fs.Present p.expectedOutputs [])
  | closing (.error _) => True
  | finished (some r) => (∃ n : Nat, tale[n]? = some (.captured p r)) ∧
      (keeps → fs.Present p.expectedOutputs [])
  | finished none => True

section stage

variable {keeps : Prop} {p : Project} {records : Records}

/-- Outputs go on existing, whatever the builds of projects do, if compiles
    remove nothing: a record file is no output. -/
theorem MemoryFs.Present.edits {fs : MemoryFs} {due : List Path} {es : List Edit}
    (h : fs.Present p.expectedOutputs due) (hkeeps : keeps) (hes : ∀ e ∈ es, BuildEdit keeps e) :
    (fs.edits es).Present p.expectedOutputs due := by
  induction es generalizing fs with
  | nil => exact h
  | cons e rest ih =>
      refine ih ?_ fun e' he' => hes e' (List.mem_cons_of_mem e he')
      intro q hq hdue
      by_cases hpath : e.path.components = q.components
      · rcases hes e List.mem_cons_self with ⟨p', hp'⟩ | hcompile
        · rw [hp'] at hpath
          exact absurd hpath (Project.recordPath_ne_output hq)
        · exact (MemoryFs.edit_write (Nat.le_refl _) (hcompile.2 hkeeps) hpath).2
      · rw [MemoryFs.file?_edit_ne fs hpath]
        exact h q hq hdue

/-- Saving a record leaves the outputs present. -/
theorem MemoryFs.Present.put {fs : MemoryFs} {due : List Path}
    (h : fs.Present p.expectedOutputs due) (p' : Project) (content : ByteArray) :
    (fs.put p'.recordPath content).Present p.expectedOutputs due := by
  have hedit : ∀ e ∈ [Edit.write p'.recordPath content], BuildEdit True e := by
    intro e he
    rw [List.mem_singleton.mp he]
    exact Or.inl ⟨p', rfl⟩
  exact h.edits True.intro hedit

/-- **The steps of others do not disturb a worker.** -/
theorem Stage.Telling.beside {fs : MemoryFs} {tale more : Tale} {es : List Edit}
    {stage : Stage MemoryFs} (h : stage.Telling keeps fs tale p records)
    (hmore : ∀ d ∈ more, ¬ d.About p)
    (hes : ∀ e ∈ es, BuildEdit keeps e) :
    stage.Telling keeps (fs.edits es) (tale ++ more) p records := by
  have hlater := fs.edits_later es
  have hpresent : ∀ due, (keeps → fs.Present p.expectedOutputs due) →
      keeps → (fs.edits es).Present p.expectedOutputs due :=
    fun due hdue hkeeps => (hdue hkeeps).edits hkeeps hes
  cases stage with
  | waiting => exact True.intro
  | started => exact True.intro
  | compiling job =>
      obtain ⟨start, moment, due, hunderway, hle, hjob, hdelivered, hdue⟩ := h
      exact ⟨start, moment, due, hunderway.append hmore, Nat.le_trans hle hlater.clock, hjob,
        hlater.delivered hle hdelivered, hpresent due hdue⟩
  | returned =>
      obtain ⟨start, finish, moment, hunderway, hlt, hfinish, hle, hdelivered, hdue⟩ := h
      exact ⟨start, finish, moment, hunderway.append hmore, hlt, Tale.get_append hfinish,
        Nat.le_trans hle hlater.clock, hlater.delivered hle hdelivered, hpresent [] hdue⟩
  | recorded r => exact ⟨h.1.append hmore, h.2.1, h.2.2.1, hpresent [] h.2.2.2⟩
  | closing result =>
      cases result with
      | ok r =>
          obtain ⟨⟨n, hn⟩, hdue⟩ := h
          exact ⟨⟨n, Tale.get_append hn⟩, hpresent [] hdue⟩
      | error e => exact True.intro
  | finished record =>
      cases record with
      | some r =>
          obtain ⟨⟨n, hn⟩, hdue⟩ := h
          exact ⟨⟨n, Tale.get_append hn⟩, hpresent [] hdue⟩
      | none => exact True.intro

end stage

/-! ## The steps of a worker -/

section step

variable {keeps : Prop} {w : Workplace MemoryFs} {i : Nat} {before : Tale}

/-- The tale of the runs before this one, and of this one so far. -/
def Run.taleAfter (before : Tale) (g : Graph) (run : Run MemoryFs) : Tale :=
  before ++ run.deeds g

/-- What fits together while the workers of a level are at work. -/
def Workplace.Consistent (w : Workplace MemoryFs) (keeps : Prop) (before : Tale)
    (run : Run MemoryFs) : Prop :=
  Told keeps run.site.files (run.taleAfter before w.graph) ∧
    (run.taleAfter before w.graph).Known w.records (run.taleAfter before w.graph).length

/-- The stamps in a new record are those of records that are known. -/
theorem recordOf?_of_referenceStamps {g : Graph} {records : Records} {i : Nat} {path : Path}
    {stamp : String} (h : (referenceStamps g records i).get? path = some stamp) :
    ∃ k r, recordOf? records k = some r ∧ r.buildStamp = stamp := by
  obtain ⟨key, hmem, -⟩ := PathMap.mem_of_get? h
  obtain ⟨k, -, -, hstamp⟩ := mem_referenceStamps hmem
  obtain ⟨r, hr, hstamp'⟩ := Option.map_eq_some_iff.mp hstamp
  exact ⟨k, r, hr, hstamp'⟩

/-- A step that tells nothing and makes honest edits. -/
theorem Workplace.Consistent.quiet {run run' : Run MemoryFs}
    (h : w.Consistent keeps before run) (es : List Edit)
    (hfiles : run'.site.files = run.site.files.edits es) (hes : ∀ e ∈ es, e.Honest)
    (hdeeds : run'.deeds w.graph = run.deeds w.graph) : w.Consistent keeps before run' := by
  unfold Consistent Run.taleAfter at h ⊢
  rw [hfiles, hdeeds]
  exact ⟨h.1.edits hes, h.2⟩

/-- A step that adds one deed. -/
theorem Workplace.Consistent.add {run : Run MemoryFs} (h : w.Consistent keeps before run)
    (run' : Run MemoryFs) (d : Deed)
    (hdeeds : run'.deeds w.graph = run.deeds w.graph ++ [d])
    (htold : Told keeps run'.site.files (run.taleAfter before w.graph ++ [d])) :
    w.Consistent keeps before run' ∧
      run'.taleAfter before w.graph = run.taleAfter before w.graph ++ [d] := by
  have htale : run'.taleAfter before w.graph = run.taleAfter before w.graph ++ [d] := by
    unfold Run.taleAfter
    rw [hdeeds, List.append_assoc]
  refine ⟨?_, htale⟩
  unfold Consistent
  rw [htale]
  refine ⟨htold, ?_⟩
  intro k r hr
  obtain ⟨m, p, hm, hcaptured⟩ := h.2 k r hr
  refine ⟨m, p, Nat.lt_of_lt_of_le hm ?_, Tale.get_append hcaptured⟩
  rw [List.length_append]
  exact Nat.le_add_right _ _

/-- **Handing over** opens a chapter: the old record is off file by then. -/
theorem Stage.handOver_telling {run : Run MemoryFs} (h : w.Consistent keeps before run)
    (hloaded : ∃ fs' : MemoryFs, (w.graph.node i).LoadedFrom fs')
    (hdelivers : (w.compiler w.graph i).Delivers (w.graph.node i).expectedOutputs
      (w.graph.node i).expectedOutputs) :
    w.Consistent keeps before (handOver w i run).2 ∧
      (handOver w i run).1.Telling keeps (handOver w i run).2.site.files
        ((handOver w i run).2.taleAfter before w.graph) (w.graph.node i) w.records := by
  have hhonest : ∀ e ∈ [Edit.remove (w.graph.node i).recordPath], e.Honest := by
    intro e he
    rw [List.mem_singleton.mp he]
    exact True.intro
  have htold := h.1.edits hhonest
  have hadd := h.add (handOver w i run).2 (.handed (w.graph.node i))
    (Run.deeds_append w.graph [.cleared i, .handed i] rfl) (by
      refine htold.tell hloaded ?_ fun p r hd => nomatch hd
      intro q r _ hr hpath
      -- whatever lay in the place of the record has been removed
      have hnone : (run.site.files.edits [.remove (w.graph.node i).recordPath]).recordAt? q
          = none := by
        show (run.site.files.edit (.remove (w.graph.node i).recordPath)).recordAt? q = none
        unfold MemoryFs.recordAt?
        rw [MemoryFs.file?_remove]
        refine (congrArg (fun file : Option MemoryFile => file.bind fun file =>
          BuildRecord.ofContent? file.content) (if_pos ?_)).trans rfl
        exact hpath.symm
      rw [hnone] at hr
      exact nomatch hr)
  refine ⟨hadd.1, ?_⟩
  rw [hadd.2]
  refine ⟨(run.taleAfter before w.graph).length, run.site.files.clock,
    (w.graph.node i).expectedOutputs, ⟨?_, ?_, ?_, ?_⟩, Nat.le_refl _, hdelivers,
    fun q hq hdue => absurd hq hdue, fun _ q hq hdue => absurd hq hdue⟩
  · exact List.getElem?_concat_length
  · intro m d hm hd
    exact absurd (Tale.le_of_get_concat hd) (Nat.not_le_of_lt hm)
  · intro m p' r hm hcaptured
    rw [Tale.get_of_append hm] at hcaptured
    exact h.1.dated m p' r hcaptured
  · exact h.2.append _

/-- What is told while a compile is under way does not concern the record that
    is off file. -/
theorem Told.absent_underway {fs : MemoryFs} {tale : Tale} (h : Told keeps fs tale) {p : Project}
    {records : Records} {start moment : Nat} {since : List Nat}
    (hunderway : tale.Underway p records start moment since)
    (hsince : ∀ m ∈ since, ∃ success, tale[m]? = some (.returned p success)) :
    ∀ q r, q.KeepsRecords → fs.recordAt? q = some r →
      q.components = p.recordPath.components →
      r.project.components ≠ p.configPath.components := by
  intro q r hq hr hpath
  refine h.absent hunderway.handed ?_ hq hr hpath
  intro m p' r' hm hcaptured habout
  obtain ⟨success, hreturned⟩ := hsince m (hunderway.latest m _ hm hcaptured habout)
  rw [hreturned] at hcaptured
  exact nomatch hcaptured

/-- **The end of a compile** is told; a successful one has left all outputs
    newer than what had been recorded. -/
theorem Stage.compile_telling {run : Run MemoryFs} (h : w.Consistent keeps before run)
    (hloaded : ∃ fs' : MemoryFs, (w.graph.node i).LoadedFrom fs')
    {result : Except Error (List String)}
    (hstage : (compiling (.done result)).Telling keeps run.site.files
      (run.taleAfter before w.graph) (w.graph.node i) w.records) :
    w.Consistent keeps before (compile (w.graph.node i) i run (.done result)).2 ∧
      (compile (w.graph.node i) i run (.done result)).1.Telling keeps
        (compile (w.graph.node i) i run (.done result)).2.site.files
        ((compile (w.graph.node i) i run (.done result)).2.taleAfter before w.graph)
        (w.graph.node i) w.records := by
  obtain ⟨start, moment, due, hunderway, hle, hjob, hdelivered, hpresent⟩ := hstage
  have habsent := h.1.absent_underway hunderway fun m hm => nomatch hm
  cases result with
  | error e =>
      have hadd := h.add (compile (w.graph.node i) i run (.done (.error e))).2
        (.returned (w.graph.node i) false) (Run.deeds_append w.graph [.returned i false] rfl)
        (h.1.tell hloaded habsent fun p r hd => nomatch hd)
      exact ⟨hadd.1, True.intro⟩
  | ok messages =>
      -- success means that nothing is due any more
      obtain rfl : due = [] := hjob
      have hadd := h.add (compile (w.graph.node i) i run (.done (.ok messages))).2
        (.returned (w.graph.node i) true) (Run.deeds_append w.graph [.returned i true] rfl)
        (h.1.tell hloaded habsent fun p r hd => nomatch hd)
      refine ⟨hadd.1, ?_⟩
      rw [hadd.2]
      have hstart := Tale.lt_of_get hunderway.handed
      refine ⟨start, (run.taleAfter before w.graph).length, moment,
        ⟨Tale.get_append hunderway.handed, ?_, ?_, hunderway.known.append _⟩, hstart, ?_, hle,
        hdelivered, hpresent⟩
      · intro m d hm hd habout
        rcases Tale.get_append_cases hd with hd' | ⟨hge, -⟩
        · exact absurd (hunderway.latest m d hm hd' habout) List.not_mem_nil
        · rw [List.mem_singleton]
          exact Nat.le_antisymm (Tale.le_of_get_concat hd) hge
      · intro m p' r hm hcaptured
        rw [Tale.get_of_append (Nat.lt_trans hm hstart)] at hcaptured
        exact hunderway.old m p' r hm hcaptured
      · exact List.getElem?_concat_length

/-- **Taking the record** closes the chapter. -/
theorem Stage.record_telling {run : Run MemoryFs} (h : w.Consistent keeps before run)
    (hloaded : ∃ fs' : MemoryFs, (w.graph.node i).LoadedFrom fs')
    (hstage : Stage.returned.Telling keeps run.site.files
      (run.taleAfter before w.graph) (w.graph.node i) w.records) :
    w.Consistent keeps before (Stage.record w i run).2 ∧
      (Stage.record w i run).1.Telling keeps (Stage.record w i run).2.site.files
        ((Stage.record w i run).2.taleAfter before w.graph) (w.graph.node i) w.records := by
  obtain ⟨start, finish, moment, hunderway, hlt, hfinish, hle, hdelivered, hpresent⟩ := hstage
  have hlast := Tale.lt_of_get hfinish
  have habsent := h.1.absent_underway hunderway fun m hm => by
    rw [List.mem_singleton.mp hm]
    exact ⟨true, hfinish⟩
  generalize hr : BuildRecord.capture run.site.files (w.graph.node i)
    (referenceStamps w.graph w.records i) = r
  -- the chapter runs from the hand-over to this capture
  have hchapter : Tale.Chapter keeps
      (run.taleAfter before w.graph ++ [.captured (w.graph.node i) r])
      (w.graph.node i) r start finish (run.taleAfter before w.graph).length := by
    refine ⟨Tale.get_append hunderway.handed, Tale.get_append hfinish, hlt, hlast, ?_,
      ⟨_, _, hr.symm, hpresent⟩, ?_, moment, ?_, ?_⟩
    · intro m d hm hm' hd habout
      rw [Tale.get_of_append hm'] at hd
      -- nothing but the return was told of the project since
      exact List.mem_singleton.mp (hunderway.latest m d hm hd habout)
    · intro path stamp hstamp
      rw [← hr, BuildRecord.capture_references] at hstamp
      obtain ⟨k, r', hr', hstamp'⟩ := recordOf?_of_referenceStamps hstamp
      obtain ⟨m, p', hm, hcaptured⟩ := hunderway.known k r' hr'
      exact ⟨m, p', r', hm, Tale.get_append hcaptured, hstamp'⟩
    · rw [← hr]
      exact BuildRecord.capture_outputsSince hdelivered
    · intro m p' r' hm hcaptured
      rw [Tale.get_of_append (Nat.lt_trans hm (Tale.lt_of_get hunderway.handed))] at hcaptured
      exact hunderway.old m p' r' hm hcaptured
  have hadd := h.add (Stage.record w i run).2 (.captured (w.graph.node i) r)
    (by rw [← hr]; exact Run.deeds_append w.graph [.captured i _] rfl) (by
      refine h.1.tell hloaded habsent ?_
      intro p' r' hd
      obtain ⟨rfl, rfl⟩ := Deed.captured.inj hd
      refine ⟨?_, start, finish, hchapter⟩
      rw [← hr]
      exact BuildRecord.capture_outputsBy h.1.timely)
  refine ⟨hadd.1, ?_⟩
  rw [hadd.2]
  show (recorded _).Telling keeps _ _ _ _
  rw [hr]
  refine ⟨⟨(run.taleAfter before w.graph).length, ?_, ?_⟩, ?_, ?_, hpresent⟩
  · exact List.getElem?_concat_length
  · intro m d hm hd
    exact absurd (Tale.le_of_get_concat hd) (Nat.not_le_of_lt hm)
  · rw [← hr]
    exact BuildRecord.capture_canonical h.1.timely (PathMap.sorted_ofList _)
  · rw [← hr]
    rfl

/-- **One step of a worker** keeps files and tale fitting together, and what
    the worker knows goes on with its stage. -/
theorem Stage.telling_step (hloaded : ∃ fs' : MemoryFs, (w.graph.node i).LoadedFrom fs')
    (hdelivers : (w.compiler w.graph i).Delivers (w.graph.node i).expectedOutputs
      (w.graph.node i).expectedOutputs)
    {stage : Stage MemoryFs} {run : Run MemoryFs} (h : w.Consistent keeps before run)
    (hedits : stage.CompilesOnly (CompileEdit keeps))
    (hstage : stage.Telling keeps run.site.files (run.taleAfter before w.graph)
      (w.graph.node i) w.records) :
    w.Consistent keeps before (stage.step w i run).2 ∧
      (stage.step w i run).1.Telling keeps (stage.step w i run).2.site.files
        ((stage.step w i run).2.taleAfter before w.graph) (w.graph.node i) w.records := by
  obtain ⟨entries, hmove⟩ := step_moves w i stage run
  generalize stage.step w i run = next at hmove ⊢
  have hdeeds := Run.deeds_append w.graph entries hmove.journal
  cases hmove with
  | skipped =>
      exact ⟨h.quiet [] rfl (fun e he => nomatch he) (hdeeds.trans (List.append_nil _)), True.intro⟩
  | entered =>
      exact ⟨h.quiet [] rfl (fun e he => nomatch he) (hdeeds.trans (List.append_nil _)), True.intro⟩
  | kept hremoved =>
      -- removing a record from memory never fails
      obtain ⟨failure, hfailed, -⟩ := BuildRecord.invalidate_error hremoved
      exact nomatch hfailed
  | handed hremoved =>
      obtain rfl := BuildRecord.invalidate_files hremoved
      exact handOver_telling h hloaded hdelivers
  | worked effect next =>
      obtain ⟨start, moment, due, hunderway, hle, hjob, hdelivered, hpresent⟩ := hstage
      -- the effect is edits the compiler may make, which also deliver what is due
      obtain ⟨⟨es, hes, hok⟩, -⟩ := hedits run.site
      obtain ⟨es', hes', hnext⟩ := hjob run.site
      refine ⟨h.quiet es hes (fun e he => (hok e he).1) rfl, start, moment, _, hunderway, ?_,
        hnext, ?_, ?_⟩
      · show moment ≤ (effect run.site).files.clock
        rw [hes]
        exact Nat.le_trans hle (MemoryFs.edits_later _ es).clock
      · show (effect run.site).files.Delivered _ _ _
        rw [hes']
        exact MemoryFs.edits_delivered hle hdelivered es'
      · intro hkeeps
        show (effect run.site).files.Present _ _
        rw [hes']
        exact MemoryFs.edits_present (hpresent hkeeps) es'
  | succeeded messages => exact compile_telling h hloaded hstage
  | failed e => exact compile_telling h hloaded hstage
  | captured hcaptured =>
      subst hcaptured
      exact record_telling h hloaded hstage
  | saved hsaved =>
      obtain ⟨⟨n, hn, hlatest⟩, hcanonical, hversion, hpresent⟩ := hstage
      obtain ⟨rfl, rfl⟩ := Prod.mk.inj ((BuildRecord.save_eq hcanonical).symm.trans hsaved)
      refine ⟨⟨h.1.save hn hlatest hcanonical hversion, h.2⟩, ⟨n, hn⟩, ?_⟩
      intro hkeeps
      exact (hpresent hkeeps).put _ _
  | closed result =>
      have hquiet := hdeeds.trans (List.append_nil _)
      refine ⟨h.quiet [] (explain_files _ _ _) (fun e he => nomatch he) hquiet, ?_⟩
      show (finished (recordOf? result)).Telling keeps
        (explain (w.graph.node i) run result).site.files (before ++ Run.deeds w.graph _) _ _
      rw [hquiet, explain_files]
      cases result with
      | ok r => exact hstage
      | error e => exact True.intro
  | rested record => exact ⟨h, hstage⟩

end step

end ProjectBuild
