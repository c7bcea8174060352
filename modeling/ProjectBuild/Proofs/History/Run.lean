import ProjectBuild.Proofs.Graph.Level
import ProjectBuild.Proofs.History.Work
import ProjectBuild.Proofs.Staleness

/-! # Runs go on with the tale

    A run goes on with the tale of the runs before it, and files and tale fit
    together when it ends (`Progress.levels_recounted`).  On the way it is kept
    which projects the run has found up to date, and on which grounds: they
    have a record from before the run, their references are up to date as
    well, and nothing is told of them. -/

namespace ProjectBuild

open MemoryFs (Edit)
open Staleness (recordOf? stampOf? Records)

/-- A compiler that has written all outputs that are expected of it when it
    succeeds, and that forges no records.  Under `keeps` it removes no files,
    either. -/
structure Compiler.Reliable (keeps : Prop) (compiler : Compiler MemoryFs) : Prop where
  only : ∀ g i, (compiler g i).Only (CompileEdit keeps)
  delivers : ∀ g i, (compiler g i).Delivers (g.node i).expectedOutputs (g.node i).expectedOutputs

/-- Scripts that leave no outputs out are such compilers. -/
theorem CompileScript.compiler_reliable (keeps : Prop) {script : CompileScript}
    (hemissions : script.emissions = []) : script.compiler.Reliable keeps := by
  have hforge : BuildRecord.ofContent? "// emitted".toUTF8 = none := by decide +kernel
  refine ⟨fun g i => (compiler_writes script g i).imp ?_, compiler_delivers hemissions⟩
  rintro e ⟨p, -, rfl⟩
  exact ⟨fun _ => hforge, fun _ q h => nomatch h⟩

/-! ## What a run does -/

/-- A run that has gone on from one state to another by edits of its own, and
    has told of these projects only. -/
structure Run.Onward (keeps : Prop) (g : Graph) (touched : Nat → Prop)
    (run run' : Run MemoryFs) : Prop where
  files : ∃ es, run'.site.files = run.site.files.edits es ∧ ∀ e ∈ es, BuildEdit keeps e
  deeds : ∃ more, run'.deeds g = run.deeds g ++ more ∧
    ∀ d ∈ more, ∃ i, touched i ∧ d.project = g.node i

namespace Run.Onward

variable {keeps : Prop} {g : Graph} {touched : Nat → Prop}

/-- Nothing is told, and no file is changed. -/
theorem of_eq {run run' : Run MemoryFs} (hfiles : run'.site.files = run.site.files)
    (hdeeds : run'.deeds g = run.deeds g) : run.Onward keeps g touched run' :=
  ⟨⟨[], hfiles, fun _ he => nomatch he⟩,
    ⟨[], hdeeds.trans (List.append_nil _).symm, fun _ hd => nomatch hd⟩⟩

/-- A run goes on step by step. -/
theorem trans {run run' run'' : Run MemoryFs} (h : run.Onward keeps g touched run')
    (h' : run'.Onward keeps g touched run'') : run.Onward keeps g touched run'' := by
  obtain ⟨es, hes, hbuild⟩ := h.files
  obtain ⟨es', hes', hbuild'⟩ := h'.files
  obtain ⟨more, hmore, habout⟩ := h.deeds
  obtain ⟨more', hmore', habout'⟩ := h'.deeds
  refine ⟨⟨es ++ es', ?_, ?_⟩, ⟨more ++ more', ?_, ?_⟩⟩
  · rw [hes', hes, MemoryFs.edits_append]
  · intro e he
    exact (List.mem_append.mp he).elim (hbuild e) (hbuild' e)
  · rw [hmore', hmore, List.append_assoc]
  · intro d hd
    exact (List.mem_append.mp hd).elim (habout d) (habout' d)

/-- A run that has touched some projects has touched no others. -/
theorem mono {touched' : Nat → Prop} {run run' : Run MemoryFs}
    (h : run.Onward keeps g touched run') (hsub : ∀ i, touched i → touched' i) :
    run.Onward keeps g touched' run' := by
  obtain ⟨more, hmore, habout⟩ := h.deeds
  refine ⟨h.files, more, hmore, fun d hd => ?_⟩
  obtain ⟨i, hi, hproject⟩ := habout d hd
  exact ⟨i, hsub i hi, hproject⟩

/-- Outputs that exist go on existing, if compiles remove nothing. -/
theorem present {run run' : Run MemoryFs} (h : run.Onward keeps g touched run') (hkeeps : keeps)
    {p : Project} (hpresent : run.site.files.Present p.expectedOutputs []) :
    run'.site.files.Present p.expectedOutputs [] := by
  obtain ⟨es, hes, hbuild⟩ := h.files
  rw [hes]
  exact hpresent.edits hkeeps hbuild

end Run.Onward

/-- **One step of a worker** moves a run on, touching its project alone. -/
theorem Stage.step_onward {keeps : Prop} (w : Workplace MemoryFs) {touched : Nat → Prop}
    {i : Nat} (hi : touched i) {stage : Stage MemoryFs} (h : stage.CompilesOnly (CompileEdit keeps))
    (run : Run MemoryFs) : run.Onward keeps w.graph touched (stage.step w i run).2 := by
  obtain ⟨es, hes, hedits⟩ := step_files w i h run
  obtain ⟨more, hmore, habout⟩ := step_deeds w i stage run
  refine ⟨⟨es, hes, ?_⟩, ⟨more, hmore, fun d hd => ⟨i, hi, habout d hd⟩⟩⟩
  intro e he
  exact (hedits e he).imp_left fun hpath => ⟨w.graph.node i, hpath⟩

/-! ## A crew -/

section crew

variable {keeps : Prop} {before : Tale}

/-- Deeds about other projects. -/
theorem Graph.Distinct.not_about {g : Graph} (h : g.Distinct) {i j : Nat} (hi : i < g.size)
    (hj : j < g.size) (hij : i ≠ j) {d : Deed} (hd : d.project = g.node i) :
    ¬ d.About (g.node j) := by
  unfold Deed.About
  rw [hd]
  exact h i hi j hj hij

/-- **The work of a crew** keeps files and tale fitting together, and every
    member knows at the end what its stage says. -/
theorem Crew.work_telling {w : Workplace MemoryFs} (hdistinct : w.graph.Distinct)
    (hloaded : ∀ i < w.graph.size, ∃ fs' : MemoryFs, (w.graph.node i).LoadedFrom fs')
    (hcompiler : w.compiler.Reliable keeps) {stale : List Nat} (hnodup : stale.Nodup)
    (hlt : ∀ i ∈ stale, i < w.graph.size) (turns : List Turn) {run : Run MemoryFs}
    (h : w.Consistent keeps before run) :
    (w.Consistent keeps before (work w stale turns run).2 ∧
      run.Onward keeps w.graph (· ∈ stale) (work w stale turns run).2) ∧
    ∀ worker ∈ (work w stale turns run).1,
      worker.stage.CompilesOnly (CompileEdit keeps) ∧
      worker.stage.Telling keeps (work w stale turns run).2.site.files
        ((work w stale turns run).2.taleAfter before w.graph) (w.graph.node worker.index)
        w.records := by
  refine work_local w turns run
    (G := fun run' => w.Consistent keeps before run' ∧ run.Onward keeps w.graph (· ∈ stale) run')
    (I := fun i stage run' => stage.CompilesOnly (CompileEdit keeps) ∧
      stage.Telling keeps run'.site.files (run'.taleAfter before w.graph) (w.graph.node i)
        w.records) hnodup ?_ ?_
    (fun _ _ h => ⟨⟨h.1, h.2.trans (.of_eq rfl rfl)⟩, fun _ _ h => h⟩)
    ⟨h, .of_eq rfl rfl⟩ (fun _ _ => ⟨True.intro, True.intro⟩)
  · rintro i hi stage run' ⟨hconsistent, honward⟩ ⟨honly, hstage⟩
    have hstep := Stage.telling_step (hloaded i (hlt i hi)) (hcompiler.delivers w.graph i)
      hconsistent honly hstage
    exact ⟨⟨hstep.1, honward.trans (Stage.step_onward w hi honly run')⟩,
      Stage.step_compilesOnly w i (hcompiler.only w.graph i) honly run', hstep.2⟩
  · rintro i hi j hj hij stage other run' - ⟨honly, -⟩ ⟨hother, hstage⟩
    obtain ⟨⟨es, hes, hbuild⟩, -⟩ := Stage.step_onward w hi honly run'
    obtain ⟨more, hmore, habout⟩ := Stage.step_deeds w i stage run'
    refine ⟨hother, ?_⟩
    unfold Run.taleAfter at hstage ⊢
    rw [hes, hmore, ← List.append_assoc]
    refine hstage.beside (fun d hd => ?_) hbuild
    exact hdistinct.not_about (hlt i hi) (hlt j hj) hij (habout d hd)

end crew

/-! ## A level -/

namespace Progress

section level

variable {keeps : Prop} {before : Tale} {g : Graph} {options : BuildOptions}
  {compiler : Compiler MemoryFs} {s : Progress MemoryFs} {part : List Nat}

theorem deed?_of_announces {e : Entry} (h : e.Announces) : e.deed? g = none := by
  cases e with
  | published i status => rfl
  | finished i status => rfl
  | _ => exact h.elim

/-- Decisions are not told. -/
theorem Opened.deeds {s' : Progress MemoryFs} (h : Opened s s' part) :
    s'.run.deeds g = s.run.deeds g := by
  obtain ⟨entries, hjournal, hannounce⟩ := h.journal
  rw [Run.deeds_append g entries hjournal,
    List.filterMap_eq_nil_iff.mpr fun e he => deed?_of_announces (hannounce e he),
    List.append_nil]

/-- The records that a level takes are told of. -/
theorem build_known {turns : List Turn} {tale : Tale} (hnodup : part.Nodup)
    (hlt : ∀ i ∈ part, i < s.records.length)
    (hknown : tale.Known s.records tale.length)
    (htelling : ∀ worker ∈ (Crew.work ⟨g, compiler, s.records⟩ (s.stale part) turns s.run).1,
      ∀ r, worker.stage = .finished (some r) →
        ∃ n : Nat, tale[n]? = some (.captured (g.node worker.index) r)) :
    tale.Known (build g compiler turns s part).records tale.length := by
  intro k r hr
  by_cases hk : k ∈ s.stale part
  · rw [← Crew.work_indices ⟨g, compiler, s.records⟩ (s.stale part) turns s.run] at hk
    obtain ⟨worker, hworker, rfl⟩ := List.mem_map.mp hk
    have hindex : worker.index ∈ part := by
      rw [Crew.work_indices] at hk
      exact (mem_stale.mp hk).1
    obtain ⟨record, hfinished⟩ := Crew.work_finished ⟨g, compiler, s.records⟩ (s.stale part)
      turns s.run worker hworker
    rw [recordOf?_build hnodup hworker (hlt _ hindex) hfinished] at hr
    cases record with
    | some r' =>
        obtain ⟨n, hn⟩ := htelling worker hworker r' hfinished
        rw [← Option.some.inj hr]
        exact ⟨n, _, Tale.lt_of_get hn, hn⟩
    | none => exact hknown _ r hr
  · rw [recordOf?_build_ne hk] at hr
    exact hknown k r hr

/-- **A level** keeps files and tale fitting together, tells nothing of the
    projects that it finds up to date, and leaves the outputs of those that it
    builds. -/
theorem level_telling (options : BuildOptions) (hdistinct : g.Distinct)
    (hloaded : ∀ i < g.size, ∃ fs' : MemoryFs, (g.node i).LoadedFrom fs')
    (hcompiler : compiler.Reliable keeps) (schedule : LevelSchedule) (hnodup : part.Nodup)
    (hpart : ∀ i ∈ part, i < g.size) (hsize : s.run.statuses.size = g.size)
    (hlength : s.records.length = g.size)
    (h : Workplace.Consistent ⟨g, compiler, s.records⟩ keeps before s.run) :
    Workplace.Consistent ⟨g, compiler, (level g options compiler schedule s part).records⟩
      keeps before (level g options compiler schedule s part).run ∧
    (level g options compiler schedule s part).records.length = g.size ∧
    s.run.Onward keeps g (fun i => i ∈ part ∧
        (level g options compiler schedule s part).run.statuses.get i ≠ .upToDate)
      (level g options compiler schedule s part).run ∧
    ∀ i ∈ part, (level g options compiler schedule s part).run.statuses.get i = .built → keeps →
      (level g options compiler schedule s part).run.site.files.Present
        (g.node i).expectedOutputs [] := by
  obtain ⟨hopened, hdecided⟩ := decideEach_spec g options hnodup s
    (fun i hi => hsize.symm ▸ hpart i hi) schedule.interruptions
  generalize hs' : decideEach g options s schedule.interruptions part = s' at hopened hdecided
  -- decisions write nothing and tell nothing
  have hconsistent : Workplace.Consistent ⟨g, compiler, s'.records⟩ keeps before s'.run := by
    unfold Workplace.Consistent Run.taleAfter at h ⊢
    rw [hopened.files, hopened.records, hopened.deeds]
    exact h
  have honward : s.run.Onward keeps g (fun i => i ∈ part ∧
      (level g options compiler schedule s part).run.statuses.get i ≠ .upToDate) s'.run :=
    .of_eq hopened.files hopened.deeds
  by_cases hdry : options.dryRun = true
  · -- a dry run ends with its decisions, and those never say `built`
    have heq : level g options compiler schedule s part = s' := by
      unfold level
      rw [if_pos hdry]
      exact hs'
    rw [heq] at honward ⊢
    refine ⟨hconsistent, by rw [hopened.records, hlength], honward, ?_⟩
    intro i hi hbuilt
    obtain ⟨statuses, reason, -, hget, -⟩ := hdecided i hi
    exact absurd (hget.symm.trans hbuilt) (ruling_ne_built options reason)
  · rw [Bool.not_eq_true] at hdry
    rw [level_eq hdry, hs'] at honward ⊢
    have hstale : ∀ i ∈ s'.stale part, i ∈ part := fun i hi => (mem_stale.mp hi).1
    have hstatuses := Crew.work_statuses ⟨g, compiler, s'.records⟩ (stale_nodup hnodup s')
      schedule.turns s'.run
      (fun i hi => hopened.size.symm ▸ hsize.symm ▸ hpart i (hstale i hi))
      (fun i hi => (mem_stale.mp hi).2)
    obtain ⟨⟨hwork, hworkOn⟩, hworkers⟩ := Crew.work_telling (w := ⟨g, compiler, s'.records⟩)
      hdistinct hloaded hcompiler (stale_nodup hnodup s')
      (fun i hi => hpart i (hstale i hi)) schedule.turns hconsistent
    rw [← build_run] at hwork hworkOn hworkers hstatuses
    -- what the last stage of a worker says of its record
    have htelling : ∀ worker ∈ (Crew.work ⟨g, compiler, s'.records⟩ (s'.stale part)
        schedule.turns s'.run).1, ∀ r, worker.stage = .finished (some r) →
        (∃ n : Nat, ((build g compiler schedule.turns s' part).run.taleAfter before g)[n]?
          = some (.captured (g.node worker.index) r)) ∧
        (keeps → (build g compiler schedule.turns s' part).run.site.files.Present
          (g.node worker.index).expectedOutputs []) := by
      intro worker hworker r hfinished
      have hstage := (hworkers worker hworker).2
      rw [hfinished] at hstage
      exact hstage
    refine ⟨⟨hwork.1, ?_⟩, ?_, ?_, ?_⟩
    · refine build_known hnodup ?_ hwork.2 fun worker hworker r hfinished =>
        (htelling worker hworker r hfinished).1
      intro i hi
      rw [hopened.records, hlength]
      exact hpart i hi
    · rw [build_records_length, hopened.records, hlength]
    · refine honward.trans (hworkOn.mono fun i hi => ⟨hstale i hi, ?_⟩)
      obtain ⟨worker, -, -, hended⟩ := hstatuses.2.2 i hi
      exact hended.ne_upToDate
    · intro i hi hbuilt hkeeps
      by_cases hmem : i ∈ s'.stale part
      · obtain ⟨worker, hworker, rfl, hended⟩ := hstatuses.2.2 i hmem
        obtain ⟨r, hfinished⟩ := hended.record hbuilt
        exact (htelling worker hworker r hfinished).2 hkeeps
      · obtain ⟨statuses, reason, -, hget, -⟩ := hdecided i hi
        rw [hstatuses.2.1 i hmem, hget] at hbuilt
        exact absurd hbuilt (ruling_ne_built options reason)

end level

/-! ## All levels -/

/-- The grounds for finding a project up to date in a run over the files `fs`:
    a record that was on file before the run, a moment of the run at which
    none of the project's own files called for a rebuild, and references that
    are up to date with the stamps on record. -/
structure Vouched (keeps : Prop) (g : Graph) (fs : MemoryFs) (s : Progress MemoryFs) (i : Nat)
    (r : BuildRecord) : Prop where
  loaded : (BuildRecord.load fs (g.node i)).value = some r
  own : ∃ run : Run MemoryFs, Staleness.ownReason? run.site.files (g.node i) r = none ∧
    run.Onward keeps g (fun _ => True) s.run
  references : ∀ j ∈ g.dependencies i, s.run.statuses.get j = .upToDate ∧
    r.references.get? (g.node j).configPath
      = (BuildRecord.load fs (g.node j)).value.map BuildRecord.buildStamp

/-- What a run over the files `fs` has come to before the level `n`, as far as
    the tale is concerned. -/
structure Recounted (keeps : Prop) (g : Graph) (compiler : Compiler MemoryFs) (before : Tale)
    (fs : MemoryFs) (n : Nat) (s : Progress MemoryFs) : Prop where
  consistent : Workplace.Consistent ⟨g, compiler, s.records⟩ keeps before s.run
  size : s.run.statuses.size = g.size
  length : s.records.length = g.size
  deeds : ∀ d ∈ s.run.deeds g, ∃ i < g.size, g.levelOf i < n ∧
    s.run.statuses.get i ≠ .upToDate ∧ d.project = g.node i
  kept : ∀ i < g.size, n ≤ g.levelOf i ∨ s.run.statuses.get i = .upToDate →
    recordOf? s.records i = (BuildRecord.load fs (g.node i)).value
  ended : ∀ i < g.size, g.levelOf i < n → s.run.statuses.get i = .upToDate ∨
    (s.run.statuses.get i).isRebuild = true ∨ (s.run.statuses.get i).blocksDependents = true
  vouched : ∀ i < g.size, g.levelOf i < n → s.run.statuses.get i = .upToDate →
    ∃ r, Vouched keeps g fs s i r
  built : keeps → ∀ i < g.size, g.levelOf i < n → s.run.statuses.get i = .built →
    s.run.site.files.Present (g.node i).expectedOutputs []

section levels

variable {keeps : Prop} {before : Tale} {g : Graph} {options : BuildOptions}
  {compiler : Compiler MemoryFs} {fs : MemoryFs}

/-- A record that vouches for a project does so while the run goes on elsewhere. -/
theorem Vouched.onward {s s' : Progress MemoryFs} {i : Nat} {r : BuildRecord}
    (h : Vouched keeps g fs s i r) {touched : Nat → Prop}
    (honward : s.run.Onward keeps g touched s'.run)
    (hstatuses : ∀ j ∈ g.dependencies i, s'.run.statuses.get j = s.run.statuses.get j) :
    Vouched keeps g fs s' i r := by
  obtain ⟨run, hown, hrun⟩ := h.own
  refine ⟨h.loaded, ⟨run, hown, hrun.trans (honward.mono fun _ _ => True.intro)⟩, ?_⟩
  intro j hj
  rw [hstatuses j hj]
  exact h.references j hj

/-- What is up to date by a check, with the projects before it accounted for,
    is vouched for. -/
theorem Recounted.vouched_of_check (hg : g.WellFormed) {n : Nat} {s : Progress MemoryFs}
    (h : s.Recounted keeps g compiler before fs n) {i : Nat} (hi : i < g.size)
    (hlevel : g.levelOf i = n) {statuses : StatusTable}
    (hstatuses : ∀ j ∈ g.dependencies i, statuses.get j = s.run.statuses.get j)
    (hcheck : Staleness.check s.run.site.files g statuses s.records i = .upToDate) :
    ∃ r, Vouched keeps g fs s i r := by
  obtain ⟨hblocked, hrebuilt, r, hr, hown, hstamps⟩ := Staleness.check_upToDate_iff.mp hcheck
  rw [h.kept i hi (Or.inl (Nat.le_of_eq hlevel.symm))] at hr
  refine ⟨r, hr, ⟨s.run, hown, .of_eq rfl rfl⟩, ?_⟩
  intro j hj
  have hlt := (hg.dependency_lt hj).2
  have hbelow := Graph.levelOf_lt hg hj
  have hup : s.run.statuses.get j = .upToDate := by
    rcases h.ended j hlt (by omega) with hup | hrebuild | hblocks
    · exact hup
    · rw [← hstatuses j hj, hrebuilt j hj] at hrebuild
      exact nomatch hrebuild
    · exact absurd ⟨j, hj, (hstatuses j hj).symm ▸ hblocks⟩ hblocked
  refine ⟨hup, (hstamps j hj).trans ?_⟩
  unfold stampOf?
  rw [h.kept j hlt (Or.inr hup)]

/-- **One more level.** -/
theorem Recounted.level (hg : g.WellFormed) (hdistinct : g.Distinct)
    (hloaded : ∀ i < g.size, ∃ fs' : MemoryFs, (g.node i).LoadedFrom fs')
    (hcompiler : compiler.Reliable keeps) {n : Nat} (hn : n < g.levels.length)
    (schedule : LevelSchedule) {s : Progress MemoryFs}
    (h : s.Recounted keeps g compiler before fs n) :
    (Progress.level g options compiler schedule s g.levels[n]).Recounted keeps g compiler before
      fs (n + 1) := by
  have hmem : ∀ {k}, k ∈ g.levels[n] ↔ k < g.size ∧ g.levelOf k = n :=
    Graph.mem_levels_getElem hn
  have hnodup := Graph.levels_getElem_nodup hn
  have hlt : ∀ i ∈ g.levels[n], i < s.run.statuses.size :=
    fun i hi => h.size.symm ▸ (hmem.mp hi).1
  obtain ⟨hsize, hothers⟩ := level_statuses g options compiler schedule hnodup hlt
  obtain ⟨hrecords, houtcome⟩ := level_outcome g options compiler schedule hnodup hlt
  obtain ⟨hconsistent, hlength, honward, hbuilt⟩ := level_telling options hdistinct
    hloaded hcompiler schedule hnodup (fun i hi => (hmem.mp hi).1) h.size h.length h.consistent
  generalize Progress.level g options compiler schedule s g.levels[n] = s' at *
  have hdependencies : ∀ {i}, g.levelOf i ≤ n → ∀ j ∈ g.dependencies i,
      s'.run.statuses.get j = s.run.statuses.get j := by
    intro i hi j hj
    exact hothers j (Graph.dependency_before hg hn hi hj).2
  -- a project of the level that is up to date was left alone
  have halone : ∀ i ∈ g.levels[n], s'.run.statuses.get i = .upToDate →
      LeftAlone g s s' g.levels[n] i := by
    intro i hi hup
    rcases houtcome i hi with halone | hrebuild | hblocks
    · exact halone
    · rw [hup] at hrebuild
      exact nomatch hrebuild
    · rw [hup] at hblocks
      exact nomatch hblocks
  constructor
  case consistent => exact hconsistent
  case size => exact hsize.trans h.size
  case length => exact hlength
  case deeds =>
    obtain ⟨more, hmore, habout⟩ := honward.deeds
    intro d hd
    rw [hmore] at hd
    rcases List.mem_append.mp hd with hd | hd
    · obtain ⟨i, hi, hlevel, hstatus, hproject⟩ := h.deeds d hd
      refine ⟨i, hi, Nat.lt_succ_of_lt hlevel, ?_, hproject⟩
      rw [hothers i (Graph.not_mem_levels_getElem hn (Nat.ne_of_lt hlevel))]
      exact hstatus
    · obtain ⟨i, ⟨hi, hstatus⟩, hproject⟩ := habout d hd
      obtain ⟨hlt, hlevel⟩ := hmem.mp hi
      exact ⟨i, hlt, by omega, hstatus, hproject⟩
  case kept =>
    intro i hi hcase
    by_cases hpart : i ∈ g.levels[n]
    · have hlevel := (hmem.mp hpart).2
      rcases hcase with hahead | hup
      · omega
      · rw [(halone i hpart hup).2.1]
        exact h.kept i hi (Or.inl (Nat.le_of_eq hlevel.symm))
    · rw [hrecords i hpart]
      refine h.kept i hi (hcase.imp (fun hahead => Nat.le_of_succ_le hahead) fun hup => ?_)
      rw [← hothers i hpart]
      exact hup
  case ended =>
    intro i hi hlevel
    rcases Graph.levelOf_cases hn hi hlevel with ⟨hlevel, hpart⟩ | hpart
    · rw [hothers i hpart]
      exact h.ended i hi hlevel
    · exact (houtcome i hpart).imp_left fun halone => halone.1
  case vouched =>
    intro i hi hlevel hup
    rcases Graph.levelOf_cases hn hi hlevel with ⟨hlevel, hpart⟩ | hpart
    · obtain ⟨r, hr⟩ := h.vouched i hi hlevel (hothers i hpart ▸ hup)
      exact ⟨r, hr.onward honward (hdependencies (Nat.le_of_lt hlevel))⟩
    · have hlevel := (hmem.mp hpart).2
      obtain ⟨-, -, statuses, hstatuses, hcheck⟩ := halone i hpart hup
      have hbelow : ∀ j ∈ g.dependencies i, statuses.get j = s.run.statuses.get j :=
        fun j hj => hstatuses j (Graph.dependency_before hg hn (Nat.le_of_eq hlevel) hj).2
      obtain ⟨r, hr⟩ := h.vouched_of_check hg hi hlevel hbelow hcheck
      exact ⟨r, hr.onward honward (hdependencies (Nat.le_of_eq hlevel))⟩
  case built =>
    intro hkeeps i hi hlevel hstatus
    rcases Graph.levelOf_cases hn hi hlevel with ⟨hlevel, hpart⟩ | hpart
    · exact honward.present hkeeps (h.built hkeeps i hi hlevel (hothers i hpart ▸ hstatus))
    · exact hbuilt i hpart hstatus hkeeps

/-- A run begins with the records on file. -/
theorem start_recounted {site : Site MemoryFs} (htold : Told keeps site.files before) :
    (Progress.start site g).Recounted keeps g compiler before site.files 0 := by
  have htale : (Progress.start site g).run.taleAfter before g = before := List.append_nil before
  refine ⟨?_, StatusTable.size_ofSize g.size, start_records_length site g, ?_,
    fun i hi _ => recordOf?_start site hi, fun _ _ h => absurd h (Nat.not_lt_zero _),
    fun _ _ h => absurd h (Nat.not_lt_zero _), fun _ _ _ h => absurd h (Nat.not_lt_zero _)⟩
  · unfold Workplace.Consistent
    show Told keeps (Progress.start site g).run.site.files
      ((Progress.start site g).run.taleAfter before g) ∧
      ((Progress.start site g).run.taleAfter before g).Known (Progress.start site g).records
        ((Progress.start site g).run.taleAfter before g).length
    rw [htale]
    refine ⟨htold, ?_⟩
    intro k r hr
    have hk : k < g.size := by
      rw [← start_records_length site g]
      exact lt_of_recordOf? hr
    rw [recordOf?_start site hk] at hr
    obtain ⟨hfile, -⟩ := recordAt?_of_load hr
    obtain ⟨n, p, hn, -, -⟩ := htold.onFile _ r (g.node k).getLast?_recordPath hfile
    exact ⟨n, p, Tale.lt_of_get hn, hn⟩
  · exact fun d hd => nomatch hd

/-- **A whole run** keeps files and tale fitting together, and vouches for the
    projects that it finds up to date. -/
theorem levels_recounted (options : BuildOptions) (hg : g.WellFormed) (hdistinct : g.Distinct)
    (hloaded : ∀ i < g.size, ∃ fs' : MemoryFs, (g.node i).LoadedFrom fs')
    (hcompiler : compiler.Reliable keeps) (schedules : List LevelSchedule)
    {site : Site MemoryFs} (htold : Told keeps site.files before) :
    (levels g options compiler (start site g) schedules g.levels).Recounted keeps g compiler
      before site.files g.levels.length :=
  levels_induct g options compiler (start site g) schedules g.levels
    (fun _ hn schedule _ _ h => h.level hg hdistinct hloaded hcompiler hn schedule)
    (start_recounted htold)

end levels

end Progress

end ProjectBuild
