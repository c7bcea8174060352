import ProjectBuild.Proofs.Graph.Reach
import ProjectBuild.Proofs.Run.Plan

/-! # What a change rebuilds

    After a run that ended well every project is settled.  Edits of inputs
    unsettle the projects that have them, and no others
    (`Progress.Steady.changed`): an edited input is newer than every output on
    record, and where only outputs have become newer the record still fits.

    From there on the plan of the next run decides.  A project is stale in it
    if its own files have changed or a reference is stale, so the stale
    projects are those from which a chain of references leads to a change
    (`Graph.Plan.stale_iff`).

    An edit of an input that is also an output on record, of a project with an
    edited input, makes that output newer too, and may hide the change
    (`buildGraph_rebuilds_hidden`). -/

namespace ProjectBuild

open Staleness (recordOf? stampOf? Records ownReason? check)
open MemoryFs (Edit)

/-! ## Plans over records that know their references -/

section plan

variable {σ : Type} [FileSystem σ] {g : Graph} {options : BuildOptions} {fs : σ}
  {records : Records} {statuses : StatusTable} {reason : Nat → Reason}

/-- A project has a record that bears the stamps of its references' records;
    `changed` says that its own files do not fit the record. -/
def Graph.OnRecord (g : Graph) (fs : σ) (records : Records) (changed : Prop) (i : Nat) : Prop :=
  ∃ r, recordOf? records i = some r ∧
    (∀ k ∈ g.dependencies i, r.references.get? (g.node k).configPath = stampOf? records k) ∧
    (ownReason? fs (g.node i) r ≠ none ↔ changed)

/-- In a forced plan everything is stale. -/
theorem Graph.Plan.forced (hg : g.WellFormed) (h : g.Plan options fs records statuses reason)
    (hforce : options.force = true) {i : Nat} (hi : i < g.size) : statuses.get i = .stale := by
  refine (h.decided hg hi).resolve_right fun hup => ?_
  have hruling : (Progress.ruling options (check fs g statuses records i)).1 = .upToDate :=
    (congrArg Prod.fst (h i hi)).symm.trans hup
  rw [Progress.ruling_eq_upToDate hruling] at hruling
  simp only [Progress.ruling, if_pos hforce] at hruling
  cases hruling

/-- **What makes a project stale** is a change of its own files or a stale
    reference. -/
theorem Graph.Plan.stale_step (hg : g.WellFormed) (h : g.Plan options fs records statuses reason)
    (hforce : options.force = false) {i : Nat} (hi : i < g.size) {changed : Prop}
    (hrecord : g.OnRecord fs records changed i) :
    statuses.get i = .stale ↔ changed ∨ ∃ k ∈ g.dependencies i, statuses.get k = .stale := by
  obtain ⟨r, hr, hstamps, hchanged⟩ := hrecord
  have hdecided : ∀ k, k < g.size → statuses.get k = .stale ∨ statuses.get k = .upToDate :=
    fun k hk => h.decided hg hk
  have hcheck : statuses.get i = .upToDate ↔ check fs g statuses records i = .upToDate := by
    have hstatus : statuses.get i = (Progress.ruling options (check fs g statuses records i)).1 :=
      congrArg Prod.fst (h i hi)
    rw [hstatus]
    refine ⟨Progress.ruling_eq_upToDate, fun hup => ?_⟩
    rw [hup]
    simp only [Progress.ruling, hforce, Bool.false_eq_true, if_false]
  constructor
  · -- a check with nothing changed and no reference stale finds the project up to date
    intro hst
    by_contra hneither
    rw [not_or, not_exists] at hneither
    have hown : ownReason? fs (g.node i) r = none :=
      not_not.mp fun hne => hneither.1 (hchanged.mp hne)
    have hreferences : ∀ k ∈ g.dependencies i, statuses.get k = .upToDate :=
      fun k hk => (hdecided k (hg.dependency_lt hk).2).resolve_left fun hst' =>
        hneither.2 k ⟨hk, hst'⟩
    have hup := hcheck.mpr (Staleness.check_upToDate_iff.mpr ⟨?_, ?_, r, hr, hown, hstamps⟩)
    · cases hst.symm.trans hup
    · rintro ⟨k, hk, hblocks⟩
      rw [hreferences k hk] at hblocks
      cases hblocks
    · intro k hk
      rw [hreferences k hk]
      rfl
  · intro hwhy
    -- were it up to date, its check would have found nothing to complain of
    refine (hdecided i hi).resolve_right fun hup => ?_
    obtain ⟨-, hquiet, r', hr', hown, -⟩ := Staleness.check_upToDate_iff.mp (hcheck.mp hup)
    obtain rfl := Option.some.inj (hr.symm.trans hr')
    rcases hwhy with hch | ⟨k, hk, hst⟩
    · exact hchanged.mpr hch hown
    · have := hquiet k hk
      rw [hst] at this
      cases this

/-- **The stale projects of a plan** are the changed ones and all that depend on
    them. -/
theorem Graph.Plan.stale_iff (hg : g.WellFormed) (h : g.Plan options fs records statuses reason)
    (hforce : options.force = false) {changed : Nat → Prop}
    (hrecord : ∀ i < g.size, g.OnRecord fs records (changed i) i) {i : Nat} (hi : i < g.size) :
    statuses.get i = .stale ↔ ∃ j < g.size, changed j ∧ (i = j ∨ g.DependsOn i j) := by
  -- induction on the level, from the references upward
  induction hlevel : g.levelOf i using Nat.strong_induction_on generalizing i with
  | _ n ih =>
      rw [h.stale_step hg hforce hi (hrecord i hi)]
      have hbelow : ∀ k ∈ g.dependencies i, (statuses.get k = .stale ↔
          ∃ j < g.size, changed j ∧ (k = j ∨ g.DependsOn k j)) := by
        intro k hk
        exact ih (g.levelOf k) (hlevel ▸ Graph.levelOf_lt hg hk) (hg.dependency_lt hk).2 rfl
      constructor
      · rintro (hch | ⟨k, hk, hst⟩)
        · exact ⟨i, hi, hch, Or.inl rfl⟩
        · obtain ⟨j, hj, hch, rfl | hdep⟩ := (hbelow k hk).mp hst
          · exact ⟨k, hj, hch, Or.inr (.single hk)⟩
          · exact ⟨j, hj, hch, Or.inr (.head hk hdep)⟩
      · rintro ⟨j, hj, hch, rfl | hdep⟩
        · exact Or.inl hch
        · obtain ⟨k, hk, hrest⟩ := Relation.TransGen.head'_iff.mp hdep
          refine Or.inr ⟨k, hk, (hbelow k hk).mpr ⟨j, hj, hch, ?_⟩⟩
          exact (Relation.reflTransGen_iff_eq_or_transGen.mp hrest).imp_left Eq.symm

end plan

/-! ## Changes of inputs -/

/-- An input of the project is among the files that are edited. -/
def Project.Edited (p : Project) (es : List Edit) : Prop :=
  ∃ e ∈ es, ∃ q ∈ p.inputs, e.path.same q = true

/-- Edits that touch or rewrite inputs of projects.  None of them is of an
    output that is on record for a project with an edited input. -/
structure Graph.Change (g : Graph) (fs : MemoryFs) (es : List Edit) : Prop where
  keeps : ∀ e ∈ es, ∀ p, e ≠ .remove p
  inputs : ∀ e ∈ es, ∃ j < g.size, ∃ q ∈ (g.node j).inputs, e.path.same q = true
  outputs : ∀ i < g.size, (g.node i).Edited es → ∀ e ∈ es,
    ∀ o ∈ recordedOutputs fs (g.node i), e.path.same o = false

/-- No input is the record file of a project. -/
def Graph.RecordsApart (g : Graph) : Prop :=
  ∀ i < g.size, ∀ j < g.size, ∀ q ∈ (g.node j).inputs, (g.node i).recordPath.same q = false

/-- Orderly projects keep their records apart. -/
theorem Graph.recordsApart_of_orderly {g : Graph} {fs : MemoryFs} {compiler : Compiler MemoryFs}
    (h : ∀ i < g.size, g.Orderly fs compiler i) : g.RecordsApart :=
  fun i hi _ hj q hq => (h i hi).record q (Graph.mem_foreignFiles_input fs i hj hq)

/-- A change leaves all records as they are. -/
theorem Graph.Change.load_eq {g : Graph} {fs : MemoryFs} {es : List Edit} (h : g.Change fs es)
    (hapart : g.RecordsApart) {i : Nat} (hi : i < g.size) :
    (BuildRecord.load (fs.edits es) (g.node i)).value = (BuildRecord.load fs (g.node i)).value := by
  refine BuildRecord.load_congr (MemoryFs.file?_edits_ne _ fun e he hpath => ?_)
  obtain ⟨j, hj, q, hq, hsame⟩ := h.inputs e he
  exact Path.same_eq_false_iff.mp (hapart i hi j hj q hq)
    (hpath.symm.trans (Path.same_iff.mp hsame))

namespace Progress

variable {g : Graph} {fs₀ : MemoryFs} {s : Progress MemoryFs}

/-- After a run that ended well, the records on file are those that the run
    ended with. -/
theorem Steady.load_eq (h : s.Steady g fs₀ g.levels.length)
    (hclock : s.run.site.files.clock < Time.horizon) {i : Nat} (hi : i < g.size) :
    (BuildRecord.load s.run.site.files (g.node i)).value = recordOf? s.records i := by
  obtain ⟨r, hr, hload, -⟩ := h.settled i hi (Graph.levelOf_lt_length hi)
  rw [hload hclock, hr]

/-- The outputs on record after the run are known. -/
theorem Steady.recordedOutputs_known (h : s.Steady g fs₀ g.levels.length)
    (hclock : s.run.site.files.clock < Time.horizon) {i : Nat} (hi : i < g.size) {o : Path}
    (ho : o ∈ recordedOutputs s.run.site.files (g.node i)) : o ∈ knownOutputs fs₀ (g.node i) := by
  obtain ⟨r, hr, -, -, hkeys, -⟩ := h.settled i hi (Graph.levelOf_lt_length hi)
  unfold recordedOutputs at ho
  rw [h.load_eq hclock hi, hr] at ho
  exact hkeys o ho

/-- Builds that keep out of each other's way before the run still do after it,
    and after a change. -/
theorem Steady.considerate (h : s.Steady g fs₀ g.levels.length)
    (hclock : s.run.site.files.clock < Time.horizon) (hapart : g.RecordsApart) {es : List Edit}
    (hchange : g.Change s.run.site.files es) {compiler : Compiler MemoryFs} {i : Nat}
    (horderly : g.Orderly fs₀ compiler i) :
    g.Considerate (s.run.site.files.edits es) compiler i := by
  have hforeign : ∀ q ∈ g.guardedFiles (s.run.site.files.edits es) i, q ∈ g.foreignFiles fs₀ i := by
    intro q hq
    rcases List.mem_append.mp hq with hq | hq
    · exact List.mem_append_left _ hq
    · obtain ⟨j, hj, hq⟩ := List.mem_flatMap.mp hq
      obtain ⟨hmem, hne⟩ := List.mem_filter.mp hj
      have hlt : j < g.size := List.mem_range.mp hmem
      refine Graph.mem_foreignFiles_output hlt (bne_iff_ne.mp hne)
        (h.recordedOutputs_known hclock hlt ?_)
      unfold recordedOutputs at hq ⊢
      rw [← hchange.load_eq hapart hlt]
      exact hq
  exact ⟨horderly.compile.imp fun e he q hq => he q (List.mem_append_left _ (hforeign q hq)),
    fun q hq => horderly.record q (hforeign q hq)⟩

/-- **Edits of inputs change the projects that have them**, and no others. -/
theorem Steady.changed (hg : g.WellFormed) (h : s.Steady g fs₀ g.levels.length)
    (htimely : fs₀.Timely)
    (hclock : s.run.site.files.clock < Time.horizon)
    (hapart : g.RecordsApart) {es : List Edit} (hchange : g.Change s.run.site.files es)
    {site : Site MemoryFs} (hsite : site.files = s.run.site.files.edits es) {i : Nat}
    (hi : i < g.size) :
    g.OnRecord site.files (Progress.start site g).records ((g.node i).Edited es) i := by
  -- no record file is edited, so the next run reads the records that this one has left
  have hloaded : ∀ k < g.size,
      recordOf? (Progress.start site g).records k = recordOf? s.records k := by
    intro k hk
    rw [recordOf?_start site hk, ← h.load_eq hclock hk, hsite]
    exact hchange.load_eq hapart hk
  obtain ⟨r, hr, hload, hown, -, hstamps⟩ := h.settled i hi (Graph.levelOf_lt_length hi)
  have htimely' := h.later.timely htimely
  have hlater : s.run.site.files.Later site.files := hsite ▸ MemoryFs.edits_later _ es
  refine ⟨r, (hloaded i hi).trans hr, ?_, ?_⟩
  · intro k hk
    rw [hstamps k hk]
    unfold stampOf?
    rw [hloaded k (hg.dependency_lt hk).2]
  · constructor
    · -- inputs that were not edited fit the record, whatever happened to the outputs
      intro hne
      by_contra hnot
      refine hne (Staleness.ownReason?_later htimely' hlater ?_ ?_ hown)
      · intro q hq
        rw [hsite]
        refine MemoryFs.file?_edits_ne _ fun e he hpath => ?_
        exact hnot ⟨e, he, q, hq, Path.same_iff.mpr hpath⟩
      · intro o ho
        rw [hsite]
        refine MemoryFs.edits_isSome hchange.keeps ?_
        have := (Staleness.ownReason?_none hown).2 o ho
        rw [MemoryFs.modified?_eq, Option.isSome_map] at this
        exact this
    · -- an edited input is newer than every output on record, none of which was edited
      rintro ⟨e, he, q, hq, hsame⟩
      refine Staleness.ownReason?_newer htimely' hq ?_ ?_ hown
      · rw [hsite]
        exact (MemoryFs.edits_written (Nat.le_refl _) hchange.keeps
          ⟨e, he, Path.same_iff.mp hsame⟩).1
      · intro o ho
        rw [hsite]
        refine MemoryFs.file?_edits_ne _ fun e' he' => ?_
        rw [← Path.same_eq_false_iff]
        refine hchange.outputs i hi ⟨e, he, q, hq, hsame⟩ e' he' o ?_
        unfold recordedOutputs
        rw [hload hclock]
        exact ho

end Progress

/-! ## The run after a change -/

/-- A run that ended well leaves a steady state behind. -/
theorem buildGraph_steady {fs : MemoryFs} (hfs : fs.Reachable) {roots : List Path} {g : Graph}
    (hload : (loadGraph fs roots).value = .ok g) (hrecords : g.DistinctRecords)
    {options : BuildOptions} (hdry : options.dryRun = false) {compiler : Compiler MemoryFs}
    (horderly : ∀ i < g.size, g.Orderly fs compiler i) {schedules : List LevelSchedule}
    {site : Site MemoryFs} (hsite : site.files = fs) {run : Run MemoryFs}
    (hrun : (buildGraph options compiler schedules g site).2 = run)
    (hwell : ∀ i < g.size, run.statuses.get i = .upToDate ∨ run.statuses.get i = .built) :
    ∃ s : Progress MemoryFs, s.Steady g fs g.levels.length ∧
      s.run.site.files = run.site.files := by
  subst hsite hrun
  obtain ⟨hdistinct, hloaded⟩ := loadGraph_sound hload
  exact ⟨_, Progress.levels_steady (loadGraph_wellFormed hload) hdistinct hrecords hloaded
    hfs.timely hdry fun i hi => (hwell i hi).imp_right fun hbuilt => ⟨hbuilt, horderly i hi⟩, rfl⟩

/-- **Exactly what a change affects is rebuilt.**  Let a run leave every project
    up to date or built, by builds that keep out of each other's way, and let
    then some inputs be edited.  The next run, with a compiler that succeeds
    and leaves alone what checks look at, builds the projects that have an
    edited input and those that depend on them, directly or through others,
    and finds all others up to date; a forced run builds all.  No edit may be
    of an output on record of a project with an edited input, and the clock
    must not have reached the end of the range of times. -/
theorem buildGraph_rebuilds {fs : MemoryFs} (hfs : fs.Reachable) {roots : List Path} {g : Graph}
    (hload : (loadGraph fs roots).value = .ok g) (hrecords : g.DistinctRecords)
    {options : BuildOptions} (hdry : options.dryRun = false) {compiler : Compiler MemoryFs}
    (horderly : ∀ i < g.size, g.Orderly fs compiler i) {schedules : List LevelSchedule}
    {site : Site MemoryFs} (hsite : site.files = fs) {run : Run MemoryFs}
    (hrun : (buildGraph options compiler schedules g site).2 = run)
    (hwell : ∀ i < g.size, run.statuses.get i = .upToDate ∨ run.statuses.get i = .built)
    (hclock : run.site.files.clock < Time.horizon) {es : List Edit}
    (hchange : g.Change run.site.files es) {options' : BuildOptions}
    (hdry' : options'.dryRun = false) {compiler' : Compiler MemoryFs}
    (hsucceeds : ∀ i < g.size, (compiler' g i).Succeeds) {site' : Site MemoryFs}
    (hfiles : site'.files = run.site.files.edits es)
    (hconsiderate : ∀ i < g.size, g.Considerate site'.files compiler' i)
    (hrunning : site'.cancelled = false) {schedules' : List LevelSchedule}
    (hschedules : ∀ schedule ∈ schedules', schedule.Undisturbed) :
    let second := (buildGraph options' compiler' schedules' g site').2
    ∀ i < g.size, (second.statuses.get i = .built ∨ second.statuses.get i = .upToDate) ∧
      (second.statuses.get i = .built ↔ options'.force = true ∨
        ∃ j < g.size, (g.node j).Edited es ∧ (i = j ∨ i ∈ g.transitiveDependents j)) := by
  have hg := loadGraph_wellFormed hload
  obtain ⟨s, hsteady, hleft⟩ := buildGraph_steady hfs hload hrecords hdry horderly hsite hrun hwell
  rw [← hleft] at hclock hchange hfiles
  have hchanged : ∀ i < g.size, g.OnRecord site'.files (Progress.start site' g).records
      ((g.node i).Edited es) i := by
    intro i hi
    exact hsteady.changed hg hfs.timely hclock (Graph.recordsApart_of_orderly horderly) hchange
      hfiles hi
  -- the plan of the next run, as a dry run would make it
  have hplanned := Progress.levels_planned hg
    (show ({ options' with dryRun := true } : BuildOptions).dryRun = true from rfl) compiler'
    hschedules hrunning
  have hplan : g.Plan options' site'.files (Progress.start site' g).records _ _ :=
    fun i hi => (hplanned.plan i hi).trans (Progress.ruling_congr rfl _)
  have htimely : site'.files.Timely := by
    rw [hfiles]
    exact (MemoryFs.edits_later _ es).timely (hsteady.later.timely hfs.timely)
  have hforetold := Progress.levels_foretold hg hdry' hrunning htimely hplan hconsiderate hsucceeds
    hschedules
  intro second i hi
  have hcomes := (hforetold.done i hi (Graph.levelOf_lt_length hi)).1
  refine ⟨hcomes.ends, hcomes.built_iff.trans ?_⟩
  by_cases hforce : options'.force = true
  · exact ⟨fun _ => Or.inl hforce, fun _ => hplan.forced hg hforce hi⟩
  · rw [hplan.stale_iff hg (Bool.eq_false_iff.mpr hforce) hchanged hi, or_iff_right hforce]
    simp only [Graph.mem_transitiveDependents hg]

/-- The first run over two projects. -/
def pairFirst : Run MemoryFs :=
  (buildGraph {} plainCompiler [] pairGraph ⟨pairFiles, false, []⟩).2

/-- The run after the input of the first of them has been touched. -/
def pairSecond : Run MemoryFs :=
  (buildGraph {} plainCompiler [] pairGraph
    ⟨pairFirst.site.files.edits [.touch ⟨"/r/core/a.ts"⟩], false, []⟩).2

/-- Touching the input of a project rebuilds it and the project that references
    it. -/
theorem buildGraph_rebuilds_pair :
    pairSecond.statuses.get 0 = .built ∧ pairSecond.statuses.get 1 = .built := by
  obtain ⟨hsize, hrecords, horderly⟩ := pairGraph_orderly
  have hended : (∃ q ∈ (pairGraph.node 0).inputs, (⟨"/r/core/a.ts"⟩ : Path).same q = true) ∧
      (∀ i < 2, ∀ o ∈ knownOutputs pairFiles (pairGraph.node i),
        (⟨"/r/core/a.ts"⟩ : Path).same o = false) ∧
      1 ∈ pairGraph.transitiveDependents 0 ∧ pairFirst.statuses.get 0 = .built ∧
      pairFirst.statuses.get 1 = .built ∧ pairFirst.site.files.clock < Time.horizon := by
    decide +kernel
  obtain ⟨⟨q, hq, hsame⟩, hknown, hdependent, hzero, hone, hclock⟩ := hended
  have hwell : ∀ i < pairGraph.size,
      pairFirst.statuses.get i = .upToDate ∨ pairFirst.statuses.get i = .built := by
    intro i hi
    rw [hsize] at hi
    rcases Nat.lt_succ_iff_lt_or_eq.mp hi with hi | rfl
    · rw [Nat.lt_one_iff.mp hi]
      exact Or.inr hzero
    · exact Or.inr hone
  have hdry : ({} : BuildOptions).dryRun = false := rfl
  have hfiles : pairFiles.Reachable := MemoryFs.ofTexts_reachable _
  have hsite : ∀ files : MemoryFs, (⟨files, false, []⟩ : Site MemoryFs).files = files :=
    fun _ => rfl
  have hfirst : (buildGraph {} plainCompiler [] pairGraph ⟨pairFiles, false, []⟩).2 = pairFirst :=
    rfl
  unfold pairSecond
  -- nothing but these facts about the first run counts, so that nobody evaluates it again
  generalize pairFirst = first at hclock hwell hfirst ⊢
  obtain ⟨s, hsteady, hleft⟩ := buildGraph_steady hfiles pairGraph_loaded hrecords hdry horderly
    (hsite pairFiles) hfirst hwell
  rw [← hleft] at hclock
  have hchange : pairGraph.Change s.run.site.files [.touch ⟨"/r/core/a.ts"⟩] := by
    refine ⟨?_, ?_, ?_⟩
    · intro e he p
      rw [List.mem_singleton.mp he]
      exact fun h => nomatch h
    · intro e he
      rw [List.mem_singleton.mp he, hsize]
      exact ⟨0, by decide, q, hq, hsame⟩
    · intro i hi _ e he o ho
      rw [List.mem_singleton.mp he]
      exact hknown i (hsize ▸ hi) o (hsteady.recordedOutputs_known hclock hi ho)
  have hconsiderate : ∀ i < pairGraph.size, pairGraph.Considerate
      (s.run.site.files.edits [.touch ⟨"/r/core/a.ts"⟩]) plainCompiler i :=
    fun i hi => hsteady.considerate hclock (Graph.recordsApart_of_orderly horderly) hchange
      (horderly i hi)
  rw [hleft] at hclock hchange hconsiderate
  have hedited : (pairGraph.node 0).Edited [.touch ⟨"/r/core/a.ts"⟩] :=
    ⟨_, List.mem_singleton.mpr rfl, q, hq, hsame⟩
  have h := buildGraph_rebuilds hfiles pairGraph_loaded hrecords hdry horderly (hsite pairFiles)
    hfirst hwell hclock hchange hdry
    (fun i _ => CompileScript.compiler_succeeds rfl rfl rfl rfl pairGraph i)
    (hsite (first.site.files.edits [.touch ⟨"/r/core/a.ts"⟩])) hconsiderate rfl
    (List.forall_mem_nil LevelSchedule.Undisturbed)
  rw [hsize] at h
  exact ⟨(h 0 (by decide)).2.mpr (Or.inr ⟨0, by decide, hedited, Or.inl rfl⟩),
    (h 1 (by decide)).2.mpr (Or.inr ⟨0, by decide, hedited, Or.inr hdependent⟩)⟩

/-! ## An output that is touched as an input -/

/-- A project that lists a declaration among its inputs.  It emits nothing but
    declarations, and those only for projects that reference it. -/
def hiddenSources : MemoryFs :=
  .ofTexts [("/r/p/tsconfig.json",
      "\x7b\"compilerOptions\": \x7b\"outDir\": \"lib\", \"emitDeclarationOnly\": true\x7d, \"files\": [\"a.ts\", \"lib/a.d.ts\"], \"references\": []\x7d"),
    ("/r/p/a.ts", ""),
    ("/r/p/lib/a.d.ts", "")]

/-- The record of a build in which another project referenced it: it has the
    declaration as an output, too. -/
def hiddenRecord : BuildRecord :=
  BuildRecord.capture hiddenSources
    { ((loadGraph hiddenSources [⟨"/r/p"⟩]).value.toOption.getD {}).node 0 with declaration := true }
    {}

/-- The files with this record. -/
def hiddenFiles : MemoryFs :=
  hiddenSources.put ⟨"/r/p/lib/tsconfig.tsbuildinfo"⟩ hiddenRecord.printer.text.toUTF8

def hiddenGraph : Graph :=
  (loadGraph hiddenFiles [⟨"/r/p"⟩]).value.toOption.getD {}

/-- The files after the declaration has been touched. -/
def hiddenTouched : MemoryFs :=
  hiddenFiles.edits [.touch ⟨"/r/p/lib/a.d.ts"⟩]

/-- A project on its own, with no reference and no expected output. -/
structure Graph.Lonely (g : Graph) : Prop where
  size : g.size = 1
  dependencies : g.dependencies 0 = []
  outputs : (g.node 0).expectedOutputs = []
  record : ∀ q ∈ (g.node 0).inputs, (g.node 0).recordPath.same q = false

/-- A lonely project is orderly. -/
theorem Graph.Lonely.orderly {g : Graph} (h : g.Lonely) (files : MemoryFs) :
    ∀ i < g.size, g.Orderly files plainCompiler i := by
  intro i hi
  rw [h.size] at hi
  obtain rfl := Nat.lt_one_iff.mp hi
  refine ⟨?_, ?_, CompileScript.compiler_delivers rfl g 0⟩
  · refine (CompileScript.compiler_only _ g 0).imp fun e he => ?_
    rw [h.outputs] at he
    exact nomatch he
  · intro q hq
    rcases List.mem_append.mp hq with hq | hq
    · obtain ⟨p, hp, hq⟩ := List.mem_flatMap.mp hq
      obtain ⟨node, hnodes⟩ := List.length_eq_one_iff.mp h.size
      have hnode : g.node 0 = p := by
        unfold Graph.node
        rw [hnodes] at hp ⊢
        exact (List.mem_singleton.mp hp).symm
      exact h.record q (hnode ▸ hq)
    · obtain ⟨j, hj, -⟩ := List.mem_flatMap.mp hq
      obtain ⟨hmem, hne⟩ := List.mem_filter.mp hj
      have hlt : j < g.size := List.mem_range.mp hmem
      rw [h.size] at hlt
      exact absurd (Nat.lt_one_iff.mp hlt) (bne_iff_ne.mp hne)

theorem hiddenGraph_loaded : (loadGraph hiddenFiles [⟨"/r/p"⟩]).value = .ok hiddenGraph ∧
    hiddenGraph.Lonely ∧ (⟨"/r/p/lib/a.d.ts"⟩ : Path) ∈ (hiddenGraph.node 0).inputs ∧
    (hiddenGraph.node 0).recordPath = ⟨"/r/p/lib/tsconfig.tsbuildinfo"⟩ ∧
    hiddenRecord.project.components = (hiddenGraph.node 0).configPath.components ∧
    ownReason? hiddenFiles (hiddenGraph.node 0) hiddenRecord = none ∧
    ownReason? hiddenTouched (hiddenGraph.node 0) hiddenRecord = none := by
  have hfacts : (loadGraph hiddenFiles [⟨"/r/p"⟩]).value.toOption.isSome = true ∧
      (hiddenGraph.size = 1 ∧ hiddenGraph.dependencies 0 = [] ∧
        (hiddenGraph.node 0).expectedOutputs = [] ∧
        ∀ q ∈ (hiddenGraph.node 0).inputs, (hiddenGraph.node 0).recordPath.same q = false) ∧
      (⟨"/r/p/lib/a.d.ts"⟩ : Path) ∈ (hiddenGraph.node 0).inputs ∧
      (hiddenGraph.node 0).recordPath = ⟨"/r/p/lib/tsconfig.tsbuildinfo"⟩ ∧
      hiddenRecord.project.components = (hiddenGraph.node 0).configPath.components ∧
      ownReason? hiddenFiles (hiddenGraph.node 0) hiddenRecord = none ∧
      ownReason? hiddenTouched (hiddenGraph.node 0) hiddenRecord = none := by
    decide +kernel
  obtain ⟨hsome, ⟨hsize, hnone, houtputs, hrecord⟩, hrest⟩ := hfacts
  refine ⟨?_, ⟨hsize, hnone, houtputs, hrecord⟩, hrest⟩
  unfold hiddenGraph
  exact Graph.loaded_of_isSome hsome

/-- A lonely project with a fitting record on file is found up to date, and its
    files are left as they are; a forced run builds it. -/
theorem Graph.Lonely.found {g : Graph} {fs files : MemoryFs} {roots : List Path}
    (hload : (loadGraph fs roots).value = .ok g) (h : g.Lonely) (hfiles : files.Reachable)
    {r : BuildRecord} (hr : (BuildRecord.load files (g.node 0)).value = some r)
    (hown : ownReason? files (g.node 0) r = none) :
    ((buildGraph {} plainCompiler [] g ⟨files, false, []⟩).2.statuses.get 0 = .upToDate ∧
      (buildGraph {} plainCompiler [] g ⟨files, false, []⟩).2.site.files = files) ∧
      (buildGraph { force := true } plainCompiler [] g ⟨files, false, []⟩).2.statuses.get 0
        = .built := by
  have hg := loadGraph_wellFormed hload
  have hlt : 0 < g.size := by
    rw [h.size]
    exact Nat.one_pos
  have hlevel := Graph.levelOf_lt_length hlt
  have hquiet : ∀ schedule ∈ ([] : List LevelSchedule), schedule.Undisturbed :=
    List.forall_mem_nil _
  have hrunning : (⟨files, false, []⟩ : Site MemoryFs).cancelled = false := rfl
  constructor
  · have hsettled : ∀ i < g.size, g.Settled r.outputs.keys files
        (Progress.start ⟨files, false, []⟩ g).records i := by
      intro i hi
      rw [h.size] at hi
      obtain rfl := Nat.lt_one_iff.mp hi
      refine ⟨r, (Progress.recordOf?_start _ hlt).trans hr, fun _ => hr, hown, fun _ ho => ho, ?_⟩
      intro k hk
      rw [h.dependencies] at hk
      exact nomatch hk
    have hidle := Progress.levels_idle {} plainCompiler hg rfl hrunning hsettled hquiet
    exact ⟨hidle.done 0 hlt hlevel, hidle.files⟩
  · -- what a dry run would plan is what a real one does
    have hplanned := Progress.levels_planned hg
      (show ({ force := true, dryRun := true } : BuildOptions).dryRun = true from rfl)
      plainCompiler hquiet hrunning
    have hplan : g.Plan { force := true } files (Progress.start ⟨files, false, []⟩ g).records _ _ :=
      fun i hi => (hplanned.plan i hi).trans (Progress.ruling_congr rfl _)
    have hforetold := Progress.levels_foretold hg
      (show ({ force := true } : BuildOptions).dryRun = false from rfl) hrunning hfiles.timely hplan
      (fun i hi => (h.orderly files i hi).considerate)
      (fun i _ => CompileScript.compiler_succeeds rfl rfl rfl rfl g i) hquiet
    exact (hforetold.done 0 hlt hlevel).1.built_iff.mpr (hplan.forced hg rfl hlt)

/-- **A change can be hidden**: a touched input that is also an output on record
    leaves its project up to date.  And a forced run builds a project in which
    nothing has changed. -/
theorem buildGraph_rebuilds_hidden :
    let first := (buildGraph {} plainCompiler [] hiddenGraph ⟨hiddenFiles, false, []⟩).2
    let second := (buildGraph {} plainCompiler [] hiddenGraph
      ⟨first.site.files.edits [.touch ⟨"/r/p/lib/a.d.ts"⟩], false, []⟩).2
    let forced := (buildGraph { force := true } plainCompiler [] hiddenGraph
      ⟨first.site.files, false, []⟩).2
    (loadGraph hiddenFiles [⟨"/r/p"⟩]).value = .ok hiddenGraph ∧ hiddenGraph.size = 1 ∧
      (∀ i < hiddenGraph.size, hiddenGraph.Orderly hiddenFiles plainCompiler i) ∧
      first.statuses.get 0 = .upToDate ∧
      (⟨"/r/p/lib/a.d.ts"⟩ : Path) ∈ (hiddenGraph.node 0).inputs ∧
      second.statuses.get 0 = .upToDate ∧ forced.statuses.get 0 = .built := by
  obtain ⟨hload, hlonely, hinput, hpath, hproject, hown, hown'⟩ := hiddenGraph_loaded
  have hsources : hiddenSources.Reachable := MemoryFs.ofTexts_reachable _
  have hrecord : (BuildRecord.load hiddenFiles (hiddenGraph.node 0)).value = some hiddenRecord := by
    rw [BuildRecord.load_eq, hpath]
    unfold hiddenFiles
    rw [MemoryFs.file?_put, if_pos rfl, Option.bind_some]
    refine (BuildRecord.recordIn?_written
      (BuildRecord.capture_canonical hsources.timely PathMap.sorted_empty) rfl hproject
      _).resolve_right fun hbad => ?_
    exact hbad.1 (BuildRecord.capture_inRange hsources.timely (by decide +kernel))
  have hrecord' : (BuildRecord.load hiddenTouched (hiddenGraph.node 0)).value
      = some hiddenRecord := by
    rw [← hrecord]
    refine BuildRecord.load_congr (MemoryFs.file?_edits_ne _ fun e he => ?_)
    rw [hpath, List.mem_singleton.mp he]
    decide
  have hfiles : hiddenFiles.Reachable := hsources.edits [.write _ _]
  obtain ⟨⟨hup, hleft⟩, hforced⟩ := hlonely.found hload hfiles hrecord hown
  obtain ⟨⟨hup', -⟩, -⟩ := hlonely.found hload (hfiles.edits _) hrecord' hown'
  refine ⟨hload, hlonely.size, hlonely.orderly hiddenFiles, hup, hinput, ?_, ?_⟩
  · rw [hleft]
    exact hup'
  · rw [hleft]
    exact hforced

end ProjectBuild
