import ProjectBuild.Compile.Scripted
import ProjectBuild.Proofs.Closure.Load
import ProjectBuild.Proofs.Run.Precedence
import ProjectBuild.Run.Clean

/-! # Projects that lie apart

    The record file of a project lies in its output directory and is named
    after its configuration file, not after the project: two projects with one
    output directory share it if their configurations have the same name
    (`Project.recordPath_same_iff`).  Loading does not object to this.  Such a
    file is still the record of one of them at most, since it names its
    project (`BuildRecord.load_shared`), so the other reads as never built.

    What is promised holds of projects whose output directories lie apart.  No
    file is a product of two of them (`Project.products_apart`), so a worker
    leaves the products of all others alone (`Stage.step_products`), and a run
    those of every project that it does not rebuild
    (`Progress.levels_spare`). -/

namespace ProjectBuild

open MemoryFs (Edit)

/-! ## Whose files they are -/

namespace Project

/-- **Two projects share a record file** exactly if they share the output
    directory and their configurations have one name. -/
theorem recordPath_same_iff {p q : Project} :
    p.recordPath.same q.recordPath = true ↔
      p.outDir.same q.outDir = true ∧ p.recordName = q.recordName := by
  rw [Path.same_iff, Path.same_iff, components_recordPath, components_recordPath]
  constructor
  · intro h
    obtain ⟨hdir, hname⟩ := List.append_inj' h rfl
    exact ⟨hdir, Component.name.inj (List.singleton_inj.mp hname)⟩
  · rintro ⟨hdir, hname⟩
    rw [hdir, hname]

/-- All products lie in the output directory, if no input can escape the root
    directory. -/
theorem isWithin_product {p : Project} (hroot : p.rootDir.components ≠ []) {q : Path}
    (hq : q ∈ p.products) : Path.isWithin p.outDir q = true := by
  rcases List.mem_append.mp hq with hq | hq
  · exact isWithin_outDir hroot hq
  · rw [List.mem_singleton.mp hq, Path.isWithin_iff, components_recordPath]
    exact List.prefix_append _ _

/-- **No file is a product of two projects** whose output directories lie
    apart. -/
theorem products_apart {p p' : Project} (hroot : p.rootDir.components ≠ [])
    (hroot' : p'.rootDir.components ≠ []) (hapart : Path.isWithin p.outDir p'.outDir = false)
    (hapart' : Path.isWithin p'.outDir p.outDir = false) {q q' : Path} (hq : q ∈ p.products)
    (hq' : q' ∈ p'.products) : q.same q' = false := by
  have hin := Path.isWithin_iff.mp (isWithin_product hroot hq)
  have hin' := Path.isWithin_iff.mp (isWithin_product hroot' hq')
  rw [Path.same_eq_false_iff]
  intro heq
  -- of two directories that hold one file, one lies in the other
  rw [heq] at hin
  rcases List.prefix_or_prefix_of_prefix hin hin' with h | h
  · exact nomatch (Path.isWithin_iff.mpr h).symm.trans hapart
  · exact nomatch (Path.isWithin_iff.mpr h).symm.trans hapart'

end Project

/-- A shared record file is the record of one project at most. -/
theorem BuildRecord.load_shared {p q : Project}
    (hproject : p.configPath.components ≠ q.configPath.components)
    (hshared : p.recordPath.same q.recordPath = true) (fs : MemoryFs) :
    (load fs p).value = none ∨ (load fs q).value = none := by
  rw [load_eq, load_eq, fs.file?_congr (Path.same_iff.mp hshared)]
  cases fs.file? q.recordPath with
  | none => exact Or.inl rfl
  | some file =>
      show recordIn? p file = none ∨ recordIn? q file = none
      cases hp : recordIn? p file with
      | none => exact Or.inl rfl
      | some r =>
          cases hq : recordIn? q file with
          | none => exact Or.inr rfl
          | some r' =>
              obtain ⟨⟨text, hdecode, hread⟩, hr⟩ := project_of_recordIn? hp
              obtain ⟨⟨text', hdecode', hread'⟩, hr'⟩ := project_of_recordIn? hq
              obtain rfl := Except.ok.inj (hdecode.symm.trans hdecode')
              obtain rfl := Except.ok.inj (hread.symm.trans hread')
              exact absurd (hr.symm.trans hr') hproject

namespace Graph

/-- No output directory equals or contains another, and none is left through an
    input outside the root directory. -/
structure OutputsApart (g : Graph) : Prop where
  rooted : ∀ i < g.size, (g.node i).rootDir.components ≠ []
  apart : ∀ i < g.size, ∀ j < g.size, i ≠ j →
    Path.isWithin (g.node i).outDir (g.node j).outDir = false

/-- The edits that a compile of the project is expected to make. -/
def OwnOutputs (g : Graph) (i : Nat) (e : Edit) : Prop :=
  ∃ q ∈ (g.node i).expectedOutputs, e.path.same q = true

/-- What two projects write lies apart if their outputs do. -/
theorem OutputsApart.products {g : Graph} (h : g.OutputsApart) {i j : Nat} (hi : i < g.size)
    (hj : j < g.size) (hij : i ≠ j) {q q' : Path} (hq : q ∈ (g.node i).products)
    (hq' : q' ∈ (g.node j).products) : q.same q' = false :=
  Project.products_apart (h.rooted i hi) (h.rooted j hj) (h.apart i hi j hj hij)
    (h.apart j hj i hi hij.symm) hq hq'

end Graph

/-! ## Steps -/

namespace Stage

/-- **A worker's step leaves the products of other projects alone**, with the
    record that can be loaded. -/
theorem step_products {g : Graph} (h : g.OutputsApart) {w : Workplace MemoryFs}
    (hgraph : w.graph = g) {i j : Nat} (hi : i < g.size) (hj : j < g.size) (hij : i ≠ j)
    {stage : Stage MemoryFs} (honly : stage.CompilesOnly (g.OwnOutputs i)) (run : Run MemoryFs)
    {q : Path} (hq : q ∈ (g.node j).products) :
    (stage.step w i run).2.site.files.file? q = run.site.files.file? q := by
  obtain ⟨es, hes, hpaths⟩ := step_files w i honly run
  rw [hes]
  refine MemoryFs.file?_edits_ne _ fun e he => Path.same_eq_false_iff.mp ?_
  rcases hpaths e he with hrecord | ⟨o, ho, hsame⟩
  · rw [hrecord, hgraph]
    exact h.products hi hj hij (List.mem_append_right _ (List.mem_singleton_self _)) hq
  · have hapart := h.products hi hj hij (List.mem_append_left _ ho) hq
    rw [Path.same_eq_false_iff] at hapart ⊢
    rwa [Path.same_iff.mp hsame]

/-- The stages at which a step can write what its project is to produce. -/
def Writes {σ : Type} : Stage σ → Prop
  | compiling _ => True
  | returned => True
  | recorded _ => True
  | _ => False

/-- Before it touches a file, a worker enters that the old record goes. -/
theorem step_cleared {σ : Type} [FileSystem σ] (w : Workplace σ) (i : Nat) {stage : Stage σ}
    {run : Run σ} (h : stage.Writes → .cleared i ∈ run.journal) :
    ((stage.step w i run).1.Writes → .cleared i ∈ (stage.step w i run).2.journal) ∧
      (.cleared i ∈ (stage.step w i run).2.journal ∨
        (stage.step w i run).2.site.files = run.site.files) := by
  obtain ⟨entries, hmove⟩ := step_moves w i stage run
  generalize stage.step w i run = next at hmove ⊢
  have hgone : stage.Writes → .cleared i ∈ next.2.journal := by
    intro hwrites
    rw [hmove.journal]
    exact List.mem_append_left _ (h hwrites)
  have hentered : .cleared i ∈ entries → .cleared i ∈ next.2.journal := by
    intro hmem
    rw [hmove.journal]
    exact List.mem_append_right _ hmem
  cases hmove with
  | skipped => exact ⟨False.elim, Or.inr rfl⟩
  | entered => exact ⟨False.elim, Or.inr rfl⟩
  | kept => exact ⟨False.elim, Or.inl (hentered List.mem_cons_self)⟩
  | handed =>
      have hcleared := hentered List.mem_cons_self
      exact ⟨fun _ => hcleared, Or.inl hcleared⟩
  | failed e => exact ⟨False.elim, Or.inl (hgone True.intro)⟩
  | saved => exact ⟨False.elim, Or.inl (hgone True.intro)⟩
  | closed result => exact ⟨False.elim, Or.inr (explain_files _ _ _)⟩
  | rested record => exact ⟨False.elim, Or.inr rfl⟩
  | _ => exact ⟨fun _ => hgone True.intro, Or.inl (hgone True.intro)⟩

end Stage

/-! ## Whole runs -/

section runs

variable {g : Graph} {options : BuildOptions} {compiler : Compiler MemoryFs}

/-- The products of every project whose record has not been removed are what
    they were. -/
def Run.Spares (g : Graph) (before : MemoryFs) (run : Run MemoryFs) : Prop :=
  ∀ i < g.size, .cleared i ∉ run.journal → ∀ q ∈ (g.node i).products,
    run.site.files.file? q = before.file? q

/-- The work of a crew spares all projects that it does not rebuild. -/
theorem Crew.work_spares (h : g.OutputsApart)
    (hcompiler : ∀ i < g.size, (compiler g i).Only (g.OwnOutputs i))
    (records : Staleness.Records) {stale : List Nat} (hnodup : stale.Nodup)
    (hstale : ∀ i ∈ stale, i < g.size) (turns : List Turn) {before : MemoryFs}
    {run : Run MemoryFs} (hrun : run.Spares g before) :
    (work ⟨g, compiler, records⟩ stale turns run).2.Spares g before := by
  refine (work_local ⟨g, compiler, records⟩ turns run (G := fun run' => run'.Spares g before)
    (I := fun i stage run' => stage.CompilesOnly (g.OwnOutputs i) ∧
      (stage.Writes → .cleared i ∈ run'.journal)) hnodup ?_ ?_
    (fun _ _ h => ⟨h, fun _ _ h => h⟩) hrun (fun _ _ => ⟨True.intro, False.elim⟩)).1
  · rintro i hi stage run' hspares ⟨honly, hwrites⟩
    obtain ⟨hwrites', hfiles⟩ := Stage.step_cleared ⟨g, compiler, records⟩ i hwrites
    refine ⟨fun j hj hclear q hq => ?_,
      Stage.step_compilesOnly ⟨g, compiler, records⟩ i (hcompiler i (hstale i hi)) honly run',
      hwrites'⟩
    obtain ⟨entries, hjournal, -⟩ := Stage.step_journal ⟨g, compiler, records⟩ i stage run'
    -- what is not cleared now was not cleared before
    have hbefore : .cleared j ∉ run'.journal := by
      intro hmem
      refine hclear ?_
      rw [hjournal]
      exact List.mem_append_left _ hmem
    by_cases hij : i = j
    · subst hij
      rw [hfiles.resolve_left hclear]
      exact hspares i hj hbefore q hq
    · rw [Stage.step_products h rfl (hstale i hi) hj hij honly run' hq]
      exact hspares j hj hbefore q hq
  · rintro i - j - - stage other run' - - ⟨honly, hwrites⟩
    obtain ⟨entries, hjournal, -⟩ := Stage.step_journal ⟨g, compiler, records⟩ i stage run'
    refine ⟨honly, fun hw => ?_⟩
    rw [hjournal]
    exact List.mem_append_left _ (hwrites hw)

/-- **A run spares all projects that it does not rebuild**, whatever its
    workers and cancellations do. -/
theorem Progress.levels_spare (h : g.OutputsApart)
    (hcompiler : ∀ i < g.size, (compiler g i).Only (g.OwnOutputs i)) (options : BuildOptions)
    (schedules : List LevelSchedule) (site : Site MemoryFs) :
    (levels g options compiler (start site g) schedules g.levels).run.Spares g site.files := by
  refine levels_induct g options compiler (start site g) schedules g.levels
    (P := fun _ s => s.run.Spares g site.files) ?_ fun _ _ _ _ _ => rfl
  rintro n hn schedule s - hspares
  have hopened : (decideEach g options s schedule.interruptions g.levels[n]).run.Spares g
      site.files := by
    refine decideEach_induct g options s schedule.interruptions g.levels[n]
      (P := fun _ s' => s'.run.Spares g site.files) (fun _ _ _ h => h) ?_ hspares
    intro front i back s' _ hspares' j hj hclear q hq
    obtain ⟨entries, hjournal, -⟩ := decide_journal g options s' i
    rw [decide_site]
    refine hspares' j hj (fun hmem => hclear ?_) q hq
    rw [hjournal]
    exact List.mem_append_left _ hmem
  by_cases hdry : options.dryRun = true
  · unfold level
    rw [if_pos hdry]
    exact hopened
  · rw [Bool.not_eq_true] at hdry
    rw [level_eq hdry]
    unfold Run.Spares
    rw [build_run]
    exact Crew.work_spares h hcompiler _ (stale_nodup (Graph.levels_getElem_nodup hn) _)
      (fun i hi => ((Graph.mem_levels_getElem hn).mp (mem_stale.mp hi).1).1) schedule.turns hopened

end runs

/-- **What projects of one graph share.**  Two of them share a record file exactly
    if they share the output directory and the name of the configuration, and
    then at most one of them can have a usable record.  If all output
    directories lie apart, they share no product at all: no step of the one's
    worker changes a product of the other or its record, and a run in which the
    old record of a project is not removed leaves its products and its record
    as they were. -/
theorem loadGraph_products {fs : MemoryFs} {roots : List Path} {g : Graph}
    (hload : (loadGraph fs roots).value = .ok g) {i j : Nat} (hi : i < g.size) (hj : j < g.size)
    (hij : i ≠ j) :
    ((g.node i).recordPath.same (g.node j).recordPath = true ↔
      (g.node i).outDir.same (g.node j).outDir = true ∧
        (g.node i).recordName = (g.node j).recordName) ∧
    ((g.node i).recordPath.same (g.node j).recordPath = true → ∀ files : MemoryFs,
      (BuildRecord.load files (g.node i)).value = none ∨
        (BuildRecord.load files (g.node j)).value = none) ∧
    (g.OutputsApart →
      (∀ q ∈ (g.node i).products, ∀ q' ∈ (g.node j).products, q.same q' = false) ∧
      (∀ (w : Workplace MemoryFs) (stage : Stage MemoryFs) (run : Run MemoryFs), w.graph = g →
        stage.CompilesOnly (g.OwnOutputs i) →
        (∀ q ∈ (g.node j).products,
          (stage.step w i run).2.site.files.file? q = run.site.files.file? q) ∧
        (BuildRecord.load (stage.step w i run).2.site.files (g.node j)).value
          = (BuildRecord.load run.site.files (g.node j)).value) ∧
      ∀ (options : BuildOptions) (compiler : Compiler MemoryFs) (schedules : List LevelSchedule)
        (site : Site MemoryFs), (∀ k < g.size, (compiler g k).Only (g.OwnOutputs k)) →
        let run := (buildGraph options compiler schedules g site).2
        .cleared i ∉ run.journal →
        (∀ q ∈ (g.node i).products, run.site.files.file? q = site.files.file? q) ∧
        (BuildRecord.load run.site.files (g.node i)).value
          = (BuildRecord.load site.files (g.node i)).value) := by
  have hrecord : ∀ p : Project, p.recordPath ∈ p.products :=
    fun p => List.mem_append_right _ (List.mem_singleton_self _)
  refine ⟨Project.recordPath_same_iff, fun hshared files => ?_, fun hapart => ⟨?_, ?_, ?_⟩⟩
  · exact BuildRecord.load_shared ((loadGraph_sound hload).1 i hi j hj hij) hshared files
  · exact fun q hq q' hq' => hapart.products hi hj hij hq hq'
  · intro w stage run hgraph honly
    have hkept : ∀ q ∈ (g.node j).products,
        (stage.step w i run).2.site.files.file? q = run.site.files.file? q :=
      fun q hq => Stage.step_products hapart hgraph hi hj hij honly run hq
    exact ⟨hkept, BuildRecord.load_congr (hkept _ (hrecord _))⟩
  · intro options compiler schedules site hcompiler run hclear
    have hkept : ∀ q ∈ (g.node i).products, run.site.files.file? q = site.files.file? q :=
      Progress.levels_spare hapart hcompiler options schedules site i hi hclear
    exact ⟨hkept, BuildRecord.load_congr (hkept _ (hrecord _))⟩

/-- The output directories of two projects lie apart, so when the first fails,
    no product of the second is touched. -/
theorem loadGraph_products_pair :
    let run := (buildGraph {} (CompileScript.compiler { failures := [("/r/core/tsconfig.json", [])] })
      [] pairGraph ⟨pairFiles, false, []⟩).2
    pairGraph.OutputsApart ∧
      (∀ q ∈ (pairGraph.node 1).products, ∀ q' ∈ (pairGraph.node 0).products,
        q.same q' = false) ∧
      .cleared 1 ∉ run.journal ∧
      ∀ q ∈ (pairGraph.node 1).products, run.site.files.file? q = pairFiles.file? q := by
  intro run
  obtain ⟨hsize, hrooted, hdirs⟩ : pairGraph.size = 2 ∧
      (∀ i < 2, (pairGraph.node i).rootDir.components ≠ []) ∧
      ∀ i < 2, ∀ j < 2, i ≠ j →
        Path.isWithin (pairGraph.node i).outDir (pairGraph.node j).outDir = false := by
    decide +kernel
  have hapart : pairGraph.OutputsApart := by
    constructor
    · rw [hsize]
      exact hrooted
    · rw [hsize]
      exact hdirs
  have hclear : .cleared 1 ∉ run.journal := by decide +kernel
  obtain ⟨-, -, h⟩ := loadGraph_products pairGraph_loaded (i := 1) (j := 0)
    (by rw [hsize]; decide) (by rw [hsize]; decide) (by decide)
  obtain ⟨hproducts, -, hruns⟩ := h hapart
  refine ⟨hapart, hproducts, hclear, (hruns {} _ [] ⟨pairFiles, false, []⟩ ?_ hclear).1⟩
  intro k _
  refine (CompileScript.compiler_only _ pairGraph k).imp fun e he => ?_
  exact ⟨e.path, he, Path.same_iff.mpr rfl⟩

/-- Two projects that emit into one directory. -/
def sharingFiles : MemoryFs :=
  .ofTexts [("/r/a/tsconfig.json",
      "\x7b\"compilerOptions\": \x7b\"outDir\": \"../out\"\x7d, \"files\": [\"a.ts\"]\x7d"),
    ("/r/a/a.ts", ""),
    ("/r/b/tsconfig.json",
      "\x7b\"compilerOptions\": \x7b\"outDir\": \"../out\"\x7d, \"files\": [\"b.ts\"]\x7d"),
    ("/r/b/b.ts", "")]

/-! Loading accepts them, with one record file for both. -/

example : (loadGraph sharingFiles [⟨"/r/a"⟩, ⟨"/r/b"⟩]).value.toOption.map
    (fun g => g.nodes.map Project.recordPath)
      = some [⟨"/r/out/tsconfig.tsbuildinfo"⟩, ⟨"/r/out/tsconfig.tsbuildinfo"⟩] := by
  decide +kernel

end ProjectBuild
