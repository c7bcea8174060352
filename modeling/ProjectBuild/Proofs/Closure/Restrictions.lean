import ProjectBuild.Proofs.Closure.Inputs
import ProjectBuild.Proofs.Closure.RootOrder
import ProjectBuild.Proofs.Path.Ancestor

/-! # Restrictions on referenced projects

    A violation that loading reports is one (`Closure.Breaks`), of a project
    that another one references, and nothing that is numbered before breaks a
    restriction.  A graph that is loaded has declarations turned on wherever a
    project has dependents: each of its sources then has one, in the output
    directory (`Project.Declares`).  A source that is named as the root
    directory of its project is the exception: it counts as lying below it, and
    no name is left for its outputs. -/

namespace ProjectBuild

/-- The directories between a file and one that holds it. -/
def Path.between (dir file : Path) : List Path :=
  file.ancestors.takeWhile fun ancestor => !ancestor.same dir

/-- Patterns accept a path, as seen from the directory of the configuration. -/
def Project.Excludes (p : Project) (excluded : GlobSet) (path : Path) : Prop :=
  ∃ relative, Path.afterDir? p.configDir path = some relative ∧ excluded.accepts relative = true

/-- What a project that is referenced does: it turns declarations on, and has one
    of each source below the root directory. -/
structure Project.Declares (p : Project) : Prop where
  references : p.config.references.isSome = true
  enabled : p.config.options.declaration ≠ some false
  declaration : p.declaration = true
  /-- Only a source that is the root directory has no declaration. -/
  output : ∀ input ∈ p.inputs, input.isSource = true → input.isDeclaration = false →
    (input.same p.rootDir = true → p.declarationFor? input = none) ∧
      (input.same p.rootDir = false → ∃ d, p.declarationFor? input = some d ∧
        ∃ output ∈ p.expectedOutputs, output.same d = true)

namespace Closure

variable {fs : MemoryFs} {roots : List Path}

/-! ## Single projects -/

/-- A source file that a project does not list, though its list should be
    complete: it is no output, belongs to no nested project, and is not excluded. -/
structure Omits (fs : MemoryFs) (dirs : List Path) (p : Project) (file : Path) : Prop where
  stored : file ∈ fs.files.keys
  below : Path.isWithin p.rootDir file = true ∧ file.same p.rootDir = false
  source : file.isSource = true ∧ file.isDeclaration = false
  unlisted : ∀ input ∈ p.inputs, file.same input = false
  noOutput : p.outDir.same p.rootDir = false → Path.isWithin p.outDir file = false
  own : ∀ dir ∈ nestedDirs p dirs, Path.isWithin dir file = false
  included : ∃ excluded, p.config.excludeSet = .ok excluded ∧
    ∀ path ∈ file :: Path.between p.rootDir file, ¬ p.Excludes excluded path

/-- A project breaks a restriction on what others reference. -/
def Breaks (fs : MemoryFs) (dirs : List Path) (p : Project) : Restriction → Prop
  | .declarationDisabled => p.config.options.declaration = some false
  | .missingReferences => p.config.references = none
  | .filesNotExhaustive missing => p.config.files.isSome = true ∧ missing ≠ [] ∧
      ∀ file, file ∈ missing ↔ Omits fs dirs p file

/-- What a rule excludes is what its project excludes. -/
theorem isExcluded_iff {rule : CoverageRule} {path : Path} :
    rule.isExcluded path = true ↔ rule.project.Excludes rule.excluded path := by
  unfold CoverageRule.isExcluded Project.Excludes
  cases Path.afterDir? rule.project.configDir path with
  | none =>
      constructor
      · intro h
        cases h
      · rintro ⟨relative, h, -⟩
        cases h
  | some relative =>
      constructor
      · exact fun h => ⟨relative, rfl, h⟩
      · rintro ⟨relative', h, haccepts⟩
        cases h
        exact haccepts

/-- Outputs have a directory of their own if it is not the root directory. -/
theorem hasOwnOutDir_iff {rule : CoverageRule} :
    rule.hasOwnOutDir = true ↔ rule.project.outDir.same rule.project.rootDir = false := by
  unfold CoverageRule.hasOwnOutDir
  rw [Bool.not_eq_true']

/-- A directory is looked into if it is no output directory, not nested, and not
    excluded. -/
theorem prunes_eq_false_iff {rule : CoverageRule} {dir : Path} :
    rule.prunes dir = false ↔
      (rule.project.outDir.same rule.project.rootDir = false →
        dir.same rule.project.outDir = false) ∧
      (∀ nested ∈ rule.nested, dir.same nested = false) ∧
      ¬ rule.project.Excludes rule.excluded dir := by
  unfold CoverageRule.prunes
  rw [← isExcluded_iff, ← hasOwnOutDir_iff]
  simp only [Bool.or_eq_false_iff, Bool.and_eq_false_imp, List.any_eq_false, Bool.not_eq_true,
    and_assoc]

/-- A file is missed if it is a source that ought to be listed and is not. -/
theorem misses_iff {rule : CoverageRule} {file : Path} :
    rule.misses file = true ↔ (file.isSource = true ∧ file.isDeclaration = false) ∧
      (∀ input ∈ rule.project.inputs, file.same input = false) ∧
      (rule.project.outDir.same rule.project.rootDir = false →
        Path.isWithin rule.project.outDir file = false) ∧
      (∀ nested ∈ rule.nested, Path.isWithin nested file = false) ∧
      ¬ rule.project.Excludes rule.excluded file := by
  unfold CoverageRule.misses
  rw [← isExcluded_iff, ← hasOwnOutDir_iff]
  simp only [Bool.and_eq_true, Bool.not_eq_true', Bool.and_eq_false_imp, List.any_eq_false,
    Bool.not_eq_true, and_assoc]

/-- **What is reported as not listed** is exactly what is not. -/
theorem mem_unlisted {p : Project} {dirs missing : List Path}
    (h : (unlisted fs p dirs).value = .ok missing) (file : Path) :
    file ∈ missing ↔ Omits fs dirs p file := by
  unfold unlisted at h
  cases hexcluded : p.config.excludeSet with
  | error e =>
      rw [hexcluded] at h
      exact nomatch h
  | ok excluded =>
      rw [hexcluded] at h
      obtain rfl := Except.ok.inj h
      rw [List.mem_filter, misses_iff, MemoryFs.listed, List.mem_filter, MemoryFs.isListed]
      simp only [Bool.and_eq_true, Bool.not_eq_true', List.any_eq_false, Bool.not_eq_true,
        prunes_eq_false_iff]
      constructor
      · rintro ⟨⟨hstored, hbelow, hbetween⟩, hsource, hunlisted, houtput, hown, hincluded⟩
        refine ⟨hstored, hbelow, hsource, hunlisted, houtput, hown, excluded, hexcluded, ?_⟩
        intro path hpath
        rcases List.mem_cons.mp hpath with rfl | hpath
        · exact hincluded
        · exact (hbetween path hpath).2.2
      · rintro ⟨hstored, hbelow, hsource, hunlisted, houtput, hown, excluded', hexcluded',
          hincluded⟩
        obtain rfl := Except.ok.inj (hexcluded.symm.trans hexcluded')
        refine ⟨⟨hstored, hbelow, fun dir hdir => ?_⟩, hsource, hunlisted, houtput, hown,
          hincluded file List.mem_cons_self⟩
        -- a directory on the way that is pruned holds the file
        have hholds : Path.isWithin dir file = true :=
          Path.isWithin_of_mem_ancestors ((List.takeWhile_sublist _).subset hdir)
        exact ⟨fun hdirs => Path.same_eq_false_of_isWithin hholds (houtput hdirs),
          fun nested hnested => Path.same_eq_false_of_isWithin hholds (hown nested hnested),
          hincluded dir (List.mem_cons_of_mem file hdir)⟩

/-- A violation that is reported is one. -/
theorem violation?_restriction {p : Project} {dirs : List Path} {path : Path} {rule : Restriction}
    (h : (violation? fs p dirs).value = some (.restriction path rule)) :
    path = p.configPath ∧ Breaks fs dirs p rule := by
  unfold violation? at h
  split at h
  · rename_i hdisabled
    cases h
    exact ⟨rfl, beq_iff_eq.mp hdisabled⟩
  · split at h
    · rename_i hreferences
      cases h
      exact ⟨rfl, Option.isNone_iff_eq_none.mp hreferences⟩
    · split at h
      · rename_i hfiles
        simp only at h
        split at h
        · rename_i e hunlisted
          obtain rfl := Option.some.inj h
          exact absurd (.search (unlisted_error hunlisted)) Fault.ne_restriction
        · cases h
        · rename_i missing hne hunlisted
          cases h
          exact ⟨rfl, hfiles, hne, mem_unlisted hunlisted⟩
      · cases h

/-- **Nothing is unlisted** if the patterns are right and no file is omitted. -/
theorem unlisted_eq_nil {p : Project} {dirs : List Path} :
    (unlisted fs p dirs).value = .ok [] ↔
      (∃ excluded, p.config.excludeSet = .ok excluded) ∧ ∀ file, ¬ Omits fs dirs p file := by
  constructor
  · intro h
    refine ⟨?_, fun file homits => ?_⟩
    · cases hexcluded : p.config.excludeSet with
      | ok excluded => exact ⟨excluded, rfl⟩
      | error e =>
          unfold unlisted at h
          rw [hexcluded] at h
          cases h
    · cases (mem_unlisted h file).mpr homits
  · rintro ⟨⟨excluded, hexcluded⟩, hnone⟩
    have hvalue : ∃ missing, (unlisted fs p dirs).value = .ok missing := by
      unfold unlisted
      rw [hexcluded]
      exact ⟨_, rfl⟩
    obtain ⟨missing, hmissing⟩ := hvalue
    rw [hmissing, List.eq_nil_iff_forall_not_mem.mpr fun file hfile =>
      hnone file ((mem_unlisted hmissing file).mp hfile)]

/-- **Nothing is reported** where a project may be referenced: it does not turn
    declarations off, it has a list of references, and its list of files lacks
    nothing. -/
theorem violation?_eq_none {p : Project} {dirs : List Path} :
    (violation? fs p dirs).value = none ↔
      p.config.options.declaration ≠ some false ∧ p.config.references ≠ none ∧
        (p.config.files.isSome = true → (∃ excluded, p.config.excludeSet = .ok excluded) ∧
          ∀ file, ¬ Omits fs dirs p file) := by
  rw [← unlisted_eq_nil]
  unfold violation?
  by_cases hdisabled : p.config.declarationDisabled = true
  · rw [if_pos hdisabled]
    exact iff_of_false (fun h => (by cases h)) fun h => h.1 (beq_iff_eq.mp hdisabled)
  · rw [if_neg hdisabled, and_iff_right fun h => hdisabled (beq_iff_eq.mpr h)]
    by_cases hreferences : p.config.references.isNone = true
    · rw [if_pos hreferences]
      exact iff_of_false (fun h => (by cases h))
        fun h => h.1 (Option.isNone_iff_eq_none.mp hreferences)
    · rw [if_neg hreferences, and_iff_right fun h => hreferences (Option.isNone_iff_eq_none.mpr h)]
      by_cases hfiles : p.config.files.isSome = true
      · rw [if_pos hfiles, forall_prop_of_true hfiles]
        simp only
        cases hunlisted : (unlisted fs p dirs).value with
        | error e => exact iff_of_false (fun h => (by cases h)) fun h => (by cases h)
        | ok missing =>
            cases missing with
            | nil => exact iff_of_true rfl rfl
            | cons file rest => exact iff_of_false (fun h => (by cases h)) fun h => (by cases h)
      · rw [if_neg hfiles]
        exact iff_of_true rfl fun h => absurd h hfiles

/-- A project without violation breaks no restriction. -/
theorem not_breaks {p : Project} {dirs : List Path} (h : (violation? fs p dirs).value = none)
    (rule : Restriction) : ¬ Breaks fs dirs p rule := by
  obtain ⟨henabled, hreferences, hfiles⟩ := violation?_eq_none.mp h
  cases rule with
  | declarationDisabled => exact henabled
  | missingReferences => exact hreferences
  | filesNotExhaustive missing =>
      rintro ⟨hlists, hne, hmissing⟩
      obtain ⟨file, hfile⟩ := List.exists_mem_of_ne_nil missing hne
      exact (hfiles hlists).2 file ((hmissing file).mp hfile)

/-! ## Absolute roots -/

/-- Below absolute roots configurations have absolute paths, and so have their
    directories, as long as none is the root itself. -/
theorem Reachable.isAbsolute {σ : Type} [FileSystem σ] {fs : σ} {roots : List Path}
    (hroots : ∀ root ∈ roots, root.isAbsolute = true)
    (hrooted : ∀ q, Reachable fs roots q → q.components ≠ [.root]) {p : Path}
    (h : Reachable fs roots p) : p.isAbsolute = true ∧ p.dir.isAbsolute = true := by
  have habsolute : ∀ {q}, Reachable fs roots q → q.isAbsolute = true := by
    rintro q ⟨root, hroot, start, hstart, hchain⟩
    induction hchain with
    | refl =>
        exact isAbsolute_of_resolveConfig? (Path.isAbsolute_normalize (hroots root hroot))
          (resolveRoot_eq_ok.mp hstart)
    | @tail q r hstartq hmentions ih =>
        -- what `q` mentions is looked for from the directory of `q`
        have hq : Reachable fs roots q := ⟨root, hroot, start, hstart, hstartq⟩
        obtain ⟨loaded, hread, reference, -, htarget⟩ := hmentions
        refine isAbsolute_of_resolveConfig? (Path.isAbsolute_absolutize ?_ _) htarget
        rw [read_path hread]
        exact Path.isAbsolute_dir ih (hrooted q hq)
  exact ⟨habsolute h, Path.isAbsolute_dir (habsolute h) (hrooted p h)⟩

/-- No configuration is the root itself where that is no file. -/
theorem Reachable.ne_root (hfile : FileSystem.isFile fs ⟨"/"⟩ = false) {p : Path}
    (h : Reachable fs roots p) : p.components ≠ [.root] := by
  intro hroot
  have hthere := h.isFile
  have hsame : p.components = (⟨"/"⟩ : Path).components := hroot.trans (by decide)
  rw [MemoryFs.isFile_eq, fs.file?_congr hsame, ← MemoryFs.isFile_eq, hfile] at hthere
  exact nomatch hthere

/-- The root directory of a project below absolute roots is absolute. -/
theorem isAbsolute_rootDir (hroots : ∀ root ∈ roots, root.isAbsolute = true)
    (hfile : FileSystem.isFile fs ⟨"/"⟩ = false) {p : Project}
    (hp : Reachable fs roots p.configPath) (hloaded : p.LoadedFrom fs) :
    p.rootDir.isAbsolute = true :=
  hloaded.isAbsolute_rootDir (hp.isAbsolute hroots fun _ hq => hq.ne_root hfile).2

/-! ## Loaded projects -/

/-- A project that breaks no restriction, once its declarations are turned on. -/
theorem declares {p : Project} (hp : p.LoadedFrom fs) (hdeclaration : p.declaration = true)
    (hreferences : p.config.references ≠ none)
    (henabled : p.config.options.declaration ≠ some false) : p.Declares := by
  refine ⟨Option.isSome_iff_ne_none.mpr hreferences, henabled, hdeclaration, ?_⟩
  intro input hinput hsource hambient
  have hsome : (p.declarationFor? input).isSome = !input.same p.rootDir :=
    Project.isSome_outputFor? (hp.isWithin_rootDir hinput hambient) hsource hambient
  constructor
  · intro hsame
    rw [hsame] at hsome
    exact Option.isNone_iff_eq_none.mp (Option.isSome_eq_false_iff.mp hsome)
  · intro hsame
    rw [hsame] at hsome
    obtain ⟨d, hd⟩ := Option.isSome_iff_exists.mp hsome
    refine ⟨d, hd, Project.exists_mem_expectedOutputs hinput ?_⟩
    unfold Project.outputsOf
    rw [if_pos hdeclaration]
    exact List.mem_append_left _ (Option.mem_toList.mpr hd)

/-- A loaded project works in the directory of its configuration. -/
theorem configDir_of_load {p : Path} {node : Project} (h : load fs p = .ok node) :
    node.configDir = p.dir := by
  obtain ⟨loaded, targets, hread, -, hproject⟩ := load_eq_ok.mp h
  obtain ⟨found, -, -, rfl⟩ := project_ok hproject
  exact congrArg Path.dir (read_path hread)

/-- The directories that a project's list is checked against are those of all that
    can be reached. -/
theorem Progress.Whole.mem_dirs {s : Progress} (h : s.Whole fs roots) {dir : Path} :
    dir ∈ s.nodes.map Project.configDir ↔ ∃ q, Reachable fs roots q ∧ q.dir = dir := by
  rw [List.mem_map]
  constructor
  · rintro ⟨node, hnode, rfl⟩
    obtain ⟨hreachable, hload⟩ := (h.mem_nodes node).mp hnode
    exact ⟨_, hreachable, (configDir_of_load hload).symm⟩
  · rintro ⟨q, hq, rfl⟩
    obtain ⟨node, hnode, rfl⟩ := h.complete q hq
    exact ⟨node, hnode, configDir_of_load ((h.mem_nodes node).mp hnode).2⟩

/-- What is loaded for itself emits declarations if its configuration says so. -/
theorem declaration_of_load {p : Path} {node : Project} (h : load fs p = .ok node) :
    node.declaration = node.config.emitsDeclarations := by
  obtain ⟨loaded, targets, -, -, hproject⟩ := load_eq_ok.mp h
  obtain ⟨found, -, -, rfl⟩ := project_ok hproject
  rfl

end Closure

/-! ## Graphs -/

/-- What a project of a loaded graph is: what its path loads to, with declarations
    turned on if it has dependents; then it violates no restriction. -/
theorem loadGraph_node {fs : MemoryFs} {roots : List Path} {g : Graph}
    (hg : (loadGraph fs roots).value = .ok g) {i : Nat} (hi : i < g.size) :
    ∃ node, Closure.load fs node.configPath = .ok node ∧
      (g.dependents i = [] → g.node i = node) ∧
      (g.dependents i ≠ [] → g.node i = { node with declaration := true } ∧
        ∃ dirs, (∀ dir, dir ∈ dirs ↔ ∃ q, Closure.Reachable fs roots q ∧ q.dir = dir) ∧
          (Closure.violation? fs node dirs).value = none) := by
  obtain ⟨indices, s, hvisit, hviolation, rfl⟩ := loadGraph_eq_ok.mp hg
  have hlength : i < s.nodes.length := by
    have hi' : i < (Closure.withDeclarations s.edges s.nodes).length := hi
    rwa [Closure.withDeclarations, List.length_mapIdx] at hi'
  have hget : s.nodes[i]? = some s.nodes[i] := List.getElem?_eq_getElem hlength
  have hreferenced : Closure.isReferenced s.edges i = true ↔ Graph.dependents
      ⟨Closure.withDeclarations s.edges s.nodes, distinct s.edges, distinct indices⟩ i ≠ [] := by
    rw [Closure.isReferenced_eq_true, Ne, Graph.dependents_eq_nil_iff, not_forall_not]
    exact exists_congr fun j => mem_distinct.symm
  refine ⟨s.nodes[i], Closure.visitRoots_loaded hvisit _ (List.getElem_mem hlength),
    fun hnil => ?_, fun hne => ⟨?_, ?_⟩⟩
  · rw [Graph.node_of_getElem? (Closure.getElem?_withDeclarations_eq s.edges hget)]
    exact if_neg fun h => hreferenced.mp h hnil
  · rw [Graph.node_of_getElem? (Closure.getElem?_withDeclarations_eq s.edges hget)]
    exact if_pos (hreferenced.mpr hne)
  · exact ⟨_, fun dir => (Closure.visitRoots_whole hvisit).mem_dirs,
      (Closure.firstViolation?_eq_none 0 s.nodes).mp hviolation i _ hget
        (by rw [Nat.zero_add]; exact hreferenced.mpr hne)⟩

/-- A violation that is reported was found once the traversal had succeeded. -/
theorem loadGraph_violation {fs : MemoryFs} {roots : List Path} {path : Path} {rule : Restriction}
    (h : (loadGraph fs roots).value = .error (.restriction path rule)) :
    ∃ indices s, Closure.visitRoots fs roots {} = (.ok indices, s) ∧
      (Closure.firstViolation? fs s.edges (s.nodes.map Project.configDir) 0 s.nodes).value
        = some (.restriction path rule) := by
  rcases loadGraph_error h with ⟨s, hvisit⟩ | hviolation
  · rcases Closure.visitRoots_error hvisit with ⟨root, -, hroot⟩ | ⟨p, -, hload⟩ | ⟨cycle, hcycle⟩
    · exact nomatch (Closure.resolveRoot_error hroot).2
    · rcases Closure.load_error hload with ⟨problem, hproblem⟩ | ⟨loaded, -, hfault⟩
      · exact nomatch hproblem
      · exact absurd hfault Closure.Fault.ne_restriction
    · exact nomatch hcycle
  · exact hviolation

/-- **Referenced projects emit declarations**, in a graph that is loaded, and no
    other project does that does not say so.  A violation that is reported is
    that of a project that another one references, the first that has one. -/
theorem loadGraph_restrictions (fs : MemoryFs) (roots : List Path) :
    (∀ g, (loadGraph fs roots).value = .ok g → ∀ i < g.size,
      (g.dependents i ≠ [] → (g.node i).Declares) ∧
      (g.dependents i = [] → (g.node i).declaration = (g.node i).config.emitsDeclarations) ∧
      ((∀ root ∈ roots, root.isAbsolute = true) → FileSystem.isFile fs ⟨"/"⟩ = false →
        ∀ input d, (g.node i).declarationFor? input = some d →
          Path.isWithin (g.node i).outDir d = true)) ∧
    ∀ path rule, (loadGraph fs roots).value = .error (.restriction path rule) →
      ∃ (indices : List Nat) (s : Closure.Progress) (i : Nat) (p : Project),
        Closure.visitRoots fs roots {} = (.ok indices, s) ∧
        s.nodes[i]? = some p ∧ p.configPath = path ∧
        (∃ q, Closure.Reachable fs roots q ∧ q.same path = false ∧ Closure.Mentions fs q path) ∧
        Closure.Breaks fs (s.nodes.map Project.configDir) p rule ∧
        ∀ k < i, ∀ q, s.nodes[k]? = some q → Closure.Referenced fs roots q.configPath →
          ∀ rule', ¬ Closure.Breaks fs (s.nodes.map Project.configDir) q rule' := by
  constructor
  · intro g hg i hi
    have hloaded := (loadGraph_sound hg).2 i hi
    obtain ⟨node, hload, hplain, hturned⟩ := loadGraph_node hg hi
    refine ⟨fun hne => ?_, fun hnil => ?_, fun hroots hfile input d hd => ?_⟩
    · obtain ⟨hnode, dirs, -, hnone⟩ := hturned hne
      rw [hnode] at hloaded ⊢
      exact Closure.declares hloaded rfl (Closure.not_breaks hnone .missingReferences)
        (Closure.not_breaks hnone .declarationDisabled)
    · rw [hplain hnil]
      exact Closure.declaration_of_load hload
    · have hreachable := (Graph.isClosure_of_loaded hg).reachable i hi
      have hroot := Closure.isAbsolute_rootDir hroots hfile hreachable hloaded
      exact Project.isWithin_outputFor? (Path.components_ne_nil hroot) hd (by decide) (by decide)
  · intro path rule h
    obtain ⟨indices, s, hvisit, hviolation⟩ := loadGraph_violation h
    obtain ⟨i, p, hget, hreferenced, hbreaks, hbefore⟩ :=
      Closure.firstViolation?_error 0 s.nodes hviolation
    simp only [Nat.zero_add] at hreferenced hbefore
    obtain ⟨rfl, hrule⟩ := Closure.violation?_restriction hbreaks
    have hwhole := Closure.visitRoots_whole hvisit
    obtain ⟨q, hq, hmentions⟩ := (hwhole.referenced i p hget).mp hreferenced
    refine ⟨indices, s, i, p, hvisit, hget, rfl, ⟨q, hq, ?_, hmentions⟩, hrule, ?_⟩
    · -- no project references itself
      by_contra hsame
      have hsame' := Path.same_iff.mp (Bool.not_eq_false _ ▸ hsame)
      exact (Closure.visitRoots_loadable hvisit).acyclic
        ⟨q, p.configPath, hq, .single hmentions, Path.same_iff.mpr hsame'.symm⟩
    · intro k hk other hother hreferenced' rule'
      exact Closure.not_breaks
        (hbefore k hk other hother ((hwhole.referenced k other hother).mpr hreferenced')) rule'

/-- Two projects, of which the second references the first; the only source of the
    first is its root directory. -/
def rootedFiles : MemoryFs :=
  .ofTexts [("/r/core/tsconfig.json",
      "\x7b\"compilerOptions\": \x7b\"rootDir\": \"a.ts\", \"outDir\": \"lib\"\x7d, \"files\": [\"a.ts\"], \"references\": []\x7d"),
    ("/r/core/a.ts", ""),
    ("/r/app/tsconfig.json",
      "\x7b\"files\": [\"b.ts\"], \"references\": [\x7b\"path\": \"../core\"\x7d]\x7d"),
    ("/r/app/b.ts", "")]

/-- Two projects, of which the second references the first, which has no list of
    references. -/
def closedFiles : MemoryFs :=
  .ofTexts [("/r/core/tsconfig.json", "\x7b\"files\": []\x7d"),
    ("/r/app/tsconfig.json",
      "\x7b\"files\": [], \"references\": [\x7b\"path\": \"../core\"\x7d]\x7d")]

/-- The project and the restriction of a violation. -/
def Error.violation? : Error → Option (Path × Restriction)
  | .restriction project rule => some (project, rule)
  | _ => none

theorem Error.violation?_eq_some {e : Error} {project : Path} {rule : Restriction}
    (h : e.violation? = some (project, rule)) : e = .restriction project rule := by
  cases e <;> cases h
  rfl

/-- The edges of a graph, and the sources of its first project. -/
def Graph.sketch (g : Graph) : List (Nat × Nat) × Nat × Path × List Path :=
  (g.edges, g.size, (g.node 0).rootDir, (g.node 0).inputs)

/-- A project that another one references emits declarations, and the other one
    does not; a source that is a root directory has none; and a project without
    references that another one references is refused. -/
theorem loadGraph_restrictions_pair :
    (∃ g, (loadGraph pairFiles [⟨"/r/app"⟩]).value = .ok g ∧ (g.node 0).Declares ∧
      (g.node 1).declaration = (g.node 1).config.emitsDeclarations) ∧
    (∃ g, (loadGraph rootedFiles [⟨"/r/app"⟩]).value = .ok g ∧ (g.node 0).Declares ∧
      (g.node 0).inputs = [⟨"/r/core/a.ts"⟩] ∧
      (g.node 0).declarationFor? ⟨"/r/core/a.ts"⟩ = none) ∧
    ∃ p : Project, p.configPath = ⟨"/r/core/tsconfig.json"⟩ ∧ p.config.references = none := by
  have hfirst : ∀ {g : Graph}, g.edges = [(1, 0)] → g.dependents 0 ≠ [] := by
    intro g hedges
    unfold Graph.dependents
    rw [hedges]
    decide
  have hsecond : ∀ {g : Graph}, g.edges = [(1, 0)] → g.dependents 1 = [] := by
    intro g hedges
    unfold Graph.dependents
    rw [hedges]
    decide
  refine ⟨?_, ?_, ?_⟩
  · have hsketch : (loadGraph pairFiles [⟨"/r/app"⟩]).value.toOption.map Graph.sketch
        = some ([(1, 0)], 2, ⟨"/r/core"⟩, [⟨"/r/core/a.ts"⟩]) := by decide +kernel
    obtain ⟨g, hg, hshape⟩ := Graph.loaded_of_map hsketch
    simp only [Graph.sketch, Prod.mk.injEq] at hshape
    obtain ⟨hedges, hsize, -, -⟩ := hshape
    exact ⟨g, hg, ((loadGraph_restrictions _ _).1 g hg 0 (by omega)).1 (hfirst hedges),
      ((loadGraph_restrictions _ _).1 g hg 1 (by omega)).2.1 (hsecond hedges)⟩
  · have hsketch : (loadGraph rootedFiles [⟨"/r/app"⟩]).value.toOption.map Graph.sketch
        = some ([(1, 0)], 2, ⟨"/r/core/a.ts"⟩, [⟨"/r/core/a.ts"⟩]) := by decide +kernel
    obtain ⟨g, hg, hshape⟩ := Graph.loaded_of_map hsketch
    simp only [Graph.sketch, Prod.mk.injEq] at hshape
    obtain ⟨hedges, hsize, hroot, hinputs⟩ := hshape
    have hdeclares := ((loadGraph_restrictions _ _).1 g hg 0 (by omega)).1 (hfirst hedges)
    refine ⟨g, hg, hdeclares, hinputs, ?_⟩
    refine (hdeclares.output _ (hinputs ▸ List.mem_singleton_self _) (by decide +kernel)
      (by decide +kernel)).1 ?_
    rw [hroot]
    exact Path.same_iff.mpr rfl
  · have hobserved : observed Error.violation? (loadGraph closedFiles [⟨"/r/app"⟩]).value
        = some (some (⟨"/r/core/tsconfig.json"⟩, .missingReferences)) := by decide +kernel
    obtain ⟨e, he, hviolation⟩ := observed_eq_some.mp hobserved
    obtain rfl := Error.violation?_eq_some hviolation
    obtain ⟨indices, s, i, p, -, -, hpath, -, hbreaks, -⟩ :=
      (loadGraph_restrictions closedFiles [⟨"/r/app"⟩]).2 _ _ he
    exact ⟨p, hpath, hbreaks⟩

end ProjectBuild
