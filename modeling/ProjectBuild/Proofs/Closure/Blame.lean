import ProjectBuild.Proofs.Closure.Cycle

/-! # Whom a failure is blamed on

    An error about a configuration carries a path.  Unless a root names nothing,
    the error comes from loading one project, and `Closure.Wrong` tells what is
    wrong with it.  The path is that of the project's own configuration, with
    one exception: a listed file that is missing is reported for the file of
    the conventional name in the project's directory, which need not exist
    (`loadGraph_names`). -/

namespace ProjectBuild

namespace Closure

section general

variable {σ : Type} [FileSystem σ]

/-- What is wrong with the project of the configuration `p`. -/
inductive Wrong (fs : σ) (p : Path) : ConfigProblem → Prop
  | unreadable {failure : IoFailure} (hread : (FileSystem.read fs p).value = .error failure) :
      Wrong fs p (.unreadable failure)
  | malformed {text : String} {mistake : Json.Mistake}
      (hread : (FileSystem.read fs p).value = .ok text)
      (htext : ProjectConfig.ofText text = .error mistake) : Wrong fs p (.malformed mistake)
  | missingReference {loaded : LoadedConfig} {reference : ProjectReference}
      (hread : (LoadedConfig.read fs p).value = .ok loaded)
      (hreference : reference ∈ loaded.config.references.getD [])
      (habsent : target? fs loaded reference = none) :
      Wrong fs p (.missingReference (Path.absolutize p.dir ⟨reference.path⟩))
  | missingInput {loaded : LoadedConfig} {file : String}
      (hread : (LoadedConfig.read fs p).value = .ok loaded)
      (hfile : file ∈ loaded.config.files.getD [])
      (habsent : FileSystem.isFile fs (Path.absolutize p.dir ⟨file⟩) = false) :
      Wrong fs p (.missingInput (Path.absolutize p.dir ⟨file⟩))
  | outsideRoot {loaded : LoadedConfig} {found : List Path} {file : Path}
      (hread : (LoadedConfig.read fs p).value = .ok loaded)
      (hfound : (inputs fs p.dir loaded.config (loaded.config.options.outDir.map fun dir =>
        Path.absolutize p.dir ⟨dir⟩)).value = .ok found)
      (hfile : file ∈ found) (hambient : file.isDeclaration = false)
      (houtside : Path.isWithin (rootDir p.dir loaded.config found) file = false) :
      Wrong fs p (.outsideRoot file (rootDir p.dir loaded.config found))

/-- The path that a problem of the configuration `p` is reported for. -/
def reportedFor (p : Path) : ConfigProblem → Path
  | .missingInput _ => p.dir.join ⟨configFileName⟩
  | _ => p

theorem getLast?_conventional (p : Path) :
    (p.dir.join ⟨configFileName⟩).components.getLast? = some (.name configFileName) :=
  Path.getLast?_join (by decide +kernel) p.dir

/-- The conventional name in the directory of a configuration that has it is the
    configuration itself. -/
theorem components_conventional {p : Path} (h : p.fileName? = some configFileName) :
    (p.dir.join ⟨configFileName⟩).components = p.components := by
  have hrenamed : p.withFileName configFileName = p.dir.join ⟨configFileName⟩ := by
    unfold Path.withFileName
    rw [h]
  have hlast := Path.fileName?_eq_some h
  obtain ⟨front, hfront⟩ := List.getLast?_eq_some_iff.mp hlast
  rw [← hrenamed, Path.components_withFileName h (by decide +kernel) (by decide +kernel), hfront,
    List.dropLast_concat]

/-- **A problem is reported for the configuration itself**, unless it is a missing
    input of one that has another name than the conventional one. -/
theorem reportedFor_same_iff (p : Path) (problem : ConfigProblem) :
    (reportedFor p problem).same p = true ↔
      ∀ file, problem = .missingInput file → p.fileName? = some configFileName := by
  rw [Path.same_iff]
  cases problem with
  | missingInput file =>
      constructor
      · intro hsame _ _
        have hlast := getLast?_conventional p
        rw [show p.dir.join ⟨configFileName⟩ = reportedFor p (.missingInput file) from rfl,
          hsame] at hlast
        exact Path.fileName?_of_getLast? hlast
      · exact fun h => components_conventional (h file rfl)
  | _ => exact iff_of_true rfl fun _ h => nomatch h

/-! ## Single projects -/

/-- A configuration that cannot be loaded is wrong, and the error names what it is
    reported for. -/
theorem load_names {fs : σ} {p path : Path} {problem : ConfigProblem}
    (h : load fs p = .error (.config path problem)) :
    Wrong fs p problem ∧ path = reportedFor p problem := by
  rcases bind_error h with hread | ⟨loaded, hread, hrest⟩
  · rcases read_error hread with ⟨failure, hcontent, heq⟩ | ⟨text, mistake, hcontent, htext, heq⟩
    · cases heq
      exact ⟨.unreadable hcontent, rfl⟩
    · cases heq
      exact ⟨.malformed hcontent htext, rfl⟩
  obtain rfl := read_path hread
  rcases bind_error hrest with htargets | ⟨targets, -, hproject⟩
  · obtain ⟨reference, hreference, habsent, heq⟩ := resolveReferences_error htargets
    cases heq
    exact ⟨.missingReference hread hreference habsent, rfl⟩
  rcases project_error hproject with (⟨file, hfile, habsent, heq⟩ | hsearch) |
    ⟨found, file, hfound, houtsider, heq⟩
  · cases heq
    exact ⟨.missingInput hread hfile habsent, rfl⟩
  · exact absurd hsearch SearchFault.ne_config
  · cases heq
    have hout := List.find?_some houtsider
    obtain ⟨hambient, hnot⟩ := Bool.and_eq_true_iff.mp hout
    rw [Bool.not_eq_true'] at hambient hnot
    exact ⟨.outsideRoot hread hfound (List.mem_of_find?_eq_some houtsider) hambient hnot, rfl⟩

end general

/-! ## Graphs -/

end Closure

/-- **What an error about a configuration names**: a root that names nothing, or
    else a project that can be reached and that something is wrong with.  Then
    the path is that of the project's own configuration, which exists, unless a
    listed file is missing and the configuration is not called as is the
    convention: the path then has the conventional name beside it. -/
theorem loadGraph_names {fs : MemoryFs} {roots : List Path} {path : Path}
    {problem : ConfigProblem} (h : (loadGraph fs roots).value = .error (.config path problem)) :
    (∃ root ∈ roots, path = root.normalize ∧ problem = .notFound ∧
        resolveConfig? fs root.normalize = none) ∨
      ∃ p, Closure.Reachable fs roots p ∧ FileSystem.isFile fs p = true ∧
        Closure.Wrong fs p problem ∧ path = Closure.reportedFor p problem ∧
        (path.same p = true ↔
          ∀ file, problem = .missingInput file → p.fileName? = some configFileName) := by
  rcases loadGraph_error h with ⟨s, hvisit⟩ | ⟨indices, s, -, hviolation⟩
  · rcases Closure.visitRoots_error hvisit with ⟨root, hroot, habsent⟩ | ⟨p, hp, hload⟩ | hcycle
    · refine Or.inl ⟨root, hroot, ?_⟩
      obtain ⟨hnone, heq⟩ := Closure.resolveRoot_error habsent
      cases heq
      exact ⟨rfl, rfl, hnone⟩
    · obtain ⟨hwrong, hpath⟩ := Closure.load_names hload
      exact Or.inr ⟨p, hp, Closure.Reachable.isFile hp, hwrong, hpath,
        hpath ▸ Closure.reportedFor_same_iff p problem⟩
    · obtain ⟨cycle, heq⟩ := hcycle
      cases heq
  · -- restrictions on referenced projects are no errors about a configuration
    obtain ⟨k, node, -, -, hrule, -⟩ := Closure.firstViolation?_error 0 s.nodes hviolation
    rcases Closure.violation?_error hrule with ⟨rule, heq⟩ | hsearch
    · cases heq
    · exact absurd hsearch Closure.SearchFault.ne_config

/-- The path that an error about a missing input names, and the input. -/
def Error.missingInput? : Error → Option (Path × Path)
  | .config path (.missingInput file) => some (path, file)
  | _ => none

theorem Error.missingInput?_eq_some {e : Error} {path file : Path}
    (h : e.missingInput? = some (path, file)) : e = .config path (.missingInput file) := by
  unfold Error.missingInput? at h
  split at h
  · cases h
    rfl
  · cases h

/-- A project of another name than the conventional one lists a file that does
    not exist. -/
def misnamedFiles : MemoryFs :=
  .ofTexts [("/r/lib.json", "\x7b\"files\": [\"a.ts\"]\x7d")]

/-- A missing input is reported for a configuration that does not exist, and not
    for the one that lists it. -/
theorem loadGraph_names_misnamed :
    (loadGraph misnamedFiles [⟨"/r/lib.json"⟩]).value
        = .error (.config ⟨"/r/tsconfig.json"⟩ (.missingInput ⟨"/r/a.ts"⟩)) ∧
      FileSystem.isFile misnamedFiles ⟨"/r/tsconfig.json"⟩ = false ∧
      ∃ p, FileSystem.isFile misnamedFiles p = true ∧
        Closure.Wrong misnamedFiles p (.missingInput ⟨"/r/a.ts"⟩) ∧
        (⟨"/r/tsconfig.json"⟩ : Path).same p = false := by
  have hobserved : observed Error.missingInput? (loadGraph misnamedFiles [⟨"/r/lib.json"⟩]).value
      = some (some (⟨"/r/tsconfig.json"⟩, ⟨"/r/a.ts"⟩)) := by decide +kernel
  obtain ⟨e, he, hmissing⟩ := observed_eq_some.mp hobserved
  obtain rfl := Error.missingInput?_eq_some hmissing
  have habsent : FileSystem.isFile misnamedFiles ⟨"/r/tsconfig.json"⟩ = false := by decide +kernel
  rcases loadGraph_names he with ⟨root, -, -, hproblem, -⟩ | ⟨p, -, hfile, hwrong, -, -⟩
  · cases hproblem
  · refine ⟨he, habsent, p, hfile, hwrong, ?_⟩
    -- the one exists and the other does not
    rw [Bool.eq_false_iff]
    intro hsame
    have hthere := MemoryFs.isFile_of_same (Path.same_iff.mpr (Path.same_iff.mp hsame).symm) hfile
    exact Bool.false_ne_true (habsent.symm.trans hthere)

end ProjectBuild
