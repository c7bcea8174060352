import ProjectBuild.Proofs.Closure.Restrictions

/-! # Inferred root directories

    A project that states neither a root directory nor references starts from the
    deepest directory that holds its sources.  Absolute sources always have one
    (`Path.exists_commonAncestor?`), so such a project is not refused for a source
    outside its root directory (`Closure.outsider?_eq_none`).  Only where the
    project itself works in a relative directory can absolute and relative sources
    meet; below absolute roots that takes a configuration that is the root itself,
    and has the empty path for a directory (`loadGraph_rootDir`). -/

namespace ProjectBuild

variable {σ : Type} [FileSystem σ]

/-- A configuration that leaves the root directory to be inferred, and works in an
    absolute directory or below the empty path. -/
structure LoadedConfig.InfersRoot (loaded : LoadedConfig) : Prop where
  unstated : loaded.config.options.rootDir = none
  plain : loaded.config.references = none
  rooted : loaded.path.dir.isAbsolute = true ∨ loaded.path.dir.components = []

namespace Closure

variable {fs : σ} {roots : List Path} {loaded : LoadedConfig}

/-! ## Single projects -/

/-- The inferred root directory is the common one of the sources, or that of the
    configuration. -/
theorem rootDir_of_infersRoot (h : loaded.InfersRoot) (references found : List Path) :
    (arrange loaded references found).rootDir =
      (Path.commonAncestor? (found.filter fun file => !file.isDeclaration)).getD
        loaded.path.dir := by
  show rootDir loaded.path.dir loaded.config found = _
  simp only [rootDir, h.unstated, h.plain, Option.isSome_none, if_neg Bool.false_ne_true]

/-- **A root directory that is inferred holds every source.** -/
theorem isWithin_rootDir_of_infersRoot (h : loaded.InfersRoot) (references : List Path)
    {found : List Path} {outDir : Option Path}
    (hfound : (inputs fs loaded.path.dir loaded.config outDir).value = .ok found) {file : Path}
    (hfile : file ∈ found) (hambient : file.isDeclaration = false) :
    Path.isWithin (arrange loaded references found).rootDir file = true := by
  have hsource : file ∈ found.filter fun file => !file.isDeclaration :=
    List.mem_filter.mpr ⟨hfile, by rw [hambient]; rfl⟩
  rw [rootDir_of_infersRoot h]
  cases hcommon : Path.commonAncestor? (found.filter fun file => !file.isDeclaration) with
  | some dir => exact Path.isWithin_commonAncestor? hcommon file hsource
  | none =>
      rcases h.rooted with habsolute | hempty
      · -- absolute sources have a common directory
        obtain ⟨dir, hdir⟩ := Path.exists_commonAncestor? (List.ne_nil_of_mem hsource)
          fun q hq => isAbsolute_inputs habsolute hfound q (List.mem_filter.mp hq).1
        exact nomatch hcommon.symm.trans hdir
      · rw [Option.getD_none, Path.isWithin_iff, hempty]
        exact List.nil_prefix

/-- No source lies outside a root directory that was inferred. -/
theorem outsider?_eq_none (h : loaded.InfersRoot) {references found : List Path}
    {outDir : Option Path}
    (hfound : (inputs fs loaded.path.dir loaded.config outDir).value = .ok found) :
    outsider? (arrange loaded references found) = none := by
  refine List.find?_eq_none.mpr fun file hfile hout => ?_
  obtain ⟨hambient, hnot⟩ := Bool.and_eq_true_iff.mp hout
  rw [Bool.not_eq_true'] at hambient hnot
  exact Bool.false_ne_true
    (hnot.symm.trans (isWithin_rootDir_of_infersRoot h references hfound hfile hambient))

/-- A project that infers its root directory is not refused for a source outside of
    it. -/
theorem project_ne_outsideRoot (h : loaded.InfersRoot) {references : List Path}
    {path file root : Path} :
    (project fs loaded references).value ≠ .error (.config path (.outsideRoot file root)) := by
  intro herror
  rcases project_error herror with (⟨_, -, -, hmissing⟩ | hsearch) | ⟨found, _, hfound, hout, -⟩
  · cases hmissing
  · exact hsearch.ne_config
  · rw [outsider?_eq_none h hfound] at hout
    cases hout

/-! ## Loading -/

/-- A project is refused for a source outside only if it does not infer its root
    directory. -/
theorem load_outsideRoot {p path file root : Path}
    (h : load fs p = .error (.config path (.outsideRoot file root))) :
    ∃ loaded, (LoadedConfig.read fs p).value = .ok loaded ∧ p = path ∧ ¬ loaded.InfersRoot := by
  rcases bind_error h with hread | ⟨loaded, hread, h⟩
  · rcases read_error hread with ⟨failure, -, hfailure⟩ | ⟨text, mistake, -, -, hmistake⟩
    · cases hfailure
    · cases hmistake
  rcases bind_error h with htargets | ⟨targets, -, hproject⟩
  · obtain ⟨reference, -, -, htarget⟩ := resolveReferences_error htargets
    cases htarget
  · refine ⟨loaded, hread, ?_, fun hinfers => project_ne_outsideRoot hinfers hproject⟩
    rcases project_error hproject with (⟨_, -, -, hmissing⟩ | hsearch) | ⟨_, _, -, -, heq⟩
    · cases hmissing
    · exact absurd hsearch SearchFault.ne_config
    · rw [← read_path hread, (Error.config.inj heq).1]

/-- Only a configuration that does not leave its root directory to be inferred is
    refused for a source outside it. -/
theorem loadGraph_outsideRoot {path file root : Path}
    (h : (loadGraph fs roots).value = .error (.config path (.outsideRoot file root))) :
    ∃ loaded, Reachable fs roots path ∧ (LoadedConfig.read fs path).value = .ok loaded ∧
      ¬ loaded.InfersRoot := by
  unfold loadGraph at h
  rcases hvisit : visitRoots fs roots {} with ⟨result, s⟩
  rw [hvisit] at h
  cases result with
  | error e =>
      obtain rfl := Except.error.inj h
      rcases visitRoots_error hvisit with ⟨start, -, hroot⟩ | ⟨p, hp, hload⟩ | ⟨cycle, hcycle⟩
      · cases (resolveRoot_error hroot).2
      · obtain ⟨loaded, hread, rfl, hnot⟩ := load_outsideRoot hload
        exact ⟨loaded, hp, hread, hnot⟩
      · cases hcycle
  | ok indices =>
      simp only at h
      split at h
      · -- restrictions are checked on projects that have been loaded
        rename_i e hviolation
        obtain rfl := Except.error.inj h
        obtain ⟨k, p, -, -, hrule, -⟩ := firstViolation?_error 0 s.nodes hviolation
        rcases violation?_error hrule with ⟨rule, heq⟩ | hsearch
        · cases heq
        · exact absurd hsearch SearchFault.ne_config
      · -- the graph is built from what has been loaded, and blames no file
        unfold Graph.ofEdges at h
        split at h
        · cases h
        · split at h
          · cases h
          · simp only at h
            split at h
            · cases h
            · cases h

end Closure

/-- **Inferred root directories.**  Absolute paths have a greatest common directory:
    it holds them all, and lies inside every directory that holds all of theirs.  A
    project that leaves its root directory to be inferred starts from that of its
    sources, which it holds, and is never refused for a source outside it.  Below
    absolute roots, where no configuration is the root itself, every project works in
    an absolute directory. -/
theorem loadGraph_inferredRoot (fs : σ) (roots : List Path)
    (hroots : ∀ root ∈ roots, root.isAbsolute = true) :
    (∀ paths : List Path, paths ≠ [] → (∀ p ∈ paths, p.isAbsolute = true) →
      ∃ dir, Path.commonAncestor? paths = some dir ∧ (∀ p ∈ paths, Path.isWithin dir p = true) ∧
        ∀ top, (∀ p ∈ paths, Path.isWithin top p.dir = true) → Path.isWithin top dir = true) ∧
    (∀ path loaded, Closure.Reachable fs roots path →
      (LoadedConfig.read fs path).value = .ok loaded → loaded.InfersRoot → ∀ references,
        (∀ p, (Closure.project fs loaded references).value = .ok p →
          p.rootDir = (Path.commonAncestor? (p.inputs.filter fun file => !file.isDeclaration)).getD
            p.configDir ∧
          ∀ input ∈ p.inputs, input.isDeclaration = false →
            Path.isWithin p.rootDir input = true) ∧
        ∀ place file root, (Closure.project fs loaded references).value ≠
          .error (.config place (.outsideRoot file root))) ∧
    (∀ path file root,
      (loadGraph fs roots).value = .error (.config path (.outsideRoot file root)) →
        ∃ loaded, Closure.Reachable fs roots path ∧
          (LoadedConfig.read fs path).value = .ok loaded ∧ ¬ loaded.InfersRoot) ∧
    ((∀ q, Closure.Reachable fs roots q → q.components ≠ [.root]) →
      ∀ path, Closure.Reachable fs roots path → path.dir.isAbsolute = true) := by
  refine ⟨fun paths hne hpaths => ?_, fun path loaded _ _ hinfers references => ⟨?_, ?_⟩, ?_, ?_⟩
  · obtain ⟨dir, hdir⟩ := Path.exists_commonAncestor? hne hpaths
    exact ⟨dir, hdir, Path.isWithin_commonAncestor? hdir,
      fun top htop => Path.commonAncestor?_below hdir htop⟩
  · intro p hp
    obtain ⟨found, hfound, -, rfl⟩ := Closure.project_ok hp
    exact ⟨Closure.rootDir_of_infersRoot hinfers references found, fun input hinput hambient =>
      Closure.isWithin_rootDir_of_infersRoot hinfers references hfound hinput hambient⟩
  · exact fun place file root => Closure.project_ne_outsideRoot hinfers
  · exact fun path file root h => Closure.loadGraph_outsideRoot h
  · exact fun hrooted path hpath => (hpath.isAbsolute hroots hrooted).2

/-- A project with sources in a directory and in one below that. -/
def nestedFiles : MemoryFs :=
  .ofTexts [("/r/tsconfig.json", "\x7b\"files\": [\"src/a.ts\", \"src/sub/b.ts\"]\x7d"),
    ("/r/src/a.ts", ""), ("/r/src/sub/b.ts", "")]

/-- What a configuration says of root directory and references. -/
def LoadedConfig.statements (loaded : LoadedConfig) :
    Path × Option String × Option (List ProjectReference) :=
  (loaded.path, loaded.config.options.rootDir, loaded.config.references)

/-- The project starts from the directory that holds both of its sources, and no
    source lies outside it. -/
theorem loadGraph_inferredRoot_nested : ∃ loaded p,
    (LoadedConfig.read nestedFiles ⟨"/r/tsconfig.json"⟩).value = .ok loaded ∧
      (Closure.project nestedFiles loaded []).value = .ok p ∧ p.rootDir = ⟨"/r/src"⟩ ∧
      (∀ input ∈ p.inputs, input.isDeclaration = false → Path.isWithin p.rootDir input = true) ∧
      ∀ path, Closure.Reachable nestedFiles [⟨"/r"⟩] path → path.dir.isAbsolute = true := by
  have hobserved : ((LoadedConfig.read nestedFiles ⟨"/r/tsconfig.json"⟩).value.toOption.bind
      fun loaded => (Closure.project nestedFiles loaded []).value.toOption.map
        fun p => (loaded.statements, p.rootDir)) =
      some ((⟨"/r/tsconfig.json"⟩, none, none), ⟨"/r/src"⟩) := by decide +kernel
  obtain ⟨loaded, hread, hproject⟩ := Option.bind_eq_some_iff.mp hobserved
  obtain ⟨p, hp, hshown⟩ := Option.map_eq_some_iff.mp hproject
  simp only [LoadedConfig.statements, Prod.mk.injEq] at hshown
  obtain ⟨⟨hpath, hunstated, hplain⟩, hroot⟩ := hshown
  have hinfers : loaded.InfersRoot := ⟨hunstated, hplain, Or.inl (by rw [hpath]; decide)⟩
  have hreachable : Closure.Reachable nestedFiles [⟨"/r"⟩] ⟨"/r/tsconfig.json"⟩ := by
    refine ⟨⟨"/r"⟩, List.mem_singleton_self _, _, ?_, .refl⟩
    exact Closure.resolveRoot_eq_ok.mpr (by decide +kernel)
  obtain ⟨-, hinferred, -, hrooted⟩ :=
    loadGraph_inferredRoot nestedFiles [⟨"/r"⟩] (by decide)
  have hread := eq_ok_of_toOption hread
  have hp := eq_ok_of_toOption hp
  exact ⟨loaded, p, hread, hp, hroot, ((hinferred _ loaded hreachable hread hinfers []).1 p hp).2,
    hrooted fun q hq => hq.ne_root (by decide +kernel)⟩

/-- A project in a relative directory, which the configuration that is the root
    itself references: one of its sources is absolute and one is not. -/
def straddlingFiles : MemoryFs :=
  .ofTexts [("/", "\x7b\"references\": [\x7b\"path\": \"lib\"\x7d]\x7d"),
    ("lib/tsconfig.json", "\x7b\"files\": [\"/abs/x.ts\", \"y.ts\"]\x7d"),
    ("/abs/x.ts", ""), ("lib/y.ts", "")]

/-- The configuration, the file and the root directory of a refusal. -/
def Error.outsider? : Error → Option (Path × Path × Path)
  | .config path (.outsideRoot file root) => some (path, file, root)
  | _ => none

theorem Error.outsider?_eq_some {e : Error} {path file root : Path}
    (h : e.outsider? = some (path, file, root)) : e = .config path (.outsideRoot file root) := by
  unfold outsider? at h
  split at h
  · cases h
    rfl
  · cases h

/-- **No directory holds absolute and relative sources**: such a project is refused,
    though it states neither a root directory nor references. -/
theorem loadGraph_straddling :
    (∃ loaded, (LoadedConfig.read straddlingFiles ⟨"lib/tsconfig.json"⟩).value = .ok loaded ∧
      loaded.config.options.rootDir = none ∧ loaded.config.references = none) ∧
    (⟨"/"⟩ : Path).isAbsolute = true ∧
    (loadGraph straddlingFiles [⟨"/"⟩]).value =
      .error (.config ⟨"lib/tsconfig.json"⟩ (.outsideRoot ⟨"/abs/x.ts"⟩ ⟨"lib"⟩)) := by
  refine ⟨?_, rfl, ?_⟩
  · have hread : (LoadedConfig.read straddlingFiles ⟨"lib/tsconfig.json"⟩).value.toOption.map
        LoadedConfig.statements = some (⟨"lib/tsconfig.json"⟩, none, none) := by decide +kernel
    obtain ⟨loaded, hloaded, hshown⟩ := Option.map_eq_some_iff.mp hread
    simp only [LoadedConfig.statements, Prod.mk.injEq] at hshown
    exact ⟨loaded, eq_ok_of_toOption hloaded, hshown.2⟩
  · have hobserved : observed Error.outsider? (loadGraph straddlingFiles [⟨"/"⟩]).value
        = some (some (⟨"lib/tsconfig.json"⟩, ⟨"/abs/x.ts"⟩, ⟨"lib"⟩)) := by decide +kernel
    obtain ⟨e, he, hshown⟩ := observed_eq_some.mp hobserved
    rw [he, Error.outsider?_eq_some hshown]

end ProjectBuild
