import ProjectBuild.Proofs.Closure.Load
import ProjectBuild.Proofs.FileSystem.Memory
import ProjectBuild.Proofs.Path.Ancestor

/-! # Inputs of loaded projects

    The inputs of a project that was loaded from files in memory are files, and
    none of them is the same as another: they are the keys of a set. -/

namespace ProjectBuild

namespace PathSet

/-- A set of paths is sorted. -/
theorem sorted_ofPaths (paths : List Path) : (ofPaths paths).Sorted := by
  have hall : ∀ (paths : List Path) (s : PathSet), s.Sorted → (paths.foldl add s).Sorted := by
    intro paths
    induction paths with
    | nil => exact fun s h => h
    | cons p rest ih => exact fun s h => ih (add s p) (h.insert p ())
  exact hall paths _ PathMap.sorted_empty

theorem ofPaths_concat (paths : List Path) (p : Path) :
    ofPaths (paths ++ [p]) = (ofPaths paths).add p := by
  unfold ofPaths
  rw [List.foldl_append]
  rfl

/-- A path is in a set under every spelling. -/
theorem contains_ofPaths (paths : List Path) (q : Path) :
    (ofPaths paths).contains q = paths.any fun p => p.same q := by
  induction paths using List.reverseRecOn with
  | nil => rfl
  | append_singleton paths p ih =>
      rw [ofPaths_concat, List.any_append, ← ih, PathMap.contains_eq, PathMap.contains_eq, add,
        PathMap.get?_insert]
      by_cases h : p.components = q.components
      · simp [h, Path.same_iff.mpr h]
      · simp [h, Path.same_eq_false_iff.mpr h]

/-- **A set holds each path in the spelling that comes first.** -/
theorem mem_keys_ofPaths_iff {paths : List Path} {q : Path} :
    q ∈ (ofPaths paths).keys ↔ paths.find? (fun p => p.same q) = some q := by
  induction paths using List.reverseRecOn with
  | nil => exact ⟨fun h => (nomatch h), fun h => (nomatch h)⟩
  | append_singleton paths p ih =>
      rw [ofPaths_concat, add, (sorted_ofPaths paths).mem_keys_insert, ih, List.find?_append,
        Option.or_eq_some_iff, contains_ofPaths, ← Bool.not_eq_true, List.any_eq_true]
      refine or_congr_right ?_
      rw [List.find?_eq_none, List.find?_singleton]
      constructor
      · rintro ⟨rfl, hnone⟩
        refine ⟨fun r hr hsame => hnone ⟨r, hr, hsame⟩, ?_⟩
        rw [if_pos (Path.same_iff.mpr rfl)]
      · rintro ⟨hnone, hp⟩
        split at hp
        · obtain rfl := Option.some.inj hp
          exact ⟨rfl, fun ⟨r, hr, hsame⟩ => hnone r hr hsame⟩
        · exact nomatch hp

/-- A set holds no path that was not put into it. -/
theorem mem_keys_ofPaths {paths : List Path} {q : Path} (h : q ∈ (ofPaths paths).keys) :
    q ∈ paths :=
  List.mem_of_find?_eq_some (mem_keys_ofPaths_iff.mp h)

/-- No two paths of a set are the same. -/
theorem keys_distinct {s : PathSet} (h : s.Sorted) :
    s.keys.Pairwise fun p q => p.components ≠ q.components :=
  List.Pairwise.map Prod.fst (fun _ _ => Path.ne_of_lt) h

end PathSet

/-- What patterns name lies below the directory of the configuration. -/
theorem InputRule.isWithin_of_names {rule : InputRule} {patterns : GlobSet} {path : Path}
    (h : rule.names patterns path = true) : Path.isWithin rule.configDir path = true := by
  unfold InputRule.names at h
  split at h
  · rename_i relative hrelative
    rw [Path.isWithin_iff, Path.components_afterDir? hrelative]
    exact List.prefix_append _ _
  · exact nomatch h

namespace Closure

section split

variable {σ : Type} [FileSystem σ] {fs : σ} {configDir : Path} {config : ProjectConfig}
  {outDir : Option Path}

/-- What is selected is what a rule selects among the files that it lists, if there
    are patterns at all. -/
theorem selectedFiles_cases {found : List Path}
    (h : (selectedFiles fs configDir config outDir).value = .ok found) :
    found = [] ∨ ∃ (rule : InputRule) (files : List Path), rule.configDir = configDir ∧
      (FileSystem.list fs configDir rule.prunes).value = .ok files ∧
      found = files.filter rule.selects := by
  unfold selectedFiles at h
  simp only at h
  split at h
  · exact Or.inl (Except.ok.inj h).symm
  · cases hincluded : ProjectConfig.compilePatterns config.inputPatterns with
    | error e =>
        rw [hincluded] at h
        exact nomatch h
    | ok included =>
        rw [hincluded] at h
        simp only at h
        cases hexcluded : config.excludeSet with
        | error e =>
            rw [hexcluded] at h
            exact nomatch h
        | ok excluded =>
            rw [hexcluded] at h
            simp only at h
            split at h
            · exact nomatch h
            · rename_i files hfiles
              exact Or.inr ⟨_, files, rfl, hfiles, (Except.ok.inj h).symm⟩

/-- Files that are selected lie below the directory of the configuration. -/
theorem isWithin_selectedFiles {found : List Path}
    (h : (selectedFiles fs configDir config outDir).value = .ok found) :
    ∀ q ∈ found, Path.isWithin configDir q = true := by
  obtain rfl | ⟨rule, files, rfl, -, rfl⟩ := selectedFiles_cases h
  · exact List.forall_mem_nil _
  · intro q hq
    have hselects := (List.mem_filter.mp hq).2
    unfold InputRule.selects at hselects
    simp only [Bool.and_eq_true] at hselects
    exact InputRule.isWithin_of_names hselects.1.2

/-- The inputs of a project are what it lists and what its patterns select. -/
theorem inputs_split {found : List Path}
    (h : (inputs fs configDir config outDir).value = .ok found) :
    config.missingFile? fs configDir = none ∧
      ∃ selected, (selectedFiles fs configDir config outDir).value = .ok selected ∧
        found = withoutGenerated (PathSet.ofPaths
          ((config.files.getD []).map (fun file => Path.absolutize configDir ⟨file⟩) ++
            selected)) := by
  unfold inputs at h
  cases hmissing : config.missingFile? fs configDir with
  | some file =>
      rw [hmissing] at h
      exact nomatch h
  | none =>
      rw [hmissing] at h
      simp only at h
      cases hselected : (selectedFiles fs configDir config outDir).value with
      | error e =>
          rw [hselected] at h
          exact nomatch h
      | ok selected =>
          rw [hselected] at h
          exact ⟨rfl, selected, rfl, (Except.ok.inj h).symm⟩

/-- **Seen from an absolute directory**, all inputs are absolute. -/
theorem isAbsolute_inputs (hdir : configDir.isAbsolute = true) {found : List Path}
    (h : (inputs fs configDir config outDir).value = .ok found) :
    ∀ q ∈ found, q.isAbsolute = true := by
  obtain ⟨-, selected, hselected, rfl⟩ := inputs_split h
  intro q hq
  rcases List.mem_append.mp (PathSet.mem_keys_ofPaths (List.mem_filter.mp hq).1) with hq | hq
  · obtain ⟨file, -, rfl⟩ := List.mem_map.mp hq
    exact Path.isAbsolute_absolutize hdir _
  · exact Path.isAbsolute_of_isWithin hdir (isWithin_selectedFiles hselected q hq)

/-- The root directory of a project in an absolute directory is absolute. -/
theorem isAbsolute_rootDir_of_inputs (hdir : configDir.isAbsolute = true) {found : List Path}
    (h : (inputs fs configDir config outDir).value = .ok found) :
    (rootDir configDir config found).isAbsolute = true := by
  unfold rootDir
  split
  · exact Path.isAbsolute_absolutize hdir _
  · split
    · exact hdir
    · cases hcommon : Path.commonAncestor? (found.filter fun file => !file.isDeclaration) with
      | none => exact hdir
      | some dir =>
          exact Path.commonAncestor?_induct (P := fun q => q.isAbsolute = true)
            Path.isAbsolute_parent?
            (fun q hq => isAbsolute_inputs hdir h q (List.mem_filter.mp hq).1) hcommon

end split

variable {fs : MemoryFs} {configDir : Path} {config : ProjectConfig} {outDir : Option Path}

/-- Files that are selected lie below the configuration's directory. -/
theorem selectedFiles_listed {found : List Path}
    (h : (selectedFiles fs configDir config outDir).value = .ok found) :
    ∀ q ∈ found, ∃ prune, q ∈ fs.listed configDir prune := by
  obtain rfl | ⟨rule, files, -, hfiles, rfl⟩ := selectedFiles_cases h
  · exact fun q hq => nomatch hq
  · obtain rfl := Except.ok.inj hfiles
    exact fun q hq => ⟨rule.prunes, (List.mem_filter.mp hq).1⟩

/-- What a project lists exists. -/
theorem isFile_of_listed {found : List Path}
    (h : (inputs fs configDir config outDir).value = .ok found) {name : String}
    (hname : name ∈ config.files.getD []) :
    FileSystem.isFile fs (Path.absolutize configDir ⟨name⟩) = true := by
  have hthere := List.find?_eq_none.mp (inputs_split h).1 _ (List.mem_map_of_mem hname)
  rwa [Bool.not_eq_true, Bool.not_eq_false'] at hthere

/-- An input is listed by its configuration, or was found below its directory. -/
theorem mem_inputs {found : List Path} (h : (inputs fs configDir config outDir).value = .ok found)
    {q : Path} (hq : q ∈ found) :
    (∃ file ∈ config.files.getD [], Path.absolutize configDir ⟨file⟩ = q ∧
      fs.files.contains q = true) ∨ ∃ prune, q ∈ fs.listed configDir prune := by
  have hlists : ∀ file ∈ config.files.getD [],
      FileSystem.isFile fs (Path.absolutize configDir ⟨file⟩) = true :=
    fun file hfile => isFile_of_listed h hfile
  obtain ⟨-, selected, hselected, rfl⟩ := inputs_split h
  have hkey := PathSet.mem_keys_ofPaths (List.mem_filter.mp hq).1
  rcases List.mem_append.mp hkey with hlisted | hfound
  · obtain ⟨file, hfile, rfl⟩ := List.mem_map.mp hlisted
    exact Or.inl ⟨file, hfile, rfl, hlists file hfile⟩
  · exact Or.inr (selectedFiles_listed hselected q hfound)

/-- **Inputs exist and differ from one another.** -/
theorem inputs_ok {found : List Path} (h : (inputs fs configDir config outDir).value = .ok found) :
    (∀ q ∈ found, (fs.file? q).isSome = true) ∧
      found.Pairwise fun p q => p.components ≠ q.components := by
  constructor
  · intro q hq
    rw [← MemoryFs.isFile_eq]
    rcases mem_inputs h hq with ⟨file, -, -, hthere⟩ | ⟨prune, hlisted⟩
    · exact hthere
    · exact PathMap.contains_of_mem_keys (List.mem_filter.mp hlisted).1
  · obtain ⟨-, selected, -, rfl⟩ := inputs_split h
    exact (PathSet.keys_distinct (PathSet.sorted_ofPaths _)).filter _

end Closure

/-- The root directory of a project in an absolute directory is absolute. -/
theorem Project.LoadedFrom.isAbsolute_rootDir {σ : Type} [FileSystem σ] {fs : σ} {p : Project}
    (h : p.LoadedFrom fs) (hdir : p.configPath.dir.isAbsolute = true) :
    p.rootDir.isAbsolute = true := by
  obtain ⟨loaded, references, found, declaration, hread, hfound, -, hp⟩ := h.arranged
  rw [← Closure.read_path hread] at hdir
  rw [hp]
  exact Closure.isAbsolute_rootDir_of_inputs hdir hfound

/-- **The inputs of a loaded project exist**, and no two are the same. -/
theorem Project.LoadedFrom.inputs_ok {fs : MemoryFs} {p : Project} (h : p.LoadedFrom fs) :
    (∀ q ∈ p.inputs, (fs.file? q).isSome = true) ∧
      p.inputs.Pairwise fun p q => p.components ≠ q.components := by
  obtain ⟨loaded, references, found, declaration, -, hfound, -, rfl⟩ := h.arranged
  exact Closure.inputs_ok hfound

end ProjectBuild
