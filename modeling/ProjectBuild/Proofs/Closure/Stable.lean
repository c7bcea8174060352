import ProjectBuild.Proofs.Closure.Alike
import ProjectBuild.Proofs.Closure.Generated
import ProjectBuild.Run.Clean

/-! # Loading after a build

    Building the projects of a graph writes outputs and records.  Loading again
    then gives the same graph (`loadGraph_stable`), provided that nothing that
    is written is taken for something else (`Graph.Tidy`): it may not lie where a
    configuration is looked for, and no project may find an output as an input,
    unless it is a declaration of its own that lies beside its source.

    The loader has one rule for each way in which outputs can come to lie among
    inputs.  They do not cover all: what a project emits into the directory of
    its configuration, but not beside the sources, it finds as an input when it
    is loaded again, and so does a project with what another one emits below its
    own directory. -/

namespace ProjectBuild

open MemoryFs (Edit)

/-- Whether a project finds a file by its patterns, once it is there. -/
def Project.finds (p : Project) (file : Path) : Bool :=
  Closure.finds p.configDir p.config
    (p.config.options.outDir.map fun dir => Path.absolutize p.configDir ⟨dir⟩) file

/-- A project does not take a file for an input, once it is there: it does not find
    it, or it finds it beside its source and has no declaration of it. -/
def Project.Disregards (p : Project) (q : Path) : Prop :=
  p.finds q = true → Closure.isGenerated (PathSet.ofPaths p.inputs) q = true ∧
    ∀ input ∈ p.inputs, Closure.isGenerated (PathSet.ofPaths [q]) input = false

/-! ## Files that are alike after a build -/

namespace Closure

variable {fs fs' : MemoryFs}

/-- A configuration is read alike where its file is the same. -/
theorem read_of_file? {p : Path} (h : fs'.file? p = fs.file? p) :
    LoadedConfig.read fs' p = LoadedConfig.read fs p := by
  have htext : fs'.text p = fs.text p := by
    unfold MemoryFs.text
    rw [show fs'.files.get? p = fs.files.get? p from h]
  have hcontent : FileSystem.read fs' p = FileSystem.read fs p := congrArg (Noted.mk · _) htext
  unfold LoadedConfig.read
  rw [hcontent]

/-- A path stands for the same configuration where the files it could mean are the
    same. -/
theorem resolveConfig?_of_file? {candidate : Path} (h : fs'.file? candidate = fs.file? candidate)
    (hconfig : fs'.file? (candidate.join ⟨configFileName⟩)
      = fs.file? (candidate.join ⟨configFileName⟩)) :
    resolveConfig? fs' candidate = resolveConfig? fs candidate := by
  unfold resolveConfig?
  simp only [MemoryFs.isFile_eq, h, hconfig]

/-- References are resolved alike where each has the same target. -/
theorem resolveReferences_congr {loaded : LoadedConfig}
    (h : ∀ reference ∈ loaded.config.references.getD [],
      target? fs' loaded reference = target? fs loaded reference) :
    resolveReferences fs' loaded = resolveReferences fs loaded := by
  rw [resolveReferences_eq, resolveReferences_eq]
  generalize loaded.config.references.getD [] = references at h
  generalize ([] : List Path) = seen
  induction references generalizing seen with
  | nil => rfl
  | cons reference rest ih =>
      have hone : resolveOne fs' loaded seen reference = resolveOne fs loaded seen reference := by
        unfold resolveOne
        rw [h reference List.mem_cons_self]
      rw [List.foldlM_cons, List.foldlM_cons, hone]
      cases resolveOne fs loaded seen reference with
      | error e => rfl
      | ok targets => exact ih (fun r hr => h r (List.mem_cons_of_mem reference hr)) targets

/-- A project is arranged alike where the same inputs are found. -/
theorem project_congr {loaded : LoadedConfig} {targets : List Path}
    (h : (inputs fs' loaded.path.dir loaded.config (loaded.config.options.outDir.map fun dir =>
        Path.absolutize loaded.path.dir ⟨dir⟩)).value
      = (inputs fs loaded.path.dir loaded.config (loaded.config.options.outDir.map fun dir =>
        Path.absolutize loaded.path.dir ⟨dir⟩)).value) :
    (project fs' loaded targets).value = (project fs loaded targets).value := by
  unfold project
  simp only
  rw [h]

/-- Files that are no sources of their own are never missing in a list of files. -/
theorem violation?_grown {written : List Path} (h : fs.Grown fs' written)
    (hsorted : fs.files.Sorted)
    (hwritten : ∀ q ∈ written, q.isSource = false ∨ q.isDeclaration = true) (p : Project)
    (dirs : List Path) : (violation? fs' p dirs).value = (violation? fs p dirs).value := by
  have hunlisted : (unlisted fs' p dirs).value = (unlisted fs p dirs).value := by
    unfold unlisted
    cases p.config.excludeSet with
    | error e => rfl
    | ok excluded =>
        show Except.ok ((fs'.listed _ _).filter _) = Except.ok ((fs.listed _ _).filter _)
        unfold MemoryFs.listed
        rw [List.filter_filter, List.filter_filter]
        refine congrArg Except.ok (h.filter_eq hsorted fun q hq hnew => ?_)
        have hmissed : CoverageRule.misses ⟨p, excluded, nestedDirs p dirs⟩ q = false := by
          unfold CoverageRule.misses
          rcases hwritten q (h.fresh q hq hnew) with hsource | hdeclaration
          · simp [hsource]
          · simp [hdeclaration]
        rw [hmissed, Bool.false_and]
  unfold violation?
  split
  · rfl
  · split
    · rfl
    · split
      · simp only
        rw [hunlisted]
      · rfl

end Closure

/-- **What a project is loaded from is alike** when files are written that are not
    looked for as configurations and of which it finds none but what is generated
    from its inputs. -/
theorem Project.LoadedFrom.alike {fs fs' : MemoryFs} {p : Project} (hp : p.LoadedFrom fs)
    {written : List Path} (h : fs.Grown fs' written) (hsorted : fs.files.Sorted)
    (hwritten : ∀ q ∈ written, q.isSource = false ∨ q.isDeclaration = true)
    (hconfig : ∀ q ∈ written, q.same p.configPath = false)
    (hreferences : ∀ reference ∈ p.config.references.getD [], ∀ q ∈ written,
      q.same (Path.absolutize p.configDir ⟨reference.path⟩) = false ∧
        q.same ((Path.absolutize p.configDir ⟨reference.path⟩).join ⟨configFileName⟩) = false)
    (hnew : ∀ q ∈ written, fs.files.contains q = false → p.Disregards q) : p.Alike fs fs' := by
  constructor
  · rw [Closure.read_of_file? (h.file _ hconfig)]
  · intro loaded hread
    obtain ⟨hsettings, hdir⟩ := hp.config_eq hread
    refine Closure.resolveReferences_congr fun reference hreference => ?_
    have hplace := hreferences reference (hsettings ▸ hreference)
    rw [hdir] at hplace
    exact Closure.resolveConfig?_of_file? (h.file _ fun q hq => (hplace q hq).1)
      (h.file _ fun q hq => (hplace q hq).2)
  · intro loaded targets hread hproject
    obtain ⟨hsettings, hdir⟩ := hp.config_eq hread
    obtain ⟨found, hfound, -, harranged⟩ := Closure.project_ok hproject
    obtain rfl : p.inputs = found := congrArg Project.inputs harranged
    rw [← hproject]
    refine Closure.project_congr ?_
    rw [hfound]
    refine Closure.inputs_grown h hsorted hfound fun q hq hold hfinds => ?_
    unfold Disregards finds at hnew
    rw [hsettings, hdir] at hnew
    exact hnew q (h.fresh q hq hold) hold hfinds
  · exact Closure.violation?_grown h hsorted hwritten p

/-! ## Tidy graphs -/

/-- What the builds of all projects write: outputs and records. -/
def Graph.products (g : Graph) : List Path :=
  g.nodes.flatMap Project.products

/-- The paths at which configurations are looked for, apart from those of the
    conventional name. -/
def Graph.lookups (g : Graph) (roots : List Path) : List Path :=
  roots.map Path.normalize ++ g.nodes.flatMap fun p =>
    p.configPath :: (p.config.references.getD []).map fun reference =>
      Path.absolutize p.configDir ⟨reference.path⟩

/-- A project emits declarations beside their sources, and none of its inputs is a
    declaration of a declaration. -/
structure Project.EmitsBeside (p : Project) : Prop where
  dirs : p.outDir.same p.rootDir = true
  inputs : ∀ q ∈ p.inputs,
    Closure.isGenerated (PathSet.ofPaths p.expectedOutputs) q = false

/-- A project emits into a directory that it names and that does not contain its
    configuration.  (Below the empty path there can be absolute inputs, whose
    outputs lie beside them.) -/
structure Project.EmitsApart (p : Project) : Prop where
  named : ∃ dir, p.config.options.outDir = some dir ∧ p.outDir = Path.absolutize p.configDir ⟨dir⟩
  apart : Path.isWithin p.outDir p.configDir = false
  root : p.rootDir.components ≠ []

/-- Nothing that is written is taken for something else when the graph is loaded
    again. -/
structure Graph.Tidy (g : Graph) (fs : MemoryFs) (roots : List Path) : Prop where
  /-- No product lies where a configuration is looked for. -/
  lookups : ∀ q ∈ g.products, ∀ place ∈ g.lookups roots, q.same place = false
  /-- A project emits to where outputs are told from inputs, or disregards its new ones. -/
  own : ∀ i < g.size, (g.node i).EmitsBeside ∨ (g.node i).EmitsApart ∨
    ∀ q ∈ (g.node i).expectedOutputs, FileSystem.isFile fs q = false → (g.node i).Disregards q
  /-- Every project disregards the new outputs of all others. -/
  others : ∀ i < g.size, ∀ j < g.size, i ≠ j → ∀ q ∈ (g.node j).expectedOutputs,
    FileSystem.isFile fs q = false → (g.node i).Disregards q

/-- What is found lies below the directory of the configuration, outside an output
    directory of its own, and is a source file. -/
theorem Project.finds_spec {p : Project} {q : Path} (h : p.finds q = true) :
    q.isSource = true ∧ Path.isWithin p.configDir q = true ∧
      ∀ dir, p.config.options.outDir = some dir →
        Path.isWithin (Path.absolutize p.configDir ⟨dir⟩) p.configDir = false →
        Path.isWithin (Path.absolutize p.configDir ⟨dir⟩) q = false := by
  unfold finds Closure.finds at h
  cases hrule : Closure.ruleFor p.configDir p.config
      (p.config.options.outDir.map fun dir => Path.absolutize p.configDir ⟨dir⟩) with
  | error e =>
      rw [hrule] at h
      exact nomatch h
  | ok found =>
      rw [hrule] at h
      cases found with
      | none => exact nomatch h
      | some rule =>
          obtain ⟨hdir, hout⟩ := Closure.ruleFor_ok hrule
          obtain ⟨hlisted, hselected⟩ := Bool.and_eq_true_iff.mp h
          unfold MemoryFs.isListed at hlisted
          unfold InputRule.selects at hselected
          simp only [Bool.and_eq_true, Bool.not_eq_true'] at hlisted hselected
          refine ⟨hselected.1.1.1, hdir ▸ hlisted.1.1, fun dir hnamed hapart => ?_⟩
          have hnot := hselected.1.1.2
          unfold InputRule.isOutput at hnot
          rw [hnamed, Option.map_some, Option.filter_some, hapart] at hout
          rw [hout] at hnot
          exact hnot

/-- **Outputs in a directory of their own** are not found. -/
theorem Project.EmitsApart.disregards {p : Project} (h : p.EmitsApart) {q : Path}
    (hq : q ∈ p.expectedOutputs) : p.Disregards q := by
  intro hfinds
  obtain ⟨dir, hdir, hout⟩ := h.named
  have hnot := (finds_spec hfinds).2.2 dir hdir (hout ▸ h.apart)
  rw [← hout, isWithin_outDir h.root hq] at hnot
  exact nomatch hnot

/-- **A declaration beside its source** is found and recognised. -/
theorem Project.EmitsBeside.disregards {p : Project} (h : p.EmitsBeside) {q : Path}
    (hq : q ∈ p.expectedOutputs) : p.Disregards q := by
  intro hfinds
  constructor
  · -- what is found is a source file, so it is the declaration of an input
    rcases output_cases hq with hnot | ⟨hdeclaration, input, hinput, houtput⟩
    · exact nomatch hnot.symm.trans (finds_spec hfinds).1
    · obtain ⟨kind, hkind, source, hreplaced, hsame⟩ := declarationFor?_source houtput h.dirs
      exact Closure.isGenerated_of_mem hdeclaration hkind hreplaced hinput
        (Path.same_iff.mpr hsame.symm)
  · intro input hinput
    rw [← Bool.not_eq_true]
    intro hgenerated
    refine Bool.eq_false_iff.mp (h.inputs input hinput) (Closure.isGenerated_mono ?_ hgenerated)
    intro r hr
    rw [PathSet.contains_ofPaths, List.any_eq_true] at hr ⊢
    obtain ⟨q', hq', hsame⟩ := hr
    exact ⟨q', List.mem_singleton.mp hq' ▸ hq, hsame⟩

/-- A project disregards what lies elsewhere. -/
theorem Project.disregards_elsewhere {p : Project} {q : Path}
    (h : Path.isWithin p.configDir q = false) : p.Disregards q := by
  intro hfinds
  exact nomatch h.symm.trans (finds_spec hfinds).2.1

/-- Every project of a tidy graph disregards all new outputs. -/
theorem Graph.Tidy.disregards {g : Graph} {fs : MemoryFs} {roots : List Path} (h : g.Tidy fs roots)
    {i j : Nat} (hi : i < g.size) (hj : j < g.size) {q : Path}
    (hq : q ∈ (g.node j).expectedOutputs) (hnew : FileSystem.isFile fs q = false) :
    (g.node i).Disregards q := by
  by_cases hij : i = j
  · subst hij
    rcases h.own i hi with hbeside | hapart | hother
    · exact hbeside.disregards hq
    · exact hapart.disregards hq
    · exact hother q hq hnew
  · exact h.others i hi j hj hij q hq hnew

/-! ## The graph after a build -/

/-- What a graph's builds write are the records and outputs of its projects. -/
theorem Graph.mem_products {g : Graph} {q : Path} (h : q ∈ g.products) :
    ∃ j < g.size, q = (g.node j).recordPath ∨ q ∈ (g.node j).expectedOutputs := by
  obtain ⟨p, hp, hq⟩ := List.mem_flatMap.mp h
  obtain ⟨j, hj, rfl⟩ := List.mem_iff_getElem.mp hp
  refine ⟨j, hj, ?_⟩
  rw [Graph.node_eq hj, or_comm]
  exact (List.mem_append.mp hq).imp_right List.mem_singleton.mp

/-- What builds write is no source, or a declaration. -/
theorem Graph.product_source {g : Graph} {q : Path} (h : q ∈ g.products) :
    q.isSource = false ∨ q.isDeclaration = true := by
  obtain ⟨j, -, rfl | hq⟩ := g.mem_products h
  · exact Or.inl (Project.isSource_recordPath _)
  · exact (Project.output_cases hq).imp_right fun h => h.1

/-- **The files are alike for every project** after the products of a tidy graph
    have been written. -/
theorem Graph.Tidy.alike {g : Graph} {fs : MemoryFs} {roots : List Path} (h : g.Tidy fs roots)
    (hsorted : fs.files.Sorted) {fs' : MemoryFs} (hgrown : fs.Grown fs' g.products) {i : Nat}
    (hi : i < g.size) {p : Project} {d : Bool} (hnode : g.node i = { p with declaration := d })
    (hp : p.LoadedFrom fs) : p.Alike fs fs' := by
  have hmem : { p with declaration := d } ∈ g.nodes := hnode ▸ Graph.node_mem hi
  have hplace : ∀ q ∈ g.products, ∀ place ∈ p.configPath ::
      (p.config.references.getD []).map (fun reference =>
        Path.absolutize p.configDir ⟨reference.path⟩), q.same place = false := by
    intro q hq place hplace
    exact h.lookups q hq place
      (List.mem_append_right _ (List.mem_flatMap.mpr ⟨_, hmem, hplace⟩))
  have hconfig : ∀ q ∈ g.products, q.same p.configPath = false :=
    fun q hq => hplace q hq _ List.mem_cons_self
  have hreferences : ∀ reference ∈ p.config.references.getD [], ∀ q ∈ g.products,
      q.same (Path.absolutize p.configDir ⟨reference.path⟩) = false ∧
        q.same ((Path.absolutize p.configDir ⟨reference.path⟩).join ⟨configFileName⟩) = false := by
    intro reference hreference q hq
    obtain ⟨j, -, hproduct⟩ := g.mem_products hq
    exact ⟨hplace q hq _ (List.mem_cons_of_mem _ (List.mem_map_of_mem hreference)),
      Project.config_ne_product hproduct _⟩
  refine hp.alike hgrown hsorted (fun q => Graph.product_source) hconfig hreferences
    fun q hq hnew hfinds => ?_
  -- of the products, a project can find outputs only, and those it disregards
  obtain ⟨j, hj, rfl | hout⟩ := g.mem_products hq
  · exact nomatch (Project.isSource_recordPath _).symm.trans (Project.finds_spec hfinds).1
  · have hdisregards := h.disregards hi hj hout hnew
    rw [hnode] at hdisregards
    exact hdisregards hfinds

/-- **Loading is stable under what a build writes.**  However often and in whatever
    order outputs and records of a tidy graph are written, the graph that is
    loaded from the files is the same, and no file that was generated has become
    an input. -/
theorem loadGraph_stable {fs : MemoryFs} (hfs : fs.Reachable) {roots : List Path} {g : Graph}
    (hload : (loadGraph fs roots).value = .ok g) (htidy : g.Tidy fs roots) {es : List Edit}
    (hes : ∀ e ∈ es, ∃ q ∈ g.products, ∃ content, e = .write q content) :
    (loadGraph (fs.edits es) roots).value = .ok g ∧
      ∀ q ∈ g.products, FileSystem.isFile fs q = false →
        ∀ p ∈ g.nodes, ∀ input ∈ p.inputs, input.same q = false := by
  have hgrown := (MemoryFs.Grown.refl hfs.sorted g.products).edits hes
  constructor
  · obtain ⟨indices, s, hvisit, hnodes⟩ := loadGraph_nodes hload
    have hsound := Closure.visitRoots_sound fs roots
    rw [hvisit] at hsound
    have halike : ∀ p ∈ s.nodes, p.Alike fs (fs.edits es) := by
      intro p hp
      obtain ⟨i, hi, rfl⟩ := List.mem_iff_getElem.mp hp
      obtain ⟨d, hd⟩ :=
        Closure.getElem?_withDeclarations s.edges (List.getElem?_eq_getElem hi)
      rw [← hnodes] at hd
      exact htidy.alike hfs.sorted hgrown (List.getElem?_eq_some_iff.mp hd).1
        (Graph.node_of_getElem? hd) (hsound.loaded _ hp)
    -- no product has the conventional name, nor lies where a root may be
    have hroots : ∀ root ∈ roots,
        Closure.resolveRoot (fs.edits es) root = Closure.resolveRoot fs root := by
      intro root hroot
      have hresolve : resolveConfig? (fs.edits es) root.normalize
          = resolveConfig? fs root.normalize := by
        refine Closure.resolveConfig?_of_file? (hgrown.file _ fun q hq => ?_)
          (hgrown.file _ fun q hq => ?_)
        · exact htidy.lookups q hq _ (List.mem_append_left _ (List.mem_map_of_mem hroot))
        · obtain ⟨j, -, hproduct⟩ := g.mem_products hq
          exact Project.config_ne_product hproduct _
      unfold Closure.resolveRoot
      simp only [hresolve]
    rw [loadGraph_alike (hgrown.fileBound_le hfs.sorted) hroots hvisit halike, hload]
  · intro q _ hnew p hp input hinput
    -- the inputs are files that were there
    obtain ⟨i, hi, rfl⟩ := List.mem_iff_getElem.mp hp
    have hfile :=
      ((loadGraph_sound hload).2 i hi).inputs_ok.1 input (Graph.node_eq hi ▸ hinput)
    rw [Path.same_eq_false_iff]
    intro hsame
    rw [MemoryFs.isFile_eq, ← MemoryFs.file?_congr fs hsame, hfile] at hnew
    exact nomatch hnew

/-- Two projects, of which one emits into a directory of its own and the other,
    which references it, beside its sources. -/
def tidyFiles : MemoryFs :=
  .ofTexts [("/r/core/tsconfig.json",
      "\x7b\"compilerOptions\": \x7b\"composite\": true, \"outDir\": \"lib\"\x7d, \"references\": []\x7d"),
    ("/r/core/a.ts", ""),
    ("/r/app/tsconfig.json",
      "\x7b\"compilerOptions\": \x7b\"declaration\": true\x7d, \"references\": [\x7b\"path\": \"../core\"\x7d]\x7d"),
    ("/r/app/b.ts", "")]

def tidyGraph : Graph :=
  (loadGraph tidyFiles [⟨"/r/app"⟩]).value.toOption.getD {}

/-- A graph that is tidy, with an output that is not there yet. -/
theorem tidyGraph_tidy : (loadGraph tidyFiles [⟨"/r/app"⟩]).value = .ok tidyGraph ∧
    tidyGraph.Tidy tidyFiles [⟨"/r/app"⟩] ∧ ⟨"/r/app/b.d.ts"⟩ ∈ tidyGraph.products ∧
    FileSystem.isFile tidyFiles ⟨"/r/app/b.d.ts"⟩ = false := by
  have hfacts : (loadGraph tidyFiles [⟨"/r/app"⟩]).value.toOption.isSome = true ∧
      tidyGraph.size = 2 ∧
      (∀ q ∈ tidyGraph.products, ∀ place ∈ tidyGraph.lookups [⟨"/r/app"⟩],
        q.same place = false) ∧
      ((tidyGraph.node 0).config.options.outDir = some "lib" ∧
        (tidyGraph.node 0).outDir = Path.absolutize (tidyGraph.node 0).configDir ⟨"lib"⟩ ∧
        Path.isWithin (tidyGraph.node 0).outDir (tidyGraph.node 0).configDir = false ∧
        (tidyGraph.node 0).rootDir.components ≠ []) ∧
      ((tidyGraph.node 1).outDir.same (tidyGraph.node 1).rootDir = true ∧
        ∀ q ∈ (tidyGraph.node 1).inputs, Closure.isGenerated
          (PathSet.ofPaths (tidyGraph.node 1).expectedOutputs) q = false) ∧
      (∀ q ∈ (tidyGraph.node 1).expectedOutputs,
        Path.isWithin (tidyGraph.node 0).configDir q = false) ∧
      (∀ q ∈ (tidyGraph.node 0).expectedOutputs,
        Path.isWithin (tidyGraph.node 1).configDir q = false) ∧
      ⟨"/r/app/b.d.ts"⟩ ∈ tidyGraph.products ∧
      FileSystem.isFile tidyFiles ⟨"/r/app/b.d.ts"⟩ = false := by
    decide +kernel
  obtain ⟨hsome, hsize, hlookups, ⟨hdir, hout, hapart, hroot⟩, ⟨hdirs, hinputs⟩, helse, helse',
    hnew⟩ := hfacts
  have hindex : ∀ i < tidyGraph.size, i = 0 ∨ i = 1 := by
    intro i hi
    omega
  refine ⟨?_, ⟨hlookups, ?_, ?_⟩, hnew⟩
  · unfold tidyGraph
    exact Graph.loaded_of_isSome hsome
  · intro i hi
    rcases hindex i hi with rfl | rfl
    · exact Or.inr (Or.inl ⟨⟨"lib", hdir, hout⟩, hapart, hroot⟩)
    · exact Or.inl ⟨hdirs, hinputs⟩
  · intro i hi j hj hne q hq _
    rcases hindex i hi with rfl | rfl
    · obtain rfl := (hindex j hj).resolve_left (Ne.symm hne)
      exact Project.disregards_elsewhere (helse q hq)
    · obtain rfl := (hindex j hj).resolve_right (Ne.symm hne)
      exact Project.disregards_elsewhere (helse' q hq)

/-- After everything has been written the graph is the same, and the declaration
    beside its source is no input. -/
theorem loadGraph_stable_pair :
    (loadGraph (tidyFiles.edits
        (tidyGraph.products.map fun q => .write q ByteArray.empty)) [⟨"/r/app"⟩]).value
      = .ok tidyGraph ∧
      ∀ p ∈ tidyGraph.nodes, ∀ input ∈ p.inputs, input.same ⟨"/r/app/b.d.ts"⟩ = false := by
  obtain ⟨hload, htidy, hproduct, hnew⟩ := tidyGraph_tidy
  have hes : ∀ e ∈ tidyGraph.products.map fun q => Edit.write q ByteArray.empty,
      ∃ q ∈ tidyGraph.products, ∃ content, e = .write q content := by
    intro e he
    obtain ⟨q, hq, rfl⟩ := List.mem_map.mp he
    exact ⟨q, hq, ByteArray.empty, rfl⟩
  have h := loadGraph_stable (MemoryFs.ofTexts_reachable _) hload htidy hes
  exact ⟨h.1, h.2 _ hproduct hnew⟩

/-- A project that emits into the directory of its configuration, and not beside its
    source. -/
def strayFiles : MemoryFs :=
  .ofTexts [("/r/tsconfig.json",
      "\x7b\"compilerOptions\": \x7b\"composite\": true, \"rootDir\": \"src\", \"outDir\": \".\"\x7d\x7d"),
    ("/r/src/a.ts", "")]

/-- The inputs of the loaded projects. -/
def loadedInputs (fs : MemoryFs) (roots : List Path) : Option (List (List Path)) :=
  (loadGraph fs roots).value.toOption.map fun g => g.nodes.map Project.inputs

/-! The declaration that it emits becomes an input: such a graph is not tidy. -/

example : loadedInputs strayFiles [⟨"/r"⟩] = some [[⟨"/r/src/a.ts"⟩]] ∧
    loadedInputs (strayFiles.put ⟨"/r/a.d.ts"⟩ ByteArray.empty) [⟨"/r"⟩]
      = some [[⟨"/r/a.d.ts"⟩, ⟨"/r/src/a.ts"⟩]] := by
  decide +kernel

end ProjectBuild
