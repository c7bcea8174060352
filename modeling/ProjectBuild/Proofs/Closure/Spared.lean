import ProjectBuild.Proofs.Closure.Restrictions
import ProjectBuild.Proofs.Closure.Stable
import ProjectBuild.Proofs.Resolution

/-! # Loading after files have been removed

    Files can be removed without a change to what is built, as long as they are
    neither configurations nor listed nor sources of their own
    (`Closure.Spares`).  References then lead where they led, so the same can be
    reached.  Projects may lose inputs, and find others whose sources are gone.
    All of these are declarations.  The sources that are compiled stay, and what
    depends on them alone: directories, outputs, and completeness of lists
    (`loadGraph_spared`). -/

namespace ProjectBuild

namespace Closure

/-! ## What is compiled -/

/-- The inputs that are compiled: those that are no declarations. -/
def compiled (inputs : List Path) : List Path :=
  inputs.filter fun file => !file.isDeclaration

/-- The compiled inputs are those that are no declarations. -/
theorem mem_compiled {inputs : List Path} {file : Path} :
    file ∈ compiled inputs ↔ file ∈ inputs ∧ file.isDeclaration = false := by
  unfold compiled
  rw [List.mem_filter, Bool.not_eq_true']

/-- Sources are kept where the compiled inputs are. -/
theorem mem_of_compiled_eq {inputs inputs' : List Path} (h : compiled inputs' = compiled inputs)
    {file : Path} (hfile : file ∈ inputs) (hambient : file.isDeclaration = false) :
    file ∈ inputs' :=
  (mem_compiled.mp (h ▸ mem_compiled.mpr ⟨hfile, hambient⟩)).1

/-- Declarations have no outputs, so the compiled inputs have all of them. -/
theorem flatMap_compiled (p : Project) (inputs : List Path) :
    (compiled inputs).flatMap p.outputsOf = inputs.flatMap p.outputsOf := by
  unfold compiled
  induction inputs with
  | nil => rfl
  | cons input rest ih =>
      rw [List.filter_cons]
      cases hdeclaration : input.isDeclaration with
      | true =>
          rw [Bool.not_true, if_neg Bool.false_ne_true, List.flatMap_cons,
            Project.outputsOf_declaration hdeclaration, List.nil_append, ih]
      | false => rw [Bool.not_false, if_pos rfl, List.flatMap_cons, List.flatMap_cons, ih]

/-- **Products depend on what is compiled** and on no other inputs. -/
theorem products_compiled {p : Project} {inputs : List Path}
    (h : compiled inputs = compiled p.inputs) :
    { p with inputs := inputs }.products = p.products := by
  have houtputs : { p with inputs := inputs }.expectedOutputs = p.expectedOutputs := by
    show Path.dedupSorted (Path.sort (inputs.flatMap p.outputsOf)) = _
    rw [← flatMap_compiled, h, flatMap_compiled]
    rfl
  unfold Project.products
  rw [houtputs]
  rfl

/-- A project with other declarations among its inputs. -/
theorem arrange_compiled (loaded : LoadedConfig) (references : List Path)
    {inputs inputs' : List Path} (h : compiled inputs' = compiled inputs) :
    arrange loaded references inputs' = { arrange loaded references inputs with inputs := inputs' } ∧
      (outsider? (arrange loaded references inputs) = none →
        outsider? (arrange loaded references inputs') = none) := by
  have hroot : ∀ dir, rootDir dir loaded.config inputs' = rootDir dir loaded.config inputs := by
    intro dir
    unfold rootDir
    rw [show inputs'.filter (fun file => !file.isDeclaration)
      = inputs.filter fun file => !file.isDeclaration from h]
  have harrange : arrange loaded references inputs'
      = { arrange loaded references inputs with inputs := inputs' } := by
    unfold arrange
    simp only [hroot]
  refine ⟨harrange, fun hnone => List.find?_eq_none.mpr fun file hfile => ?_⟩
  rw [harrange] at hfile ⊢
  intro hout
  have hambient := (Bool.and_eq_true_iff.mp hout).1
  rw [Bool.not_eq_true'] at hambient
  exact List.find?_eq_none.mp hnone file (mem_of_compiled_eq h.symm hfile hambient) hout

/-! ## Inputs -/

section inputs

variable {fs fs' : MemoryFs} {gone : List Path} (hgrown : fs'.Grown fs gone)
  (hgone : ∀ q ∈ gone, q.isSource = false ∨ q.isDeclaration = true)
include hgrown hgone

/-- A source that is compiled is still there if it was found under a rule. -/
theorem isFile_of_finds {rule : InputRule} {file : Path} (hkey : file ∈ fs.files.keys)
    (hfinds : rule.finds file = true) (hambient : file.isDeclaration = false) :
    FileSystem.isFile fs' file = true := by
  by_contra hnone
  unfold InputRule.finds InputRule.selects at hfinds
  simp only [Bool.and_eq_true] at hfinds
  have hsource := hfinds.2.1.1.1
  rcases hgone file (hgrown.fresh file hkey (Bool.not_eq_true _ ▸ hnone)) with h | h
  · rw [h] at hsource
    cases hsource
  · rw [h] at hambient
    cases hambient

/-- **What is compiled stays** when files are removed that are neither listed nor
    sources of their own. -/
theorem inputs_spared (hsorted : fs'.files.Sorted) {configDir : Path} {config : ProjectConfig}
    {outDir : Option Path} {found : List Path} (h : (inputs fs configDir config outDir).value = .ok found)
    (hlists : ∀ name ∈ config.files.getD [],
      FileSystem.isFile fs' (Path.absolutize configDir ⟨name⟩) = true) :
    ∃ found', (inputs fs' configDir config outDir).value = .ok found' ∧
      compiled found' = compiled found := by
  obtain ⟨-, selected, hselected, rfl⟩ := inputs_split h
  generalize hlisted :
    (config.files.getD []).map (fun file => Path.absolutize configDir ⟨file⟩) = listed
  have hold : ∀ q ∈ listed, fs'.files.contains q = true := by
    rintro q hq
    rw [← hlisted] at hq
    obtain ⟨name, hname, rfl⟩ := List.mem_map.mp hq
    exact hlists name hname
  have hmissing : config.missingFile? fs' configDir = none := by
    refine List.find?_eq_none.mpr fun q hq => ?_
    rw [Bool.not_eq_true, Bool.not_eq_false']
    exact hold q (hlisted ▸ hq)
  rw [selectedFiles_value] at hselected
  cases hrule : ruleFor configDir config outDir with
  | error e =>
      rw [hrule] at hselected
      cases hselected
  | ok rule =>
      rw [hrule] at hselected
      obtain rfl := Except.ok.inj hselected
      have hfilter := hgrown.filter_old hsorted fun file => rule.any fun rule => rule.finds file
      refine ⟨withoutGenerated (PathSet.ofPaths (listed ++
        fs'.files.keys.filter fun file => rule.any fun rule => rule.finds file)), ?_, ?_⟩
      · unfold inputs
        simp only [hmissing, selectedFiles_value, hrule, hlisted]
        rfl
      · refine PathMap.eq_of_mem_iff (((PathSet.sorted_ofPaths _).keys.filter _).filter _)
          (((PathSet.sorted_ofPaths _).keys.filter _).filter _) fun q => ?_
        show q ∈ compiled _ ↔ q ∈ compiled _
        rw [mem_compiled, mem_compiled, mem_withoutGenerated, mem_withoutGenerated]
        refine and_congr_left fun hambient => ?_
        -- nothing that is compiled is generated
        have hnot : ∀ files : PathSet, isGenerated files q = false := by
          intro files
          unfold isGenerated
          rw [hambient, Bool.false_and]
        rw [and_iff_left (hnot _), and_iff_left (hnot _)]
        have hcongr : ∀ {p q : Path}, p.components = q.components →
            fs'.files.contains p = fs'.files.contains q := by
          intro p q hpq
          rw [PathMap.contains_eq, PathMap.contains_eq, fs'.files.get?_congr hpq]
        constructor
        · intro hkey
          have hthere : fs'.files.contains q = true := by
            rcases List.mem_append.mp (PathSet.mem_keys_ofPaths hkey) with hq | hq
            · exact hold q hq
            · exact PathMap.contains_of_mem_keys (List.mem_filter.mp hq).1
          exact (mem_keys_found hfilter hcongr hthere).mpr hkey
        · intro hkey
          have hthere : fs'.files.contains q = true := by
            rcases List.mem_append.mp (PathSet.mem_keys_ofPaths hkey) with hq | hq
            · exact hold q hq
            · obtain ⟨hstored, hfinds⟩ := List.mem_filter.mp hq
              obtain ⟨rule, rfl, hfinds⟩ := (Option.any_eq_true _ _).mp hfinds
              exact isFile_of_finds hgrown hgone hstored hfinds hambient
          exact (mem_keys_found hfilter hcongr hthere).mp hkey

end inputs

/-! ## References -/

/-- No configuration that can be reached is removed from files. -/
structure Keeps (fs fs' : MemoryFs) (roots gone : List Path) : Prop where
  grown : fs'.Grown fs gone
  config : ∀ q ∈ gone, ∀ p, Reachable fs roots p → q.same p = false

namespace Keeps

variable {fs fs' : MemoryFs} {roots gone : List Path} (h : Keeps fs fs' roots gone)
include h

/-- A file that is not gone is still there. -/
theorem isFile {q : Path} (hq : ∀ p ∈ gone, p.same q = false)
    (hthere : FileSystem.isFile fs q = true) : FileSystem.isFile fs' q = true := by
  rwa [MemoryFs.isFile_eq, ← h.grown.file q hq, ← MemoryFs.isFile_eq]

/-- Configurations that are reachable are read as before. -/
theorem read {p : Path} (hp : Reachable fs roots p) :
    LoadedConfig.read fs' p = LoadedConfig.read fs p :=
  read_of_file? (h.grown.file p fun q hq => h.config q hq p hp).symm

/-- A configuration that can be reached is found where it was found, and none is
    found where there was none. -/
theorem resolveConfig? {candidate : Path}
    (hreached : ∀ p, ProjectBuild.resolveConfig? fs candidate = some p → Reachable fs roots p) :
    ProjectBuild.resolveConfig? fs' candidate = ProjectBuild.resolveConfig? fs candidate := by
  have hback : ∀ {q : Path}, FileSystem.isFile fs q = false → FileSystem.isFile fs' q = false := by
    intro q hq
    rw [← Bool.not_eq_true] at hq ⊢
    exact fun hthere => hq (h.grown.isFile hthere)
  have hstays : ∀ {q : Path}, Reachable fs roots q → FileSystem.isFile fs q = true →
      FileSystem.isFile fs' q = true :=
    fun hq hthere => h.isFile (fun p hp => h.config p hp _ hq) hthere
  unfold ProjectBuild.resolveConfig? at hreached ⊢
  cases hcandidate : FileSystem.isFile fs candidate with
  | true =>
      have hthere := hstays (hreached candidate (if_pos hcandidate)) hcandidate
      rw [if_pos hthere, if_pos rfl]
  | false =>
      rw [if_neg (Bool.eq_false_iff.mp hcandidate)] at hreached
      rw [if_neg (Bool.eq_false_iff.mp (hback hcandidate)), if_neg Bool.false_ne_true]
      cases hnamed : FileSystem.isFile fs (candidate.join ⟨configFileName⟩) with
      | true =>
          have hthere := hstays (hreached _ (if_pos hnamed)) hnamed
          simp only [hthere, hnamed]
      | false => simp only [hback hnamed, hnamed]

/-- Roots stand for the same configurations as before. -/
theorem resolveRoot {root : Path} (hroot : root ∈ roots) :
    Closure.resolveRoot fs' root = Closure.resolveRoot fs root := by
  unfold Closure.resolveRoot
  simp only
  rw [h.resolveConfig? fun p hp => ⟨root, hroot, p, resolveRoot_eq_ok.mpr hp, .refl⟩]

theorem target? {p : Path} (hp : Reachable fs roots p) {loaded : LoadedConfig}
    (hread : (LoadedConfig.read fs p).value = .ok loaded) {reference : ProjectReference}
    (hreference : reference ∈ loaded.config.references.getD []) :
    Closure.target? fs' loaded reference = Closure.target? fs loaded reference :=
  h.resolveConfig? fun _ hq => hp.mentions ⟨loaded, hread, reference, hreference, hq⟩

/-- Reachable configurations mention what they did before. -/
theorem mentions_iff {p q : Path} (hp : Reachable fs roots p) :
    Mentions fs' p q ↔ Mentions fs p q := by
  unfold Mentions
  rw [h.read hp]
  refine exists_congr fun loaded => and_congr_right fun hread => exists_congr fun reference =>
    and_congr_right fun hreference => ?_
  rw [h.target? hp hread hreference]

/-- Chains of references are the same, from what can be reached. -/
theorem reflTransGen_iff {p q : Path} (hp : Reachable fs roots p) :
    Relation.ReflTransGen (Mentions fs') p q ↔ Relation.ReflTransGen (Mentions fs) p q := by
  constructor
  · intro hchain
    induction hchain with
    | refl => exact .refl
    | tail _ hmentions ih =>
        obtain ⟨root, hroot, start, hstart, hto⟩ := hp
        have hreached := (⟨root, hroot, start, hstart, hto.trans ih⟩ : Reachable fs roots _)
        exact ih.tail ((h.mentions_iff hreached).mp hmentions)
  · intro hchain
    induction hchain with
    | refl => exact .refl
    | tail hbefore hmentions ih =>
        obtain ⟨root, hroot, start, hstart, hto⟩ := hp
        have hreached := (⟨root, hroot, start, hstart, hto.trans hbefore⟩ : Reachable fs roots _)
        exact ih.tail ((h.mentions_iff hreached).mpr hmentions)

/-- **The same can be reached.** -/
theorem reachable_iff {p : Path} : Reachable fs' roots p ↔ Reachable fs roots p := by
  have hstart : ∀ {root start : Path}, root ∈ roots → Closure.resolveRoot fs root = .ok start →
      Reachable fs roots start := fun hroot hstart => ⟨_, hroot, _, hstart, .refl⟩
  constructor
  · rintro ⟨root, hroot, start, hstarts, hchain⟩
    rw [h.resolveRoot hroot] at hstarts
    exact ⟨root, hroot, start, hstarts,
      (h.reflTransGen_iff (hstart hroot hstarts)).mp hchain⟩
  · rintro ⟨root, hroot, start, hstarts, hchain⟩
    refine ⟨root, hroot, start, (h.resolveRoot hroot).trans hstarts, ?_⟩
    exact (h.reflTransGen_iff (hstart hroot hstarts)).mpr hchain

/-- The same projects are referenced as before. -/
theorem referenced_iff {p : Path} : Referenced fs' roots p ↔ Referenced fs roots p := by
  unfold Referenced
  refine exists_congr fun q => ?_
  rw [h.reachable_iff]
  exact and_congr_right fun hq => h.mentions_iff hq

/-- Where loading is possible afterwards, all that is listed is still there. -/
theorem isFile_listed {g : Graph} (hg : (loadGraph fs' roots).value = .ok g) {p : Path}
    (hp : Reachable fs roots p) {loaded : LoadedConfig}
    (hread : (LoadedConfig.read fs p).value = .ok loaded) {name : String}
    (hname : name ∈ loaded.config.files.getD []) :
    FileSystem.isFile fs' (Path.absolutize loaded.path.dir ⟨name⟩) = true := by
  obtain ⟨indices, s, hvisit, -⟩ := loadGraph_eq_ok.mp hg
  obtain ⟨loaded', targets, node, hread', -, hproject⟩ :=
    (visitRoots_loadable hvisit).loads p (h.reachable_iff.mpr hp)
  rw [h.read hp] at hread'
  obtain rfl := Except.ok.inj (hread.symm.trans hread')
  obtain ⟨found, hfound, -⟩ := project_ok hproject
  exact isFile_of_listed hfound hname

end Keeps

/-! ## Projects -/

/-- What is removed from files is neither a configuration that can be reached, nor
    listed by one, nor a source of its own. -/
structure Spares (fs fs' : MemoryFs) (roots gone : List Path) : Prop
    extends Keeps fs fs' roots gone where
  sorted : fs'.files.Sorted
  source : ∀ q ∈ gone, q.isSource = false ∨ q.isDeclaration = true
  listed : ∀ q ∈ gone, ∀ p loaded, Reachable fs roots p →
    (LoadedConfig.read fs p).value = .ok loaded → ∀ name ∈ loaded.config.files.getD [],
      q.same (Path.absolutize loaded.path.dir ⟨name⟩) = false

namespace Spares

variable {fs fs' : MemoryFs} {roots gone : List Path} (h : Spares fs fs' roots gone)
include h

/-- **A project loads again**, with the same sources to compile. -/
theorem load {p : Path} (hp : Reachable fs roots p) {node : Project}
    (hload : Closure.load fs p = .ok node) :
    ∃ inputs, Closure.load fs' p = .ok { node with inputs := inputs } ∧
      compiled inputs = compiled node.inputs := by
  obtain ⟨loaded, targets, hread, htargets, hproject⟩ := load_eq_ok.mp hload
  obtain ⟨found, hfound, hinside, rfl⟩ := project_ok hproject
  have hlists : ∀ name ∈ loaded.config.files.getD [],
      FileSystem.isFile fs' (Path.absolutize loaded.path.dir ⟨name⟩) = true := by
    intro name hname
    exact h.isFile (fun q hq => h.listed q hq p loaded hp hread name hname)
      (isFile_of_listed hfound hname)
  obtain ⟨found', hfound', hcompiled⟩ := inputs_spared h.grown h.source h.sorted hfound hlists
  obtain ⟨harrange, hinside'⟩ := arrange_compiled loaded targets hcompiled
  refine ⟨found', ?_, hcompiled⟩
  rw [← harrange]
  refine load_eq_ok.mpr ⟨loaded, targets, ?_, ?_, ?_⟩
  · rw [h.read hp]
    exact hread
  · rw [← htargets]
    exact resolveReferences_congr fun reference hreference => h.target? hp hread hreference
  · unfold project
    simp only [hfound', Except.bind, hinside' hinside]

/-- What a list lacks when files are gone, it lacked before. -/
theorem omits {dirs dirs' inputs : List Path} (hdirs : ∀ dir, dir ∈ dirs' ↔ dir ∈ dirs)
    {p : Project} (hcompiled : compiled inputs = compiled p.inputs) {file : Path}
    (homits : Omits fs' dirs' { p with inputs := inputs } file) : Omits fs dirs p file := by
  refine ⟨?_, homits.below, homits.source, fun input hinput => ?_, homits.noOutput,
    fun dir hdir => homits.own dir ?_, homits.included⟩
  · have hthere := PathMap.contains_of_mem_keys homits.stored
    exact (h.grown.keys file hthere).mpr homits.stored
  · -- an input that is the same is compiled
    cases hsame : file.same input with
    | false => rfl
    | true =>
        have hambient : input.isDeclaration = false := by
          rw [← Path.isDeclaration_congr (Path.same_iff.mp hsame)]
          exact homits.source.2
        rw [homits.unlisted input (mem_of_compiled_eq hcompiled hinput hambient)] at hsame
        cases hsame
  · unfold nestedDirs at hdir ⊢
    rw [List.mem_filter] at hdir ⊢
    exact ⟨(hdirs dir).mpr hdir.1, hdir.2⟩

/-- A project that breaks no restriction breaks none with files gone. -/
theorem violation? {dirs dirs' inputs : List Path} (hdirs : ∀ dir, dir ∈ dirs' ↔ dir ∈ dirs)
    {p : Project} (hcompiled : compiled inputs = compiled p.inputs)
    (hnone : (Closure.violation? fs p dirs).value = none) :
    (Closure.violation? fs' { p with inputs := inputs } dirs').value = none := by
  rw [violation?_eq_none] at hnone ⊢
  obtain ⟨henabled, hreferences, hfiles⟩ := hnone
  refine ⟨henabled, hreferences, fun hlists => ?_⟩
  obtain ⟨hexcluded, hcomplete⟩ := hfiles hlists
  exact ⟨hexcluded, fun file homits => hcomplete file (h.omits hdirs hcompiled homits)⟩

/-- Loading is still possible. -/
theorem loadable (hloadable : Loadable fs roots) : Loadable fs' roots := by
  refine ⟨fun root hroot => ?_, fun p hp => ?_, ?_⟩
  · rw [h.resolveRoot hroot]
    exact hloadable.resolved root hroot
  · have hp' := h.reachable_iff.mp hp
    obtain ⟨loaded, targets, node, hnode⟩ := hloadable.loads p hp'
    obtain ⟨inputs, hload, -⟩ := h.load hp' (load_eq_ok.mpr ⟨loaded, targets, hnode⟩)
    exact loads_of_load (by rw [hload]; rfl)
  · rintro ⟨p, q, hp, hchain, hsame⟩
    have hp' := h.reachable_iff.mp hp
    obtain ⟨r, hmentions, hrest⟩ := Relation.TransGen.head'_iff.mp hchain
    have hmentions' := (h.mentions_iff hp').mp hmentions
    have hrest' := (h.reflTransGen_iff (hp'.mentions hmentions')).mp hrest
    exact hloadable.acyclic ⟨p, q, hp', .head' hmentions' hrest', hsame⟩

/-- Declarations are on in the same projects. -/
theorem products_declared {node : Project} {inputs : List Path}
    (hcompiled : compiled inputs = compiled node.inputs) :
    (declared fs' roots { node with inputs := inputs }).products
      = (declared fs roots node).products := by
  have hreferenced : Referenced fs' roots node.configPath ↔ Referenced fs roots node.configPath :=
    h.referenced_iff
  unfold declared
  by_cases hnode : Referenced fs roots node.configPath
  · rw [if_pos hnode, if_pos (hreferenced.mpr hnode)]
    exact products_compiled (p := { node with declaration := true }) hcompiled
  · rw [if_neg hnode, if_neg fun h => hnode (hreferenced.mp h)]
    exact products_compiled hcompiled

end Spares

end Closure

/-- **A graph loads again** when files are removed that it can spare, and its
    projects have no products that they had not before. -/
theorem loadGraph_spared {fs fs' : MemoryFs} {roots gone : List Path} {g : Graph}
    (hg : (loadGraph fs roots).value = .ok g) (h : Closure.Spares fs fs' roots gone) :
    ∃ g', (loadGraph fs' roots).value = .ok g' ∧ ∀ q ∈ g'.products, q ∈ g.products := by
  obtain ⟨indices, s, hvisit, hviolation, rfl⟩ := loadGraph_eq_ok.mp hg
  obtain ⟨indices', s', hvisit'⟩ := (h.loadable (Closure.visitRoots_loadable hvisit)).visitRoots
  have hwhole := Closure.visitRoots_whole hvisit
  have hwhole' := Closure.visitRoots_whole hvisit'
  rw [hwhole.firstViolation?_eq_none] at hviolation
  -- every project is one that there was, with other declarations among its inputs
  have hnode : ∀ node' ∈ s'.nodes, ∃ node ∈ s.nodes, ∃ inputs,
      node' = { node with inputs := inputs } ∧
        Closure.compiled inputs = Closure.compiled node.inputs := by
    intro node' hmem
    obtain ⟨hreachable, hload'⟩ := (hwhole'.mem_nodes node').mp hmem
    obtain ⟨node, hnode, hpath⟩ := hwhole.complete _ (h.reachable_iff.mp hreachable)
    obtain ⟨hreachable, hload⟩ := (hwhole.mem_nodes node).mp hnode
    obtain ⟨inputs, hagain, hcompiled⟩ := h.load hreachable hload
    rw [← hpath] at hload'
    exact ⟨node, hnode, inputs, Except.ok.inj (hload'.symm.trans hagain), hcompiled⟩
  have hdirs : ∀ dir, dir ∈ s'.nodes.map Project.configDir ↔
      dir ∈ s.nodes.map Project.configDir := by
    intro dir
    rw [hwhole.mem_dirs, hwhole'.mem_dirs]
    exact exists_congr fun q => and_congr_left fun _ => h.reachable_iff
  refine ⟨_, loadGraph_eq_ok.mpr ⟨indices', s', hvisit', ?_, rfl⟩, fun q hq => ?_⟩
  · rw [hwhole'.firstViolation?_eq_none]
    intro node' hmem hreferenced
    obtain ⟨node, hnode, inputs, rfl, hcompiled⟩ := hnode node' hmem
    exact h.violation? hdirs hcompiled (hviolation node hnode (h.referenced_iff.mp hreferenced))
  · obtain ⟨p', hp', hq⟩ := List.mem_flatMap.mp hq
    rw [hwhole'.withDeclarations_eq] at hp'
    obtain ⟨node', hmem, rfl⟩ := List.mem_map.mp hp'
    obtain ⟨node, hnode, inputs, rfl, hcompiled⟩ := hnode node' hmem
    rw [h.products_declared hcompiled] at hq
    refine List.mem_flatMap.mpr ⟨_, ?_, hq⟩
    rw [hwhole.withDeclarations_eq]
    exact List.mem_map_of_mem hnode

end ProjectBuild
