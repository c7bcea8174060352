import ProjectBuild.Proofs.Closure.Selection
import ProjectBuild.Proofs.Closure.Spared

/-! # What cleaning removes

    Cleaning goes through the products of all projects and removes those that
    exist.  A product that two projects share is gone when its turn comes again,
    so it is listed once (`clean_removes`).

    No source that is compiled is ever a product.  A declaration can be one and
    an input nevertheless, and then it is removed (`clean_spares`): a project
    that lists a file asks for it even if another one, or it itself, emits it. -/

namespace ProjectBuild

/-! ## Removing -/

/-- The files that are removed, of those that are to be: all that exist, and none
    of them twice. -/
structure Removes (fs : MemoryFs) (paths removed : List Path) : Prop where
  exists_product : ∀ r ∈ removed, r ∈ paths ∧ FileSystem.isFile fs r = true
  complete : ∀ q ∈ paths, FileSystem.isFile fs q = true → ∃ r ∈ removed, r.same q = true
  distinct : removed.Pairwise fun p q => p.components ≠ q.components

/-- After a removal the other files are there. -/
theorem isFile_remove {fs : MemoryFs} {p q : Path} :
    FileSystem.isFile (fs.edit (.remove p)) q = true ↔
      p.same q = false ∧ FileSystem.isFile fs q = true := by
  rw [MemoryFs.isFile_eq, MemoryFs.isFile_eq, MemoryFs.file?_remove, Path.same_eq_false_iff]
  by_cases h : p.components = q.components
  · rw [if_pos h]
    exact iff_of_false Bool.false_ne_true fun hne => hne.1 h
  · rw [if_neg h]
    exact (and_iff_right h).symm

/-- One more path to remove, in front: it is listed if it exists, and is gone when
    the others have their turn. -/
theorem Removes.cons {fs : MemoryFs} {path : Path} {rest removed : List Path}
    (h : Removes (fs.edit (.remove path)) rest removed) :
    Removes fs (path :: rest)
      ((if FileSystem.isFile fs path = true then [path] else []) ++ removed) := by
  have hthere : ∀ r ∈ removed, path.same r = false ∧ FileSystem.isFile fs r = true :=
    fun r hr => isFile_remove.mp (h.exists_product r hr).2
  refine ⟨fun r hr => ?_, fun q hq hfile => ?_, ?_⟩
  · rcases List.mem_append.mp hr with hr | hr
    · split at hr
      · rename_i hfile
        obtain rfl := List.mem_singleton.mp hr
        exact ⟨List.mem_cons_self, hfile⟩
      · cases hr
    · exact ⟨List.mem_cons_of_mem path (h.exists_product r hr).1, (hthere r hr).2⟩
  · cases hsame : path.same q with
    | true =>
        -- another spelling of the path names the same file
        have hpath : FileSystem.isFile fs path = true :=
          MemoryFs.isFile_of_same (Path.same_iff.mpr (Path.same_iff.mp hsame).symm) hfile
        rw [if_pos hpath]
        exact ⟨path, List.mem_cons_self, hsame⟩
    | false =>
        have hne : q ≠ path := by
          rintro rfl
          exact Path.same_eq_false_iff.mp hsame rfl
        obtain ⟨r, hr, hrq⟩ := h.complete q ((List.mem_cons.mp hq).resolve_left hne)
          (isFile_remove.mpr ⟨hsame, hfile⟩)
        exact ⟨r, List.mem_append_right _ hr, hrq⟩
  · refine List.pairwise_append.mpr ⟨?_, h.distinct, fun p hp r hr => ?_⟩
    · split
      · exact List.pairwise_singleton _ _
      · exact List.Pairwise.nil
    · split at hp
      · rw [List.mem_singleton.mp hp]
        exact Path.same_eq_false_iff.mp (hthere r hr).1
      · cases hp

/-- **Removing files one after the other** never fails in memory, and lists what it
    removes. -/
theorem removeEach_memory (paths : List Path) (fs : MemoryFs) (before : List Path) :
    ∃ removed, removeEach fs before paths
        = (.ok (before ++ removed), fs.edits (paths.map .remove)) ∧
      Removes fs paths removed := by
  induction paths generalizing fs before with
  | nil =>
      refine ⟨[], ?_, ⟨fun _ h => (by cases h), fun _ h => (by cases h), List.Pairwise.nil⟩⟩
      rw [List.append_nil]
      rfl
  | cons path rest ih =>
      obtain ⟨removed, hremoved, hspec⟩ := ih (fs.edit (.remove path))
        (if FileSystem.isFile fs path = true then before ++ [path] else before)
      refine ⟨_, ?_, hspec.cons⟩
      refine hremoved.trans ?_
      show (Except.ok _, _) = (Except.ok _, (fs.edit (.remove path)).edits (rest.map .remove))
      cases FileSystem.isFile fs path with
      | true => rw [if_pos rfl, if_pos rfl, List.append_assoc]
      | false => rw [if_neg Bool.false_ne_true, if_neg Bool.false_ne_true, List.nil_append]

/-! ## Cleaning -/

/-- The products of a graph in the order in which they are removed. -/
def Graph.targets (g : Graph) : List Path :=
  g.topologicalOrder.flatMap fun i => (g.node i).products

/-- **Cleaning aims at all that builds write**, and at nothing else. -/
theorem Graph.mem_targets {g : Graph} (hg : g.WellFormed) {q : Path} :
    q ∈ g.targets ↔ q ∈ g.products := by
  unfold targets products
  simp only [List.mem_flatMap, mem_topologicalOrder hg]
  constructor
  · rintro ⟨i, hi, hq⟩
    exact ⟨_, Graph.node_mem hi, hq⟩
  · rintro ⟨p, hp, hq⟩
    obtain ⟨i, hi, rfl⟩ := List.mem_iff_getElem.mp hp
    exact ⟨i, hi, (Graph.node_eq hi).symm ▸ hq⟩

/-- What cleaning a graph that is loaded comes to. -/
theorem clean_value {fs : MemoryFs} {roots : List Path} {g : Graph}
    (hg : (loadGraph fs roots).value = .ok g) :
    ∃ removed, (clean fs roots).value
        = (.ok (Path.sort removed), fs.edits (g.targets.map .remove)) ∧
      Removes fs g.targets removed := by
  obtain ⟨removed, hremoved, hspec⟩ := removeEach_memory g.targets fs []
  refine ⟨removed, ?_, hspec⟩
  unfold clean
  simp only [hg]
  unfold cleanGraph
  rw [show removeEach fs [] (g.topologicalOrder.flatMap fun i => (g.node i).products) = _ from
    hremoved]
  rfl

/-- Cleaning what cannot be loaded removes nothing. -/
theorem clean_error {fs : MemoryFs} {roots : List Path} {e : Error}
    (he : (loadGraph fs roots).value = .error e) : (clean fs roots).value = (.error e, fs) := by
  unfold clean
  simp only [he]

/-- **Cleaning removes what builds produce, and nothing else.**  It succeeds on
    what can be loaded.  The files that it lists ascend, and they are those
    products that existed.  Afterwards no product exists, and all else is as it
    was; and where loading fails, so is everything. -/
theorem clean_removes (fs : MemoryFs) (roots : List Path) :
    (∀ g, (loadGraph fs roots).value = .ok g → ∃ removed fs',
      (clean fs roots).value = (.ok removed, fs') ∧
        removed.Pairwise (fun p q => Path.compare p q = .lt) ∧
        (∀ r ∈ removed, r ∈ g.products ∧ FileSystem.isFile fs r = true) ∧
        (∀ q ∈ g.products, FileSystem.isFile fs q = true → ∃ r ∈ removed, r.same q = true) ∧
        ∀ q, ((∃ p ∈ g.products, p.same q = true) → fs'.file? q = none) ∧
          ((∀ p ∈ g.products, p.same q = false) → fs'.file? q = fs.file? q)) ∧
    ∀ e, (loadGraph fs roots).value = .error e → (clean fs roots).value = (.error e, fs) := by
  constructor
  · intro g hg
    have htargets := fun q => Graph.mem_targets (loadGraph_wellFormed hg) (q := q)
    obtain ⟨removed, hclean, hspec⟩ := clean_value hg
    refine ⟨_, _, hclean, Path.ascending_sort hspec.distinct, fun r hr => ?_, fun q hq hfile => ?_,
      fun q => ⟨?_, fun hnone => ?_⟩⟩
    · obtain ⟨hr, hfile⟩ := hspec.exists_product r (Path.mem_sort.mp hr)
      exact ⟨(htargets r).mp hr, hfile⟩
    · obtain ⟨r, hr, hsame⟩ := hspec.complete q ((htargets q).mpr hq) hfile
      exact ⟨r, Path.mem_sort.mpr hr, hsame⟩
    · rintro ⟨p, hp, hsame⟩
      rw [MemoryFs.file?_removes]
      exact if_pos (List.any_eq_true.mpr ⟨p, (htargets p).mpr hp, hsame⟩)
    · rw [MemoryFs.file?_removes]
      refine if_neg fun hany => ?_
      obtain ⟨p, hp, hsame⟩ := List.any_eq_true.mp hany
      rw [hnone p ((htargets p).mp hp)] at hsame
      cases hsame
  · exact fun e he => clean_error he

/-- Two projects with an output in common, which exists, beside a file of neither. -/
def commonFiles : MemoryFs :=
  .ofTexts [("/p/a/tsconfig.json",
      "\x7b\"compilerOptions\": \x7b\"outDir\": \"../out\"\x7d, \"files\": [\"x.ts\"]\x7d"),
    ("/p/a/x.ts", ""),
    ("/p/b/tsconfig.json",
      "\x7b\"compilerOptions\": \x7b\"outDir\": \"../out\"\x7d, \"files\": [\"x.ts\"]\x7d"),
    ("/p/b/x.ts", ""), ("/p/out/x.js", ""), ("/p/out/y.js", "")]

def commonGraph : Graph :=
  (loadGraph commonFiles [⟨"/p/a"⟩, ⟨"/p/b"⟩]).value.toOption.getD {}

/-- The output is listed once, and the other file stays. -/
theorem clean_removes_common :
    (∀ i < 2, ⟨"/p/out/x.js"⟩ ∈ (commonGraph.node i).products) ∧
    ∃ fs', (clean commonFiles [⟨"/p/a"⟩, ⟨"/p/b"⟩]).value = (.ok [⟨"/p/out/x.js"⟩], fs') ∧
      fs'.file? ⟨"/p/out/x.js"⟩ = none ∧
      fs'.file? ⟨"/p/out/y.js"⟩ = commonFiles.file? ⟨"/p/out/y.js"⟩ := by
  have hfacts : (loadGraph commonFiles [⟨"/p/a"⟩, ⟨"/p/b"⟩]).value.toOption.isSome = true ∧
      (∀ i < 2, ⟨"/p/out/x.js"⟩ ∈ (commonGraph.node i).products) ∧
      ⟨"/p/out/x.js"⟩ ∈ commonGraph.products ∧
      (∀ p ∈ commonGraph.products, p.same ⟨"/p/out/y.js"⟩ = false) ∧
      (clean commonFiles [⟨"/p/a"⟩, ⟨"/p/b"⟩]).value.1.toOption = some [⟨"/p/out/x.js"⟩] := by
    decide +kernel
  obtain ⟨hsome, hboth, hproduct, hother, hremoved⟩ := hfacts
  obtain ⟨removed, fs', hclean, -, -, -, hfiles⟩ :=
    (clean_removes commonFiles [⟨"/p/a"⟩, ⟨"/p/b"⟩]).1 commonGraph (Graph.loaded_of_isSome hsome)
  rw [hclean] at hremoved
  obtain rfl := Option.some.inj hremoved
  exact ⟨hboth, fs', hclean, (hfiles ⟨"/p/out/x.js"⟩).1 ⟨_, hproduct, Path.same_iff.mpr rfl⟩,
    (hfiles ⟨"/p/out/y.js"⟩).2 hother⟩

/-! ## Inputs that are removed -/

namespace Project

/-- An input is listed, or the project finds it. -/
theorem LoadedFrom.lists_or_finds {fs : MemoryFs} {p : Project} (h : p.LoadedFrom fs)
    {input : Path} (hinput : input ∈ p.inputs) :
    Closure.Lists p.configDir p.config input ∨ p.finds input = true := by
  obtain ⟨loaded, references, found, declaration, hread, hfound, -, hp⟩ := h.arranged
  obtain ⟨hconfig, hdir⟩ := h.config_eq hread
  obtain ⟨-, selected, hselected, rfl⟩ := Closure.inputs_split hfound
  rw [hp] at hinput
  have hmem := PathSet.mem_keys_ofPaths (Closure.mem_withoutGenerated.mp hinput).1
  unfold finds Closure.finds
  rw [hconfig, hdir]
  rcases List.mem_append.mp hmem with hlisted | hfinds
  · obtain ⟨name, hname, hfile⟩ := List.mem_map.mp hlisted
    exact Or.inl ⟨name, hname, hfile⟩
  · right
    rw [Closure.selectedFiles_value] at hselected
    cases hrule : Closure.ruleFor loaded.path.dir loaded.config
        (loaded.config.options.outDir.map fun dir =>
          Path.absolutize loaded.path.dir ⟨dir⟩) with
    | error e =>
        rw [hrule] at hselected
        cases hselected
    | ok rule =>
        rw [hrule] at hselected
        obtain rfl := Except.ok.inj hselected
        exact (List.mem_filter.mp hfinds).2

/-- No input is a declaration beside another input that is its source. -/
theorem LoadedFrom.not_beside {fs : MemoryFs} {p : Project} (h : p.LoadedFrom fs)
    {input source : Path} (hinput : input ∈ p.inputs) (hdeclaration : input.isDeclaration = true)
    (hsource : source ∈ p.inputs) {kind : SourceKind}
    (hkind : kind ∈ [SourceKind.plain, SourceKind.markup]) {file : Path}
    (hfile : input.replaceExtension? kind.extension = some file) : source.same file = false := by
  obtain ⟨loaded, references, found, declaration, -, hfound, -, hp⟩ := h.arranged
  obtain ⟨-, selected, -, rfl⟩ := Closure.inputs_split hfound
  rw [hp] at hinput hsource
  have hmem := PathSet.mem_keys_ofPaths (Closure.mem_withoutGenerated.mp hsource).1
  have hnot := (Closure.mem_withoutGenerated.mp hinput).2
  rw [← Bool.not_eq_true] at hnot ⊢
  exact fun hsame => hnot (Closure.isGenerated_of_mem hdeclaration hkind hfile hmem hsame)

/-- **What a project emits and finds again** it emits neither beside its sources nor
    apart from its configuration. -/
theorem LoadedFrom.emits_among {fs : MemoryFs} {p : Project} (h : p.LoadedFrom fs)
    {input source output : Path} (hinput : input ∈ p.inputs) (hfinds : p.finds input = true)
    (hsource : source ∈ p.inputs) (hemits : p.declarationFor? source = some output)
    (houtput : output ∈ p.expectedOutputs) (hdeclaration : output.isDeclaration = true)
    (hsame : output.same input = true) :
    p.outDir.same p.rootDir = false ∧ ¬ p.EmitsApart := by
  have hcomponents := Path.same_iff.mp hsame
  constructor
  · rw [← Bool.not_eq_true]
    intro hdirs
    obtain ⟨kind, hkind, file, hfile, hback⟩ := declarationFor?_source hemits hdirs
    obtain ⟨file', hfile', heq⟩ := Path.replaceExtension?_congr hcomponents hfile
    have hambient := (Path.isDeclaration_congr hcomponents).symm.trans hdeclaration
    have hnot := h.not_beside hinput hambient hsource hkind hfile'
    exact Path.same_eq_false_iff.mp hnot (heq.trans hback).symm
  · intro hapart
    obtain ⟨dir, hdir, hout⟩ := hapart.named
    have hnot := (finds_spec hfinds).2.2 dir hdir (hout ▸ hapart.apart)
    have hwithin := Path.isWithin_iff.mp (isWithin_outDir hapart.root houtput)
    rw [hout, hcomponents, ← Path.isWithin_iff] at hwithin
    rw [hwithin] at hnot
    cases hnot

end Project

/-- The files that cleaning removes, under the names that they have. -/
def Graph.gone (g : Graph) (fs : MemoryFs) : List Path :=
  fs.files.keys.filter fun q => g.targets.any fun p => p.same q

/-- A file is the configuration of a project. -/
def Graph.Configures (g : Graph) (file : Path) : Prop :=
  ∃ i < g.size, file.same (g.node i).configPath = true

/-- A file is listed by a project. -/
def Graph.Lists (g : Graph) (file : Path) : Prop :=
  ∃ i < g.size, ∃ listed, Closure.Lists (g.node i).configDir (g.node i).config listed ∧
    file.same listed = true

/-- What can be listed, as read from a configuration that can be reached. -/
theorem Graph.lists_iff {fs : MemoryFs} {roots : List Path} {g : Graph}
    (hg : (loadGraph fs roots).value = .ok g) {file : Path} :
    g.Lists file ↔ ∃ p loaded, Closure.Reachable fs roots p ∧
      (LoadedConfig.read fs p).value = .ok loaded ∧ ∃ name ∈ loaded.config.files.getD [],
        file.same (Path.absolutize loaded.path.dir ⟨name⟩) = true := by
  have hclosure := Graph.isClosure_of_loaded hg
  constructor
  · rintro ⟨i, hi, _, ⟨name, hname, rfl⟩, hsame⟩
    obtain ⟨loaded, references, found, declaration, hread, -⟩ :=
      ((loadGraph_sound hg).2 i hi).arranged
    obtain ⟨hconfig, hdir⟩ := ((loadGraph_sound hg).2 i hi).config_eq hread
    rw [hconfig] at hname
    rw [hdir] at hsame
    exact ⟨_, loaded, hclosure.reachable i hi, hread, name, hname, hsame⟩
  · rintro ⟨p, loaded, hp, hread, name, hname, hsame⟩
    obtain ⟨i, hi, hpath⟩ := hclosure.complete p hp
    obtain rfl := (hclosure.reachable i hi).canonical.eq_of_components hp.canonical
      (Path.same_iff.mp hpath)
    obtain ⟨hconfig, hdir⟩ := ((loadGraph_sound hg).2 i hi).config_eq hread
    rw [← hconfig] at hname
    rw [← hdir] at hsame
    exact ⟨i, hi, _, ⟨name, hname, rfl⟩, hsame⟩

namespace Removes

variable {fs : MemoryFs} {roots : List Path} {g : Graph} {removed : List Path}
  (h : Removes fs g.targets removed)
include h

/-- What is gone was removed, under a name of the same file. -/
theorem mem_gone {q : Path} (hq : q ∈ g.gone fs) : ∃ r ∈ removed, r.components = q.components := by
  obtain ⟨hkey, hany⟩ := List.mem_filter.mp hq
  obtain ⟨p, hp, hsame⟩ := List.any_eq_true.mp hany
  have hfile : FileSystem.isFile fs p = true :=
    MemoryFs.isFile_of_same (Path.same_iff.mpr (Path.same_iff.mp hsame).symm)
      (PathMap.contains_of_mem_keys hkey)
  obtain ⟨r, hr, hrp⟩ := h.complete p hp hfile
  exact ⟨r, hr, (Path.same_iff.mp hrp).trans (Path.same_iff.mp hsame)⟩

/-- Cleaning keeps the configurations, if it removes none. -/
theorem keeps (hfs : fs.Reachable) (hg : (loadGraph fs roots).value = .ok g)
    (hkept : ∀ r ∈ removed, ¬ g.Configures r) :
    Closure.Keeps fs (fs.edits (g.targets.map .remove)) roots (g.gone fs) := by
  have hclosure := Graph.isClosure_of_loaded hg
  refine ⟨.removes hfs.sorted g.targets, fun q hq p hp => ?_⟩
  obtain ⟨r, hr, heq⟩ := h.mem_gone hq
  obtain ⟨i, hi, hpath⟩ := hclosure.complete p hp
  rw [Path.same_eq_false_iff, ← heq, ← Path.same_iff.mp hpath]
  exact fun hsame => hkept r hr ⟨i, hi, Path.same_iff.mpr hsame⟩

/-- Cleaning spares what loading needs, if it removes no configuration and nothing
    that is listed. -/
theorem spares (hfs : fs.Reachable) (hg : (loadGraph fs roots).value = .ok g)
    (hkept : ∀ r ∈ removed, ¬ g.Configures r) (hlisted : ∀ r ∈ removed, ¬ g.Lists r) :
    Closure.Spares fs (fs.edits (g.targets.map .remove)) roots (g.gone fs) := by
  refine ⟨h.keeps hfs hg hkept, (hfs.edits _).sorted, fun q hq => ?_,
    fun q hq p loaded hp hread name hname => ?_⟩
  · obtain ⟨r, hr, heq⟩ := h.mem_gone hq
    rw [← Path.isSource_congr heq, ← Path.isDeclaration_congr heq]
    exact g.product_source
      ((Graph.mem_targets (loadGraph_wellFormed hg)).mp (h.exists_product r hr).1)
  · obtain ⟨r, hr, heq⟩ := h.mem_gone hq
    rw [Path.same_eq_false_iff, ← heq]
    exact fun hsame => hlisted r hr ((Graph.lists_iff hg).mpr
      ⟨p, loaded, hp, hread, name, hname, Path.same_iff.mpr hsame⟩)

/-- Where loading is possible after cleaning, nothing that is listed was removed. -/
theorem not_lists {g' : Graph} (hg : (loadGraph fs roots).value = .ok g)
    (hkeeps : Closure.Keeps fs (fs.edits (g.targets.map .remove)) roots (g.gone fs))
    (hg' : (loadGraph (fs.edits (g.targets.map .remove)) roots).value = .ok g') :
    ∀ r ∈ removed, ¬ g.Lists r := by
  intro r hr hlists
  obtain ⟨p, loaded, hp, hread, name, hname, hsame⟩ := (Graph.lists_iff hg).mp hlists
  have hthere := hkeeps.isFile_listed hg' hp hread hname
  have hany : (g.targets.any fun p => p.same (Path.absolutize loaded.path.dir ⟨name⟩)) = true :=
    List.any_eq_true.mpr ⟨r, (h.exists_product r hr).1, hsame⟩
  rw [MemoryFs.isFile_eq, MemoryFs.file?_removes, if_pos hany] at hthere
  cases hthere

end Removes

/-- Where no product exists, cleaning removes nothing. -/
theorem clean_absent {fs : MemoryFs} {roots : List Path} {g : Graph}
    (hg : (loadGraph fs roots).value = .ok g)
    (habsent : ∀ q ∈ g.products, FileSystem.isFile fs q = false) :
    (clean fs roots).value = (.ok [], fs) := by
  have htargets : ∀ q ∈ g.targets, FileSystem.isFile fs q = false :=
    fun q hq => habsent q ((Graph.mem_targets (loadGraph_wellFormed hg)).mp hq)
  obtain ⟨removed, hclean, hspec⟩ := clean_value hg
  have hnil : removed = [] := by
    refine List.eq_nil_iff_forall_not_mem.mpr fun r hr => ?_
    obtain ⟨hr, hfile⟩ := hspec.exists_product r hr
    rw [htargets r hr] at hfile
    cases hfile
  rw [hclean, hnil, MemoryFs.removes_of_absent htargets]
  rfl

/-- **An input that is a product** is listed, or it is a declaration of some
    project: of another one, or of its own project where that emits among what it
    finds. -/
theorem Graph.product_input {fs : MemoryFs} {roots : List Path} {g : Graph}
    (hg : (loadGraph fs roots).value = .ok g) {r : Path} (hr : r ∈ g.products) {i : Nat}
    (hi : i < g.size) {input : Path} (hinput : input ∈ (g.node i).inputs)
    (hsame : r.same input = true) :
    Closure.Lists (g.node i).configDir (g.node i).config input ∨
      r.isDeclaration = true ∧ ∃ j < g.size, ∃ source ∈ (g.node j).inputs,
        (g.node j).declarationFor? source = some r ∧
        (j = i → (g.node i).outDir.same (g.node i).rootDir = false ∧
          ¬ (g.node i).EmitsApart) := by
  have hloaded := (loadGraph_sound hg).2 i hi
  refine (hloaded.lists_or_finds hinput).imp_right fun hfinds => ?_
  -- what is found is a source file, so a product that is found is a declaration
  have hsource : r.isSource = true := by
    rw [Path.isSource_congr (Path.same_iff.mp hsame)]
    exact (Project.finds_spec hfinds).1
  obtain ⟨j, hj, rfl | hout⟩ := g.mem_products hr
  · rw [Project.isSource_recordPath] at hsource
    cases hsource
  · rcases Project.output_cases hout with hnot | ⟨hdeclaration, source, hmem, hemits⟩
    · rw [hsource] at hnot
      cases hnot
    · refine ⟨hdeclaration, j, hj, source, hmem, hemits, ?_⟩
      rintro rfl
      exact hloaded.emits_among hinput hfinds hmem hemits hout hdeclaration hsame

/-- **Cleaning again**, when no configuration was removed: there is nothing left to
    remove, unless something that is listed is gone. -/
theorem Removes.clean_again {fs : MemoryFs} (hfs : fs.Reachable) {roots : List Path} {g : Graph}
    (hg : (loadGraph fs roots).value = .ok g) {removed : List Path}
    (h : Removes fs g.targets removed) (hkept : ∀ r ∈ removed, ¬ g.Configures r) :
    let fs' := fs.edits (g.targets.map .remove)
    ((∀ r ∈ removed, ¬ g.Lists r) → (clean fs' roots).value = (.ok [], fs')) ∧
      ((∃ r ∈ removed, g.Lists r) → ∃ e, (clean fs' roots).value = (.error e, fs')) := by
  intro fs'
  constructor
  · intro hlisted
    obtain ⟨g', hg', hfewer⟩ := loadGraph_spared hg (h.spares hfs hg hkept hlisted)
    refine clean_absent hg' fun q hq => ?_
    have hmem := (Graph.mem_targets (loadGraph_wellFormed hg)).mpr (hfewer q hq)
    have hany : (g.targets.any fun p => p.same q) = true :=
      List.any_eq_true.mpr ⟨q, hmem, Path.same_iff.mpr rfl⟩
    rw [MemoryFs.isFile_eq, MemoryFs.file?_removes, if_pos hany]
    rfl
  · rintro ⟨r, hr, hlists⟩
    cases hagain : (loadGraph fs' roots).value with
    | error e => exact ⟨e, clean_error hagain⟩
    | ok g' => exact absurd hlists (h.not_lists hg (h.keeps hfs hg hkept) hagain r hr)

/-- **What cleaning can destroy.**  No source that is compiled is removed, and no
    configuration of the conventional name.  An input that is removed is listed,
    or it is a declaration of some project: of another one, or of its own project
    where that emits among what it finds.  If no configuration is removed, then
    cleaning again finds nothing to remove, unless something that is listed was
    removed: then it fails. -/
theorem clean_spares {fs : MemoryFs} (hfs : fs.Reachable) {roots : List Path} {g : Graph}
    (hg : (loadGraph fs roots).value = .ok g) {removed : List Path} {fs' : MemoryFs}
    (hclean : (clean fs roots).value = (.ok removed, fs')) :
    (∀ r ∈ removed, (r.isSource = true → r.isDeclaration = true) ∧
      ∀ dir : Path, r.same (dir.join ⟨configFileName⟩) = false) ∧
    (∀ r ∈ removed, ∀ i < g.size, ∀ input ∈ (g.node i).inputs, r.same input = true →
      Closure.Lists (g.node i).configDir (g.node i).config input ∨
        r.isDeclaration = true ∧ ∃ j < g.size, ∃ source ∈ (g.node j).inputs,
          (g.node j).declarationFor? source = some r ∧
          (j = i → (g.node i).outDir.same (g.node i).rootDir = false ∧
            ¬ (g.node i).EmitsApart)) ∧
    ((∀ r ∈ removed, ¬ g.Configures r) →
      ((∀ r ∈ removed, ¬ g.Lists r) → (clean fs' roots).value = (.ok [], fs')) ∧
      ((∃ r ∈ removed, g.Lists r) → ∃ e, (clean fs' roots).value = (.error e, fs'))) := by
  obtain ⟨listed, hvalue, hspec⟩ := clean_value hg
  rw [hclean, Prod.mk.injEq, Except.ok.injEq] at hvalue
  obtain ⟨rfl, rfl⟩ := hvalue
  simp only [Path.mem_sort]
  have hproduct : ∀ r ∈ listed, r ∈ g.products := fun r hr =>
    (Graph.mem_targets (loadGraph_wellFormed hg)).mp (hspec.exists_product r hr).1
  refine ⟨fun r hr => ⟨fun hsource => ?_, fun dir => ?_⟩,
    fun r hr i hi input hinput hsame => Graph.product_input hg (hproduct r hr) hi hinput hsame,
    hspec.clean_again hfs hg⟩
  · rcases g.product_source (hproduct r hr) with hnot | hdeclaration
    · rw [hsource] at hnot
      cases hnot
    · exact hdeclaration
  · obtain ⟨j, -, hr⟩ := g.mem_products (hproduct r hr)
    exact Project.config_ne_product hr dir

/-- A project that lists a declaration where it emits one. -/
def listingFiles : MemoryFs :=
  .ofTexts [("/r/tsconfig.json",
      "\x7b\"compilerOptions\": \x7b\"declaration\": true, \"outDir\": \"lib\"\x7d, \"files\": [\"a.ts\", \"lib/a.d.ts\"]\x7d"),
    ("/r/a.ts", ""), ("/r/lib/a.d.ts", "")]

def listingGraph : Graph :=
  (loadGraph listingFiles [⟨"/r"⟩]).value.toOption.getD {}

/-- Cleaning removes this input, and fails afterwards.  Where nothing that is removed
    is listed, cleaning again finds nothing. -/
theorem clean_spares_listing :
    (∃ fs', (clean listingFiles [⟨"/r"⟩]).value = (.ok [⟨"/r/lib/a.d.ts"⟩], fs') ∧
      ⟨"/r/lib/a.d.ts"⟩ ∈ (listingGraph.node 0).inputs ∧
      ∃ e, (clean fs' [⟨"/r"⟩]).value = (.error e, fs')) ∧
    ∃ fs', (clean commonFiles [⟨"/p/a"⟩, ⟨"/p/b"⟩]).value = (.ok [⟨"/p/out/x.js"⟩], fs') ∧
      (clean fs' [⟨"/p/a"⟩, ⟨"/p/b"⟩]).value = (.ok [], fs') := by
  constructor
  · have hfacts : (loadGraph listingFiles [⟨"/r"⟩]).value.toOption.isSome = true ∧
        listingGraph.size = 1 ∧
        (Path.same ⟨"/r/lib/a.d.ts"⟩ (listingGraph.node 0).configPath = false ∧
          ⟨"/r/lib/a.d.ts"⟩ ∈ (listingGraph.node 0).inputs ∧
          "lib/a.d.ts" ∈ (listingGraph.node 0).config.files.getD [] ∧
          Path.absolutize (listingGraph.node 0).configDir ⟨"lib/a.d.ts"⟩ = ⟨"/r/lib/a.d.ts"⟩) ∧
        (clean listingFiles [⟨"/r"⟩]).value.1.toOption = some [⟨"/r/lib/a.d.ts"⟩] := by
      decide +kernel
    obtain ⟨hsome, hsize, ⟨hconfig, hinput, hname, hfile⟩, hremoved⟩ := hfacts
    have hg : (loadGraph listingFiles [⟨"/r"⟩]).value = .ok listingGraph :=
      Graph.loaded_of_isSome hsome
    cases hclean : (clean listingFiles [⟨"/r"⟩]).value with
    | mk result fs' =>
        rw [hclean] at hremoved
        obtain rfl := eq_ok_of_toOption hremoved
        -- what is removed is no configuration file, but the list names it
        have hkept : ∀ r ∈ [(⟨"/r/lib/a.d.ts"⟩ : Path)], ¬ listingGraph.Configures r := by
          rintro r hr ⟨i, hi, hsame⟩
          obtain rfl : i = 0 := by omega
          rw [List.mem_singleton.mp hr, hconfig] at hsame
          cases hsame
        have hlists : listingGraph.Lists ⟨"/r/lib/a.d.ts"⟩ :=
          ⟨0, by omega, _, ⟨"lib/a.d.ts", hname, hfile⟩, Path.same_iff.mpr rfl⟩
        have hspares := clean_spares (MemoryFs.ofTexts_reachable _) hg hclean
        exact ⟨fs', rfl, hinput,
          (hspares.2.2 hkept).2 ⟨_, List.mem_singleton_self _, hlists⟩⟩
  · have hfacts : (loadGraph commonFiles [⟨"/p/a"⟩, ⟨"/p/b"⟩]).value.toOption.isSome = true ∧
        commonGraph.size = 2 ∧
        (∀ i < 2,
          Path.same ⟨"/p/out/x.js"⟩ (commonGraph.node i).configPath = false ∧
          ∀ name ∈ (commonGraph.node i).config.files.getD [],
            Path.same ⟨"/p/out/x.js"⟩
              (Path.absolutize (commonGraph.node i).configDir ⟨name⟩) = false) ∧
        (clean commonFiles [⟨"/p/a"⟩, ⟨"/p/b"⟩]).value.1.toOption = some [⟨"/p/out/x.js"⟩] := by
      decide +kernel
    obtain ⟨hsome, hsize, hnamed, hremoved⟩ := hfacts
    have hg : (loadGraph commonFiles [⟨"/p/a"⟩, ⟨"/p/b"⟩]).value = .ok commonGraph :=
      Graph.loaded_of_isSome hsome
    cases hclean : (clean commonFiles [⟨"/p/a"⟩, ⟨"/p/b"⟩]).value with
    | mk result fs' =>
        rw [hclean] at hremoved
        obtain rfl := eq_ok_of_toOption hremoved
        have hspares := clean_spares (MemoryFs.ofTexts_reachable _) hg hclean
        refine ⟨fs', rfl, (hspares.2.2 fun r hr => ?_).1 fun r hr => ?_⟩
        · rintro ⟨i, hi, hsame⟩
          rw [List.mem_singleton.mp hr, (hnamed i (hsize ▸ hi)).1] at hsame
          cases hsame
        · rintro ⟨i, hi, _, ⟨name, hname, rfl⟩, hsame⟩
          rw [List.mem_singleton.mp hr, (hnamed i (hsize ▸ hi)).2 name hname] at hsame
          cases hsame

end ProjectBuild
