import ProjectBuild.Proofs.Closure.RootOrder
import ProjectBuild.Proofs.Path.Normal

/-! # Where loaded projects work

    Below absolute roots every configuration that is mentioned has a normal path,
    as long as the configuration that mentions it has a directory
    (`Graph.normal_configPath`): only a configuration that is the root itself has
    none.  A project that is referenced has stated its references, so its root
    directory is the one it states or that of its configuration, and that is
    normal as well (`Graph.normal_dirs`). -/

namespace ProjectBuild

variable {σ : Type} [FileSystem σ] {fs : σ} {roots : List Path} {g : Graph}

namespace Closure

/-- What a project with an index mentions has an index. -/
theorem Progress.Explored.has_of_mentions {P : Path → Prop} {s : Progress} (hs : s.Explored fs P)
    (hP : ∀ p, P p → p.Canonical) {p q : Path} (hcanonical : p.Canonical) (hp : ∃ i, s.Has i p)
    (hpq : Mentions fs p q) : ∃ i, s.Has i q := by
  obtain ⟨i, node, hnode, hpath⟩ := hp
  obtain rfl : node.configPath = p :=
    (hP _ (hs.within node (List.mem_of_getElem? hnode))).eq_of_components hcanonical hpath
  obtain ⟨loaded, hread, hreferences, hchildren⟩ := hs.entered i node hnode
  obtain ⟨q', hq', hsame⟩ := (resolveReferences_mentions hread hreferences).2.2 q hpq
  obtain ⟨k, hk, rfl⟩ := List.mem_iff_getElem.mp hq'
  obtain ⟨other, hother, hpath'⟩ := List.Forall₂.get hchildren (hchildren.length_eq ▸ hk) hk
  exact ⟨_, other, hother, hpath'.trans hsame⟩

/-- **Below absolute roots configurations have normal paths**, unless one is the
    root itself. -/
theorem Reachable.normal {s : Progress} (hs : s.Explored fs (Reachable fs roots))
    {named : List Path} {indices : List Nat}
    (hnamed : roots.map (resolveRoot fs) = named.map .ok)
    (hindices : List.Forall₂ s.Has indices named)
    (hroots : ∀ root ∈ roots, root.isAbsolute = true)
    (hrooted : ∀ node ∈ s.nodes, node.configPath.components ≠ [.root]) {p : Path}
    (hp : Reachable fs roots p) : p.Normal ∧ ∃ i, s.Has i p := by
  obtain ⟨root, hroot, start, hstart, hchain⟩ := hp
  induction hchain with
  | refl =>
      exact ⟨normal_of_resolveConfig? (Path.normal_normalize (hroots root hroot))
        (resolveRoot_eq_ok.mp hstart), exists_has_of_root hnamed hindices hroot hstart⟩
  | @tail q r _ hqr ih =>
      obtain ⟨hq, i, hi⟩ := ih
      refine ⟨?_, hs.has_of_mentions (fun _ h => h.canonical) hq.1 ⟨i, hi⟩ hqr⟩
      obtain ⟨node, hnode, hpath⟩ := hi
      -- what `q` mentions is looked for from the directory of `q`
      have hdir : q.dir.Normal :=
        hq.dir (hpath ▸ hrooted node (List.mem_of_getElem? hnode))
      obtain ⟨loaded, hread, reference, -, htarget⟩ := hqr
      refine normal_of_resolveConfig? (Path.normal_absolutize ?_ _) htarget
      rw [read_path hread]
      exact hdir.isAbsolute

/-- A project that breaks no restriction states its references. -/
theorem references_of_violation? {p : Project} {dirs : List Path}
    (h : (violation? fs p dirs).value = none) : p.config.references.isSome = true := by
  unfold violation? at h
  split at h
  · cases h
  · split at h
    · cases h
    · rename_i hreferences
      rwa [Bool.not_eq_true, Option.isNone_eq_false_iff] at hreferences

end Closure

/-- Outputs go to a directory that is stated, or to the root directory. -/
theorem Project.LoadedFrom.normal_outDir {p : Project} (h : p.LoadedFrom fs)
    (hdir : p.configPath.dir.Normal) (hroot : p.rootDir.Normal) : p.outDir.Normal := by
  obtain ⟨-, hout, -⟩ := h.settings
  rw [hout]
  cases p.config.options.outDir with
  | some dir => exact Path.normal_absolutize hdir.isAbsolute _
  | none => exact hroot

/-- The directories of a project that states its references are those that it
    states, or that of its configuration. -/
theorem Project.LoadedFrom.normal_dirs {p : Project} (h : p.LoadedFrom fs)
    (hdir : p.configPath.dir.Normal) (hreferences : p.config.references.isSome = true) :
    p.rootDir.Normal ∧ p.outDir.Normal := by
  have hroot : p.rootDir.Normal := by
    obtain ⟨hroot, -, -⟩ := h.settings
    rw [hroot]
    unfold Closure.rootDir
    split
    · exact Path.normal_absolutize hdir.isAbsolute _
    · rw [if_pos hreferences]
      exact hdir
  exact ⟨hroot, h.normal_outDir hdir hroot⟩

/-- A root directory that is inferred from normal inputs is normal. -/
theorem Project.LoadedFrom.normal_rootDir {p : Project} (h : p.LoadedFrom fs)
    (hdir : p.configPath.dir.Normal) (hinputs : ∀ input ∈ p.inputs, input.Normal) :
    p.rootDir.Normal := by
  obtain ⟨hroot, -, -⟩ := h.settings
  rw [hroot]
  unfold Closure.rootDir
  split
  · exact Path.normal_absolutize hdir.isAbsolute _
  · split
    · exact hdir
    · cases hcommon : Path.commonAncestor? (p.inputs.filter fun file => !file.isDeclaration) with
      | none => exact hdir
      | some dir =>
          exact Path.commonAncestor?_induct Path.Normal.of_parent?
            (fun q hq => hinputs q (List.mem_filter.mp hq).1) hcommon

/-! ## Loaded graphs -/

namespace Graph

section loaded

variable (hg : (loadGraph fs roots).value = .ok g)
include hg

/-- What is referenced states its references. -/
theorem references_of_dependency {i j : Nat} (hj : j ∈ g.dependencies i) :
    (g.node j).config.references.isSome = true := by
  obtain ⟨indices, s, -, hviolation, hedges⟩ := loadGraph_checked hg
  have heq := eq_of_ofEdges hedges
  have hedge : (i, j) ∈ s.edges := by
    have := mem_dependencies.mp hj
    rw [heq] at this
    exact mem_distinct.mp this
  have hlt : j < s.nodes.length := by
    have := ((loadGraph_wellFormed hg).dependency_lt hj).2
    rw [heq] at this
    rwa [size, Closure.withDeclarations, List.length_mapIdx] at this
  have hget : s.nodes[j]? = some s.nodes[j] := List.getElem?_eq_getElem hlt
  obtain ⟨declaration, hnode⟩ := Closure.getElem?_withDeclarations s.edges hget
  have hnode' : g.node j = { s.nodes[j] with declaration := declaration } := by
    rw [heq]
    exact node_of_getElem? hnode
  have hunviolated : (Closure.violation? fs s.nodes[j] (s.nodes.map Project.configDir)).value
      = none := by
    refine (Closure.firstViolation?_eq_none 0 s.nodes).mp hviolation j _ hget ?_
    rw [Nat.zero_add]
    exact Closure.isReferenced_eq_true.mpr ⟨i, hedge⟩
  rw [hnode']
  exact Closure.references_of_violation? hunviolated

variable (hroots : ∀ root ∈ roots, root.isAbsolute = true)
  (hrooted : ∀ i < g.size, (g.node i).configPath.components ≠ [.root])
include hroots hrooted

/-- **Loaded configurations have normal paths.** -/
theorem normal_configPath {i : Nat} (hi : i < g.size) : (g.node i).configPath.Normal := by
  obtain ⟨indices, s, hvisit, hnodes⟩ := loadGraph_nodes hg
  obtain ⟨hs, named, hnamed, hindices⟩ := Closure.visitRoots_explored hvisit
  have hsize : g.size = s.nodes.length := by
    unfold size
    rw [hnodes]
    exact List.length_mapIdx
  have hpath : ∀ k (hk : k < s.nodes.length), (g.node k).configPath = s.nodes[k].configPath := by
    intro k hk
    obtain ⟨declaration, hnode⟩ :=
      Closure.getElem?_withDeclarations s.edges (List.getElem?_eq_getElem hk)
    rw [← hnodes] at hnode
    rw [node_of_getElem? hnode]
  have hrooted' : ∀ node ∈ s.nodes, node.configPath.components ≠ [.root] := by
    intro node hnode
    obtain ⟨k, hk, rfl⟩ := List.mem_iff_getElem.mp hnode
    exact hpath k hk ▸ hrooted k (hsize ▸ hk)
  have hi' : i < s.nodes.length := hsize ▸ hi
  rw [hpath i hi']
  exact (Closure.Reachable.normal hs hnamed hindices hroots hrooted'
    (hs.within _ (List.getElem_mem hi'))).1

/-- **What is referenced works in normal directories.** -/
theorem normal_dirs {i j : Nat} (hj : j ∈ g.dependencies i) :
    (g.node j).rootDir.Normal ∧ (g.node j).outDir.Normal := by
  have hlt := ((loadGraph_wellFormed hg).dependency_lt hj).2
  exact ((loadGraph_sound hg).2 j hlt).normal_dirs
    ((normal_configPath hg hroots hrooted hlt).dir (hrooted j hlt))
    (references_of_dependency hg hj)

end loaded

end Graph

end ProjectBuild
