import ProjectBuild.Proofs.Closure.Cycle
import ProjectBuild.Proofs.Graph.Renumbered
import ProjectBuild.Proofs.Path.Canonical

/-! # The order of the roots

    Root lists that name the same configurations load to the same graph, up to
    the numbering of its projects, or fail together.  What can be reached is the
    same, paths that identify projects have one spelling, and a project is a
    function of its path (`Closure.load`).  Whether loading succeeds is then
    said without the traversal: all that can be reached loads, nothing leads
    back to itself, and no project that another one mentions violates a
    restriction. -/

namespace ProjectBuild

namespace Closure

variable {fs : MemoryFs} {roots roots' : List Path}

/-! ## What the roots name -/

/-- The configuration that a root names, if it names one. -/
def named? (fs : MemoryFs) (root : Path) : Option (List Component) :=
  (resolveConfig? fs root.normalize).map Path.components

/-- Two lists of roots name the same configurations; and if a root of one names
    none, so does a root of the other. -/
def SameRoots (fs : MemoryFs) (roots roots' : List Path) : Prop :=
  ∀ named, named ∈ roots.map (named? fs) ↔ named ∈ roots'.map (named? fs)

theorem SameRoots.symm (h : SameRoots fs roots roots') : SameRoots fs roots' roots :=
  fun named => (h named).symm

/-- The configuration that a root stands for is spelled canonically. -/
theorem canonical_of_resolveRoot {σ : Type} [FileSystem σ] {fs : σ} {root p : Path}
    (h : resolveRoot fs root = .ok p) : p.Canonical :=
  canonical_of_resolveConfig? (Path.canonical_normalize root) (resolveRoot_eq_ok.mp h)

/-- What is mentioned is spelled canonically. -/
theorem Mentions.canonical {σ : Type} [FileSystem σ] {fs : σ} {p q : Path}
    (h : Mentions fs p q) : q.Canonical := by
  obtain ⟨loaded, -, reference, -, htarget⟩ := h
  exact canonical_of_resolveConfig? (Path.canonical_absolutize _ _) htarget

/-- What is reachable is spelled canonically. -/
theorem Reachable.canonical {σ : Type} [FileSystem σ] {fs : σ} {p : Path}
    (h : Reachable fs roots p) : p.Canonical := by
  obtain ⟨root, -, start, hstart, hchain⟩ := h
  cases hchain with
  | refl => exact canonical_of_resolveRoot hstart
  | tail _ hmentions => exact hmentions.canonical

/-- A root has a counterpart that names the same path. -/
theorem SameRoots.resolve (h : SameRoots fs roots roots') {root p : Path} (hroot : root ∈ roots)
    (hp : resolveRoot fs root = .ok p) : ∃ root' ∈ roots', resolveRoot fs root' = .ok p := by
  have hnamed : named? fs root = some p.components := by
    unfold named?
    rw [resolveRoot_eq_ok.mp hp]
    rfl
  obtain ⟨root', hroot', hnamed'⟩ := List.mem_map.mp ((h _).mp (List.mem_map_of_mem hroot))
  obtain ⟨p', hp', hsame⟩ := Option.map_eq_some_iff.mp (hnamed'.trans hnamed)
  have hresolve := resolveRoot_eq_ok.mpr hp'
  -- both are in canonical spelling, so they are one text
  obtain rfl := (canonical_of_resolveRoot hresolve).eq_of_components
    (canonical_of_resolveRoot hp) hsame
  exact ⟨root', hroot', hresolve⟩

/-- The same roots reach the same configurations. -/
theorem SameRoots.reachable (h : SameRoots fs roots roots') (p : Path) :
    Reachable fs roots p ↔ Reachable fs roots' p := by
  have hone : ∀ {roots roots' : List Path}, SameRoots fs roots roots' →
      Reachable fs roots p → Reachable fs roots' p := by
    rintro roots roots' h ⟨root, hroot, start, hstart, hchain⟩
    obtain ⟨root', hroot', hstart'⟩ := h.resolve hroot hstart
    exact ⟨root', hroot', start, hstart', hchain⟩
  exact ⟨hone h, hone h.symm⟩

/-- If all roots of one list are resolved, so are those of the other. -/
theorem SameRoots.resolved (h : SameRoots fs roots roots')
    (hroots : ∀ root ∈ roots, ∃ p, resolveRoot fs root = .ok p) :
    ∀ root ∈ roots', ∃ p, resolveRoot fs root = .ok p := by
  intro root' hroot'
  obtain ⟨root, hroot, hnamed⟩ := List.mem_map.mp ((h _).mpr (List.mem_map_of_mem hroot'))
  obtain ⟨p, hp⟩ := hroots root hroot
  unfold named? at hnamed
  rw [resolveRoot_eq_ok.mp hp] at hnamed
  obtain ⟨p', hp', -⟩ := Option.map_eq_some_iff.mp hnamed.symm
  exact ⟨p', resolveRoot_eq_ok.mpr hp'⟩

/-! ## Projects by their paths -/

/-- Every finished project is what its path loads to. -/
def Progress.Loaded (fs : MemoryFs) (s : Progress) : Prop :=
  ∀ node ∈ s.nodes, load fs node.configPath = .ok node

/-- Entering a project numbers only projects that load by themselves. -/
theorem enter_loaded {descend : Path → Progress → Step Nat} {configPath : Path} {s s' : Progress}
    {i : Nat} (hdescend : ∀ path s i s', s.Loaded fs → descend path s = (.ok i, s') →
      s'.Loaded fs ∧ s.nodes <+: s'.nodes)
    (hs : s.Loaded fs) (h : enter fs descend configPath s = (.ok i, s')) :
    s'.Loaded fs ∧ s.nodes <+: s'.nodes := by
  obtain ⟨loaded, targets, children, t, node, hread, htargets, hvisit, hproject, rfl, rfl⟩ :=
    enter_ok h
  obtain ⟨ht, hprefix, -⟩ := visitEach_ok (I := fun s => s.Loaded fs) (R := fun _ _ _ => True)
    (fun _ h => h) targets (fun path _ s i s' hs hvisit =>
      (hdescend path s i s' hs hvisit).imp id fun h => ⟨h, True.intro⟩)
    (s := (s.note _).note _) hs hvisit
  refine ⟨fun other hother => ?_, List.IsPrefix.trans hprefix (List.prefix_append _ _)⟩
  rcases List.mem_append.mp hother with hother | hother
  · exact ht other hother
  · rw [List.mem_singleton.mp hother, project_configPath hproject, read_path hread]
    exact load_eq_ok.mpr ⟨loaded, targets, hread, htargets, hproject⟩

/-- A visit numbers only projects that load by themselves. -/
theorem visit_loaded (depth : Nat) (stack : List Path) (configPath : Path) (s : Progress) (i : Nat)
    (s' : Progress) (hs : s.Loaded fs) (h : visit fs depth stack configPath s = (.ok i, s')) :
    s'.Loaded fs ∧ s.nodes <+: s'.nodes := by
  refine visit_induct fs (P := fun _ _ _ s step => ∀ i s', s.Loaded fs → step = (.ok i, s') →
    s'.Loaded fs ∧ s.nodes <+: s'.nodes) ?_ ?_ ?_ ?_ depth stack configPath s i s' hs h
  · exact fun _ _ _ s _ _ _ s' hs h => (Prod.mk.inj h).2 ▸ ⟨hs, List.prefix_refl _⟩
  · exact fun _ _ _ _ _ _ _ _ _ h => nomatch h
  · exact fun _ _ _ _ _ _ _ h => nomatch h
  · exact fun _ _ _ s _ _ hdescend i s' hs h => enter_loaded hdescend hs h

/-- All that the traversal numbers loads by itself. -/
theorem visitRoots_loaded {indices : List Nat} {s : Progress}
    (h : visitRoots fs roots {} = (.ok indices, s)) : s.Loaded fs := by
  have hempty : ({} : Progress).Loaded fs := List.forall_mem_nil _
  refine (visitEach_ok (I := fun s => s.Loaded fs) (R := fun _ _ _ => True) (fun _ h => h) roots
    ?_ hempty h).1
  intro root _ s i s' hs hvisit
  cases hresolve : resolveRoot fs root with
  | error e =>
      rw [hresolve] at hvisit
      exact nomatch hvisit
  | ok p =>
      rw [hresolve] at hvisit
      exact (visit_loaded _ [] p s i s' hs hvisit).imp id fun h => ⟨h, True.intro⟩

/-! ## What the traversal finds -/

/-- A configuration that can be reached mentions the path. -/
def Referenced (fs : MemoryFs) (roots : List Path) (p : Path) : Prop :=
  ∃ q, Reachable fs roots q ∧ Mentions fs q p

open Classical in
/-- A project in its graph: declarations are on where it is mentioned. -/
noncomputable def declared (fs : MemoryFs) (roots : List Path) (p : Project) : Project :=
  if Referenced fs roots p.configPath then { p with declaration := true } else p

/-- All that the traversal found, once it has succeeded. -/
structure Progress.Whole (fs : MemoryFs) (roots : List Path) (s : Progress) : Prop where
  distinct : s.Distinct
  mem_nodes : ∀ node, node ∈ s.nodes ↔
    Reachable fs roots node.configPath ∧ load fs node.configPath = .ok node
  complete : ∀ p, Reachable fs roots p → ∃ node ∈ s.nodes, node.configPath = p
  referenced : ∀ i node, s.nodes[i]? = some node →
    (isReferenced s.edges i = true ↔ Referenced fs roots node.configPath)

/-- The traversal makes a graph that is the closure of its roots. -/
theorem visitRoots_graph {indices : List Nat} {s : Progress}
    (h : visitRoots fs roots {} = (.ok indices, s)) :
    Graph.ofEdges (withDeclarations s.edges s.nodes) s.edges indices
        = .ok ⟨withDeclarations s.edges s.nodes, distinct s.edges, distinct indices⟩ ∧
      Graph.IsClosure ⟨withDeclarations s.edges s.nodes, distinct s.edges, distinct indices⟩
        fs roots := by
  obtain ⟨g, hg, hclosure⟩ := ofEdges_visitRoots h
  obtain rfl := Graph.eq_of_ofEdges hg
  exact ⟨hg, hclosure⟩

/-- Some edge leads to a project if a configuration of the closure mentions it. -/
theorem isReferenced_iff {nodes : List Project} {edges : List (Nat × Nat)} {indices : List Nat}
    (h : Graph.IsClosure ⟨withDeclarations edges nodes, distinct edges, indices⟩ fs roots)
    {i : Nat} {node : Project} (hnode : nodes[i]? = some node) :
    isReferenced edges i = true ↔ Referenced fs roots node.configPath := by
  generalize hg : Graph.mk (withDeclarations edges nodes) (distinct edges) indices = g at h
  have hi : i < g.size := by
    rw [← hg]
    show i < (withDeclarations edges nodes).length
    unfold withDeclarations
    rw [List.length_mapIdx]
    exact (List.getElem?_eq_some_iff.mp hnode).1
  have hpath : (g.node i).configPath = node.configPath := by
    obtain ⟨declaration, hget⟩ := getElem?_withDeclarations edges hnode
    have hget' : g.nodes[i]? = some { node with declaration := declaration } := hg ▸ hget
    rw [Graph.node_of_getElem? hget']
  have hedges : isReferenced edges i = true ↔ ∃ j, (j, i) ∈ g.edges := by
    rw [isReferenced_eq_true, ← hg]
    simp only [mem_distinct]
  rw [hedges]
  constructor
  · rintro ⟨j, hj⟩
    obtain ⟨hj, -, p, hmentions, hsame⟩ := (h.edges j i).mp hj
    -- both are canonical, so they are not just spellings of one path
    have hp : p = node.configPath := by
      rw [← hpath]
      exact hmentions.canonical.eq_of_components (h.reachable i hi).canonical
        (Path.same_iff.mp hsame).symm
    exact ⟨_, h.reachable j hj, hp ▸ hmentions⟩
  · rintro ⟨q, hq, hmentions⟩
    obtain ⟨j, hj, hsame⟩ := h.complete q hq
    have hq' : (g.node j).configPath = q :=
      (h.reachable j hj).canonical.eq_of_components hq.canonical (Path.same_iff.mp hsame)
    refine ⟨j, (h.edges j i).mpr ⟨hj, hi, _, hq' ▸ hmentions, ?_⟩⟩
    rw [hpath]
    exact Path.same_iff.mpr rfl

/-- **What a traversal that succeeds has numbered**: all that is reachable, each as
    it loads by itself. -/
theorem visitRoots_whole {indices : List Nat} {s : Progress}
    (h : visitRoots fs roots {} = (.ok indices, s)) : s.Whole fs roots := by
  obtain ⟨hexplored, named, hnamed, hroots⟩ := visitRoots_explored h
  have hloaded := visitRoots_loaded h
  have hsound := visitRoots_sound fs roots
  rw [h] at hsound
  have hcomplete : ∀ p, Reachable fs roots p → ∃ node ∈ s.nodes, node.configPath = p := by
    intro p hp
    obtain ⟨i, node, hnode, hsame⟩ := hexplored.reaches hnamed hroots hp
    have hmem := List.mem_of_getElem? hnode
    exact ⟨node, hmem, (hexplored.within node hmem).canonical.eq_of_components hp.canonical hsame⟩
  refine ⟨hsound.distinct, fun node => ⟨fun hnode => ?_, fun hnode => ?_⟩, hcomplete, ?_⟩
  · exact ⟨hexplored.within node hnode, hloaded node hnode⟩
  · obtain ⟨node', hnode', hpath⟩ := hcomplete _ hnode.1
    have hload := hloaded node' hnode'
    rw [hpath, hnode.2] at hload
    exact Except.ok.inj hload ▸ hnode'
  · exact fun i node hnode => isReferenced_iff (visitRoots_graph h).2 hnode

/-! ## Success of the traversal -/

/-- Loading is possible: every root names a configuration, whatever can be
    reached loads, and nothing leads back to itself. -/
structure Loadable (fs : MemoryFs) (roots : List Path) : Prop where
  resolved : ∀ root ∈ roots, ∃ p, resolveRoot fs root = .ok p
  loads : ∀ p, Reachable fs roots p → Loads fs p
  acyclic : ¬ Cyclic fs roots

/-- Roots that can be traversed can be loaded. -/
theorem visitRoots_loadable {indices : List Nat} {s : Progress}
    (h : visitRoots fs roots {} = (.ok indices, s)) : Loadable fs roots := by
  have hwhole := visitRoots_whole h
  obtain ⟨-, named, hnamed, -⟩ := visitRoots_explored h
  refine ⟨fun root hroot => ?_, fun p hp => ?_, (visitRoots_graph h).2.not_cyclic⟩
  · have hmem : resolveRoot fs root ∈ named.map (Except.ok (ε := Error)) :=
      hnamed ▸ List.mem_map_of_mem hroot
    obtain ⟨p, -, hp⟩ := List.mem_map.mp hmem
    exact ⟨p, hp.symm⟩
  · obtain ⟨node, hnode, rfl⟩ := hwhole.complete p hp
    exact loads_of_load (by rw [((hwhole.mem_nodes node).mp hnode).2]; rfl)

/-- **The traversal succeeds exactly if loading is possible.** -/
theorem Loadable.visitRoots (h : Loadable fs roots) :
    ∃ indices s, Closure.visitRoots fs roots {} = (.ok indices, s) := by
  rcases hvisit : Closure.visitRoots fs roots {} with ⟨result, s⟩
  cases result with
  | ok indices => exact ⟨indices, s, rfl⟩
  | error e =>
      obtain ⟨cycle, rfl⟩ := visitRoots_error_of_loads h.resolved h.loads hvisit
      exact absurd (visitRoots_cycle hvisit).cyclic h.acyclic

/-- The same roots can be loaded if these can. -/
theorem SameRoots.loadable (h : SameRoots fs roots roots') (hload : Loadable fs roots) :
    Loadable fs roots' := by
  refine ⟨h.resolved hload.resolved, fun p hp => hload.loads p ((h.reachable p).mpr hp), ?_⟩
  rintro ⟨p, q, hp, hchain⟩
  exact hload.acyclic ⟨p, q, (h.reachable p).mpr hp, hchain⟩

/-- The same roots make the same projects referenced. -/
theorem SameRoots.referenced (h : SameRoots fs roots roots') (p : Path) :
    Referenced fs roots p ↔ Referenced fs roots' p :=
  exists_congr fun q => and_congr_left fun _ => h.reachable q

/-! ## Restrictions -/

/-- Unlisted files do not depend on the order of the other projects' directories. -/
theorem unlisted_perm {p : Project} {dirs dirs' : List Path} (h : dirs.Perm dirs') :
    unlisted fs p dirs = unlisted fs p dirs' := by
  have hnested : (nestedDirs p dirs).Perm (nestedDirs p dirs') := h.filter _
  have hprunes : ∀ excluded, (CoverageRule.mk p excluded (nestedDirs p dirs)).prunes
      = (CoverageRule.mk p excluded (nestedDirs p dirs')).prunes := by
    intro excluded
    funext dir
    unfold CoverageRule.prunes
    rw [hnested.any_eq]
    rfl
  have hmisses : ∀ excluded, (CoverageRule.mk p excluded (nestedDirs p dirs)).misses
      = (CoverageRule.mk p excluded (nestedDirs p dirs')).misses := by
    intro excluded
    funext file
    unfold CoverageRule.misses
    rw [hnested.any_eq]
    rfl
  unfold unlisted
  simp only [hprunes, hmisses]

/-- The directories of other projects count as a set. -/
theorem violation?_perm {p : Project} {dirs dirs' : List Path} (h : dirs.Perm dirs') :
    violation? fs p dirs = violation? fs p dirs' := by
  unfold violation?
  rw [unlisted_perm h]

/-- There is no first violation if no referenced project has one. -/
theorem firstViolation?_eq_none {σ : Type} [FileSystem σ] {fs : σ} {edges : List (Nat × Nat)}
    {dirs : List Path} (i : Nat) (nodes : List Project) :
    (firstViolation? fs edges dirs i nodes).value = none ↔
      ∀ k p, nodes[k]? = some p → isReferenced edges (i + k) = true →
        (violation? fs p dirs).value = none := by
  induction nodes generalizing i with
  | nil => exact iff_of_true rfl fun k p hp => nomatch hp
  | cons p rest ih =>
      have hsplit : (∀ k p', (p :: rest)[k]? = some p' → isReferenced edges (i + k) = true →
          (violation? fs p' dirs).value = none) ↔
          (isReferenced edges i = true → (violation? fs p dirs).value = none) ∧
            ∀ k p', rest[k]? = some p' → isReferenced edges (i + 1 + k) = true →
              (violation? fs p' dirs).value = none := by
        constructor
        · refine fun h => ⟨h 0 p rfl, fun k p' hp' hreferenced => h (k + 1) p' hp' ?_⟩
          rwa [Nat.add_right_comm] at hreferenced
        · rintro ⟨hfirst, hrest⟩ k p' hp' hreferenced
          cases k with
          | zero => exact Option.some.inj hp' ▸ hfirst hreferenced
          | succ k =>
              refine hrest k p' hp' ?_
              rwa [Nat.add_right_comm]
      unfold firstViolation?
      rw [hsplit, ← ih (i + 1)]
      cases hreferenced : isReferenced edges i with
      | false => simp
      | true =>
          cases hfound : (violation? fs p dirs).value with
          | some e => simp [hfound]
          | none => simp [hfound]

/-- No project of the closure that another one mentions violates a restriction. -/
theorem Progress.Whole.firstViolation?_eq_none {s : Progress} (h : s.Whole fs roots)
    (dirs : List Path) :
    (firstViolation? fs s.edges dirs 0 s.nodes).value = none ↔
      ∀ node ∈ s.nodes, Referenced fs roots node.configPath →
        (violation? fs node dirs).value = none := by
  rw [Closure.firstViolation?_eq_none]
  constructor
  · intro hall node hnode hreferenced
    obtain ⟨k, hk⟩ := List.mem_iff_getElem?.mp hnode
    refine hall k node hk ?_
    rw [Nat.zero_add]
    exact (h.referenced k node hk).mpr hreferenced
  · intro hall k node hk hreferenced
    rw [Nat.zero_add] at hreferenced
    exact hall node (List.mem_of_getElem? hk) ((h.referenced k node hk).mp hreferenced)

/-- Declarations are turned on by what the roots reference, not by the order of the
    visits. -/
theorem Progress.Whole.withDeclarations_eq {s : Progress} (h : s.Whole fs roots) :
    withDeclarations s.edges s.nodes = s.nodes.map (declared fs roots) := by
  unfold withDeclarations
  refine List.ext_getElem (by rw [List.length_mapIdx, List.length_map]) fun i hi hi' => ?_
  rw [List.getElem_mapIdx, List.getElem_map]
  have hnode := List.getElem?_eq_getElem (List.length_map (declared fs roots) ▸ hi')
  unfold declared
  classical exact if_congr (h.referenced i _ hnode) rfl rfl

/-! ## Two traversals -/

section traversals

variable {s s' : Progress} (hs : s.Whole fs roots) (hs' : s'.Whole fs roots')
  (hsame : SameRoots fs roots roots')
include hs hs' hsame

/-- Two traversals of the same roots number the same projects. -/
theorem Progress.Whole.nodes_perm : s.nodes.Perm s'.nodes := by
  have hnodup : ∀ {s : Progress}, s.Distinct → s.nodes.Nodup := fun hdistinct =>
    hdistinct.imp fun hne heq => hne (by rw [heq])
  refine (List.perm_ext_iff_of_nodup (hnodup hs.distinct) (hnodup hs'.distinct)).mpr fun node => ?_
  rw [hs.mem_nodes, hs'.mem_nodes, hsame.reachable]

theorem Progress.Whole.withDeclarations_perm :
    (withDeclarations s.edges s.nodes).Perm (withDeclarations s'.edges s'.nodes) := by
  have hdeclared : declared fs roots = declared fs roots' := by
    funext p
    unfold declared
    classical exact if_congr (hsame.referenced _) rfl rfl
  rw [hs.withDeclarations_eq, hs'.withDeclarations_eq, hdeclared]
  exact (hs.nodes_perm hs' hsame).map _

/-- If one of two traversals of the same roots finds no violation, neither does the
    other. -/
theorem Progress.Whole.firstViolation?_congr
    (h : (firstViolation? fs s.edges (s.nodes.map Project.configDir) 0 s.nodes).value = none) :
    (firstViolation? fs s'.edges (s'.nodes.map Project.configDir) 0 s'.nodes).value = none := by
  rw [hs.firstViolation?_eq_none] at h
  rw [hs'.firstViolation?_eq_none]
  have hnodes := hs.nodes_perm hs' hsame
  intro node hnode hreferenced
  rw [violation?_perm (hnodes.map Project.configDir).symm]
  exact h node (hnodes.mem_iff.mpr hnode) ((hsame.referenced _).mpr hreferenced)

end traversals

end Closure

/-! ## Graphs -/

/-- The index of a project in another list of projects. -/
def Graph.indexIn (g g' : Graph) (i : Nat) : Nat :=
  g'.nodes.idxOf (g.node i)

/-- **Closures of the same projects differ in their numbering only.** -/
theorem Graph.IsClosure.renumbers {fs : MemoryFs} {roots roots' : List Path} {g g' : Graph}
    (h : g.IsClosure fs roots) (h' : g'.IsClosure fs roots') (hnodes : g.nodes.Perm g'.nodes) :
    g.Renumbers g' (g.indexIn g') := by
  have hsize : g'.size = g.size := hnodes.length_eq.symm
  have hlt : ∀ i < g.size, g.indexIn g' i < g'.size := fun i hi =>
    List.idxOf_lt_length_of_mem (hnodes.subset (Graph.node_mem hi))
  have hnode : ∀ i < g.size, g'.node (g.indexIn g' i) = g.node i := by
    intro i hi
    rw [Graph.node_eq (hlt i hi)]
    exact List.getElem_idxOf (hlt i hi)
  refine ⟨hsize, hlt, fun i hi j hj heq => ?_, hnode, fun i hi j hj => ?_⟩
  · by_contra hne
    refine h.distinct i hi j hj hne ?_
    rw [← hnode i hi, heq, hnode j hj]
  · rw [h.edges, h'.edges, hnode i hi, hnode j hj]
    exact and_congr (iff_of_true (hlt i hi) hi) (and_congr_left fun _ => iff_of_true (hlt j hj) hj)

/-- What loading a graph comes to. -/
theorem loadGraph_eq_ok {fs : MemoryFs} {roots : List Path} {g : Graph} :
    (loadGraph fs roots).value = .ok g ↔ ∃ indices s,
      Closure.visitRoots fs roots {} = (.ok indices, s) ∧
        (Closure.firstViolation? fs s.edges (s.nodes.map Project.configDir) 0 s.nodes).value
          = none ∧
        g = ⟨Closure.withDeclarations s.edges s.nodes, distinct s.edges, distinct indices⟩ := by
  unfold loadGraph
  rcases hvisit : Closure.visitRoots fs roots {} with ⟨result, s⟩
  cases result with
  | error e =>
      refine iff_of_false (fun h => nomatch h) ?_
      rintro ⟨indices, s', h, -⟩
      exact nomatch h
  | ok indices =>
      simp only
      cases hviolation : (Closure.firstViolation? fs s.edges (s.nodes.map Project.configDir) 0
          s.nodes).value with
      | some e =>
          refine iff_of_false (fun h => nomatch h) ?_
          rintro ⟨indices', s', heq, hnone, -⟩
          obtain ⟨-, rfl⟩ := Prod.mk.inj heq
          exact nomatch hviolation.symm.trans hnone
      | none =>
          simp only [(Closure.visitRoots_graph hvisit).1]
          constructor
          · exact fun h => ⟨indices, s, rfl, hviolation, (Except.ok.inj h).symm⟩
          · rintro ⟨indices', s', heq, -, rfl⟩
            obtain ⟨hindices, rfl⟩ := Prod.mk.inj heq
            rw [Except.ok.inj hindices]

/-- **The order and the spelling of the roots do not matter**: root lists that name
    the same configurations load together or fail together, and what they load
    to are the same projects, with the same references and levels. -/
theorem loadGraph_sameRoots {fs : MemoryFs} {roots roots' : List Path}
    (h : Closure.SameRoots fs roots roots') :
    ((∃ g, (loadGraph fs roots).value = .ok g) ↔ ∃ g', (loadGraph fs roots').value = .ok g') ∧
      ∀ g g', (loadGraph fs roots).value = .ok g → (loadGraph fs roots').value = .ok g' →
        g.Alike g' := by
  have hsucceed : ∀ {roots roots' : List Path}, Closure.SameRoots fs roots roots' →
      (∃ g, (loadGraph fs roots).value = .ok g) → ∃ g', (loadGraph fs roots').value = .ok g' := by
    rintro roots roots' h ⟨g, hg⟩
    obtain ⟨indices, s, hvisit, hviolation, -⟩ := loadGraph_eq_ok.mp hg
    obtain ⟨indices', s', hvisit'⟩ := (h.loadable (Closure.visitRoots_loadable hvisit)).visitRoots
    refine ⟨_, loadGraph_eq_ok.mpr ⟨indices', s', hvisit', ?_, rfl⟩⟩
    exact (Closure.visitRoots_whole hvisit).firstViolation?_congr (Closure.visitRoots_whole hvisit')
      h hviolation
  refine ⟨⟨hsucceed h, hsucceed h.symm⟩, fun g g' hg hg' => ?_⟩
  have hwellFormed := loadGraph_wellFormed hg
  have hwellFormed' := loadGraph_wellFormed hg'
  obtain ⟨indices, s, hvisit, -, rfl⟩ := loadGraph_eq_ok.mp hg
  obtain ⟨indices', s', hvisit', -, rfl⟩ := loadGraph_eq_ok.mp hg'
  have hnodes := (Closure.visitRoots_whole hvisit).withDeclarations_perm
    (Closure.visitRoots_whole hvisit') h
  exact ((Closure.visitRoots_graph hvisit).2.renumbers (Closure.visitRoots_graph hvisit').2
    hnodes).alike hwellFormed hwellFormed'

/-- Two projects, asked for by their directories, or the other way round by a file
    and in a roundabout way. -/
theorem loadGraph_sameRoots_pair :
    ∃ g g', (loadGraph pairFiles [⟨"/r/app"⟩, ⟨"/r/core"⟩]).value = .ok g ∧
      (loadGraph pairFiles [⟨"/r/core/tsconfig.json"⟩, ⟨"/r/./core/../app//"⟩]).value = .ok g' ∧
      g.Alike g' := by
  have hnamed : [⟨"/r/app"⟩, ⟨"/r/core"⟩].map (Closure.named? pairFiles)
      = ([⟨"/r/core/tsconfig.json"⟩, ⟨"/r/./core/../app//"⟩].map
          (Closure.named? pairFiles)).reverse := by decide +kernel
  have hsame : Closure.SameRoots pairFiles [⟨"/r/app"⟩, ⟨"/r/core"⟩]
      [⟨"/r/core/tsconfig.json"⟩, ⟨"/r/./core/../app//"⟩] := by
    intro named
    rw [hnamed, List.mem_reverse]
  have hsome : (loadGraph pairFiles [⟨"/r/app"⟩, ⟨"/r/core"⟩]).value.toOption.isSome = true := by
    decide +kernel
  obtain ⟨hboth, halike⟩ := loadGraph_sameRoots hsame
  have hg := Graph.loaded_of_isSome hsome
  obtain ⟨g', hg'⟩ := hboth.mp ⟨_, hg⟩
  exact ⟨_, g', hg, hg', halike _ g' hg hg'⟩

end ProjectBuild
