import Mathlib.Data.List.Forall2
import ProjectBuild.Proofs.Graph.Level

/-! # Renumbered graphs

    The index of a project means nothing.  Two graphs with the same projects
    and the same references under other indices (`Graph.Renumbers`) have the
    same heights, since a height is determined by those of the dependents, and
    therefore the same levels: what can be said of them in terms of projects
    and configurations is the same (`Graph.Renumbers.alike`). -/

namespace ProjectBuild.Graph

/-- The edges, between configurations. -/
def links (g : Graph) : List (Path × Path) :=
  g.edges.map fun edge => ((g.node edge.1).configPath, (g.node edge.2).configPath)

/-- The configurations of each level. -/
def levelPaths (g : Graph) : List (List Path) :=
  g.levels.map fun level => level.map fun i => (g.node i).configPath

/-- Two graphs have the same projects, the same edges between configurations,
    and the same sequence of levels. -/
structure Alike (g g' : Graph) : Prop where
  nodes : g.nodes.Perm g'.nodes
  links : g.links.Perm g'.links
  levels : List.Forall₂ List.Perm g.levelPaths g'.levelPaths

/-- The graph `g'` is the graph `g` with the index `f i` for `i`. -/
structure Renumbers (g g' : Graph) (f : Nat → Nat) : Prop where
  size : g'.size = g.size
  lt : ∀ i < g.size, f i < g'.size
  injective : ∀ i < g.size, ∀ j < g.size, f i = f j → i = j
  node : ∀ i < g.size, g'.node (f i) = g.node i
  edges : ∀ i < g.size, ∀ j < g.size, ((f i, f j) ∈ g'.edges ↔ (i, j) ∈ g.edges)

theorem map_range_getD {α : Type} (xs : List α) (fallback : α) :
    ((List.range xs.length).map fun i => xs.getD i fallback) = xs := by
  refine List.ext_getElem (by rw [List.length_map, List.length_range]) fun i hi hi' => ?_
  rw [List.getElem_map, List.getElem_range, List.getD_eq_getElem?_getD,
    List.getElem?_eq_getElem hi', Option.getD_some]

theorem nodes_eq_map (g : Graph) : g.nodes = g.indices.map g.node :=
  (map_range_getD g.nodes default).symm

theorem heights_eq_map (g : Graph) : g.heights = g.indices.map fun i => g.heights.getD i 0 := by
  have hmap := map_range_getD g.heights 0
  rw [heights_length] at hmap
  exact hmap.symm

namespace Renumbers

variable {g g' : Graph} {f : Nat → Nat}

/-! ## Lists of indices -/

/-- Different projects have different new numbers. -/
theorem nodup_map (h : g.Renumbers g' f) {indices : List Nat} (hnodup : indices.Nodup)
    (hlt : ∀ i ∈ indices, i < g.size) : (indices.map f).Nodup :=
  hnodup.map_on fun i hi j hj => h.injective i (hlt i hi) j (hlt j hj)

/-- The new numbers are those of the other graph. -/
theorem indices_perm (h : g.Renumbers g' f) : (g.indices.map f).Perm g'.indices := by
  have hlt : ∀ i ∈ g.indices, i < g.size := fun i hi => List.mem_range.mp hi
  have hsub : g.indices.map f ⊆ g'.indices := by
    intro i' hi'
    obtain ⟨i, hi, rfl⟩ := List.mem_map.mp hi'
    exact List.mem_range.mpr (h.lt i (hlt i hi))
  refine ((h.nodup_map List.nodup_range hlt).subperm hsub).perm_of_length_le (Nat.le_of_eq ?_)
  show (List.range g'.size).length = ((List.range g.size).map f).length
  rw [List.length_map, List.length_range, List.length_range, h.size]

/-- Every number of the other graph is a new one. -/
theorem surjective (h : g.Renumbers g' f) {i' : Nat} (hi' : i' < g'.size) :
    ∃ i < g.size, f i = i' := by
  obtain ⟨i, hi, heq⟩ := List.mem_map.mp (h.indices_perm.symm.subset (List.mem_range.mpr hi'))
  exact ⟨i, List.mem_range.mp hi, heq⟩

/-- Lists of indices without repeats that correspond index by index are the same
    up to order. -/
theorem perm_of_mem (h : g.Renumbers g' f) {indices indices' : List Nat}
    (hnodup : indices.Nodup) (hlt : ∀ i ∈ indices, i < g.size)
    (hnodup' : indices'.Nodup) (hlt' : ∀ i' ∈ indices', i' < g'.size)
    (hmem : ∀ i < g.size, (f i ∈ indices' ↔ i ∈ indices)) : (indices.map f).Perm indices' := by
  refine (List.perm_ext_iff_of_nodup (h.nodup_map hnodup hlt) hnodup').mpr fun i' => ?_
  rw [List.mem_map]
  constructor
  · rintro ⟨i, hi, rfl⟩
    exact (hmem i (hlt i hi)).mpr hi
  · intro hi'
    obtain ⟨i, hi, rfl⟩ := h.surjective (hlt' i' hi')
    exact ⟨i, (hmem i hi).mp hi', rfl⟩

/-- Dependents are renumbered like the projects. -/
theorem dependents_perm (h : g.Renumbers g' f) (hg : g.Proper) (hg' : g'.Proper) {i : Nat}
    (hi : i < g.size) : ((g.dependents i).map f).Perm (g'.dependents (f i)) := by
  refine h.perm_of_mem (hg.dependents_nodup i) (fun k hk => (hg.dependent_lt hk).2)
    (hg'.dependents_nodup (f i)) (fun k hk => (hg'.dependent_lt hk).2) fun k hk => ?_
  rw [mem_dependents, mem_dependents]
  exact h.edges k hk i hi

/-! ## Heights and levels -/

/-- **Heights do not depend on the numbering.** -/
theorem heights (h : g.Renumbers g' f) (hg : g.WellFormed) (hg' : g'.WellFormed) {i : Nat}
    (hi : i < g.size) : g'.heights.getD (f i) 0 = g.heights.getD i 0 := by
  -- on the height itself, since dependents are lower
  induction hheight : g.heights.getD i 0 using Nat.strongRecOn generalizing i with
  | ind height ih =>
      rw [← hheight, heights_eq hg' (h.lt i hi), heights_eq hg hi]
      unfold heightAbove
      rw [← ((h.dependents_perm hg.toProper hg'.toProper hi).map _).foldl_eq, List.map_map]
      refine congrArg (List.foldl max 0) (List.map_congr_left fun k hk => congrArg (· + 1) ?_)
      have hlt := heights_lt hg (mem_dependents_iff.mp hk)
      exact ih _ (hheight ▸ hlt) (hg.dependent_lt hk).2 rfl

/-- Renumbering changes no greatest height. -/
theorem top (h : g.Renumbers g' f) (hg : g.WellFormed) (hg' : g'.WellFormed) :
    g'.heights.foldl max 0 = g.heights.foldl max 0 := by
  rw [heights_eq_map g, heights_eq_map g', ← (h.indices_perm.map _).foldl_eq, List.map_map]
  refine congrArg (List.foldl max 0) (List.map_congr_left fun i hi => ?_)
  exact h.heights hg hg' (List.mem_range.mp hi)

/-- **Renumbering keeps every project in its level.** -/
theorem levelOf (h : g.Renumbers g' f) (hg : g.WellFormed) (hg' : g'.WellFormed) {i : Nat}
    (hi : i < g.size) : g'.levelOf (f i) = g.levelOf i := by
  unfold Graph.levelOf
  rw [h.top hg hg', h.heights hg hg' hi]

/-- Levels do not depend on the numbering. -/
theorem levels (h : g.Renumbers g' f) (hg : g.WellFormed) (hg' : g'.WellFormed) :
    List.Forall₂ (fun level level' => (level.map f).Perm level') g.levels g'.levels := by
  have hlength : g.levels.length = g'.levels.length := by
    rw [levels_length, levels_length, h.size, h.top hg hg']
  refine List.forall₂_iff_get.mpr ⟨hlength, fun n hn hn' => ?_⟩
  refine h.perm_of_mem (levels_getElem_nodup hn) (fun i hi => ((mem_levels_getElem hn).mp hi).1)
    (levels_getElem_nodup hn') (fun i hi => ((mem_levels_getElem hn').mp hi).1) fun i hi => ?_
  rw [List.get_eq_getElem, List.get_eq_getElem, mem_levels_getElem, mem_levels_getElem,
    h.levelOf hg hg' hi]
  exact and_congr_left fun _ => iff_of_true (h.lt i hi) hi

/-! ## In terms of configurations -/

/-- Both graphs have the same projects. -/
theorem nodes_perm (h : g.Renumbers g' f) : g.nodes.Perm g'.nodes := by
  rw [nodes_eq_map g, nodes_eq_map g']
  have hnodes : g.indices.map g.node = (g.indices.map f).map g'.node := by
    rw [List.map_map]
    exact List.map_congr_left fun i hi => (h.node i (List.mem_range.mp hi)).symm
  rw [hnodes]
  exact h.indices_perm.map g'.node

/-- Both graphs have the same edges. -/
theorem edges_perm (h : g.Renumbers g' f) (hg : g.Proper) (hg' : g'.Proper) :
    (g.edges.map fun edge => (f edge.1, f edge.2)).Perm g'.edges := by
  have hnodup : (g.edges.map fun edge => (f edge.1, f edge.2)).Nodup := by
    refine hg.nodup.map_on fun edge hedge other hother heq => ?_
    obtain ⟨hi, hj⟩ := hg.inRange edge hedge
    obtain ⟨hi', hj'⟩ := hg.inRange other hother
    exact Prod.ext (h.injective _ hi _ hi' (Prod.mk.inj heq).1)
      (h.injective _ hj _ hj' (Prod.mk.inj heq).2)
  refine (List.perm_ext_iff_of_nodup hnodup hg'.nodup).mpr fun edge' => ?_
  rw [List.mem_map]
  constructor
  · rintro ⟨edge, hedge, rfl⟩
    obtain ⟨hi, hj⟩ := hg.inRange edge hedge
    exact (h.edges _ hi _ hj).mpr hedge
  · intro hedge'
    obtain ⟨hi', hj'⟩ := hg'.inRange edge' hedge'
    obtain ⟨i, hi, heq⟩ := h.surjective hi'
    obtain ⟨j, hj, heq'⟩ := h.surjective hj'
    have hpair : (f i, f j) = edge' := Prod.ext heq heq'
    exact ⟨(i, j), (h.edges i hi j hj).mp (hpair ▸ hedge'), hpair⟩

/-- **A renumbered graph is the same**, as far as projects and configurations
    go. -/
theorem alike (h : g.Renumbers g' f) (hg : g.WellFormed) (hg' : g'.WellFormed) :
    g.Alike g' := by
  refine ⟨h.nodes_perm, ?_, ?_⟩
  · unfold links
    refine List.Perm.trans (List.Perm.of_eq ?_) ((h.edges_perm hg.toProper hg'.toProper).map _)
    rw [List.map_map]
    refine List.map_congr_left fun edge hedge => ?_
    obtain ⟨hi, hj⟩ := hg.inRange edge hedge
    simp only [Function.comp_apply, h.node _ hi, h.node _ hj]
  · unfold levelPaths
    rw [List.forall₂_map_left_iff, List.forall₂_map_right_iff]
    have hlevels : List.Forall₂ (fun level level' => level ∈ g.levels ∧ (level.map f).Perm level')
        g.levels g'.levels := by
      refine List.forall₂_iff_get.mpr ⟨(h.levels hg hg').length_eq, fun n hn hn' => ?_⟩
      exact ⟨List.get_mem _ _, (h.levels hg hg').get hn hn'⟩
    refine hlevels.imp fun level level' hperm => ?_
    obtain ⟨hlevel, hperm⟩ := hperm
    refine List.Perm.trans (List.Perm.of_eq ?_) (hperm.map fun i => (g'.node i).configPath)
    rw [List.map_map]
    refine List.map_congr_left fun i hi => ?_
    have hlt : i < g.size := by
      refine mem_levels_flatten.mp (List.mem_flatten.mpr ⟨level, hlevel, hi⟩)
    exact congrArg Project.configPath (h.node i hlt).symm

end Renumbers

end ProjectBuild.Graph
