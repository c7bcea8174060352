import ProjectBuild.Proofs.Closure.Reach
import ProjectBuild.Proofs.Graph.Latest
import ProjectBuild.Proofs.Graph.Order

/-! # The levels and the order of a closure

    A loaded graph is the closure of its roots, so a project that nothing
    depends on was asked for: the last reference of a chain from a root to it
    would be an edge.  The last level of a loaded graph is therefore what was
    asked for and is not referenced (`levels_latest`).

    Loading numbers a project behind the projects that it references, so the
    numbers of a loaded graph are its order (`topologicalOrder_least`). -/

/-! ## The least order

    Many orders put every project behind the projects that it references
    (`Graph.IsOrder`).  The one that is computed is the lexicographically least
    of them (`IsOrder.noLater`): whatever another order has next could be placed
    next here too, so it is ready, and of what is ready the least is placed.

    A count that is lowered is that of a project with a reference that is just
    being placed, so it was not zero before (`Proper.counted`). -/

namespace ProjectBuild.Graph

/-- An order in which projects can be built: each project once, behind all
    projects it references. -/
structure IsOrder (g : Graph) (order : List Nat) : Prop where
  perm : order.Perm g.indices
  grounded : ∀ front i back, order = front ++ i :: back → ∀ j ∈ g.dependencies i, j ∈ front

/-- An order is another one, or comes before it lexicographically. -/
def NoLater (order other : List Nat) : Prop :=
  order = other ∨ List.Lex (· < ·) order other

/-- Whenever a project is placed, each of its dependents in turn has a counter
    that can be lowered by one. -/
def Counted (g : Graph) : Prop :=
  ∀ n i ready, (g.placeUpTo n g.start).ready = i :: ready →
    ∀ front dependent back, g.dependents i = front ++ dependent :: back →
      let before := g.placeUpTo n g.start
      let s := front.foldl Placement.release ⟨before.remaining, ready, before.placed ++ [i]⟩
      dependent < s.remaining.length ∧ 0 < s.remaining.getD dependent 0

/-! ## Following an order -/

/-- What is placed next is the first that is ready. -/
theorem place?_eq_some {g : Graph} {s s' : Placement} (h : g.place? s = some s') :
    ∃ i ready, s.ready = i :: ready ∧ s'.placed = s.placed ++ [i] := by
  unfold place? at h
  cases hready : s.ready with
  | nil =>
      rw [hready] at h
      cases h
  | cons i ready =>
      rw [hready] at h
      exact ⟨i, ready, rfl, by rw [← Option.some.inj h, foldl_release_placed]⟩

/-- What has been placed stays where it is. -/
theorem placeUpTo_prefix (g : Graph) (n : Nat) (s : Placement) :
    s.placed <+: (g.placeUpTo n s).placed := by
  induction n generalizing s with
  | zero => exact List.prefix_rfl
  | succ n ih =>
      unfold placeUpTo
      cases hplace : g.place? s with
      | none => exact List.prefix_rfl
      | some s' =>
          obtain ⟨i, ready, -, hplaced⟩ := place?_eq_some hplace
          exact (hplaced ▸ List.prefix_append s.placed [i]).trans (ih s')

/-- What an order has next is ready. -/
theorem IsOrder.mem_ready {g : Graph} {order back : List Nat} {i : Nat} (h : g.IsOrder order)
    {s : Placement} (hs : s.Faithful g) (heq : order = s.placed ++ i :: back) : i ∈ s.ready := by
  have hi : i ∈ g.indices := h.perm.mem_iff.mp (by rw [heq]; simp)
  have hnodup : (s.placed ++ i :: back).Nodup := by
    rw [← heq]
    exact h.perm.nodup_iff.mpr List.nodup_range
  refine (hs.ready i).mpr ⟨List.mem_range.mp hi, ?_, h.grounded s.placed i back heq⟩
  exact fun hplaced => (List.nodup_append.mp hnodup).2.2 i hplaced i List.mem_cons_self rfl

/-- **Placing follows any order until it gets ahead of it.** -/
theorem IsOrder.placeUpTo {g : Graph} (hg : g.Proper) {order : List Nat} (h : g.IsOrder order)
    (n : Nat) {s : Placement} (hs : s.Faithful g) {rest : List Nat}
    (heq : order = s.placed ++ rest) :
    ∃ added, (g.placeUpTo n s).placed = s.placed ++ added ∧
      (added <+: rest ∨ List.Lex (· < ·) added rest) := by
  induction n generalizing s rest with
  | zero => exact ⟨[], (List.append_nil _).symm, Or.inl List.nil_prefix⟩
  | succ n ih =>
      unfold Graph.placeUpTo
      cases hplace : g.place? s with
      | none => exact ⟨[], (List.append_nil _).symm, Or.inl List.nil_prefix⟩
      | some s' =>
          obtain ⟨i, ready, hready, hplaced⟩ := place?_eq_some hplace
          have hs' := place?_faithful hg hs hplace
          obtain ⟨hi, hnot, -⟩ := (hs.ready i).mp (hready ▸ List.mem_cons_self)
          cases rest with
          | nil =>
              -- the order has nothing left, yet it must have `i`
              have hin := h.perm.mem_iff.mpr (List.mem_range.mpr hi)
              rw [heq, List.append_nil] at hin
              exact absurd hin hnot
          | cons j rest =>
              have hj := h.mem_ready hs heq
              have hascending := hs.ascending
              rw [hready] at hj hascending
              rcases List.mem_cons.mp hj with rfl | hj
              · -- the least that is ready is what the order has next
                have heq' : order = s'.placed ++ rest := by
                  rw [heq, hplaced, List.append_assoc, List.singleton_append]
                obtain ⟨added, hadded, hleast⟩ := ih hs' heq'
                refine ⟨j :: added, ?_, hleast.imp (fun hprefix => ?_) List.Lex.cons⟩
                · rw [hadded, hplaced, List.append_assoc, List.singleton_append]
                · exact List.cons_prefix_cons.mpr ⟨rfl, hprefix⟩
              · -- the order has another next, which is greater
                have hlt := (List.pairwise_cons.mp hascending).1 j hj
                obtain ⟨added, hadded⟩ := placeUpTo_prefix g n s'
                refine ⟨i :: added, ?_, Or.inr (List.Lex.rel hlt)⟩
                rw [← hadded, hplaced, List.append_assoc, List.singleton_append]

/-! ## The order that is computed -/

/-- A graph that was built has an order. -/
theorem WellFormed.isOrder {g : Graph} (hg : g.WellFormed) : g.IsOrder g.topologicalOrder where
  perm := (List.perm_ext_iff_of_nodup (topologicalOrder_nodup hg.toProper) List.nodup_range).mpr
    fun _ => (mem_topologicalOrder hg).trans List.mem_range.symm
  grounded := fun _ _ _ h => topologicalOrder_grounded hg.toProper h

/-- **No order comes before the one that is computed.** -/
theorem IsOrder.noLater {g : Graph} (hg : g.WellFormed) {order : List Nat} (h : g.IsOrder order) :
    NoLater g.topologicalOrder order := by
  have hstart : order = g.start.placed ++ order := rfl
  obtain ⟨added, hadded, hleast⟩ := h.placeUpTo hg.toProper g.size (start_faithful g) hstart
  have hplaced : g.topologicalOrder = added := hadded
  rw [hplaced]
  refine hleast.imp (fun hprefix => hprefix.eq_of_length ?_) id
  rw [← hplaced, hg.complete, h.perm.length_eq, indices, List.length_range]

/-- Nothing comes before what ascends and holds the same. -/
theorem not_lex_ascending {xs ys : List Nat} (hperm : xs.Perm ys)
    (hascending : ys.Pairwise (· < ·)) : ¬ List.Lex (· < ·) xs ys := by
  intro hlex
  induction hlex with
  | nil => exact absurd hperm.length_eq (Nat.ne_of_lt (Nat.succ_pos _))
  | @rel a as b bs hlt =>
      rcases List.mem_cons.mp (hperm.mem_iff.mp List.mem_cons_self) with rfl | ha
      · exact Nat.lt_irrefl a hlt
      · exact Nat.lt_asymm hlt ((List.pairwise_cons.mp hascending).1 a ha)
  | cons _ ih => exact ih hperm.cons_inv (List.pairwise_cons.mp hascending).2

/-- **Projects that are numbered behind their references are in order.** -/
theorem topologicalOrder_of_descending {g : Graph} (hg : g.WellFormed)
    (hdescending : ∀ edge ∈ g.edges, edge.2 < edge.1) : g.topologicalOrder = g.indices := by
  have horder : g.IsOrder g.indices := by
    refine ⟨List.Perm.refl _, fun front i back heq j hj => ?_⟩
    have hlt : j < i := hdescending (i, j) (mem_dependencies.mp hj)
    have hascending : (front ++ i :: back).Pairwise (· < ·) := heq ▸ List.pairwise_lt_range
    have hmem : j ∈ front ++ i :: back := heq ▸ List.mem_range.mpr (hg.dependency_lt hj).2
    rcases List.mem_append.mp hmem with hmem | hmem
    · exact hmem
    · rcases List.mem_cons.mp hmem with rfl | hmem
      · exact absurd hlt (Nat.lt_irrefl j)
      · have := (List.pairwise_cons.mp (List.pairwise_append.mp hascending).2.1).1 j hmem
        omega
  refine (horder.noLater hg).resolve_right ?_
  exact not_lex_ascending hg.isOrder.perm List.pairwise_lt_range

/-! ## Counters -/

/-- **No counter is lowered below zero**: the project that is being placed is
    among the references that its dependents still wait for. -/
theorem Proper.counted {g : Graph} (hg : g.Proper) : g.Counted := by
  intro n i ready hready front dependent back hdependents
  have hs := placeUpTo_faithful hg n (start_faithful g)
  obtain ⟨-, hnot, -⟩ := (hs.ready i).mp (hready ▸ List.mem_cons_self)
  have hmem : ∀ d ∈ front ++ dependent :: back, d < g.size := fun d hd =>
    (hg.dependent_lt (hdependents ▸ hd)).2
  have hnodup := hg.dependents_nodup i
  rw [hdependents] at hnodup
  have hdependent : dependent ∉ front := fun hfront =>
    (List.nodup_append.mp hnodup).2.2 dependent hfront dependent List.mem_cons_self rfl
  have hlt : dependent < g.size := hmem dependent (by simp)
  have hrange : ∀ d ∈ front, d < (g.placeUpTo n g.start).remaining.length := fun d hd =>
    hs.length.symm ▸ hmem d (List.mem_append_left _ hd)
  have hwaits : i ∈ (g.dependencies dependent).filter (· ∉ (g.placeUpTo n g.start).placed) := by
    refine List.mem_filter.mpr ⟨mem_dependents_iff.mp ?_, decide_eq_true hnot⟩
    rw [hdependents]
    simp
  constructor
  · rw [foldl_release_length]
    exact hs.length.symm ▸ hlt
  · rw [foldl_release_remaining (List.nodup_append.mp hnodup).1
      ⟨(g.placeUpTo n g.start).remaining, ready, _⟩ hrange, if_neg hdependent,
      hs.counts dependent hlt]
    exact List.length_pos_of_mem hwaits

end ProjectBuild.Graph

/-! ## Closures -/

namespace ProjectBuild.Graph

section closure

variable {g : Graph} {fs : MemoryFs} {roots : List Path} (h : g.IsClosure fs roots)
include h

/-- The roots of a closure are the projects that the root list names. -/
theorem IsClosure.mem_roots {i : Nat} : i ∈ g.roots ↔ i < g.size ∧ ∃ root ∈ roots, ∃ p,
    Closure.resolveRoot fs root = .ok p ∧ (g.node i).configPath.same p = true := by
  obtain ⟨named, hnamed, hroots⟩ := h.roots
  have hresolved : ∀ p, p ∈ named ↔ ∃ root ∈ roots, Closure.resolveRoot fs root = .ok p := by
    intro p
    have hmem : Except.ok p ∈ roots.map (Closure.resolveRoot fs) ↔ p ∈ named := by
      rw [hnamed]
      exact List.mem_map_of_injective fun _ _ => Except.ok.inj
    rw [← hmem, List.mem_map]
  obtain ⟨-, hsub, hsup⟩ := Closure.eraseDupsBy_same named
  constructor
  · intro hi
    obtain ⟨k, hk, rfl⟩ := List.mem_iff_getElem.mp hi
    have hk' := hroots.length_eq ▸ hk
    obtain ⟨hlt, hsame⟩ := List.Forall₂.get hroots hk hk'
    obtain ⟨root, hroot, hp⟩ := (hresolved _).mp (hsub _ (List.getElem_mem hk'))
    exact ⟨hlt, root, hroot, _, hp, hsame⟩
  · rintro ⟨hi, root, hroot, p, hp, hsame⟩
    obtain ⟨q, hq, hqp⟩ := hsup p ((hresolved p).mpr ⟨root, hroot, hp⟩)
    obtain ⟨k, hk, rfl⟩ := List.mem_iff_getElem.mp hq
    have hk' := hroots.length_eq.symm ▸ hk
    obtain ⟨hlt, hsame'⟩ := List.Forall₂.get hroots hk' hk
    have heq : g.roots[k] = i := by
      by_contra hne
      refine h.distinct _ hlt i hi hne ?_
      rw [Path.same_iff.mp hsame, ← hqp]
      exact Path.same_iff.mp hsame'
    exact heq ▸ List.getElem_mem hk'

/-- What nothing depends on is what no loaded project mentions. -/
theorem IsClosure.dependents_eq_nil_iff {i : Nat} (hi : i < g.size) :
    g.dependents i = [] ↔ ∀ j < g.size, ∀ p, Closure.Mentions fs (g.node j).configPath p →
      (g.node i).configPath.same p = false := by
  rw [Graph.dependents_eq_nil_iff]
  constructor
  · intro hnone j hj p hmentions
    by_contra hsame
    exact hnone j ((h.edges j i).mpr ⟨hj, hi, p, hmentions, Bool.not_eq_false _ ▸ hsame⟩)
  · intro hnone j hedge
    obtain ⟨hj, -, p, hmentions, hsame⟩ := (h.edges j i).mp hedge
    exact nomatch (hnone j hj p hmentions).symm.trans hsame

/-- **What nothing depends on is a root.** -/
theorem IsClosure.mem_roots_of_dependents {i : Nat} (hi : i < g.size)
    (hdependents : g.dependents i = []) : i ∈ g.roots := by
  obtain ⟨root, hroot, p, hp, hchain⟩ := h.reachable i hi
  -- the chain from the root has no last reference, so it has none
  rcases Relation.ReflTransGen.cases_tail hchain with heq | ⟨q, hpq, hmentions⟩
  · exact h.mem_roots.mpr ⟨hi, root, hroot, p, hp, Path.same_iff.mpr (congrArg _ heq)⟩
  · obtain ⟨j, hj, hsame⟩ := h.complete q ⟨root, hroot, p, hp, hpq⟩
    have hnone := (h.dependents_eq_nil_iff hi).mp hdependents j hj _
      (hmentions.congr (Path.same_iff.mp hsame).symm)
    exact absurd (Path.same_iff.mpr rfl) (Bool.eq_false_iff.mp hnone)

/-- What nothing depends on are the roots that no project mentions. -/
theorem IsClosure.dependents_eq_nil_iff_root {i : Nat} :
    i < g.size ∧ g.dependents i = [] ↔ i ∈ g.roots ∧ ∀ j < g.size, ∀ p,
      Closure.Mentions fs (g.node j).configPath p → (g.node i).configPath.same p = false := by
  constructor
  · rintro ⟨hi, hdependents⟩
    exact ⟨h.mem_roots_of_dependents hi hdependents, (h.dependents_eq_nil_iff hi).mp hdependents⟩
  · rintro ⟨hroot, hnone⟩
    have hi := (h.mem_roots.mp hroot).1
    exact ⟨hi, (h.dependents_eq_nil_iff hi).mpr hnone⟩

end closure

/-- **The levels are the latest that references allow**, in every graph that is
    built; and the last level of a graph that is loaded is what was asked for
    and no loaded project references. -/
theorem levels_latest :
    (∀ nodes edges roots g, ofEdges nodes edges roots = .ok g → g.LatestLevels g.levels) ∧
    ∀ (fs : MemoryFs) roots g, (loadGraph fs roots).value = .ok g →
      (∀ i, i ∈ g.roots ↔ i < g.size ∧ ∃ root ∈ roots, ∃ p,
        Closure.resolveRoot fs root = .ok p ∧ (g.node i).configPath.same p = true) ∧
      ∀ i, i ∈ g.levels.getLast?.getD [] ↔ i ∈ g.roots ∧ ∀ j < g.size, ∀ p,
        Closure.Mentions fs (g.node j).configPath p → (g.node i).configPath.same p = false := by
  constructor
  · exact fun nodes edges roots g hg => (wellFormed_of_ofEdges hg).latestLevels
  · intro fs roots g hg
    obtain ⟨indices, s, hvisit, hedges⟩ := loadGraph_ok hg
    obtain ⟨g', hg', hclosure⟩ := Closure.ofEdges_visitRoots hvisit
    obtain rfl := Except.ok.inj (hedges.symm.trans hg')
    refine ⟨fun i => hclosure.mem_roots, fun i => ?_⟩
    rw [mem_getLast?_levels (wellFormed_of_ofEdges hedges)]
    exact hclosure.dependents_eq_nil_iff_root

/-- A project that two others reference, which do not reference each other, and
    two projects that were loaded. -/
theorem levels_latest_two :
    (∃ g, ofEdges threeProjects [(1, 0), (2, 0)] [1, 2] = .ok g ∧ g.LatestLevels g.levels) ∧
    ∀ i, i ∈ pairGraph.levels.getLast?.getD [] ↔ i ∈ pairGraph.roots ∧ ∀ j < pairGraph.size,
      ∀ p, Closure.Mentions pairFiles (pairGraph.node j).configPath p →
        (pairGraph.node i).configPath.same p = false := by
  constructor
  · have hg : ofEdges threeProjects [(1, 0), (2, 0)] [1, 2]
        = .ok ⟨threeProjects, distinct [(1, 0), (2, 0)], distinct [1, 2]⟩ :=
      ofEdges_of_descending (by decide) (by decide) (by decide)
    exact ⟨_, hg, levels_latest.1 _ _ _ _ hg⟩
  · exact (levels_latest.2 _ _ _ pairGraph_loaded).2

/-! ## The order -/

/-- The edges of a loaded graph lead to smaller numbers. -/
theorem descending_of_loadGraph {σ : Type} [FileSystem σ] {fs : σ} {roots : List Path} {g : Graph}
    (hg : (loadGraph fs roots).value = .ok g) : ∀ edge ∈ g.edges, edge.2 < edge.1 := by
  obtain ⟨indices, s, hvisit, hedges⟩ := loadGraph_ok hg
  obtain ⟨hexplored, -⟩ := Closure.visitRoots_explored hvisit
  intro edge hedge
  rw [eq_of_ofEdges hedges] at hedge
  exact (hexplored.descending edge (mem_distinct.mp hedge)).1

/-- **The order is the least** of those that put every project behind its
    references, in every graph that is built, and no counter is ever lowered below
    zero on the way to it.  In a graph that is loaded it is that of the numbers. -/
theorem topologicalOrder_least :
    (∀ nodes edges roots g, ofEdges nodes edges roots = .ok g →
      g.IsOrder g.topologicalOrder ∧
        (∀ order, g.IsOrder order → NoLater g.topologicalOrder order) ∧ g.Counted) ∧
    ∀ {σ : Type} [FileSystem σ] (fs : σ) roots g, (loadGraph fs roots).value = .ok g →
      g.topologicalOrder = List.range g.size := by
  constructor
  · intro nodes edges roots g hg
    have hwell := wellFormed_of_ofEdges hg
    exact ⟨hwell.isOrder, fun order horder => horder.noLater hwell, hwell.toProper.counted⟩
  · intro σ _ fs roots g hg
    exact topologicalOrder_of_descending (loadGraph_wellFormed hg) (descending_of_loadGraph hg)

/-- Three projects of which the first needs the last; the orders `2, 0, 1` and
    `2, 1, 0` are left behind `1, 2, 0`.  And two projects that were loaded. -/
theorem topologicalOrder_least_three :
    (∃ g, ofEdges threeProjects [(0, 2)] [0] = .ok g ∧ g.topologicalOrder = [1, 2, 0] ∧
      g.IsOrder [1, 2, 0] ∧ g.Counted ∧
      ∀ order, g.IsOrder order → NoLater [1, 2, 0] order) ∧
    pairGraph.topologicalOrder = List.range pairGraph.size := by
  constructor
  · obtain ⟨g, hg, horder⟩ := Graph.loaded_of_map (f := topologicalOrder) (b := [1, 2, 0])
      (x := ofEdges threeProjects [(0, 2)] [0]) (by decide +kernel)
    obtain ⟨hisOrder, hleast, hcounted⟩ := topologicalOrder_least.1 _ _ _ _ hg
    rw [horder] at hisOrder hleast
    exact ⟨g, hg, horder, hisOrder, hcounted, hleast⟩
  · exact topologicalOrder_least.2 _ _ _ pairGraph_loaded

end ProjectBuild.Graph
