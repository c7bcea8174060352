import Mathlib.Data.List.Induction
import Mathlib.Data.List.Nodup
import Mathlib.Data.List.Perm.Subperm
import ProjectBuild.Graph.Build

/-! # The topological order

    Building a graph fails for an index out of range or an incomplete order,
    and for nothing else (`ofEdges_eq_ok_iff`).

    The counters that produce the order are read off the set of placed
    projects: a project's counter is the number of its references that are
    not placed, and it is ready when that number is zero.  The order that
    results never repeats a project and puts every project behind all of its
    references (`topologicalOrder_grounded`).  A graph that building accepted
    (`WellFormed`) has all its projects in that order. -/

namespace ProjectBuild

/-! ## Lists without repeats -/

/-- A list built up from the front, without what is already there. -/
theorem eraseDupsBy_loop {α : Type} (r : α → α → Bool) (xs seen : List α) :
    List.eraseDupsBy.loop r xs seen.reverse
      = xs.foldl (fun seen x => if seen.any (r x) then seen else seen ++ [x]) seen := by
  induction xs generalizing seen with
  | nil =>
      rw [List.eraseDupsBy.loop, List.reverse_reverse]
      rfl
  | cons x rest ih =>
      rw [List.eraseDupsBy.loop, List.any_reverse, List.foldl_cons]
      cases hx : seen.any (r x) with
      | true => exact ih seen
      | false =>
          have := ih (seen ++ [x])
          rw [List.reverse_append] at this
          exact this

theorem eraseDupsBy_eq {α : Type} (r : α → α → Bool) (xs : List α) :
    xs.eraseDupsBy r
      = xs.foldl (fun seen x => if seen.any (r x) then seen else seen ++ [x]) [] :=
  eraseDupsBy_loop r xs []

/-- The first of equal elements keeps its place. -/
theorem distinct_eq_eraseDups {α : Type} [BEq α] [LawfulBEq α] (xs : List α) :
    distinct xs = xs.eraseDups := by
  refine Eq.trans ?_ (eraseDupsBy_eq (· == ·) xs).symm
  unfold distinct
  simp only [List.contains_eq_any_beq]

/-- One more element is kept if it is new. -/
theorem distinct_concat {α : Type} [BEq α] (xs : List α) (x : α) :
    distinct (xs ++ [x])
      = if (distinct xs).contains x then distinct xs else distinct xs ++ [x] :=
  List.foldl_concat _ _ _ _

/-- Dropping repeats loses nothing. -/
theorem mem_distinct {α : Type} [BEq α] [LawfulBEq α] {xs : List α} {x : α} :
    x ∈ distinct xs ↔ x ∈ xs := by
  rw [distinct_eq_eraseDups, List.mem_eraseDups]

/-- What is left has no repeats. -/
theorem distinct_nodup {α : Type} [BEq α] [LawfulBEq α] (xs : List α) :
    (distinct xs).Nodup := by
  induction xs using List.reverseRecOn with
  | nil => exact List.nodup_nil
  | append_singleton xs x ih =>
      rw [distinct_concat]
      split
      · exact ih
      · rename_i hx
        rw [List.contains_iff_mem] at hx
        rw [← List.concat_eq_append]
        exact ih.concat hx

/-- Without repeats, nothing is dropped. -/
theorem distinct_eq_of_nodup {α : Type} [BEq α] [LawfulBEq α] {xs : List α} (h : xs.Nodup) :
    distinct xs = xs := by
  induction xs using List.reverseRecOn with
  | nil => rfl
  | append_singleton xs x ih =>
      have hxs := List.nodup_append.mp h
      have hx : x ∉ xs := fun hx => hxs.2.2 x hx x List.mem_cons_self rfl
      rw [distinct_concat, ih hxs.1, if_neg fun hc => hx (List.contains_iff_mem.mp hc)]

/-- Repeats can be dropped before a selection or after it. -/
theorem distinct_filter {α : Type} [BEq α] [LawfulBEq α] (p : α → Bool) (xs : List α) :
    (distinct xs).filter p = distinct (xs.filter p) := by
  induction xs using List.reverseRecOn with
  | nil => rfl
  | append_singleton xs x ih =>
      rw [distinct_concat, List.filter_append, List.filter_singleton]
      cases hp : p x with
      | false =>
          rw [cond_false, List.append_nil, ← ih]
          split
          · rfl
          · rw [List.filter_append, List.filter_singleton, hp, cond_false, List.append_nil]
      | true =>
          have hmem : (distinct xs).contains x = ((distinct xs).filter p).contains x := by
            rw [Bool.eq_iff_iff, List.contains_iff_mem, List.contains_iff_mem, List.mem_filter]
            exact ⟨fun h => ⟨h, hp⟩, And.left⟩
          rw [cond_true, distinct_concat, ← ih, ← hmem]
          split
          · rfl
          · rw [List.filter_append, List.filter_singleton, hp, cond_true]

/-- Repeats can be dropped before a renaming or after it. -/
theorem distinct_map {α β : Type} [BEq α] [LawfulBEq α] [BEq β] [LawfulBEq β] (f : α → β)
    (xs : List α) (hf : ∀ a ∈ xs, ∀ b ∈ xs, f a = f b → a = b) :
    distinct (xs.map f) = (distinct xs).map f := by
  induction xs using List.reverseRecOn with
  | nil => rfl
  | append_singleton xs x ih =>
      have hxs := ih fun a ha b hb => hf a (List.mem_append_left _ ha) b (List.mem_append_left _ hb)
      have hmem : (distinct xs).contains x = ((distinct xs).map f).contains (f x) := by
        rw [Bool.eq_iff_iff, List.contains_iff_mem, List.contains_iff_mem, List.mem_map]
        refine ⟨fun h => ⟨x, h, rfl⟩, ?_⟩
        rintro ⟨a, ha, heq⟩
        rwa [← hf a (List.mem_append_left _ (mem_distinct.mp ha)) x (by simp) heq]
      rw [List.map_append, List.map_singleton, distinct_concat, distinct_concat, hxs, ← hmem]
      split
      · rfl
      · rw [List.map_append, List.map_singleton]

namespace Graph

/-- Edges are in range and not repeated. -/
structure Proper (g : Graph) : Prop where
  inRange : ∀ edge ∈ g.edges, edge.1 < g.size ∧ edge.2 < g.size
  nodup : g.edges.Nodup

/-- What building a graph makes sure of: its edges are proper, and every
    project has a place in the order. -/
structure WellFormed (g : Graph) : Prop extends g.Proper where
  complete : g.topologicalOrder.length = g.size

/-! ## Building -/

/-- The indices that edges and roots mention are those of projects. -/
structure InRange (size : Nat) (edges : List (Nat × Nat)) (roots : List Nat) : Prop where
  edges : ∀ edge ∈ edges, edge.1 < size ∧ edge.2 < size
  roots : ∀ i ∈ roots, i < size

/-- No end is unknown if both ends of each edge are projects. -/
theorem unknownEnd?_eq_none_iff {size : Nat} {edges : List (Nat × Nat)} :
    unknownEnd? size edges = none ↔ ∀ edge ∈ edges, edge.1 < size ∧ edge.2 < size := by
  unfold unknownEnd?
  rw [List.find?_eq_none]
  constructor
  · intro h edge hedge
    have h1 := h edge.1 (List.mem_flatMap.mpr ⟨edge, hedge, by simp⟩)
    have h2 := h edge.2 (List.mem_flatMap.mpr ⟨edge, hedge, by simp⟩)
    simp only [decide_eq_true_eq, Nat.not_le] at h1 h2
    exact ⟨h1, h2⟩
  · intro h i hi
    obtain ⟨edge, hedge, hi⟩ := List.mem_flatMap.mp hi
    simp only [List.mem_cons, List.not_mem_nil, or_false] at hi
    simp only [decide_eq_true_eq, Nat.not_le]
    rcases hi with rfl | rfl
    · exact (h edge hedge).1
    · exact (h edge hedge).2

/-- With all indices in range, the order decides. -/
theorem ofEdges_of_inRange {nodes : List Project} {edges : List (Nat × Nat)} {roots : List Nat}
    (h : InRange nodes.length edges roots) {g : Graph}
    (hg : g = ⟨nodes, distinct edges, distinct roots⟩) :
    ofEdges nodes edges roots
      = if g.topologicalOrder.length = g.size then .ok g
        else .error (.cycle ((g.cycle?.getD []).map fun i => (g.node i).configPath)) := by
  subst hg
  have hroots : roots.find? (fun i => decide (nodes.length ≤ i)) = none := by
    refine List.find?_eq_none.mpr fun i hi => ?_
    simpa using h.roots i hi
  unfold ofEdges
  rw [unknownEnd?_eq_none_iff.mpr h.edges, hroots]

/-- **What building accepts**: indices in range, with a place in the order for
    every project. -/
theorem ofEdges_eq_ok_iff {nodes : List Project} {edges : List (Nat × Nat)} {roots : List Nat}
    {g : Graph} :
    ofEdges nodes edges roots = .ok g ↔
      InRange nodes.length edges roots ∧ g = ⟨nodes, distinct edges, distinct roots⟩ ∧
        g.topologicalOrder.length = g.size := by
  constructor
  · intro h
    have hrange : InRange nodes.length edges roots := by
      unfold ofEdges at h
      cases hends : unknownEnd? nodes.length edges with
      | some i => rw [hends] at h; cases h
      | none =>
          rw [hends] at h
          cases hroots : roots.find? fun i => decide (nodes.length ≤ i) with
          | some i => rw [hroots] at h; cases h
          | none =>
              refine ⟨unknownEnd?_eq_none_iff.mp hends, fun i hi => ?_⟩
              simpa using List.find?_eq_none.mp hroots i hi
    rw [ofEdges_of_inRange hrange rfl] at h
    split at h
    · rename_i hlength
      obtain rfl := Except.ok.inj h
      exact ⟨hrange, rfl, hlength⟩
    · cases h
  · rintro ⟨hrange, hg, hlength⟩
    rw [ofEdges_of_inRange hrange hg, if_pos hlength]

/-- A graph holds what it was built from. -/
theorem eq_of_ofEdges {nodes : List Project} {edges : List (Nat × Nat)} {roots : List Nat}
    {g : Graph} (h : ofEdges nodes edges roots = .ok g) :
    g = ⟨nodes, distinct edges, distinct roots⟩ :=
  (ofEdges_eq_ok_iff.mp h).2.1

/-- Edges in range make a proper graph. -/
theorem InRange.proper {nodes : List Project} {edges : List (Nat × Nat)} {roots : List Nat}
    (h : InRange nodes.length edges roots) (kept : List Nat) :
    (Graph.mk nodes (distinct edges) kept).Proper :=
  ⟨fun edge hedge => h.edges edge (mem_distinct.mp hedge), distinct_nodup edges⟩

/-- Building a graph accepts well-formed graphs only. -/
theorem wellFormed_of_ofEdges {nodes : List Project} {edges : List (Nat × Nat)}
    {roots : List Nat} {g : Graph} (h : ofEdges nodes edges roots = .ok g) :
    g.WellFormed := by
  obtain ⟨hrange, rfl, hlength⟩ := ofEdges_eq_ok_iff.mp h
  exact ⟨hrange.proper _, hlength⟩

/-! ## Neighbours -/

/-- A project depends on what its edges lead to. -/
theorem mem_dependencies {g : Graph} {i j : Nat} :
    j ∈ g.dependencies i ↔ (i, j) ∈ g.edges := by
  unfold dependencies
  rw [List.mem_map]
  constructor
  · rintro ⟨⟨a, b⟩, hmem, rfl⟩
    obtain ⟨hmem, ha⟩ := List.mem_filter.mp hmem
    rw [← beq_iff_eq.mp ha]
    exact hmem
  · intro h
    exact ⟨(i, j), List.mem_filter.mpr ⟨h, beq_self_eq_true i⟩, rfl⟩

/-- What depends on a project are those whose edges lead to it. -/
theorem mem_dependents {g : Graph} {i j : Nat} :
    j ∈ g.dependents i ↔ (j, i) ∈ g.edges := by
  unfold dependents
  rw [List.mem_map]
  constructor
  · rintro ⟨⟨a, b⟩, hmem, rfl⟩
    obtain ⟨hmem, hb⟩ := List.mem_filter.mp hmem
    rw [← beq_iff_eq.mp hb]
    exact hmem
  · intro h
    exact ⟨(j, i), List.mem_filter.mpr ⟨h, beq_self_eq_true i⟩, rfl⟩

/-- Dependents and dependencies are inverse views of the edges. -/
theorem mem_dependents_iff {g : Graph} {i j : Nat} :
    j ∈ g.dependents i ↔ i ∈ g.dependencies j := by
  rw [mem_dependents, mem_dependencies]

/-- Nothing depends on a project if no edge leads to it. -/
theorem dependents_eq_nil_iff {g : Graph} {i : Nat} :
    g.dependents i = [] ↔ ∀ j, (j, i) ∉ g.edges := by
  rw [List.eq_nil_iff_forall_not_mem]
  exact forall_congr' fun j => not_congr mem_dependents

/-- No dependency is listed twice. -/
theorem Proper.dependencies_nodup {g : Graph} (hg : g.Proper) (i : Nat) :
    (g.dependencies i).Nodup := by
  refine List.Nodup.map_on ?_ (hg.nodup.filter _)
  rintro ⟨a, b⟩ ha ⟨c, d⟩ hc hbd
  have h1 := beq_iff_eq.mp (List.mem_filter.mp ha).2
  have h2 := beq_iff_eq.mp (List.mem_filter.mp hc).2
  exact Prod.ext (h1.trans h2.symm) hbd

/-- No dependent is listed twice. -/
theorem Proper.dependents_nodup {g : Graph} (hg : g.Proper) (i : Nat) :
    (g.dependents i).Nodup := by
  refine List.Nodup.map_on ?_ (hg.nodup.filter _)
  rintro ⟨a, b⟩ ha ⟨c, d⟩ hc hac
  have h1 := beq_iff_eq.mp (List.mem_filter.mp ha).2
  have h2 := beq_iff_eq.mp (List.mem_filter.mp hc).2
  exact Prod.ext hac (h1.trans h2.symm)

/-- Dependencies are projects of the graph. -/
theorem Proper.dependency_lt {g : Graph} (hg : g.Proper) {i j : Nat}
    (h : j ∈ g.dependencies i) : i < g.size ∧ j < g.size :=
  hg.inRange (i, j) (mem_dependencies.mp h)

/-- Dependents are projects of the graph. -/
theorem Proper.dependent_lt {g : Graph} (hg : g.Proper) {i j : Nat}
    (h : j ∈ g.dependents i) : i < g.size ∧ j < g.size :=
  (hg.inRange (j, i) (mem_dependents.mp h)).symm

/-! ## Ascending insertion -/

theorem mem_insertAscending {i j : Nat} {xs : List Nat} :
    j ∈ insertAscending i xs ↔ j = i ∨ j ∈ xs := by
  induction xs with
  | nil => simp [insertAscending]
  | cons x rest ih =>
      unfold insertAscending
      by_cases h1 : i < x
      · rw [if_pos h1, List.mem_cons]
      · rw [if_neg h1]
        by_cases h2 : i = x
        · rw [if_pos h2, List.mem_cons, h2]
          constructor
          · exact Or.inr
          · rintro (rfl | h)
            · exact Or.inl rfl
            · exact h
        · rw [if_neg h2, List.mem_cons, ih, List.mem_cons]
          constructor
          · rintro (h | h | h)
            · exact Or.inr (Or.inl h)
            · exact Or.inl h
            · exact Or.inr (Or.inr h)
          · rintro (h | h | h)
            · exact Or.inr (Or.inl h)
            · exact Or.inl h
            · exact Or.inr (Or.inr h)

/-- An index is inserted in its place. -/
theorem insertAscending_pairwise {i : Nat} {xs : List Nat}
    (h : xs.Pairwise (· < ·)) : (insertAscending i xs).Pairwise (· < ·) := by
  induction xs with
  | nil => exact List.pairwise_singleton _ i
  | cons x rest ih =>
      obtain ⟨hx, hrest⟩ := List.pairwise_cons.mp h
      unfold insertAscending
      by_cases h1 : i < x
      · rw [if_pos h1]
        refine List.pairwise_cons.mpr ⟨?_, h⟩
        intro y hy
        rcases List.mem_cons.mp hy with rfl | hy
        · exact h1
        · exact Nat.lt_trans h1 (hx y hy)
      · rw [if_neg h1]
        by_cases h2 : i = x
        · rw [if_pos h2]
          exact h
        · rw [if_neg h2]
          refine List.pairwise_cons.mpr ⟨?_, ih hrest⟩
          intro y hy
          rcases mem_insertAscending.mp hy with rfl | hy
          · omega
          · exact hx y hy

/-! ## Releasing dependents -/

theorem foldl_release_placed (ds : List Nat) (s : Placement) :
    (ds.foldl Placement.release s).placed = s.placed := by
  induction ds generalizing s with
  | nil => rfl
  | cons d rest ih =>
      rw [List.foldl_cons, ih]
      rfl

theorem foldl_release_length (ds : List Nat) (s : Placement) :
    (ds.foldl Placement.release s).remaining.length = s.remaining.length := by
  induction ds generalizing s with
  | nil => rfl
  | cons d rest ih =>
      rw [List.foldl_cons, ih]
      exact List.length_set

private theorem getD_set {xs : List Nat} {i j v : Nat} (hi : i < xs.length) :
    (xs.set i v).getD j 0 = if i = j then v else xs.getD j 0 := by
  simp only [List.getD_eq_getElem?_getD, List.getElem?_set]
  by_cases h : i = j
  · subst h
    simp [hi]
  · simp [h]

/-- The counters of what is released go down by one, and no others. -/
theorem foldl_release_remaining {ds : List Nat} (hnd : ds.Nodup) (s : Placement)
    (hlt : ∀ d ∈ ds, d < s.remaining.length) (j : Nat) :
    (ds.foldl Placement.release s).remaining.getD j 0
      = if j ∈ ds then s.remaining.getD j 0 - 1 else s.remaining.getD j 0 := by
  induction ds generalizing s with
  | nil => simp
  | cons d rest ih =>
      obtain ⟨hd, hnd'⟩ := List.nodup_cons.mp hnd
      have hlen : (s.release d).remaining.length = s.remaining.length := List.length_set
      have hdl : d < s.remaining.length := hlt d List.mem_cons_self
      have hset : (s.release d).remaining.getD j 0
          = if d = j then s.remaining.getD d 0 - 1 else s.remaining.getD j 0 :=
        getD_set hdl
      rw [List.foldl_cons, ih hnd' (s.release d)
        (fun e he => by rw [hlen]; exact hlt e (List.mem_cons_of_mem d he)), hset]
      by_cases hdj : d = j
      · subst hdj
        rw [if_neg hd, if_pos rfl, if_pos List.mem_cons_self]
      · rw [if_neg hdj]
        by_cases hj : j ∈ rest
        · rw [if_pos hj, if_pos (List.mem_cons_of_mem d hj)]
        · rw [if_neg hj, if_neg]
          intro h
          rcases List.mem_cons.mp h with h | h
          · exact hdj h.symm
          · exact hj h

/-- What is released becomes ready once its counter is used up. -/
theorem foldl_release_ready {ds : List Nat} (hnd : ds.Nodup) (s : Placement)
    (hlt : ∀ d ∈ ds, d < s.remaining.length) (j : Nat) :
    j ∈ (ds.foldl Placement.release s).ready
      ↔ j ∈ s.ready ∨ (j ∈ ds ∧ s.remaining.getD j 0 - 1 = 0) := by
  induction ds generalizing s with
  | nil => simp
  | cons d rest ih =>
      obtain ⟨hd, hnd'⟩ := List.nodup_cons.mp hnd
      have hlen : (s.release d).remaining.length = s.remaining.length := List.length_set
      have hdl : d < s.remaining.length := hlt d List.mem_cons_self
      -- `d` comes once in the list, so it is released here and not again
      have hset : (s.release d).remaining.getD j 0
          = if d = j then s.remaining.getD d 0 - 1 else s.remaining.getD j 0 :=
        getD_set hdl
      have hready : j ∈ (s.release d).ready
          ↔ j ∈ s.ready ∨ (j = d ∧ s.remaining.getD d 0 - 1 = 0) := by
        show j ∈ (if s.remaining.getD d 0 - 1 = 0 then insertAscending d s.ready
          else s.ready) ↔ _
        by_cases h0 : s.remaining.getD d 0 - 1 = 0
        · rw [if_pos h0, mem_insertAscending]
          constructor
          · rintro (h | h)
            · exact Or.inr ⟨h, h0⟩
            · exact Or.inl h
          · rintro (h | h)
            · exact Or.inr h
            · exact Or.inl h.1
        · rw [if_neg h0]
          constructor
          · exact Or.inl
          · rintro (h | h)
            · exact h
            · exact absurd h.2 h0
      rw [List.foldl_cons, ih hnd' (s.release d)
        (fun e he => by rw [hlen]; exact hlt e (List.mem_cons_of_mem d he)), hready, hset,
        List.mem_cons]
      by_cases hdj : d = j
      · subst hdj
        simp [hd]
      · have hjd : ¬ j = d := fun h => hdj h.symm
        simp [hdj, hjd]

/-- What is ready stays in ascending order. -/
theorem foldl_release_ascending (ds : List Nat) (s : Placement)
    (h : s.ready.Pairwise (· < ·)) :
    (ds.foldl Placement.release s).ready.Pairwise (· < ·) := by
  induction ds generalizing s with
  | nil => exact h
  | cons d rest ih =>
      rw [List.foldl_cons]
      apply ih
      show (if s.remaining.getD d 0 - 1 = 0 then insertAscending d s.ready
        else s.ready).Pairwise (· < ·)
      by_cases h0 : s.remaining.getD d 0 - 1 = 0
      · rw [if_pos h0]
        exact insertAscending_pairwise h
      · rw [if_neg h0]
        exact h

/-! ## Placing -/

/-- The counters of a placement tell the truth about the projects it has
    placed, and no project was placed before one of its references. -/
structure Placement.Faithful (g : Graph) (s : Placement) : Prop where
  length : s.remaining.length = g.size
  counts : ∀ i < g.size,
    s.remaining.getD i 0 = ((g.dependencies i).filter (· ∉ s.placed)).length
  ready : ∀ i, i ∈ s.ready
    ↔ i < g.size ∧ i ∉ s.placed ∧ ∀ j ∈ g.dependencies i, j ∈ s.placed
  ascending : s.ready.Pairwise (· < ·)
  nodup : s.placed.Nodup
  bounded : ∀ i ∈ s.placed, i < g.size
  grounded : ∀ front i back, s.placed = front ++ i :: back →
    ∀ j ∈ g.dependencies i, j ∈ front

/-- At first, the counters tell how many dependencies are not placed yet. -/
theorem start_faithful (g : Graph) : (g.start).Faithful g := by
  constructor
  case length => simp [start, indices]
  case counts =>
    intro i hi
    simp [start, indices, List.getD_eq_getElem?_getD, hi]
  case ready =>
    intro i
    simp only [start, indices, List.mem_filter, List.mem_range, List.isEmpty_iff,
      List.not_mem_nil, not_false_eq_true, true_and]
    constructor
    · rintro ⟨hi, hd⟩
      exact ⟨hi, by rw [hd]; simp⟩
    · rintro ⟨hi, hd⟩
      exact ⟨hi, List.eq_nil_iff_forall_not_mem.mpr hd⟩
  case ascending => exact List.pairwise_lt_range.filter _
  case nodup => exact List.nodup_nil
  case bounded =>
    intro i hi
    exact nomatch hi
  case grounded =>
    intro front i back h
    have : ([] : List Nat).length = (front ++ i :: back).length := congrArg List.length h
    simp at this

/-- Placing one more leaves one less of those it is among. -/
private theorem length_filter_append {xs placed : List Nat} {i : Nat} (hnd : xs.Nodup)
    (hi : i ∉ placed) :
    (xs.filter (· ∉ placed ++ [i])).length
      = if i ∈ xs then (xs.filter (· ∉ placed)).length - 1
        else (xs.filter (· ∉ placed)).length := by
  have hsplit : xs.filter (· ∉ placed ++ [i]) = (xs.filter (· ∉ placed)).erase i := by
    rw [(hnd.filter _).erase_eq_filter, List.filter_filter]
    apply List.filter_congr
    intro x _
    simp only [List.mem_append, List.mem_singleton, not_or, bne]
    by_cases hx : x = i <;> simp [hx]
  rw [hsplit]
  by_cases hmem : i ∈ xs
  · rw [if_pos hmem, List.length_erase_of_mem (List.mem_filter.mpr ⟨hmem, by simpa using hi⟩)]
  · rw [if_neg hmem, List.erase_of_not_mem]
    intro h
    exact hmem (List.mem_filter.mp h).1

/-- A counter is at its end when it waits for nothing. -/
private theorem length_filter_eq_zero {xs placed : List Nat} :
    (xs.filter (· ∉ placed)).length = 0 ↔ ∀ k ∈ xs, k ∈ placed := by
  simp [List.filter_eq_nil_iff]

/-- What is placed has its references placed. -/
theorem Placement.Faithful.closed {g : Graph} {s : Placement} (h : s.Faithful g) {i j : Nat}
    (hi : i ∈ s.placed) (hj : j ∈ g.dependencies i) : j ∈ s.placed := by
  obtain ⟨front, back, hsplit⟩ := List.append_of_mem hi
  rw [hsplit]
  exact List.mem_append_left _ (h.grounded front i back hsplit j hj)

/-- **What placing a project does**: it is the first of those that are ready, and
    the projects that refer to it have one reference less to wait for. -/
structure Placement.Places (g : Graph) (s : Placement) (i : Nat) (rest : List Nat)
    (s' : Placement) : Prop where
  first : s.ready = i :: rest
  placed : s'.placed = s.placed ++ [i]
  length : s'.remaining.length = s.remaining.length
  remaining : ∀ j, s'.remaining.getD j 0
    = if j ∈ g.dependents i then s.remaining.getD j 0 - 1 else s.remaining.getD j 0
  ready : ∀ j, j ∈ s'.ready ↔ j ∈ rest ∨ (j ∈ g.dependents i ∧ s.remaining.getD j 0 - 1 = 0)
  ascending : rest.Pairwise (· < ·) → s'.ready.Pairwise (· < ·)

/-- **One round places** the first project that is ready. -/
theorem place?_places {g : Graph} (hg : g.Proper) {s s' : Placement}
    (hlength : s.remaining.length = g.size) (h : g.place? s = some s') :
    ∃ i rest, s.Places g i rest s' := by
  unfold place? at h
  cases hready : s.ready with
  | nil =>
      rw [hready] at h
      exact nomatch h
  | cons i rest =>
      rw [hready] at h
      obtain rfl := Option.some.inj h
      have hlt : ∀ d ∈ g.dependents i, d < s.remaining.length := by
        intro d hd
        rw [hlength]
        exact (hg.dependent_lt hd).2
      refine ⟨i, rest, hready, foldl_release_placed _ _, foldl_release_length _ _, ?_, ?_, ?_⟩
      · exact foldl_release_remaining (hg.dependents_nodup i) _ hlt
      · exact foldl_release_ready (hg.dependents_nodup i) _ hlt
      · exact foldl_release_ascending (g.dependents i) ⟨s.remaining, rest, s.placed ++ [i]⟩

namespace Placement.Places

variable {g : Graph} {s s' : Placement} {i : Nat} {rest : List Nat}

/-- The project that is placed has not been placed yet, and its references
    have. -/
theorem entitled (h : s.Places g i rest s') (hs : s.Faithful g) :
    i < g.size ∧ i ∉ s.placed ∧ ∀ j ∈ g.dependencies i, j ∈ s.placed :=
  (hs.ready i).mp (by rw [h.first]; exact List.mem_cons_self)

/-- A round places one project more. -/
theorem mem_placed (h : s.Places g i rest s') {j : Nat} :
    j ∈ s'.placed ↔ j ∈ s.placed ∨ j = i := by
  rw [h.placed, List.mem_append, List.mem_singleton]

/-- The counters follow what is placed. -/
theorem counts (h : s.Places g i rest s') (hg : g.Proper) (hs : s.Faithful g) {j : Nat}
    (hj : j < g.size) :
    s'.remaining.getD j 0 = ((g.dependencies j).filter (· ∉ s'.placed)).length := by
  rw [h.remaining j, h.placed,
    length_filter_append (hg.dependencies_nodup j) (h.entitled hs).2.1, hs.counts j hj]
  by_cases hd : j ∈ g.dependents i
  · rw [if_pos hd, if_pos (mem_dependents_iff.mp hd)]
  · rw [if_neg hd, if_neg (fun h => hd (mem_dependents_iff.mpr h))]

/-- A project that refers to the one that is placed is ready when all its
    references are placed. -/
theorem count_eq_zero (h : s.Places g i rest s') (hg : g.Proper) (hs : s.Faithful g) {j : Nat}
    (hj : j < g.size) (hd : j ∈ g.dependents i) :
    s.remaining.getD j 0 - 1 = 0 ↔ ∀ k ∈ g.dependencies j, k ∈ s'.placed := by
  have hcount := h.counts hg hs hj
  rw [h.remaining j, if_pos hd] at hcount
  rw [hcount]
  exact length_filter_eq_zero

/-- After a round those are ready whose dependencies have all been placed. -/
theorem ready_iff (h : s.Places g i rest s') (hg : g.Proper) (hs : s.Faithful g) (j : Nat) :
    j ∈ s'.ready ↔ j < g.size ∧ j ∉ s'.placed ∧ ∀ k ∈ g.dependencies j, k ∈ s'.placed := by
  obtain ⟨-, hinot, hideps⟩ := h.entitled hs
  rw [h.ready j, h.mem_placed, not_or]
  constructor
  · rintro (hj | ⟨hd, hzero⟩)
    · -- one that was ready before, behind the one that is placed
      have hready : j ∈ s.ready := by
        rw [h.first]
        exact List.mem_cons_of_mem i hj
      obtain ⟨hlt, hnot, hdeps⟩ := (hs.ready j).mp hready
      have hascending := hs.ascending
      rw [h.first] at hascending
      have hij : i < j := (List.pairwise_cons.mp hascending).1 j hj
      exact ⟨hlt, ⟨hnot, Nat.ne_of_gt hij⟩, fun k hk => h.mem_placed.mpr (Or.inl (hdeps k hk))⟩
    · -- one that has been released: all it waited for is placed now
      have hlt := (hg.dependent_lt hd).2
      have hrefers : i ∈ g.dependencies j := mem_dependents_iff.mp hd
      refine ⟨hlt, ⟨fun hmem => hinot (hs.closed hmem hrefers), ?_⟩,
        (h.count_eq_zero hg hs hlt hd).mp hzero⟩
      rintro rfl
      exact hinot (hideps j hrefers)
  · rintro ⟨hlt, ⟨hnot, hne⟩, hdeps⟩
    by_cases hrefers : i ∈ g.dependencies j
    · have hd := mem_dependents_iff.mpr hrefers
      exact Or.inr ⟨hd, (h.count_eq_zero hg hs hlt hd).mpr hdeps⟩
    · have hready : j ∈ s.ready := by
        refine (hs.ready j).mpr ⟨hlt, hnot, fun k hk => ?_⟩
        refine (h.mem_placed.mp (hdeps k hk)).resolve_right ?_
        rintro rfl
        exact hrefers hk
      rw [h.first] at hready
      exact Or.inl ((List.mem_cons.mp hready).resolve_left hne)

/-- Each project is placed after its dependencies. -/
theorem grounded (h : s.Places g i rest s') (hs : s.Faithful g) {front back : List Nat} {j : Nat}
    (hsplit : s'.placed = front ++ j :: back) : ∀ k ∈ g.dependencies j, k ∈ front := by
  rw [h.placed] at hsplit
  rcases List.eq_nil_or_concat back with rfl | ⟨back, last, rfl⟩
  · -- it is the one that is placed
    obtain ⟨rfl, hlast⟩ := List.append_inj' hsplit rfl
    obtain rfl := List.singleton_inj.mp hlast
    exact (h.entitled hs).2.2
  · rw [List.concat_eq_append, ← List.cons_append, ← List.append_assoc] at hsplit
    exact hs.grounded front j back (List.append_inj' hsplit rfl).1

end Placement.Places

/-- **Placing the next project keeps the counters faithful.** -/
theorem place?_faithful {g : Graph} (hg : g.Proper) {s s' : Placement}
    (hs : s.Faithful g) (h : g.place? s = some s') : s'.Faithful g := by
  obtain ⟨i, rest, hplaces⟩ := place?_places hg hs.length h
  obtain ⟨hlt, hnew, -⟩ := hplaces.entitled hs
  have hascending := hs.ascending
  rw [hplaces.first] at hascending
  refine ⟨hplaces.length.trans hs.length, fun j hj => hplaces.counts hg hs hj,
    hplaces.ready_iff hg hs, hplaces.ascending (List.pairwise_cons.mp hascending).2, ?_, ?_,
    fun front j back hsplit => hplaces.grounded hs hsplit⟩
  · rw [hplaces.placed, ← List.concat_eq_append]
    exact hs.nodup.concat hnew
  · intro j hj
    rcases hplaces.mem_placed.mp hj with hj | rfl
    · exact hs.bounded j hj
    · exact hlt

/-- **Any number of rounds keeps the counters right.** -/
theorem placeUpTo_faithful {g : Graph} (hg : g.Proper) (n : Nat) {s : Placement}
    (hs : s.Faithful g) : (g.placeUpTo n s).Faithful g := by
  induction n generalizing s with
  | zero => exact hs
  | succ n ih =>
      unfold placeUpTo
      cases h : g.place? s with
      | none => exact hs
      | some s' => exact ih (place?_faithful hg hs h)

/-! ## The order -/

/-- No project is placed twice. -/
theorem topologicalOrder_nodup {g : Graph} (hg : g.Proper) :
    g.topologicalOrder.Nodup :=
  (placeUpTo_faithful hg g.size (start_faithful g)).nodup

/-- **Dependency order**: the references of a project stand before it. -/
theorem topologicalOrder_grounded {g : Graph} (hg : g.Proper)
    {front back : List Nat} {i : Nat} (h : g.topologicalOrder = front ++ i :: back) :
    ∀ j ∈ g.dependencies i, j ∈ front :=
  (placeUpTo_faithful hg g.size (start_faithful g)).grounded front i back h

/-- The order holds exactly the projects of the graph. -/
theorem mem_topologicalOrder {g : Graph} (hg : g.WellFormed) {i : Nat} :
    i ∈ g.topologicalOrder ↔ i < g.size := by
  have hsub : g.topologicalOrder ⊆ List.range g.size := fun j hj =>
    List.mem_range.mpr
      ((placeUpTo_faithful hg.toProper g.size (start_faithful g)).bounded j hj)
  constructor
  · intro hi
    exact List.mem_range.mp (hsub hi)
  · intro hi
    have hperm : g.topologicalOrder.Perm (List.range g.size) :=
      (List.subperm_of_subset (topologicalOrder_nodup hg.toProper) hsub).perm_of_length_le
        (Nat.le_of_eq (by rw [hg.complete, List.length_range]))
    exact hperm.mem_iff.mpr (List.mem_range.mpr hi)

/-- No project stands before itself in the order. -/
theorem WellFormed.not_before_self {g : Graph} (hg : g.WellFormed) {i : Nat} (hi : i < g.size) :
    ¬ ∀ front back, g.topologicalOrder = front ++ i :: back → i ∈ front := by
  intro h
  obtain ⟨front, back, hsplit⟩ := List.append_of_mem ((mem_topologicalOrder hg).mpr hi)
  have hnd := topologicalOrder_nodup hg.toProper
  rw [hsplit] at hnd
  exact (List.nodup_append.mp hnd).2.2 i (h front back hsplit) i List.mem_cons_self rfl

/-- No project references itself. -/
theorem WellFormed.not_self_dependency {g : Graph} (hg : g.WellFormed) (i : Nat) :
    i ∉ g.dependencies i := by
  intro h
  exact hg.not_before_self (hg.dependency_lt h).1 fun _ _ hsplit =>
    topologicalOrder_grounded hg.toProper hsplit i h

/-! ## Complete orders -/

/-- Placing goes on until nothing is ready, or as often as was asked. -/
theorem placeUpTo_exhausts (g : Graph) (n : Nat) (s : Placement) :
    (g.placeUpTo n s).ready = [] ∨ (g.placeUpTo n s).placed.length = s.placed.length + n := by
  induction n generalizing s with
  | zero => exact Or.inr rfl
  | succ n ih =>
      unfold placeUpTo
      cases hready : s.ready with
      | nil =>
          have hplace : g.place? s = none := by
            unfold place?
            rw [hready]
          rw [hplace]
          exact Or.inl hready
      | cons i rest =>
          have hplace : g.place? s = some ((g.dependents i).foldl Placement.release
              { s with ready := rest, placed := s.placed ++ [i] }) := by
            unfold place?
            rw [hready]
          rw [hplace]
          refine (ih _).imp id fun h => ?_
          show (g.placeUpTo n _).placed.length = _
          rw [h, foldl_release_placed, List.length_append, List.length_singleton]
          omega

/-- **Where dependencies can be followed to an end, every project has a place
    in the order.** -/
theorem topologicalOrder_length {g : Graph} (hg : g.Proper)
    (hinduct : ∀ placed : List Nat,
      (∀ i < g.size, (∀ j ∈ g.dependencies i, j ∈ placed) → i ∈ placed) →
        ∀ i < g.size, i ∈ placed) :
    g.topologicalOrder.length = g.size := by
  have hs := placeUpTo_faithful hg g.size (start_faithful g)
  rcases placeUpTo_exhausts g g.size g.start with hready | hlength
  · have hall : ∀ i < g.size, i ∈ (g.placeUpTo g.size g.start).placed := by
      refine hinduct _ fun i hi hplaced => ?_
      -- a project that could still be placed would be ready
      by_contra hnot
      have hin := (hs.ready i).mpr ⟨hi, hnot, hplaced⟩
      rw [hready] at hin
      exact nomatch hin
    have hperm : (g.placeUpTo g.size g.start).placed.Perm (List.range g.size) :=
      (List.perm_ext_iff_of_nodup hs.nodup List.nodup_range).mpr fun i =>
        ⟨fun hi => List.mem_range.mpr (hs.bounded i hi), fun hi => hall i (List.mem_range.mp hi)⟩
    exact hperm.length_eq.trans List.length_range
  · exact hlength.trans (Nat.zero_add _)

/-- Building accepts edges and roots in range, with edges to smaller indices
    only. -/
theorem ofEdges_of_descending {nodes : List Project} {edges : List (Nat × Nat)}
    {roots : List Nat} (hrange : ∀ edge ∈ edges, edge.1 < nodes.length)
    (hdescending : ∀ edge ∈ edges, edge.2 < edge.1) (hroots : ∀ i ∈ roots, i < nodes.length) :
    ofEdges nodes edges roots = .ok ⟨nodes, distinct edges, distinct roots⟩ := by
  have hinRange : InRange nodes.length edges roots :=
    ⟨fun edge hedge => ⟨hrange edge hedge,
      Nat.lt_trans (hdescending edge hedge) (hrange edge hedge)⟩, hroots⟩
  have hproper := hinRange.proper (distinct roots)
  refine ofEdges_eq_ok_iff.mpr ⟨hinRange, rfl, topologicalOrder_length hproper ?_⟩
  intro placed hplaced i
  induction i using Nat.strongRecOn with
  | ind i ih =>
      refine fun hi => hplaced i hi fun j hj => ?_
      exact ih j (hdescending (i, j) (mem_distinct.mp (mem_dependencies.mp hj)))
        (hproper.dependency_lt hj).2

end Graph

end ProjectBuild
