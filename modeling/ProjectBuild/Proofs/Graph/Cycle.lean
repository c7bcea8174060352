import Mathlib.Data.List.Chain
import Mathlib.Data.List.TakeWhile
import ProjectBuild.Proofs.Graph.Reach

/-! # Cycles of a graph

    Building a graph accepts edges in range exactly if they form no cycle, and
    names one if they do (`ofEdges_accepts`).  Two searches have to agree for
    that: the order, which leaves out what it cannot place, and the search
    from project to project, which has to find a cycle then.

    What the search has finished is `Exhausted`: every project has its
    references among those that were finished before it.  No chain of
    references returns within such a list, and the order places all of it; so
    either the search closes a ring, or the order is complete. -/

namespace ProjectBuild

/-- A list goes on from the first entry that passes a test. -/
theorem dropWhile_not_eq_cons {α : Type} {p : α → Bool} {xs : List α} (h : xs.any p = true) :
    ∃ first rest, xs.dropWhile (!p ·) = first :: rest ∧ p first = true ∧ first :: rest <:+ xs := by
  have hsuffix := List.dropWhile_suffix (l := xs) (!p ·)
  cases hdrop : xs.dropWhile (!p ·) with
  | nil =>
      obtain ⟨x, hx, hpx⟩ := List.any_eq_true.mp h
      have hnot := List.dropWhile_eq_nil_iff.mp hdrop x hx
      rw [hpx] at hnot
      exact nomatch hnot
  | cons first rest =>
      have hhead := List.head?_dropWhile_not (!p ·) xs
      rw [hdrop] at hhead hsuffix
      exact ⟨first, rest, rfl, by simpa using hhead, hsuffix⟩

/-- From each entry of a chain the steps lead to its end. -/
theorem transGen_of_isChain {α : Type} {r : α → α → Prop} {last : α} (front : List α)
    (h : (front ++ [last]).IsChain r) : ∀ x ∈ front, Relation.TransGen r x last := by
  induction front with
  | nil => exact fun x hx => nomatch hx
  | cons x rest ih =>
      have hrest := ih h.tail
      intro y hy
      rcases List.mem_cons.mp hy with rfl | hy
      · cases rest with
        | nil => exact .single (List.isChain_pair.mp h)
        | cons next rest =>
            exact .head (List.isChain_cons_cons.mp h).1 (hrest next List.mem_cons_self)
      · exact hrest y hy

namespace Graph

/-- The projects of a cycle in order, the first once more at the end. -/
def IsRing (edges : List (Nat × Nat)) (ring : List Nat) : Prop :=
  ∃ first middle, ring = first :: middle ++ [first] ∧ (first :: middle).Nodup ∧
    ring.IsChain fun i j => (i, j) ∈ edges

/-- No chain of edges returns to where it began. -/
def Acyclic (edges : List (Nat × Nat)) : Prop :=
  ∀ i, ¬ Relation.TransGen (fun i j => (i, j) ∈ edges) i i

/-- Every entry of a ring leads back to where the ring begins. -/
theorem IsRing.leads {edges : List (Nat × Nat)} {ring : List Nat} (h : IsRing edges ring) :
    ∃ first ∈ ring, ∀ i ∈ ring, Relation.TransGen (fun i j => (i, j) ∈ edges) i first := by
  obtain ⟨first, middle, rfl, -, hchain⟩ := h
  have hleads := transGen_of_isChain (first :: middle) hchain
  refine ⟨first, List.mem_cons_self, fun i hi => ?_⟩
  rcases List.mem_append.mp hi with hi | hi
  · exact hleads i hi
  · exact (List.mem_singleton.mp hi) ▸ hleads first List.mem_cons_self

/-- Edges with a ring are not acyclic. -/
theorem IsRing.not_acyclic {edges : List (Nat × Nat)} {ring : List Nat} (h : IsRing edges ring) :
    ¬ Acyclic edges := by
  obtain ⟨first, hfirst, hleads⟩ := h.leads
  exact fun hacyclic => hacyclic first (hleads first hfirst)

/-- The indices on a ring are those of projects. -/
theorem IsRing.lt {edges : List (Nat × Nat)} {ring : List Nat} (h : IsRing edges ring)
    {size : Nat} (hrange : ∀ edge ∈ edges, edge.1 < size ∧ edge.2 < size) :
    ∀ i ∈ ring, i < size := by
  obtain ⟨first, -, hleads⟩ := h.leads
  intro i hi
  obtain ⟨j, hedge, -⟩ := Relation.TransGen.head'_iff.mp (hleads i hi)
  exact (hrange _ hedge).1

/-! ## What is exhausted -/

/-- Each project of the list has all its references behind it. -/
inductive Exhausted (g : Graph) : List Nat → Prop
  | nil : Exhausted g []
  | cons {i : Nat} {finished : List Nat} (references : ∀ j ∈ g.dependencies i, j ∈ finished)
      (rest : Exhausted g finished) : Exhausted g (i :: finished)

namespace Exhausted

variable {g : Graph} {finished : List Nat}

/-- What holds of a project once it holds of its references, holds of all that
    is exhausted. -/
theorem induct (h : g.Exhausted finished) {P : Nat → Prop}
    (hP : ∀ i ∈ finished, (∀ j ∈ g.dependencies i, P j) → P i) : ∀ i ∈ finished, P i := by
  induction h with
  | nil => exact fun i hi => nomatch hi
  | @cons i finished references _ ih =>
      have hrest := ih fun k hk => hP k (List.mem_cons_of_mem i hk)
      intro k hk
      rcases List.mem_cons.mp hk with rfl | hk
      · exact hP k List.mem_cons_self fun j hj => hrest j (references j hj)
      · exact hrest k hk

end Exhausted

/-! ## The search -/

/-- A chain of references without repeats. -/
structure Walk (g : Graph) (path : List Nat) : Prop where
  chain : path.IsChain fun i j => (i, j) ∈ g.edges
  nodup : path.Nodup
  inRange : ∀ i ∈ path, i < g.size

namespace Walk

variable {g : Graph} {path : List Nat}

theorem nil : g.Walk [] :=
  ⟨List.isChain_nil, List.nodup_nil, fun _ h => nomatch h⟩

/-- A walk goes on along an edge to what is new. -/
theorem concat (h : g.Walk path) {i : Nat} (hi : i < g.size) (hnew : i ∉ path)
    (hedge : ∀ last ∈ path.getLast?, (last, i) ∈ g.edges) : g.Walk (path ++ [i]) := by
  refine ⟨h.chain.append (List.isChain_singleton i) fun last hlast j hj => ?_, ?_, ?_⟩
  · rw [List.head?_cons, Option.mem_some_iff] at hj
    exact hj ▸ hedge last hlast
  · rw [← List.concat_eq_append]
    exact h.nodup.concat hnew
  · intro j hj
    rcases List.mem_append.mp hj with hj | hj
    · exact h.inRange j hj
    · exact (List.mem_singleton.mp hj) ▸ hi

/-- There is no longer chain than there are projects. -/
theorem length_le (h : g.Walk path) : path.length ≤ g.size := by
  have hsub : path ⊆ List.range g.size := fun i hi => List.mem_range.mpr (h.inRange i hi)
  have hle := (List.subperm_of_subset h.nodup hsub).length_le
  rwa [List.length_range] at hle

/-- A reference from the end of a chain back into it closes a ring. -/
theorem closePath (h : g.Walk path) {i : Nat} (hi : i ∈ path)
    (hedge : ∀ last ∈ path.getLast?, (last, i) ∈ g.edges) :
    IsRing g.edges (Graph.closePath path i) := by
  have hany : path.any (· == i) = true := List.any_eq_true.mpr ⟨i, hi, beq_self_eq_true i⟩
  obtain ⟨first, middle, hdrop, hfirst, hsuffix⟩ := dropWhile_not_eq_cons hany
  obtain rfl := beq_iff_eq.mp hfirst
  have hclose : Graph.closePath path first = first :: middle ++ [first] := by
    rw [← hdrop]
    rfl
  have hlast : (first :: middle).getLast? = path.getLast? := by
    obtain ⟨front, hfront⟩ := hsuffix
    rw [← hfront, List.getLast?_append_of_ne_nil front (List.cons_ne_nil first middle)]
  refine ⟨first, middle, hclose, h.nodup.sublist hsuffix.sublist, ?_⟩
  rw [hclose]
  refine (h.chain.suffix hsuffix).append (List.isChain_singleton first) fun last hl j hj => ?_
  rw [List.head?_cons, Option.mem_some_iff] at hj
  exact hj ▸ hedge last (hlast ▸ hl)

end Walk

/-- How a search may end that had `finished` exhausted and visits `targets`: at a
    ring, or with the targets exhausted, too. -/
def Search.Sound (g : Graph) (finished targets : List Nat) : Search → Prop
  | .cycle ring => IsRing g.edges ring
  | .done finished' => g.Exhausted finished' ∧ finished ⊆ finished' ∧ targets ⊆ finished'

/-- A search that has gone on from a project is sound for those still to come. -/
theorem Search.Sound.cons {g : Graph} {finished exhausted rest : List Nat} {i : Nat}
    {result : Search} (h : result.Sound g exhausted rest) (hsub : finished ⊆ exhausted)
    (hi : i ∈ exhausted) : result.Sound g finished (i :: rest) := by
  cases result with
  | cycle ring => exact h
  | done finished' =>
      obtain ⟨hexhausted, hkept, htargets⟩ := h
      exact ⟨hexhausted, List.Subset.trans hsub hkept, List.cons_subset.mpr ⟨hkept hi, htargets⟩⟩

/-- Visits in turn are sound if single visits are. -/
theorem searchEach_sound {g : Graph} (visit : List Nat → Nat → Search) {path : List Nat}
    (hpath : g.Walk path) (targets : List Nat)
    (htargets : ∀ i ∈ targets, ∀ last ∈ path.getLast?, (last, i) ∈ g.edges)
    (hvisit : ∀ i ∈ targets, i ∉ path → ∀ finished, g.Exhausted finished →
      (visit finished i).Sound g finished [i])
    {finished : List Nat} (hfinished : g.Exhausted finished) :
    (searchEach visit path finished targets).Sound g finished targets := by
  induction targets generalizing finished with
  | nil => exact ⟨hfinished, List.Subset.refl _, List.nil_subset _⟩
  | cons i rest ih =>
      have hrest := @ih (fun j hj => htargets j (List.mem_cons_of_mem i hj))
        (fun j hj => hvisit j (List.mem_cons_of_mem i hj))
      unfold searchEach
      by_cases hi : i ∈ path
      · rw [if_pos (List.contains_iff_mem.mpr hi)]
        exact hpath.closePath hi (htargets i List.mem_cons_self)
      rw [if_neg fun hc => hi (List.contains_iff_mem.mp hc)]
      by_cases hdone : i ∈ finished
      · rw [if_pos (List.contains_iff_mem.mpr hdone)]
        exact (hrest hfinished).cons (List.Subset.refl _) hdone
      rw [if_neg fun hc => hdone (List.contains_iff_mem.mp hc)]
      have hfirst := hvisit i List.mem_cons_self hi finished hfinished
      cases hresult : visit finished i with
      | cycle ring =>
          rw [hresult] at hfirst
          exact hfirst
      | done exhausted =>
          rw [hresult] at hfirst
          obtain ⟨hexhausted, hkept, hmem⟩ := hfirst
          exact (hrest hexhausted).cons hkept (hmem List.mem_cons_self)

/-- **A search finds a ring or exhausts its project.** Its depth suffices, since
    the path is no longer than there are projects. -/
theorem search_sound {g : Graph} (hg : g.Proper) (depth : Nat) {path : List Nat} {i : Nat}
    (hpath : g.Walk (path ++ [i])) (hdepth : g.size ≤ path.length + depth)
    {finished : List Nat} (hfinished : g.Exhausted finished) :
    (g.search depth path finished i).Sound g finished [i] := by
  -- on the depth, which falls as the path grows
  induction depth generalizing path i finished with
  | zero =>
      have hlength := hpath.length_le
      rw [List.length_append, List.length_singleton] at hlength
      omega
  | succ depth ih =>
      have hedge : ∀ j ∈ g.dependencies i, ∀ last ∈ (path ++ [i]).getLast?,
          (last, j) ∈ g.edges := by
        intro j hj last hlast
        rw [List.getLast?_concat, Option.mem_some_iff] at hlast
        exact hlast ▸ mem_dependencies.mp hj
      have heach := searchEach_sound (g.search depth (path ++ [i])) hpath
        (g.dependencies i) hedge
        (fun j hj hnew exhausted hexhausted => by
          refine ih (hpath.concat (hg.dependency_lt hj).2 hnew (hedge j hj)) ?_ hexhausted
          rw [List.length_append, List.length_singleton]
          omega)
        hfinished
      unfold search
      cases hresult : searchEach (g.search depth (path ++ [i])) (path ++ [i]) finished
          (g.dependencies i) with
      | cycle ring =>
          rw [hresult] at heach
          exact heach
      | done exhausted =>
          rw [hresult] at heach
          obtain ⟨hexhausted, hkept, hreferences⟩ := heach
          exact ⟨.cons hreferences hexhausted, fun j hj => List.mem_cons_of_mem i (hkept hj),
            List.cons_subset.mpr ⟨List.mem_cons_self, List.nil_subset _⟩⟩

/-- The search of the whole graph. -/
theorem cycle?_sound {g : Graph} (hg : g.Proper) :
    (∃ ring, g.cycle? = some ring ∧ IsRing g.edges ring) ∨
      ∃ finished, g.Exhausted finished ∧ ∀ i < g.size, i ∈ finished := by
  have heach := searchEach_sound (g.search g.size []) Walk.nil g.indices
    (fun _ _ _ hlast => nomatch hlast)
    (fun i hi hnew finished hfinished => search_sound hg g.size
      (Walk.nil.concat (List.mem_range.mp hi) hnew fun _ hlast => nomatch hlast)
      (Nat.le_of_eq (Nat.zero_add _).symm) hfinished)
    Exhausted.nil
  unfold cycle?
  cases hresult : searchEach (g.search g.size []) [] [] g.indices with
  | cycle ring =>
      rw [hresult] at heach
      exact Or.inl ⟨ring, rfl, heach⟩
  | done finished =>
      rw [hresult] at heach
      exact Or.inr ⟨finished, heach.1, fun i hi => heach.2.2 (List.mem_range.mpr hi)⟩

/-! ## The search and the order -/

/-- **The order is complete exactly if there is no cycle**, and where it is not,
    the search finds one. -/
theorem topologicalOrder_complete_iff {g : Graph} (hg : g.Proper) :
    (g.topologicalOrder.length = g.size ↔ Acyclic g.edges) ∧
      (¬ Acyclic g.edges → ∃ ring, g.cycle? = some ring ∧ IsRing g.edges ring) := by
  have hirrefl : g.topologicalOrder.length = g.size → Acyclic g.edges :=
    fun hlength i hi => DependsOn.irrefl ⟨hg, hlength⟩ i (dependsOn_iff.mpr hi)
  rcases cycle?_sound hg with ⟨ring, hring, hcycle⟩ | ⟨finished, hexhausted, hall⟩
  · have hcyclic := hcycle.not_acyclic
    exact ⟨⟨hirrefl, fun h => absurd h hcyclic⟩, fun _ => ⟨ring, hring, hcycle⟩⟩
  · have hlength : g.topologicalOrder.length = g.size := by
      -- what is exhausted is placed, since its references are by then
      refine topologicalOrder_length hg fun placed hplaced i hi => ?_
      refine hexhausted.induct (P := fun i => i < g.size → i ∈ placed) ?_ i (hall i hi) hi
      exact fun i _ ih hi => hplaced i hi fun j hj => ih j hj (hg.dependency_lt hj).2
    have hacyclic := hirrefl hlength
    exact ⟨⟨fun _ => hacyclic, fun _ => hlength⟩, fun h => absurd hacyclic h⟩

/-! ## Building -/

/-- A graph that was built of these projects, edges and roots. -/
structure BuiltOf (g : Graph) (nodes : List Project) (edges : List (Nat × Nat))
    (roots : List Nat) : Prop where
  nodes_eq : g.nodes = nodes
  /-- The edges that were given, each where it first occurs. -/
  edges_eq : g.edges = edges.eraseDups
  roots_eq : g.roots = roots.eraseDups
  /-- The ends of a project's edges, each where it first occurs. -/
  dependencies : ∀ i, g.dependencies i
    = ((edges.filter fun edge => edge.1 == i).map Prod.snd).eraseDups
  dependents : ∀ i, g.dependents i
    = ((edges.filter fun edge => edge.2 == i).map Prod.fst).eraseDups
  inverse : ∀ i j, j ∈ g.dependents i ↔ i ∈ g.dependencies j
  dependencies_nodup : ∀ i, (g.dependencies i).Nodup
  dependents_nodup : ∀ i, (g.dependents i).Nodup

/-- **Ends that exist make a graph** of the projects, without repeated edges and
    roots. -/
theorem builtOf_of_inRange {nodes : List Project} {edges : List (Nat × Nat)} {roots : List Nat}
    (h : InRange nodes.length edges roots) :
    (Graph.mk nodes (distinct edges) (distinct roots)).BuiltOf nodes edges roots where
  nodes_eq := rfl
  edges_eq := distinct_eq_eraseDups edges
  roots_eq := distinct_eq_eraseDups roots
  dependencies := by
    intro i
    rw [← distinct_eq_eraseDups, distinct_map, ← distinct_filter]
    · rfl
    · intro a ha b hb hab
      have h1 := beq_iff_eq.mp (List.mem_filter.mp ha).2
      have h2 := beq_iff_eq.mp (List.mem_filter.mp hb).2
      exact Prod.ext (h1.trans h2.symm) hab
  dependents := by
    intro i
    rw [← distinct_eq_eraseDups, distinct_map, ← distinct_filter]
    · rfl
    · intro a ha b hb hab
      have h1 := beq_iff_eq.mp (List.mem_filter.mp ha).2
      have h2 := beq_iff_eq.mp (List.mem_filter.mp hb).2
      exact Prod.ext hab (h1.trans h2.symm)
  inverse := fun _ _ => mem_dependents_iff
  dependencies_nodup := (h.proper _).dependencies_nodup
  dependents_nodup := (h.proper _).dependents_nodup

/-- Repeated edges make no cycle. -/
theorem acyclic_distinct {edges : List (Nat × Nat)} :
    Acyclic (distinct edges) ↔ Acyclic edges := by
  unfold Acyclic
  simp only [mem_distinct]

/-- Repeated edges make no ring. -/
theorem isRing_distinct {edges : List (Nat × Nat)} {ring : List Nat} :
    IsRing (distinct edges) ring ↔ IsRing edges ring := by
  unfold IsRing
  simp only [mem_distinct]

/-- **Building accepts exactly the acyclic graphs** with indices in range; the
    graph is then what was given without repeats.  Where indices are in range
    and there is a cycle, one is reported, project by project. -/
theorem ofEdges_accepts (nodes : List Project) (edges : List (Nat × Nat)) (roots : List Nat) :
    ((∃ g, ofEdges nodes edges roots = .ok g) ↔
      InRange nodes.length edges roots ∧ Acyclic edges) ∧
    (∀ g, ofEdges nodes edges roots = .ok g → g.BuiltOf nodes edges roots) ∧
    (InRange nodes.length edges roots → ¬ Acyclic edges →
      ∃ ring, IsRing edges ring ∧ (∀ i ∈ ring, i < nodes.length) ∧ ofEdges nodes edges roots
        = .error (.cycle (ring.map fun i => (nodes.getD i default).configPath))) := by
  refine ⟨⟨?_, ?_⟩, ?_, ?_⟩
  · rintro ⟨g, hg⟩
    obtain ⟨hrange, rfl, hlength⟩ := ofEdges_eq_ok_iff.mp hg
    exact ⟨hrange, acyclic_distinct.mp
      ((topologicalOrder_complete_iff (hrange.proper _)).1.mp hlength)⟩
  · rintro ⟨hrange, hacyclic⟩
    exact ⟨_, ofEdges_eq_ok_iff.mpr ⟨hrange, rfl,
      (topologicalOrder_complete_iff (hrange.proper _)).1.mpr (acyclic_distinct.mpr hacyclic)⟩⟩
  · intro g hg
    obtain ⟨hrange, rfl, -⟩ := ofEdges_eq_ok_iff.mp hg
    exact builtOf_of_inRange hrange
  · intro hrange hcyclic
    have hcyclic' := fun h => hcyclic (acyclic_distinct.mp h)
    obtain ⟨hcomplete, hfound⟩ := topologicalOrder_complete_iff (hrange.proper (distinct roots))
    obtain ⟨ring, hring, hcycle⟩ := hfound hcyclic'
    have hcycle' := isRing_distinct.mp hcycle
    refine ⟨ring, hcycle', hcycle'.lt hrange.edges, ?_⟩
    rw [ofEdges_of_inRange hrange rfl, if_neg fun hlength => hcyclic' (hcomplete.mp hlength), hring]
    rfl

/-- Three projects without any settings. -/
def threeProjects : List Project :=
  ["/r/a", "/r/b", "/r/c"].map fun dir => .ofConfig ((⟨dir⟩ : Path).join ⟨configFileName⟩) {}

/-- Three projects that reference each other in a ring are refused for it; with
    references to earlier projects only, they are a graph, in which a reference
    that was given twice is found once. -/
theorem ofEdges_accepts_three :
    (∃ ring, IsRing [(0, 1), (1, 2), (2, 0)] ring ∧ (∀ i ∈ ring, i < threeProjects.length) ∧
      ofEdges threeProjects [(0, 1), (1, 2), (2, 0)] [0]
        = .error (.cycle (ring.map fun i => (threeProjects.getD i default).configPath))) ∧
    ∃ g, ofEdges threeProjects [(2, 0), (1, 0), (2, 0), (2, 1)] [2, 2] = .ok g ∧
      g.BuiltOf threeProjects [(2, 0), (1, 0), (2, 0), (2, 1)] [2, 2] := by
  constructor
  · refine (ofEdges_accepts threeProjects [(0, 1), (1, 2), (2, 0)] [0]).2.2
      ⟨by decide, by decide⟩ fun hacyclic => hacyclic 0 ?_
    exact .head (b := 1) (by decide) (.head (b := 2) (by decide) (.single (by decide)))
  · have hacyclic : Acyclic [(2, 0), (1, 0), (2, 0), (2, 1)] := by
      have hdescends : ∀ edge ∈ [(2, 0), (1, 0), (2, 0), (2, 1)], edge.2 < edge.1 := by decide
      have hchain : ∀ i j, Relation.TransGen
          (fun i j => (i, j) ∈ [(2, 0), (1, 0), (2, 0), (2, 1)]) i j → j < i := by
        intro i j h
        induction h with
        | single hij => exact hdescends _ hij
        | tail _ hjk ih => exact Nat.lt_trans (hdescends _ hjk) ih
      exact fun i hi => Nat.lt_irrefl i (hchain i i hi)
    have haccepts := ofEdges_accepts threeProjects [(2, 0), (1, 0), (2, 0), (2, 1)] [2, 2]
    obtain ⟨g, hg⟩ := haccepts.1.mpr ⟨⟨by decide, by decide⟩, hacyclic⟩
    exact ⟨g, hg, haccepts.2.1 g hg⟩

end Graph

end ProjectBuild
