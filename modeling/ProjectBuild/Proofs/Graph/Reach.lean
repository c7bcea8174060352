import Mathlib.Logic.Relation
import ProjectBuild.Graph.Reach
import ProjectBuild.Proofs.Graph.Order

/-! # Reachability along references

    `DependsOn` is the chain of references; the search with a stack finds
    exactly the projects at the upper end of such a chain
    (`transitiveDependents_exact`).  Its bound never cuts the search short:
    every project is pushed at most once, so the stack and the projects not yet
    seen together shrink by one in each round. -/

namespace ProjectBuild.Graph

/-- A non-empty chain of references leads from `i` to `j`. -/
def DependsOn (g : Graph) (i j : Nat) : Prop :=
  Relation.TransGen (fun a b => b ∈ g.dependencies a) i j

/-- A project depends on what chains of edges lead to. -/
theorem dependsOn_iff {g : Graph} {i j : Nat} :
    g.DependsOn i j ↔ Relation.TransGen (fun i j => (i, j) ∈ g.edges) i j := by
  unfold DependsOn
  simp only [mem_dependencies]

/-- Both ends of a chain are projects of the graph. -/
theorem DependsOn.lt {g : Graph} (hg : g.WellFormed) {i j : Nat} (h : g.DependsOn i j) :
    i < g.size ∧ j < g.size := by
  induction h with
  | single hij => exact hg.dependency_lt hij
  | tail _ hbc ih => exact ⟨ih.1, (hg.dependency_lt hbc).2⟩

/-- A project stands behind everything it depends on. -/
theorem DependsOn.before {g : Graph} (hg : g.WellFormed) {i j : Nat} (h : g.DependsOn i j) :
    ∀ front back, g.topologicalOrder = front ++ i :: back → j ∈ front := by
  induction h using Relation.TransGen.head_induction_on with
  | single hij =>
      intro front back hsplit
      exact topologicalOrder_grounded hg.toProper hsplit j hij
  | @head a c hac _ ih =>
      intro front back hsplit
      have hc : c ∈ front := topologicalOrder_grounded hg.toProper hsplit c hac
      obtain ⟨first, second, hfront⟩ := List.append_of_mem hc
      have hj := ih first (second ++ a :: back) (by rw [hsplit, hfront]; simp)
      rw [hfront]
      exact List.mem_append.mpr (Or.inl hj)

/-- **References are acyclic.** -/
theorem DependsOn.irrefl {g : Graph} (hg : g.WellFormed) (i : Nat) : ¬ g.DependsOn i i := by
  intro h
  exact hg.not_before_self (h.lt hg).1 (h.before hg)

/-! ## Meeting dependents -/

/-- What has been met has been seen. -/
theorem mem_meet_seen {seen stack ds : List Nat} {x : Nat} :
    x ∈ (meet seen stack ds).1 ↔ x ∈ seen ∨ x ∈ ds := by
  induction ds generalizing seen stack with
  | nil => simp [meet]
  | cons d rest ih =>
      unfold meet
      by_cases hd : d ∈ seen
      · rw [if_pos (List.contains_iff_mem.mpr hd), ih, List.mem_cons]
        constructor
        · rintro (h | h)
          · exact Or.inl h
          · exact Or.inr (Or.inr h)
        · rintro (h | rfl | h)
          · exact Or.inl h
          · exact Or.inl hd
          · exact Or.inr h
      · rw [if_neg (fun hc => hd (List.contains_iff_mem.mp hc)), ih, List.mem_cons, List.mem_cons]
        tauto

/-- What has been met for the first time is to be followed. -/
theorem mem_meet_stack {seen stack ds : List Nat} {x : Nat} :
    x ∈ (meet seen stack ds).2 ↔ x ∈ stack ∨ (x ∈ ds ∧ x ∉ seen) := by
  induction ds generalizing seen stack with
  | nil => simp [meet]
  | cons d rest ih =>
      unfold meet
      by_cases hd : d ∈ seen
      · rw [if_pos (List.contains_iff_mem.mpr hd), ih, List.mem_cons]
        constructor
        · rintro (h | h)
          · exact Or.inl h
          · exact Or.inr ⟨Or.inr h.1, h.2⟩
        · rintro (h | ⟨rfl | h, hn⟩)
          · exact Or.inl h
          · exact absurd hd hn
          · exact Or.inr ⟨h, hn⟩
      · rw [if_neg (fun hc => hd (List.contains_iff_mem.mp hc)), ih]
        simp only [List.mem_cons, not_or]
        constructor
        · rintro ((rfl | h) | ⟨h, hne, hn⟩)
          · exact Or.inr ⟨Or.inl rfl, hd⟩
          · exact Or.inl h
          · exact Or.inr ⟨Or.inr h, hn⟩
        · rintro (h | ⟨rfl | h, hn⟩)
          · exact Or.inl (Or.inr h)
          · exact Or.inl (Or.inl rfl)
          · by_cases hxd : x = d
            · exact Or.inl (Or.inl hxd)
            · exact Or.inr ⟨h, hxd, hn⟩

/-- Nothing is seen twice. -/
theorem meet_nodup {seen stack ds : List Nat} (h : seen.Nodup) :
    (meet seen stack ds).1.Nodup := by
  induction ds generalizing seen stack with
  | nil => exact h
  | cons d rest ih =>
      unfold meet
      by_cases hd : d ∈ seen
      · rw [if_pos (List.contains_iff_mem.mpr hd)]
        exact ih h
      · rw [if_neg (fun hc => hd (List.contains_iff_mem.mp hc))]
        exact ih (List.nodup_cons.mpr ⟨hd, h⟩)

/-- What is newly seen is what is newly on the stack. -/
theorem meet_length {seen stack ds : List Nat} :
    (meet seen stack ds).2.length + seen.length
      = stack.length + (meet seen stack ds).1.length := by
  induction ds generalizing seen stack with
  | nil => rfl
  | cons d rest ih =>
      unfold meet
      by_cases hd : d ∈ seen
      · rw [if_pos (List.contains_iff_mem.mpr hd)]
        exact ih
      · rw [if_neg (fun hc => hd (List.contains_iff_mem.mp hc))]
        have h := @ih (d :: seen) (d :: stack)
        simp only [List.length_cons] at h
        omega

/-! ## Following dependents -/

/-- Between two rounds: what is seen depends on `root`, and what is seen but
    no longer on the stack has had its dependents seen. -/
structure Following (g : Graph) (root : Nat) (seen stack : List Nat) : Prop where
  nodup : seen.Nodup
  sound : ∀ x ∈ seen, g.DependsOn x root
  known : ∀ x ∈ stack, x = root ∨ x ∈ seen
  closed : ∀ x, x = root ∨ x ∈ seen → x ∈ stack ∨ ∀ y ∈ g.dependents x, y ∈ seen

/-- No more can be seen than there are projects. -/
theorem Following.length_le {g : Graph} (hg : g.WellFormed) {root : Nat}
    {seen stack : List Nat} (h : g.Following root seen stack) : seen.length ≤ g.size := by
  have hsub : seen ⊆ List.range g.size := fun x hx =>
    List.mem_range.mpr ((h.sound x hx).lt hg).1
  have := (List.subperm_of_subset h.nodup hsub).length_le
  rwa [List.length_range] at this

/-- One round. -/
theorem Following.round {g : Graph} {root i : Nat} {seen stack : List Nat}
    (h : g.Following root seen (i :: stack)) :
    g.Following root (meet seen stack (g.dependents i)).1
      (meet seen stack (g.dependents i)).2 := by
  constructor
  case nodup => exact meet_nodup h.nodup
  case sound =>
    intro x hx
    rcases mem_meet_seen.mp hx with hx | hx
    · exact h.sound x hx
    · have hix : i ∈ g.dependencies x := mem_dependents_iff.mp hx
      rcases h.known i List.mem_cons_self with rfl | hi
      · exact Relation.TransGen.single hix
      · exact Relation.TransGen.head hix (h.sound i hi)
  case known =>
    intro x hx
    rcases mem_meet_stack.mp hx with hx | ⟨hx, -⟩
    · rcases h.known x (List.mem_cons_of_mem i hx) with hx | hx
      · exact Or.inl hx
      · exact Or.inr (mem_meet_seen.mpr (Or.inl hx))
    · exact Or.inr (mem_meet_seen.mpr (Or.inr hx))
  case closed =>
    intro x hx
    by_cases hold : x = root ∨ x ∈ seen
    · rcases h.closed x hold with hmem | hall
      · rcases List.mem_cons.mp hmem with rfl | hmem
        · exact Or.inr (fun y hy => mem_meet_seen.mpr (Or.inr hy))
        · exact Or.inl (mem_meet_stack.mpr (Or.inl hmem))
      · exact Or.inr (fun y hy => mem_meet_seen.mpr (Or.inl (hall y hy)))
    · rw [not_or] at hold
      rcases hx with hx | hx
      · exact absurd hx hold.1
      · rcases mem_meet_seen.mp hx with hx | hx
        · exact absurd hx hold.2
        · exact Or.inl (mem_meet_stack.mpr (Or.inr ⟨hx, hold.2⟩))

/-- With enough rounds the search ends with an empty stack. -/
theorem mem_follow {g : Graph} (hg : g.WellFormed) {root : Nat} (n : Nat)
    {seen stack : List Nat} (h : g.Following root seen stack)
    (hn : stack.length + g.size ≤ n + seen.length) {x : Nat} :
    x ∈ g.follow n seen stack ↔ g.DependsOn x root := by
  -- a round takes one project off the stack and puts on it only what was not seen before
  induction n generalizing seen stack with
  | zero =>
      have hle := h.length_le hg
      have hempty : stack = [] := List.length_eq_zero_iff.mp (by omega)
      subst hempty
      exact mem_of_closed h
  | succ n ih =>
      cases stack with
      | nil => exact mem_of_closed h
      | cons i stack =>
          have hlen := @meet_length seen stack (g.dependents i)
          show x ∈ g.follow n (meet seen stack (g.dependents i)).1
            (meet seen stack (g.dependents i)).2 ↔ _
          refine ih h.round ?_
          rw [List.length_cons] at hn
          omega
where
  mem_of_closed {g : Graph} {root x : Nat} {seen : List Nat}
      (h : g.Following root seen []) : x ∈ seen ↔ g.DependsOn x root := by
    constructor
    · exact h.sound x
    · intro hx
      have hclosed : ∀ y, y = root ∨ y ∈ seen → ∀ z ∈ g.dependents y, z ∈ seen := by
        intro y hy
        rcases h.closed y hy with hmem | hall
        · exact nomatch hmem
        · exact hall
      induction hx using Relation.TransGen.head_induction_on with
      | single hab => exact hclosed root (Or.inl rfl) _ (mem_dependents_iff.mpr hab)
      | head hac _ ih => exact hclosed _ (Or.inr ih) _ (mem_dependents_iff.mpr hac)

/-- **Dependents are exact**: the search finds the projects from which a chain
    of references leads to `i`. -/
theorem mem_transitiveDependents {g : Graph} (hg : g.WellFormed) {i j : Nat} :
    j ∈ g.transitiveDependents i ↔ g.DependsOn j i := by
  have hstart : g.Following i [] [i] := by
    refine ⟨List.nodup_nil, ?_, ?_, ?_⟩
    · intro x hx
      exact nomatch hx
    · intro x hx
      exact Or.inl (List.mem_singleton.mp hx)
    · intro x hx
      rcases hx with rfl | hx
      · exact Or.inl List.mem_cons_self
      · exact nomatch hx
  have hfollow := @mem_follow g hg i (g.size + 1) [] [i] hstart (by simp; omega) j
  unfold transitiveDependents
  rw [List.mem_filter, List.contains_iff_mem, hfollow]
  constructor
  · exact fun h => h.2
  · intro h
    exact ⟨List.mem_range.mpr (h.lt hg).1, h⟩

/-- Transitive dependents are listed in ascending order. -/
theorem transitiveDependents_ascending (g : Graph) (i : Nat) :
    (g.transitiveDependents i).Pairwise (· < ·) :=
  List.pairwise_lt_range.filter _

/-- **The dependents of a project are listed exactly**, in a graph that was
    built of these edges: ascending, those projects from which a non-empty
    chain of edges leads to it.  The project itself is never one of them. -/
theorem transitiveDependents_exact {nodes : List Project} {edges : List (Nat × Nat)}
    {roots : List Nat} {g : Graph} (hg : ofEdges nodes edges roots = .ok g) (i : Nat) :
    (g.transitiveDependents i).Pairwise (· < ·) ∧
      (∀ j, j ∈ g.transitiveDependents i ↔
        Relation.TransGen (fun j k => (j, k) ∈ edges) j i) ∧
      i ∉ g.transitiveDependents i := by
  have hwell := wellFormed_of_ofEdges hg
  refine ⟨g.transitiveDependents_ascending i, fun j => ?_, fun hi => ?_⟩
  · rw [mem_transitiveDependents hwell, dependsOn_iff, eq_of_ofEdges hg]
    simp only [mem_distinct]
  · exact DependsOn.irrefl hwell i ((mem_transitiveDependents hwell).mp hi)

/-- Five projects without any settings. -/
def fiveProjects : List Project :=
  ["/r/a", "/r/b", "/r/c", "/r/d", "/r/e"].map fun dir =>
    .ofConfig ((⟨dir⟩ : Path).join ⟨configFileName⟩) {}

/-- Two projects reference the first, a third one references both of them, and
    one stands alone. -/
def sharedEdges : List (Nat × Nat) :=
  [(1, 0), (3, 0), (4, 3), (4, 1), (3, 0)]

/-- What is reached along two chains is listed once, and what stands alone is
    not. -/
theorem transitiveDependents_exact_shared :
    ∃ g, ofEdges fiveProjects sharedEdges [4, 2] = .ok g ∧
      g.transitiveDependents 0 = [1, 3, 4] ∧
      [1, 3, 4].Pairwise (· < ·) ∧
      (∀ j, j ∈ [1, 3, 4] ↔ Relation.TransGen (fun j k => (j, k) ∈ sharedEdges) j 0) ∧
      0 ∉ [1, 3, 4] := by
  have hg : ofEdges fiveProjects sharedEdges [4, 2]
      = .ok ⟨fiveProjects, distinct sharedEdges, distinct [4, 2]⟩ :=
    ofEdges_of_descending (by decide) (by decide) (by decide)
  have hlisted : (Graph.mk fiveProjects (distinct sharedEdges)
      (distinct [4, 2])).transitiveDependents 0 = [1, 3, 4] := by decide
  have hexact := transitiveDependents_exact hg 0
  rw [hlisted] at hexact
  exact ⟨_, hg, hlisted, hexact⟩

end ProjectBuild.Graph
