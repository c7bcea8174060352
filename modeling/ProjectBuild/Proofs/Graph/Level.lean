import ProjectBuild.Graph.Level
import ProjectBuild.Proofs.Graph.Order

/-! # The level partition

    Heights are computed from the end of the topological order, where a
    project's dependents stand, so each height is final when it is first
    needed (`heights_eq`).  A reference is therefore higher than the project
    that has it, and lies in a strictly earlier level
    (`levels_getElem_dependency`); every project lies in exactly one level. -/

namespace ProjectBuild.Graph

/-! ## Maxima -/

/-- The greatest of some numbers is no less than any. -/
theorem le_foldl_max (xs : List Nat) (start : Nat) :
    start ≤ xs.foldl max start ∧ ∀ x ∈ xs, x ≤ xs.foldl max start := by
  induction xs generalizing start with
  | nil => exact ⟨Nat.le_refl _, fun x hx => nomatch hx⟩
  | cons y rest ih =>
      obtain ⟨h1, h2⟩ := ih (max start y)
      refine ⟨Nat.le_trans (Nat.le_max_left start y) h1, ?_⟩
      intro x hx
      rcases List.mem_cons.mp hx with rfl | hx
      · exact Nat.le_trans (Nat.le_max_right start x) h1
      · exact h2 x hx

/-! ## Heights -/

private theorem getD_set_self {xs : List Nat} {i v : Nat} (hi : i < xs.length) :
    (xs.set i v).getD i 0 = v := by
  simp [List.getD_eq_getElem?_getD, hi]

private theorem getD_set_ne {xs : List Nat} {i j v : Nat} (h : i ≠ j) :
    (xs.set i v).getD j 0 = xs.getD j 0 := by
  simp [List.getD_eq_getElem?_getD, h]

/-- Heights of other projects than the dependents do not count. -/
theorem heightAbove_set {g : Graph} {heights : List Nat} {i j v : Nat}
    (h : i ∉ g.dependents j) :
    g.heightAbove (heights.set i v) j = g.heightAbove heights j := by
  unfold heightAbove
  congr 1
  apply List.map_congr_left
  intro k hk
  rw [getD_set_ne (fun hik => h (by rw [hik]; exact hk))]

/-- Computing heights from a list in which dependents come first makes each
    of them final. -/
theorem foldl_heights {g : Graph} (hg : g.WellFormed) :
    ∀ (order : List Nat) (heights : List Nat) (done : List Nat),
      heights.length = g.size →
      (∀ i ∈ order, i < g.size) →
      (∀ i ∈ done, heights.getD i 0 = g.heightAbove heights i) →
      (done ++ order).Pairwise (fun a b => a ∉ g.dependencies b) →
      (done ++ order).Nodup →
      ∀ i ∈ done ++ order,
        (order.foldl (fun hs i => hs.set i (g.heightAbove hs i)) heights).getD i 0
          = g.heightAbove
              (order.foldl (fun hs i => hs.set i (g.heightAbove hs i)) heights) i := by
  intro order
  -- `done` is what has been set: nothing later in the order is a dependent of it
  induction order with
  | nil =>
      intro heights done _ _ hdone _ _ i hi
      rw [List.append_nil] at hi
      exact hdone i hi
  | cons k rest ih =>
      intro heights done hlen hlt hdone hpair hnd
      have hsplit : done ++ k :: rest = done ++ [k] ++ rest := by simp
      rw [hsplit] at hpair hnd ⊢
      rw [List.foldl_cons]
      refine ih _ (done ++ [k]) ?_ (fun i hi => hlt i (List.mem_cons_of_mem k hi)) ?_ hpair hnd
      · rw [List.length_set]
        exact hlen
      · have hkk : k ∉ g.dependents k := fun h =>
          hg.not_self_dependency k (mem_dependents_iff.mp h)
        have hk : k < heights.length := by
          rw [hlen]
          exact hlt k List.mem_cons_self
        intro i hi
        rcases List.mem_append.mp hi with hi | hi
        · have hik : k ∉ g.dependents i := by
            intro hmem
            have hp := (List.pairwise_append.mp hpair).1
            have := (List.pairwise_append.mp hp).2.2 i hi k (List.mem_singleton.mpr rfl)
            exact this (mem_dependents_iff.mp hmem)
          have hne : k ≠ i := by
            intro h
            subst h
            have hd := (List.nodup_append.mp hnd).1
            exact (List.nodup_append.mp hd).2.2 k hi k (List.mem_singleton.mpr rfl) rfl
          rw [getD_set_ne hne, heightAbove_set hik]
          exact hdone i hi
        · rw [List.mem_singleton] at hi
          subst hi
          rw [getD_set_self hk, heightAbove_set hkk]

/-- Where all dependencies come before, none comes after. -/
private theorem pairwise_of_grounded {g : Graph} (order : List Nat) (hnd : order.Nodup)
    (h : ∀ front i back, order = front ++ i :: back → ∀ j ∈ g.dependencies i, j ∈ front) :
    order.Pairwise (fun a b => b ∉ g.dependencies a) := by
  rw [List.pairwise_iff_forall_sublist]
  intro a b hsub hmem
  obtain ⟨first, second, rfl, ha, hb⟩ := List.cons_sublist_iff.mp hsub
  obtain ⟨front, back, rfl⟩ := List.append_of_mem ha
  have hb' : b ∈ second := List.singleton_sublist.mp hb
  have hfront : b ∈ front := h front a (back ++ second) (by simp) b hmem
  exact (List.nodup_append.mp hnd).2.2 b
    (List.mem_append.mpr (Or.inl hfront)) b hb' rfl

/-- **Heights are final**: each is one more than the largest height of a
    dependent. -/
theorem heights_eq {g : Graph} (hg : g.WellFormed) {i : Nat} (hi : i < g.size) :
    g.heights.getD i 0 = g.heightAbove g.heights i := by
  have hnd := topologicalOrder_nodup hg.toProper
  have hpair : g.topologicalOrder.Pairwise (fun a b => b ∉ g.dependencies a) :=
    pairwise_of_grounded g.topologicalOrder hnd
      (fun front i back h => topologicalOrder_grounded hg.toProper h)
  refine foldl_heights hg g.topologicalOrder.reverse (List.replicate g.size 0) [] ?_ ?_ ?_ ?_ ?_
    i ?_
  · exact List.length_replicate
  · intro j hj
    exact (mem_topologicalOrder hg).mp (List.mem_reverse.mp hj)
  · intro j hj
    exact nomatch hj
  · exact List.pairwise_reverse.mpr hpair
  · exact List.nodup_reverse.mpr hnd
  · exact List.mem_reverse.mpr ((mem_topologicalOrder hg).mpr hi)

/-- A reference is higher than the project that has it. -/
theorem heights_lt {g : Graph} (hg : g.WellFormed) {i j : Nat} (h : j ∈ g.dependencies i) :
    g.heights.getD i 0 < g.heights.getD j 0 := by
  rw [heights_eq hg (hg.dependency_lt h).2]
  exact (le_foldl_max _ 0).2 _
    (List.mem_map.mpr ⟨i, mem_dependents_iff.mpr h, rfl⟩)

/-- Every project has a height. -/
theorem heights_length (g : Graph) : g.heights.length = g.size := by
  unfold heights
  generalize g.topologicalOrder.reverse = order
  have h : ∀ hs : List Nat,
      (order.foldl (fun hs i => hs.set i (g.heightAbove hs i)) hs).length = hs.length := by
    induction order with
    | nil => exact fun hs => rfl
    | cons k rest ih =>
        intro hs
        rw [List.foldl_cons, ih, List.length_set]
  rw [h, List.length_replicate]

/-! ## Levels -/

/-- The level of a project, from zero. -/
def levelOf (g : Graph) (i : Nat) : Nat :=
  g.heights.foldl max 0 - g.heights.getD i 0

/-- No height is above the top. -/
theorem heights_le_top {g : Graph} {i : Nat} (hi : i < g.size) :
    g.heights.getD i 0 ≤ g.heights.foldl max 0 := by
  apply (le_foldl_max g.heights 0).2
  have hlt : i < g.heights.length := by
    rw [heights_length]
    exact hi
  rw [List.getD_eq_getElem?_getD, List.getElem?_eq_getElem hlt, Option.getD_some]
  exact List.getElem_mem hlt

/-- A reference lies in a strictly earlier level. -/
theorem levelOf_lt {g : Graph} (hg : g.WellFormed) {i j : Nat} (h : j ∈ g.dependencies i) :
    g.levelOf j < g.levelOf i := by
  have h1 := heights_lt hg h
  have h2 := heights_le_top (hg.dependency_lt h).2
  unfold levelOf
  omega

/-- Levels are the heights, from the top down. -/
theorem levels_eq {g : Graph} (h : g.isEmpty = false) :
    g.levels = (List.range (g.heights.foldl max 0 + 1)).map fun level =>
      g.indices.filter fun i => g.heights.getD i 0 + level == g.heights.foldl max 0 := by
  unfold levels
  rw [h]
  rfl

/-- There are as many levels as heights up to the top. -/
theorem levels_length (g : Graph) :
    g.levels.length = if g.size = 0 then 0 else g.heights.foldl max 0 + 1 := by
  have hsize : g.isEmpty = true ↔ g.size = 0 := by
    unfold isEmpty size
    rw [List.isEmpty_iff, List.length_eq_zero_iff]
  cases hempty : g.isEmpty with
  | true =>
      rw [if_pos (hsize.mp hempty)]
      unfold levels
      rw [hempty]
      rfl
  | false =>
      have hne : g.size ≠ 0 := fun h => nomatch (hsize.mpr h).symm.trans hempty
      rw [if_neg hne, levels_eq hempty, List.length_map, List.length_range]

/-- A project is in the level that has its number, and in no other. -/
theorem mem_levels_getElem {g : Graph} {n i : Nat} (hn : n < g.levels.length) :
    i ∈ g.levels[n] ↔ i < g.size ∧ g.levelOf i = n := by
  cases hempty : g.isEmpty with
  | true =>
      have : g.levels = [] := by
        unfold levels
        rw [hempty]
        rfl
      rw [this] at hn
      exact absurd hn (Nat.not_lt_zero n)
  | false =>
      have hlen : n < g.heights.foldl max 0 + 1 := by
        rw [levels_eq hempty, List.length_map, List.length_range] at hn
        exact hn
      simp only [levels_eq hempty, List.getElem_map, List.getElem_range, List.mem_filter,
        indices, List.mem_range, beq_iff_eq]
      constructor
      · rintro ⟨hi, heq⟩
        refine ⟨hi, ?_⟩
        unfold levelOf
        omega
      · rintro ⟨hi, heq⟩
        have hle := heights_le_top hi
        refine ⟨hi, ?_⟩
        unfold levelOf at heq
        omega

/-- A project is in no level but its own. -/
theorem not_mem_levels_getElem {g : Graph} {n i : Nat} (hn : n < g.levels.length)
    (h : g.levelOf i ≠ n) : i ∉ g.levels[n] :=
  fun hi => h ((mem_levels_getElem hn).mp hi).2

/-- Up to a level there are the projects before it and its own. -/
theorem levelOf_cases {g : Graph} {n i : Nat} (hn : n < g.levels.length) (hi : i < g.size)
    (hlevel : g.levelOf i < n + 1) :
    g.levelOf i < n ∧ i ∉ g.levels[n] ∨ i ∈ g.levels[n] := by
  rcases Nat.lt_succ_iff_lt_or_eq.mp hlevel with hlevel | hlevel
  · exact Or.inl ⟨hlevel, not_mem_levels_getElem hn (Nat.ne_of_lt hlevel)⟩
  · exact Or.inr ((mem_levels_getElem hn).mpr ⟨hi, hlevel⟩)

/-- The references of the projects up to a level come before it. -/
theorem dependency_before {g : Graph} (hg : g.WellFormed) {n i j : Nat}
    (hn : n < g.levels.length) (hi : g.levelOf i ≤ n) (hj : j ∈ g.dependencies i) :
    g.levelOf j < n ∧ j ∉ g.levels[n] := by
  have hlevel := Nat.lt_of_lt_of_le (levelOf_lt hg hj) hi
  exact ⟨hlevel, not_mem_levels_getElem hn (Nat.ne_of_lt hlevel)⟩

theorem levels_getD {g : Graph} {n : Nat} (hn : n < g.levels.length) :
    g.levels.getD n [] = g.levels[n] := by
  rw [List.getD_eq_getElem?_getD, List.getElem?_eq_getElem hn]
  rfl

/-- There are no projects beyond the levels. -/
theorem mem_levels_getD {g : Graph} {n i : Nat} (h : i ∈ g.levels.getD n []) :
    n < g.levels.length ∧ i < g.size ∧ g.levelOf i = n := by
  by_cases hn : n < g.levels.length
  · rw [levels_getD hn] at h
    exact ⟨hn, (mem_levels_getElem hn).mp h⟩
  · rw [List.getD_eq_getElem?_getD, List.getElem?_eq_none (Nat.not_lt.mp hn)] at h
    exact nomatch h

/-- **Every project has a level.** -/
theorem levelOf_lt_length {g : Graph} {i : Nat} (hi : i < g.size) :
    g.levelOf i < g.levels.length := by
  have hempty : g.isEmpty = false := by
    unfold isEmpty
    rw [List.isEmpty_eq_false_iff]
    intro hnil
    unfold size at hi
    rw [hnil] at hi
    exact absurd hi (Nat.not_lt_zero i)
  rw [levels_eq hempty, List.length_map, List.length_range]
  unfold levelOf
  omega

/-- Indices within a level ascend. -/
theorem levels_getElem_ascending {g : Graph} {n : Nat} (hn : n < g.levels.length) :
    g.levels[n].Pairwise (· < ·) := by
  cases hempty : g.isEmpty with
  | true =>
      have : g.levels = [] := by
        unfold levels
        rw [hempty]
        rfl
      rw [this] at hn
      exact absurd hn (Nat.not_lt_zero n)
  | false =>
      simp only [levels_eq hempty, List.getElem_map]
      exact List.pairwise_lt_range.filter _

/-- No project is in a level twice. -/
theorem levels_getElem_nodup {g : Graph} {n : Nat} (hn : n < g.levels.length) :
    g.levels[n].Nodup :=
  (levels_getElem_ascending hn).imp Nat.ne_of_lt

/-! ## The order of the levels -/

/-- Every project is in some level. -/
theorem mem_levels_flatten {g : Graph} {i : Nat} : i ∈ g.levels.flatten ↔ i < g.size := by
  rw [List.mem_flatten]
  constructor
  · rintro ⟨level, hlevel, hi⟩
    obtain ⟨n, hn, rfl⟩ := List.mem_iff_getElem.mp hlevel
    exact ((mem_levels_getElem hn).mp hi).1
  · intro hi
    have hn := levelOf_lt_length hi
    exact ⟨g.levels[g.levelOf i], List.getElem_mem hn, (mem_levels_getElem hn).mpr ⟨hi, rfl⟩⟩

/-- **The levels partition the projects.** -/
theorem levels_flatten_perm (g : Graph) : g.levels.flatten.Perm g.indices := by
  have hnodup : g.levels.flatten.Nodup := by
    refine List.nodup_flatten.mpr ⟨?_, ?_⟩
    · intro level hlevel
      obtain ⟨n, hn, rfl⟩ := List.mem_iff_getElem.mp hlevel
      exact levels_getElem_nodup hn
    · rw [List.pairwise_iff_getElem]
      intro m n hm hn hlt i hi hi'
      have := ((mem_levels_getElem hm).mp hi).2
      have := ((mem_levels_getElem hn).mp hi').2
      omega
  refine (List.perm_ext_iff_of_nodup hnodup List.nodup_range).mpr fun i => ?_
  rw [mem_levels_flatten, List.mem_range]

/-- Earlier levels stand first. -/
theorem levels_flatten_pairwise (g : Graph) :
    g.levels.flatten.Pairwise fun i j => g.levelOf i ≤ g.levelOf j := by
  refine List.pairwise_flatten.mpr ⟨?_, ?_⟩
  · intro level hlevel
    obtain ⟨n, hn, rfl⟩ := List.mem_iff_getElem.mp hlevel
    refine List.pairwise_of_forall_mem_list fun i hi j hj => Nat.le_of_eq ?_
    rw [((mem_levels_getElem hn).mp hi).2, ((mem_levels_getElem hn).mp hj).2]
  · rw [List.pairwise_iff_getElem]
    intro m n hm hn hlt i hi j hj
    rw [((mem_levels_getElem hm).mp hi).2, ((mem_levels_getElem hn).mp hj).2]
    exact Nat.le_of_lt hlt

end ProjectBuild.Graph
