import ProjectBuild.Proofs.Graph.Cycle
import ProjectBuild.Proofs.Graph.Level

/-! # The latest levels

    The levels of a graph are the latest that its references allow
    (`Graph.LatestLevels`, `levels_latest`): each project that has dependents
    lies right before the earliest of them, and what nothing depends on lies in
    the last level.  All of it is read off the heights: a height is one more
    than some height above it, so below each project there stands a chain of
    as many projects, and no chain is longer than the heights are high. -/

namespace ProjectBuild.Graph

/-- Each project of the chain references the next. -/
structure IsReferenceChain (g : Graph) (chain : List Nat) : Prop where
  references : chain.IsChain fun i j => j ∈ g.dependencies i
  inRange : ∀ i ∈ chain, i < g.size

/-- A project lies in the level with this number. -/
def InLevel (levels : List (List Nat)) (n i : Nat) : Prop :=
  ∃ level, levels[n]? = some level ∧ i ∈ level

/-- The levels of a graph, with each project as late as its dependents allow. -/
structure LatestLevels (g : Graph) (levels : List (List Nat)) : Prop where
  /-- Every project lies in exactly one level. -/
  partition : levels.flatten.Perm g.indices
  nonempty : ∀ level ∈ levels, level ≠ []
  ascending : ∀ level ∈ levels, level.Pairwise (· < ·)
  earlier : ∀ n i, InLevel levels n i → ∀ j ∈ g.dependencies i, ∃ m < n, InLevel levels m j
  /-- No chain of references connects two projects of a level. -/
  unrelated : ∀ level ∈ levels, ∀ i ∈ level, ∀ j ∈ level, ¬ g.DependsOn i j
  /-- A project with dependents lies one level before the earliest of them. -/
  adjacent : ∀ n i, InLevel levels n i → g.dependents i ≠ [] →
    (∃ k ∈ g.dependents i, InLevel levels (n + 1) k) ∧
      ∀ k ∈ g.dependents i, ∃ m, n < m ∧ InLevel levels m k
  /-- There are as many levels as projects on a longest chain of references. -/
  longest : (∃ chain, g.IsReferenceChain chain ∧ chain.length = levels.length) ∧
    ∀ chain, g.IsReferenceChain chain → chain.length ≤ levels.length
  /-- The last level is what nothing depends on. -/
  last : ∀ i, i ∈ levels.getLast?.getD [] ↔ i < g.size ∧ g.dependents i = []
  /-- No other way to put references first has a project in a later one of these levels. -/
  latest : ∀ schedule : Nat → Nat, (∀ i, ∀ j ∈ g.dependencies i, schedule j < schedule i) →
    (∀ i < g.size, schedule i < levels.length) → ∀ n i, InLevel levels n i → schedule i ≤ n

/-! ## Heights -/

/-- The greatest of some numbers is the first bound or one of them. -/
theorem foldl_max_mem (xs : List Nat) (start : Nat) :
    xs.foldl max start = start ∨ xs.foldl max start ∈ xs := by
  induction xs generalizing start with
  | nil => exact Or.inl rfl
  | cons x rest ih =>
      rw [List.foldl_cons]
      rcases ih (max start x) with h | h
      · rw [h]
        rcases Nat.le_total start x with hle | hle
        · rw [Nat.max_eq_right hle]
          exact Or.inr List.mem_cons_self
        · rw [Nat.max_eq_left hle]
          exact Or.inl rfl
      · exact Or.inr (List.mem_cons_of_mem x h)

/-- A height is one more than that of some dependent. -/
theorem heights_eq_succ {g : Graph} (hg : g.WellFormed) {i : Nat} (hi : i < g.size)
    (hdependents : g.dependents i ≠ []) :
    ∃ k ∈ g.dependents i, g.heights.getD i 0 = g.heights.getD k 0 + 1 := by
  obtain ⟨first, hfirst⟩ := List.exists_mem_of_ne_nil _ hdependents
  have hlt := heights_lt hg (mem_dependents_iff.mp hfirst)
  rw [heights_eq hg hi] at hlt ⊢
  unfold heightAbove at hlt ⊢
  rcases foldl_max_mem ((g.dependents i).map fun k => g.heights.getD k 0 + 1) 0 with h | h
  · rw [h] at hlt
    exact absurd hlt (Nat.not_lt_zero _)
  · obtain ⟨k, hk, heq⟩ := List.mem_map.mp h
    exact ⟨k, hk, heq.symm⟩

/-- At the height zero stand the projects that nothing depends on. -/
theorem heights_eq_zero_iff {g : Graph} (hg : g.WellFormed) {i : Nat} (hi : i < g.size) :
    g.heights.getD i 0 = 0 ↔ g.dependents i = [] := by
  constructor
  · intro h
    by_contra hdependents
    obtain ⟨k, -, hk⟩ := heights_eq_succ hg hi hdependents
    omega
  · intro h
    rw [heights_eq hg hi]
    unfold heightAbove
    rw [h]
    rfl

/-- **A chain of references as long as a project is high ends in it.** -/
theorem exists_chain_above {g : Graph} (hg : g.WellFormed) {i : Nat} (hi : i < g.size) :
    ∃ above, g.IsReferenceChain (above ++ [i]) ∧ above.length = g.heights.getD i 0 := by
  -- on the height, from the dependent that it comes from
  induction hheight : g.heights.getD i 0 generalizing i with
  | zero =>
      refine ⟨[], ⟨List.isChain_singleton i, fun k hk => ?_⟩, rfl⟩
      exact (List.mem_singleton.mp hk) ▸ hi
  | succ height ih =>
      have hdependents : g.dependents i ≠ [] := fun h =>
        absurd ((heights_eq_zero_iff hg hi).mpr h) (by omega)
      obtain ⟨k, hk, heq⟩ := heights_eq_succ hg hi hdependents
      obtain ⟨above, habove, hlength⟩ := ih (hg.dependent_lt hk).2 (by omega)
      refine ⟨above ++ [k], ⟨?_, ?_⟩, by rw [List.length_append, List.length_singleton, hlength]⟩
      · refine habove.references.append (List.isChain_singleton i) fun a ha b hb => ?_
        rw [List.getLast?_concat, Option.mem_some_iff] at ha
        rw [List.head?_cons, Option.mem_some_iff] at hb
        exact ha ▸ hb ▸ mem_dependents_iff.mp hk
      · intro j hj
        rcases List.mem_append.mp hj with hj | hj
        · exact habove.inRange j hj
        · exact (List.mem_singleton.mp hj) ▸ hi

/-- A chain of references climbs: its end is at least as high as it is long. -/
theorem IsReferenceChain.length_le {g : Graph} (hg : g.WellFormed) {chain : List Nat}
    (h : g.IsReferenceChain chain) (hne : chain ≠ []) :
    chain.length ≤ g.heights.foldl max 0 + 1 := by
  -- a chain goes from dependents to references, so heights rise along it
  have hclimb : ∀ (rest : List Nat) (i : Nat),
      (i :: rest).IsChain (fun i j => j ∈ g.dependencies i) →
        ∃ j ∈ i :: rest, g.heights.getD i 0 + rest.length ≤ g.heights.getD j 0 := by
    intro rest
    induction rest with
    | nil => exact fun i _ => ⟨i, List.mem_cons_self, Nat.le_refl _⟩
    | cons next rest ih =>
        intro i hchain
        obtain ⟨hnext, hrest⟩ := List.isChain_cons_cons.mp hchain
        obtain ⟨j, hj, hle⟩ := ih next hrest
        have hlt := heights_lt hg hnext
        exact ⟨j, List.mem_cons_of_mem i hj, by rw [List.length_cons]; omega⟩
  obtain ⟨i, rest, rfl⟩ := List.exists_cons_of_ne_nil hne
  obtain ⟨j, hj, hle⟩ := hclimb rest i h.references
  have htop := heights_le_top (h.inRange j hj)
  rw [List.length_cons]
  omega

/-! ## Levels -/

/-- A project is in the level that it is said to be in. -/
theorem inLevel_levels {g : Graph} {n i : Nat} :
    InLevel g.levels n i ↔ i < g.size ∧ g.levelOf i = n := by
  constructor
  · rintro ⟨level, hlevel, hi⟩
    obtain ⟨hn, rfl⟩ := List.getElem?_eq_some_iff.mp hlevel
    exact (mem_levels_getElem hn).mp hi
  · rintro ⟨hi, rfl⟩
    have hn := levelOf_lt_length hi
    exact ⟨_, List.getElem?_eq_getElem hn, (mem_levels_getElem hn).mpr ⟨hi, rfl⟩⟩

/-- **What is depended on is built in an earlier level.** -/
theorem DependsOn.levelOf_lt {g : Graph} (hg : g.WellFormed) {i j : Nat}
    (h : g.DependsOn i j) : g.levelOf j < g.levelOf i := by
  induction h with
  | single hij => exact Graph.levelOf_lt hg hij
  | tail _ hjk ih => exact Nat.lt_trans (Graph.levelOf_lt hg hjk) ih

/-- **No level is empty**: going up from a highest project, heights fall by one
    at a time. -/
theorem exists_levelOf_eq {g : Graph} (hg : g.WellFormed) {n : Nat} (hn : n < g.levels.length) :
    ∃ i < g.size, g.levelOf i = n := by
  have hdescend : ∀ height i, i < g.size → g.heights.getD i 0 = height → ∀ low ≤ height,
      ∃ k < g.size, g.heights.getD k 0 = low := by
    intro height
    induction height with
    | zero => exact fun i hi hheight low hlow => ⟨i, hi, hheight.trans (Nat.le_zero.mp hlow).symm⟩
    | succ height ih =>
        intro i hi hheight low hlow
        rcases Nat.le_succ_iff.mp hlow with hlow | rfl
        · have hdependents : g.dependents i ≠ [] := fun h =>
            absurd ((heights_eq_zero_iff hg hi).mpr h) (by omega)
          obtain ⟨k, hk, heq⟩ := heights_eq_succ hg hi hdependents
          exact ih k (hg.dependent_lt hk).2 (by omega) low hlow
        · exact ⟨i, hi, hheight⟩
  rw [levels_length] at hn
  split at hn
  · exact absurd hn (Nat.not_lt_zero n)
  · rename_i hsize
    obtain ⟨top, htop, hheight⟩ : ∃ i < g.size, g.heights.getD i 0 = g.heights.foldl max 0 := by
      -- either every height is zero, or the top is one of them
      rcases foldl_max_mem g.heights 0 with h | h
      · have h0 : 0 < g.size := Nat.pos_of_ne_zero hsize
        have hle := heights_le_top h0
        exact ⟨0, h0, by omega⟩
      · obtain ⟨i, hi, heq⟩ := List.mem_iff_getElem.mp h
        refine ⟨i, heights_length g ▸ hi, ?_⟩
        rw [List.getD_eq_getElem?_getD, List.getElem?_eq_getElem hi, Option.getD_some]
        exact heq
    obtain ⟨i, hi, heq⟩ := hdescend _ top htop hheight (g.heights.foldl max 0 - n) (by omega)
    refine ⟨i, hi, ?_⟩
    unfold levelOf
    omega

/-- The last level is that of height zero. -/
theorem mem_getLast?_levels {g : Graph} (hg : g.WellFormed) {i : Nat} :
    i ∈ g.levels.getLast?.getD [] ↔ i < g.size ∧ g.dependents i = [] := by
  have hmem : i ∈ g.levels.getLast?.getD [] ↔ InLevel g.levels (g.levels.length - 1) i := by
    unfold InLevel
    rw [List.getLast?_eq_getElem?]
    cases g.levels[g.levels.length - 1]? with
    | none =>
        constructor
        · intro h
          exact nomatch h
        · rintro ⟨_, h, -⟩
          exact nomatch h
    | some level =>
        constructor
        · exact fun h => ⟨level, rfl, h⟩
        · rintro ⟨_, h, hi⟩
          cases h
          exact hi
  rw [hmem, inLevel_levels]
  refine and_congr_right fun hi => ?_
  have hle := heights_le_top hi
  rw [← heights_eq_zero_iff hg hi, levels_length, if_neg (by omega)]
  unfold levelOf
  omega

/-- No level is empty. -/
theorem levels_ne_nil {g : Graph} (hg : g.WellFormed) : ∀ level ∈ g.levels, level ≠ [] := by
  intro level hlevel hnil
  obtain ⟨n, hn, rfl⟩ := List.mem_iff_getElem.mp hlevel
  obtain ⟨i, hi, hlevelOf⟩ := exists_levelOf_eq hg hn
  have hmem := (mem_levels_getElem hn).mpr ⟨hi, hlevelOf⟩
  rw [hnil] at hmem
  exact nomatch hmem

/-- One of the dependents lies in the next level. -/
theorem exists_levelOf_succ {g : Graph} (hg : g.WellFormed) {i : Nat} (hi : i < g.size)
    (hdependents : g.dependents i ≠ []) :
    ∃ k ∈ g.dependents i, g.levelOf k = g.levelOf i + 1 := by
  obtain ⟨k, hk, heq⟩ := heights_eq_succ hg hi hdependents
  refine ⟨k, hk, ?_⟩
  have hle := heights_le_top hi
  unfold levelOf
  omega

/-- Above a project of the first level there stands a chain through all levels. -/
theorem exists_chain_levels {g : Graph} (hg : g.WellFormed) :
    ∃ chain, g.IsReferenceChain chain ∧ chain.length = g.levels.length := by
  by_cases hsize : g.size = 0
  · refine ⟨[], ⟨List.isChain_nil, fun _ h => nomatch h⟩, ?_⟩
    rw [levels_length, if_pos hsize]
    rfl
  · have hlength : 0 < g.levels.length := by
      rw [levels_length, if_neg hsize]
      exact Nat.succ_pos _
    obtain ⟨i, hi, hlevelOf⟩ := exists_levelOf_eq hg hlength
    obtain ⟨above, habove, hheight⟩ := exists_chain_above hg hi
    refine ⟨above ++ [i], habove, ?_⟩
    have hle := heights_le_top hi
    unfold levelOf at hlevelOf
    rw [List.length_append, List.length_singleton, levels_length, if_neg hsize]
    omega

/-- There are as many levels as a chain of references is long, at least. -/
theorem IsReferenceChain.length_le_levels {g : Graph} (hg : g.WellFormed) {chain : List Nat}
    (h : g.IsReferenceChain chain) : chain.length ≤ g.levels.length := by
  cases hchain : chain with
  | nil => exact Nat.zero_le _
  | cons i rest =>
      have hi : i < g.size := h.inRange i (hchain ▸ List.mem_cons_self)
      have hle := h.length_le hg (hchain ▸ List.cons_ne_nil i rest)
      rw [levels_length, if_neg (by omega), ← hchain]
      exact hle

/-- **No schedule has a project later**: its dependents are scheduled behind it,
    one after the other up to the last level. -/
theorem schedule_le_levelOf {g : Graph} (hg : g.WellFormed) {schedule : Nat → Nat}
    (hschedule : ∀ i, ∀ j ∈ g.dependencies i, schedule j < schedule i)
    (hbound : ∀ i < g.size, schedule i < g.levels.length) {i : Nat} (hi : i < g.size) :
    schedule i ≤ g.levelOf i := by
  -- on the height: a dependent that is one lower is scheduled later
  have hroom : schedule i + g.heights.getD i 0 < g.levels.length := by
    induction hheight : g.heights.getD i 0 generalizing i with
    | zero => exact hbound i hi
    | succ height ih =>
        have hdependents : g.dependents i ≠ [] := fun h =>
          absurd ((heights_eq_zero_iff hg hi).mpr h) (by omega)
        obtain ⟨k, hk, heq⟩ := heights_eq_succ hg hi hdependents
        have hlater := hschedule k i (mem_dependents_iff.mp hk)
        have := ih (hg.dependent_lt hk).2 (by omega)
        omega
  rw [levels_length, if_neg (by omega)] at hroom
  unfold levelOf
  omega

/-- The levels of a well-formed graph are the latest. -/
theorem WellFormed.latestLevels {g : Graph} (hg : g.WellFormed) : g.LatestLevels g.levels where
  partition := levels_flatten_perm g
  nonempty := levels_ne_nil hg
  ascending := by
    intro level hlevel
    obtain ⟨n, hn, rfl⟩ := List.mem_iff_getElem.mp hlevel
    exact levels_getElem_ascending hn
  earlier := by
    intro n i hlevel j hj
    obtain ⟨-, rfl⟩ := inLevel_levels.mp hlevel
    exact ⟨_, Graph.levelOf_lt hg hj, inLevel_levels.mpr ⟨(hg.dependency_lt hj).2, rfl⟩⟩
  unrelated := by
    intro level hlevel i hi j hj hij
    obtain ⟨n, hn, rfl⟩ := List.mem_iff_getElem.mp hlevel
    have hlt := hij.levelOf_lt hg
    rw [((mem_levels_getElem hn).mp hi).2, ((mem_levels_getElem hn).mp hj).2] at hlt
    exact Nat.lt_irrefl n hlt
  adjacent := by
    intro n i hlevel hdependents
    obtain ⟨hi, rfl⟩ := inLevel_levels.mp hlevel
    constructor
    · obtain ⟨k, hk, heq⟩ := exists_levelOf_succ hg hi hdependents
      exact ⟨k, hk, inLevel_levels.mpr ⟨(hg.dependent_lt hk).2, heq⟩⟩
    · intro k hk
      exact ⟨_, Graph.levelOf_lt hg (mem_dependents_iff.mp hk),
        inLevel_levels.mpr ⟨(hg.dependent_lt hk).2, rfl⟩⟩
  longest := ⟨exists_chain_levels hg, fun _ hchain => hchain.length_le_levels hg⟩
  last := fun i => mem_getLast?_levels hg
  latest := by
    intro schedule hschedule hbound n i hlevel
    obtain ⟨hi, rfl⟩ := inLevel_levels.mp hlevel
    exact schedule_le_levelOf hg hschedule hbound hi

end ProjectBuild.Graph
