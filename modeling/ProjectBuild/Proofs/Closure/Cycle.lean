import ProjectBuild.Proofs.Closure.Failures
import ProjectBuild.Proofs.Graph.Cycle

/-! # Cycles of references

    Loading reports a cycle only where there is one, and reports what it is
    (`Closure.IsCycle`): the stack is a chain of references from a root, and
    what is met on it again closes the chain.  A closure with a cycle is never
    loaded, since the edges of a loaded graph descend.  If nothing else is
    wrong with the closure, the cycle is what loading fails with. -/

namespace ProjectBuild

namespace Closure

section general

variable {σ : Type} [FileSystem σ]

/-! ## What is said of a closure -/

/-- The configurations of a cycle that can be reached from a root, in order,
    the first once more at the end. -/
def IsCycle (fs : σ) (roots cycle : List Path) : Prop :=
  ∃ first middle last, cycle = first :: middle ++ [last] ∧ last.same first = true ∧
    (first :: middle).Pairwise (fun p q => p.same q = false) ∧ cycle.IsChain (Mentions fs) ∧
    Reachable fs roots first

/-- Some configuration that can be reached from a root leads back to itself. -/
def Cyclic (fs : σ) (roots : List Path) : Prop :=
  ∃ p q, Reachable fs roots p ∧ Relation.TransGen (Mentions fs) p q ∧ q.same p = true

/-- A configuration can be read and parsed, its references are resolved and its
    project is built. -/
def Loads (fs : σ) (p : Path) : Prop :=
  ∃ loaded targets node, (LoadedConfig.read fs p).value = .ok loaded ∧
    resolveReferences fs loaded = .ok targets ∧ (project fs loaded targets).value = .ok node

/-- The configurations that the configuration of `p` mentions, in order. -/
def mentioned (fs : σ) (p : Path) : List Path :=
  match (LoadedConfig.read fs p).value with
  | .ok loaded => (loaded.config.references.getD []).filterMap (target? fs loaded)
  | .error _ => []

/-- The list of mentioned configurations holds what is mentioned, and nothing else.
    -/
theorem mem_mentioned {fs : σ} {p q : Path} : q ∈ mentioned fs p ↔ Mentions fs p q := by
  unfold mentioned Mentions
  cases (LoadedConfig.read fs p).value with
  | error e => exact ⟨fun h => (nomatch h), fun ⟨_, h, _⟩ => (nomatch h)⟩
  | ok loaded =>
      rw [List.mem_filterMap]
      constructor
      · exact fun h => ⟨loaded, rfl, h⟩
      · rintro ⟨loaded', hread, h⟩
        exact Except.ok.inj hread ▸ h

/-- What can be loaded by itself loads. -/
theorem loads_of_load {fs : σ} {p : Path} (h : (load fs p).isOk = true) : Loads fs p := by
  cases hload : load fs p with
  | error e =>
      rw [hload] at h
      exact nomatch h
  | ok node =>
      obtain ⟨loaded, targets, hloaded⟩ := load_eq_ok.mp hload
      exact ⟨loaded, targets, node, hloaded⟩

/-- A cycle leads back to where it begins. -/
theorem IsCycle.cyclic {fs : σ} {roots cycle : List Path} (h : IsCycle fs roots cycle) :
    Cyclic fs roots := by
  obtain ⟨first, middle, last, rfl, hclosed, -, hchain, hreach⟩ := h
  exact ⟨first, last, hreach, transGen_of_isChain (first :: middle) hchain first
    List.mem_cons_self, hclosed⟩

/-! ## Errors that are no cycles -/

/-- A single project never fails for a cycle. -/
theorem load_ne_cycle {fs : σ} {p : Path} {cycle : List Path} :
    load fs p ≠ .error (.cycle cycle) := by
  intro h
  rcases load_error h with ⟨problem, hproblem⟩ | ⟨loaded, -, hfault⟩
  · exact nomatch hproblem
  · exact hfault.ne_cycle

/-- No restriction is reported as a cycle. -/
theorem firstViolation?_ne_cycle {fs : σ} {edges : List (Nat × Nat)} {dirs cycle : List Path}
    (i : Nat) (nodes : List Project) :
    (firstViolation? fs edges dirs i nodes).value ≠ some (.cycle cycle) := by
  intro h
  obtain ⟨k, p, -, -, hviolation, -⟩ := firstViolation?_error i nodes h
  rcases violation?_error hviolation with ⟨rule, hrule⟩ | hfault
  · exact nomatch hrule
  · exact (Fault.search hfault).ne_cycle

end general

/-! ## The depth suffices -/

/-- Files with different paths are no more than the filesystem says. -/
theorem length_le_fileBound (fs : MemoryFs) {paths : List Path}
    (hdistinct : paths.Pairwise fun p q => p.components ≠ q.components)
    (hfiles : ∀ p ∈ paths, FileSystem.isFile fs p = true) :
    paths.length ≤ FileSystem.fileBound fs := by
  have hnodup : (paths.map Path.components).Nodup := List.pairwise_map.mpr hdistinct
  have hsub : paths.map Path.components ⊆ fs.files.keys.map Path.components := by
    intro components hmem
    obtain ⟨p, hp, rfl⟩ := List.mem_map.mp hmem
    obtain ⟨entry, hentry, hsame⟩ := List.any_eq_true.mp (hfiles p hp)
    exact List.mem_map.mpr ⟨entry.1, List.mem_map_of_mem hentry, Path.same_iff.mp hsame⟩
  have hlength := (List.subperm_of_subset hnodup hsub).length_le
  rw [List.length_map, List.length_map] at hlength
  exact Nat.le_trans hlength (Nat.le_of_eq (List.length_map _))

/-- The configuration that a path stands for is a file. -/
theorem isFile_of_resolveConfig? {fs : MemoryFs} {candidate p : Path}
    (h : resolveConfig? fs candidate = some p) : FileSystem.isFile fs p = true := by
  unfold resolveConfig? at h
  split at h
  · rename_i hfile
    obtain rfl := Option.some.inj h
    exact hfile
  · simp only at h
    split at h
    · rename_i hfile
      obtain rfl := Option.some.inj h
      exact hfile
    · exact nomatch h

/-- What a configuration mentions is a file. -/
theorem Mentions.isFile {fs : MemoryFs} {p q : Path} (h : Mentions fs p q) :
    FileSystem.isFile fs q = true := by
  obtain ⟨loaded, -, reference, -, htarget⟩ := h
  exact isFile_of_resolveConfig? htarget

/-- What can be reached exists. -/
theorem Reachable.isFile {fs : MemoryFs} {roots : List Path} {p : Path}
    (h : Reachable fs roots p) : FileSystem.isFile fs p = true := by
  obtain ⟨root, -, start, hstart, hchain⟩ := h
  cases hchain with
  | refl => exact isFile_of_resolveConfig? (resolveRoot_eq_ok.mp hstart)
  | tail _ hmentions => exact hmentions.isFile

/-! ## What the stack knows -/

/-- The paths on the stack are a chain of references, which leads to the path
    that is visited next; they are all different, and exist. -/
structure Stacked (fs : MemoryFs) (roots stack : List Path) (configPath : Path) : Prop where
  chain : (stack ++ [configPath]).IsChain (Mentions fs)
  reachable : ∀ p ∈ stack ++ [configPath], Reachable fs roots p
  distinct : stack.Pairwise fun p q => p.components ≠ q.components
  files : ∀ p ∈ stack ++ [configPath], FileSystem.isFile fs p = true

variable {fs : MemoryFs} {roots stack : List Path} {configPath : Path}

/-- The stack has no repeats, and gets none by what is not on it. -/
theorem Stacked.distinct_concat (h : Stacked fs roots stack configPath)
    (hnew : stack.any configPath.same = false) :
    (stack ++ [configPath]).Pairwise fun p q => p.components ≠ q.components := by
  refine List.pairwise_append.mpr ⟨h.distinct, List.pairwise_singleton _ _, ?_⟩
  intro p hp q hq heq
  rw [List.mem_singleton.mp hq] at heq
  exact List.any_eq_false.mp hnew p hp (Path.same_iff.mpr heq.symm)

/-- There is room below a stack for what is not on it, as there are not more
    configurations than files. -/
theorem Stacked.length_lt (h : Stacked fs roots stack configPath)
    (hnew : stack.any configPath.same = false) : stack.length < FileSystem.fileBound fs := by
  have hlength := length_le_fileBound fs (h.distinct_concat hnew) h.files
  rw [List.length_append, List.length_singleton] at hlength
  exact hlength

/-- What a root names is visited below an empty stack. -/
theorem Stacked.root {root : Path} (hroot : root ∈ roots)
    (hresolve : resolveRoot fs root = .ok configPath) : Stacked fs roots [] configPath := by
  have hreachable : Reachable fs roots configPath := ⟨root, hroot, configPath, hresolve, .refl⟩
  refine ⟨List.isChain_singleton configPath, ?_, List.Pairwise.nil, ?_⟩
  · exact fun q hq => (List.mem_singleton.mp hq) ▸ hreachable
  · exact fun q hq => (List.mem_singleton.mp hq) ▸ hreachable.isFile

/-- What a new configuration mentions can be visited next. -/
theorem Stacked.descend (h : Stacked fs roots stack configPath)
    (hnew : stack.any configPath.same = false) {q : Path} (hq : Mentions fs configPath q) :
    Stacked fs roots (stack ++ [configPath]) q := by
  have hlast : Reachable fs roots configPath := h.reachable configPath (by simp)
  refine ⟨?_, ?_, h.distinct_concat hnew, ?_⟩
  · refine h.chain.append (List.isChain_singleton q) ?_
    intro p hp q' hq'
    rw [List.getLast?_concat, Option.mem_some_iff] at hp
    rw [List.head?_cons, Option.mem_some_iff] at hq'
    exact hp ▸ hq' ▸ hq
  · intro p hp
    rcases List.mem_append.mp hp with hp | hp
    · exact h.reachable p hp
    · exact (List.mem_singleton.mp hp) ▸ hlast.mentions hq
  · intro p hp
    rcases List.mem_append.mp hp with hp | hp
    · exact h.files p hp
    · exact (List.mem_singleton.mp hp) ▸ hq.isFile

/-- Meeting a path on the stack closes a cycle. -/
theorem Stacked.closeCycle (h : Stacked fs roots stack configPath)
    (hmet : stack.any configPath.same = true) :
    IsCycle fs roots (Closure.closeCycle stack configPath) := by
  obtain ⟨first, middle, hdrop, hfirst, hsuffix⟩ := dropWhile_not_eq_cons hmet
  have hclose : Closure.closeCycle stack configPath = first :: middle ++ [configPath] := by
    rw [← hdrop]
    rfl
  refine ⟨first, middle, configPath, hclose, hfirst, ?_, ?_, ?_⟩
  · refine (h.distinct.sublist hsuffix.sublist).imp ?_
    exact fun hne => Path.same_eq_false_iff.mpr hne
  · obtain ⟨front, hfront⟩ := hsuffix
    have hchain := h.chain
    rw [← hfront, List.append_assoc] at hchain
    rw [hclose]
    exact hchain.right_of_append
  · exact h.reachable first (List.mem_append_left _ (hsuffix.subset List.mem_cons_self))

/-- **A visit reports a cycle only where there is one.** -/
theorem visit_cycle (depth : Nat) (h : Stacked fs roots stack configPath)
    (hdepth : FileSystem.fileBound fs ≤ stack.length + depth) (s : Progress) {s' : Progress}
    {cycle : List Path} (hvisit : visit fs depth stack configPath s = (.error (.cycle cycle), s')) :
    IsCycle fs roots cycle := by
  refine visit_induct fs (P := fun depth stack configPath _ step =>
    Stacked fs roots stack configPath → FileSystem.fileBound fs ≤ stack.length + depth →
      ∀ cycle s', step = (.error (.cycle cycle), s') → IsCycle fs roots cycle) ?_ ?_ ?_ ?_ depth
    stack configPath s h hdepth cycle s' hvisit
  · exact fun _ _ _ _ _ _ _ _ _ _ hvisit => nomatch (Prod.mk.inj hvisit).1
  · intro _ _ _ _ _ hmet h _ cycle s' hvisit
    obtain rfl := Error.cycle.inj (Except.error.inj (Prod.mk.inj hvisit).1)
    exact h.closeCycle hmet
  · intro stack configPath _ hnew h hdepth
    exact absurd hdepth (Nat.not_le_of_lt (h.length_lt hnew))
  · intro depth stack configPath s _ hnew hdescend h hdepth cycle s' hvisit
    rcases enter_error hvisit with hload | ⟨q, hmentions, t, t', hvisit'⟩
    · exact absurd hload load_ne_cycle
    · refine hdescend q t (h.descend hnew hmentions) ?_ cycle t' hvisit'
      rw [List.length_append, List.length_singleton]
      omega

/-! ## Roots -/

/-- A cycle that the traversal reports is one of the references that are reachable.
    -/
theorem visitRoots_cycle {s : Progress} {cycle : List Path}
    (h : visitRoots fs roots {} = (.error (.cycle cycle), s)) : IsCycle fs roots cycle := by
  obtain ⟨root, hroot, t, t', hvisit⟩ := visitEach_error h
  cases hresolve : resolveRoot fs root with
  | error e =>
      rw [hresolve] at hvisit
      obtain rfl := Except.error.inj (Prod.mk.inj hvisit).1
      exact nomatch (resolveRoot_error hresolve).2
  | ok p =>
      rw [hresolve] at hvisit
      exact visit_cycle (FileSystem.fileBound fs) (Stacked.root hroot hresolve)
        (Nat.le_of_eq (Nat.zero_add _).symm) t hvisit

/-- Where every configuration loads, the traversal fails for a cycle or not at all.
    -/
theorem visitRoots_error_of_loads {s : Progress} {e : Error}
    (hroots : ∀ root ∈ roots, ∃ p, resolveRoot fs root = .ok p)
    (hloads : ∀ p, Reachable fs roots p → Loads fs p)
    (h : visitRoots fs roots {} = (.error e, s)) : ∃ cycle, e = .cycle cycle := by
  rcases visitRoots_error h with ⟨root, hroot, hfailed⟩ | ⟨p, hp, hfailed⟩ | hcycle
  · obtain ⟨p, hresolved⟩ := hroots root hroot
    exact nomatch hresolved.symm.trans hfailed
  · obtain ⟨loaded, targets, node, hload⟩ := hloads p hp
    exact nomatch (load_eq_ok.mpr ⟨loaded, targets, hload⟩).symm.trans hfailed
  · exact hcycle

end Closure

/-! ## Graphs -/

/-- A loaded graph has no cycle, and neither has the closure that it is of. -/
theorem Graph.IsClosure.not_cyclic {g : Graph} {fs : MemoryFs} {roots : List Path}
    (h : g.IsClosure fs roots) : ¬ Closure.Cyclic fs roots := by
  rintro ⟨p, q, hp, hpq, hqp⟩
  have hdescends : ∀ {r}, Relation.TransGen (Closure.Mentions fs) p r → ∀ {i}, i < g.size →
      (g.node i).configPath.same p = true →
      ∃ j < i, j < g.size ∧ (g.node j).configPath.same r = true := by
    -- one step down for each reference
    have hstep : ∀ {r r' i}, Closure.Mentions fs r r' → i < g.size →
        (g.node i).configPath.same r = true →
        ∃ j < i, j < g.size ∧ (g.node j).configPath.same r' = true := by
      intro r r' i hmentions hi hsame
      have hmentions' := hmentions.congr (Path.same_iff.mp hsame).symm
      have hreach := (h.reachable i hi).mentions hmentions'
      obtain ⟨j, hj, hj'⟩ := h.complete r' hreach
      have hedge : (i, j) ∈ g.edges := (h.edges i j).mpr ⟨hi, hj, r', hmentions', hj'⟩
      exact ⟨j, h.descending (i, j) hedge, hj, hj'⟩
    intro r hr
    induction hr with
    | single hpr => exact fun hi hsame => hstep hpr hi hsame
    | tail _ hrr' ih =>
        intro i hi hsame
        obtain ⟨j, hji, hj, hsame'⟩ := ih hi hsame
        obtain ⟨k, hkj, hk, hsame''⟩ := hstep hrr' hj hsame'
        exact ⟨k, Nat.lt_trans hkj hji, hk, hsame''⟩
  obtain ⟨i, hi, hsame⟩ := h.complete p hp
  obtain ⟨j, hji, hj, hsame'⟩ := hdescends hpq hi hsame
  refine h.distinct j hj i hi (Nat.ne_of_lt hji) ?_
  rw [Path.same_iff.mp hsame', Path.same_iff.mp hqp, Path.same_iff.mp hsame]

/-- A cycle is found by the traversal, not by the restrictions. -/
theorem loadGraph_cycle_cases {fs : MemoryFs} {roots : List Path} {cycle : List Path}
    (h : (loadGraph fs roots).value = .error (.cycle cycle)) :
    ∃ s, Closure.visitRoots fs roots {} = (.error (.cycle cycle), s) := by
  rcases loadGraph_error h with hvisit | ⟨indices, s, -, hviolation⟩
  · exact hvisit
  · exact absurd hviolation (Closure.firstViolation?_ne_cycle 0 s.nodes)

/-- **Cycles are reported exactly**: a cycle that loading reports is one; a
    closure with a cycle is never loaded, and if nothing else is wrong with it,
    a cycle is what loading fails with; and for a closure without cycles, none
    is reported. -/
theorem loadGraph_cycle (fs : MemoryFs) (roots : List Path) :
    (∀ cycle, (loadGraph fs roots).value = .error (.cycle cycle) →
      Closure.IsCycle fs roots cycle) ∧
    (Closure.Cyclic fs roots → (∀ g, (loadGraph fs roots).value ≠ .ok g) ∧
      ((∀ root ∈ roots, ∃ p, Closure.resolveRoot fs root = .ok p) →
        (∀ p, Closure.Reachable fs roots p → Closure.Loads fs p) →
          ∃ cycle, (loadGraph fs roots).value = .error (.cycle cycle))) ∧
    (¬ Closure.Cyclic fs roots → ∀ cycle, (loadGraph fs roots).value ≠ .error (.cycle cycle)) := by
  have hsound : ∀ cycle, (loadGraph fs roots).value = .error (.cycle cycle) →
      Closure.IsCycle fs roots cycle := by
    intro cycle h
    obtain ⟨s, hvisit⟩ := loadGraph_cycle_cases h
    exact Closure.visitRoots_cycle hvisit
  refine ⟨hsound, fun hcyclic => ⟨?_, ?_⟩, fun hacyclic cycle h => hacyclic (hsound cycle h).cyclic⟩
  · intro g hg
    obtain ⟨indices, s, hvisit, hedges⟩ := loadGraph_ok hg
    obtain ⟨g', hg', hclosure⟩ := Closure.ofEdges_visitRoots hvisit
    exact hclosure.not_cyclic hcyclic
  · intro hroots hloads
    rcases hvisit : Closure.visitRoots fs roots {} with ⟨result, s⟩
    cases result with
    | ok indices =>
        obtain ⟨g, -, hclosure⟩ := Closure.ofEdges_visitRoots hvisit
        exact absurd hcyclic hclosure.not_cyclic
    | error e =>
        obtain ⟨cycle, rfl⟩ := Closure.visitRoots_error_of_loads hroots hloads hvisit
        refine ⟨cycle, ?_⟩
        unfold loadGraph
        rw [hvisit]

/-- Two projects that reference each other. -/
def ringFiles : MemoryFs :=
  .ofTexts [("/r/a/tsconfig.json",
      "\x7b\"files\": [], \"references\": [\x7b\"path\": \"../b\"\x7d]\x7d"),
    ("/r/b/tsconfig.json",
      "\x7b\"files\": [], \"references\": [\x7b\"path\": \"../a\"\x7d]\x7d")]

/-- Two projects that reference each other are reported as a cycle, and two of
    which only one references the other are not. -/
theorem loadGraph_cycle_ring :
    Closure.Cyclic ringFiles [⟨"/r/a"⟩] ∧
      (∃ cycle, (loadGraph ringFiles [⟨"/r/a"⟩]).value = .error (.cycle cycle) ∧
        Closure.IsCycle ringFiles [⟨"/r/a"⟩] cycle) ∧
      (∀ g, (loadGraph ringFiles [⟨"/r/a"⟩]).value ≠ .ok g) ∧
      ∀ cycle, (loadGraph pairFiles [⟨"/r/app"⟩]).value ≠ .error (.cycle cycle) := by
  have hresolve : resolveConfig? ringFiles (⟨"/r/a"⟩ : Path).normalize
      = some ⟨"/r/a/tsconfig.json"⟩ := by decide +kernel
  have hroot : Closure.resolveRoot ringFiles ⟨"/r/a"⟩ = .ok ⟨"/r/a/tsconfig.json"⟩ := by
    simp only [Closure.resolveRoot, hresolve]
  have ha : Closure.mentioned ringFiles ⟨"/r/a/tsconfig.json"⟩ = [⟨"/r/b/tsconfig.json"⟩] := by
    decide +kernel
  have hb : Closure.mentioned ringFiles ⟨"/r/b/tsconfig.json"⟩ = [⟨"/r/a/tsconfig.json"⟩] := by
    decide +kernel
  have hab : Closure.Mentions ringFiles ⟨"/r/a/tsconfig.json"⟩ ⟨"/r/b/tsconfig.json"⟩ :=
    Closure.mem_mentioned.mp (ha ▸ List.mem_singleton.mpr rfl)
  have hba : Closure.Mentions ringFiles ⟨"/r/b/tsconfig.json"⟩ ⟨"/r/a/tsconfig.json"⟩ :=
    Closure.mem_mentioned.mp (hb ▸ List.mem_singleton.mpr rfl)
  have hcyclic : Closure.Cyclic ringFiles [⟨"/r/a"⟩] :=
    ⟨_, _, ⟨_, List.mem_singleton.mpr rfl, _, hroot, .refl⟩, .tail (.single hab) hba,
      Path.same_iff.mpr rfl⟩
  have hboth : ∀ p, Closure.Reachable ringFiles [⟨"/r/a"⟩] p →
      p = ⟨"/r/a/tsconfig.json"⟩ ∨ p = ⟨"/r/b/tsconfig.json"⟩ := by
    rintro p ⟨root, hmem, start, hstart, hchain⟩
    rw [List.mem_singleton.mp hmem, hroot] at hstart
    obtain rfl := Except.ok.inj hstart
    induction hchain with
    | refl => exact Or.inl rfl
    | tail _ hmentions ih =>
        rcases ih with rfl | rfl
        · have hmem := Closure.mem_mentioned.mpr hmentions
          rw [ha] at hmem
          exact Or.inr (List.mem_singleton.mp hmem)
        · have hmem := Closure.mem_mentioned.mpr hmentions
          rw [hb] at hmem
          exact Or.inl (List.mem_singleton.mp hmem)
  have hloads : ∀ p, Closure.Reachable ringFiles [⟨"/r/a"⟩] p → Closure.Loads ringFiles p := by
    intro p hp
    rcases hboth p hp with rfl | rfl
    · exact Closure.loads_of_load (by decide +kernel)
    · exact Closure.loads_of_load (by decide +kernel)
  obtain ⟨hsound, hcomplete, -⟩ := loadGraph_cycle ringFiles [⟨"/r/a"⟩]
  obtain ⟨hnever, hexact⟩ := hcomplete hcyclic
  obtain ⟨cycle, hcycle⟩ := hexact
    (fun root hmem => ⟨_, (List.mem_singleton.mp hmem) ▸ hroot⟩) hloads
  refine ⟨hcyclic, ⟨cycle, hcycle, hsound cycle hcycle⟩, hnever, ?_⟩
  exact (loadGraph_cycle pairFiles [⟨"/r/app"⟩]).2.2
    fun hcyclic => ((loadGraph_cycle pairFiles [⟨"/r/app"⟩]).2.1 hcyclic).1 pairGraph
      pairGraph_loaded

end ProjectBuild
