import ProjectBuild.Proofs.Closure.Reach

/-! # What loading looks at

    Loading looks at a few places only: where the roots and the references lead,
    the configurations, and what each project finds and has to list.  If other
    files are alike in these places for every project that was loaded
    (`Project.Alike`), they load to the same graph (`loadGraph_alike`).

    The traversal of the other files repeats the first one step by step.  It may
    be allowed to go deeper, since there can be more files; that makes no
    difference to a traversal that has succeeded. -/

namespace ProjectBuild

variable {σ : Type} [FileSystem σ]

/-- Other files are alike in all places that loading looks at for a project. -/
structure Project.Alike (fs fs' : σ) (p : Project) : Prop where
  read : (LoadedConfig.read fs' p.configPath).value = (LoadedConfig.read fs p.configPath).value
  references : ∀ loaded, (LoadedConfig.read fs p.configPath).value = .ok loaded →
    Closure.resolveReferences fs' loaded = Closure.resolveReferences fs loaded
  project : ∀ loaded targets, (LoadedConfig.read fs p.configPath).value = .ok loaded →
    (Closure.project fs loaded targets).value = .ok p →
      (Closure.project fs' loaded targets).value = .ok p
  violation : ∀ dirs, (Closure.violation? fs' p dirs).value = (Closure.violation? fs p dirs).value

namespace Closure

/-! ## The traversal, repeated -/

/-- The same projects and edges; notes may differ. -/
structure Progress.Matches (t s : Progress) : Prop where
  nodes : t.nodes = s.nodes
  edges : t.edges = s.edges

/-- Progress that matches has the same projects under the same indices. -/
theorem Progress.Matches.indexOf? {t s : Progress} (h : t.Matches s) (configPath : Path) :
    t.indexOf? configPath = s.indexOf? configPath := by
  unfold Progress.indexOf?
  rw [h.nodes]

theorem Progress.Matches.note {t s : Progress} (h : t.Matches s) (notes notes' : List Note) :
    (t.note notes).Matches (s.note notes') :=
  ⟨h.nodes, h.edges⟩

theorem Progress.Matches.push {t s : Progress} (h : t.Matches s) (node : Project)
    (children : List Nat) : (t.push node children).Matches (s.push node children) := by
  constructor
  · show t.nodes ++ [node] = s.nodes ++ [node]
    rw [h.nodes]
  · show t.edges ++ _ = s.edges ++ _
    rw [h.edges, h.nodes]

/-- A step repeats another one: where that one succeeds on projects for which the
    files are alike, it succeeds with the same result. -/
def Repeats {α : Type} (fs fs' : σ) (step step' : Progress → Step α) : Prop :=
  ∀ s a s', step s = (.ok a, s') → s.nodes <+: s'.nodes ∧
    ((∀ p ∈ s'.nodes, p.Alike fs fs') →
      ∀ t, t.Matches s → ∃ t', step' t = (.ok a, t') ∧ t'.Matches s')

/-- **Visits in order are repeated** if each visit is. -/
theorem visitEach_repeats {fs fs' : σ} {visit visit' : Path → Progress → Step Nat}
    (paths : List Path) (h : ∀ path ∈ paths, Repeats fs fs' (visit path) (visit' path)) :
    Repeats fs fs' (visitEach visit paths) (visitEach visit' paths) := by
  intro s indices s' hs
  have hvisits := visitEach_eq_iff.mp hs
  generalize hstep : (Except.ok indices, s') = step at hvisits
  induction hvisits generalizing indices with
  | nil s =>
      cases hstep
      exact ⟨List.prefix_rfl, fun _ t ht => ⟨t, rfl, ht⟩⟩
  | failed | stopped => cases hstep
  | @cons path rest s r _ i more first others ih =>
      cases hstep
      obtain ⟨hmore, hrepeat⟩ := h path List.mem_cons_self s i r first
      obtain ⟨hmore', hrepeat'⟩ := ih (fun p hp => h p (List.mem_cons_of_mem path hp)) more
        (visitEach_eq_iff.mpr others) rfl
      -- what the first visit found is still there after the others
      refine ⟨hmore.trans hmore', fun halike t ht => ?_⟩
      obtain ⟨t', hvisit, ht'⟩ :=
        hrepeat (fun p hp => halike p (hmore'.subset hp)) t ht
      obtain ⟨t'', hvisits, ht''⟩ := hrepeat' halike t' ht'
      exact ⟨t'', visitEach_eq_iff.mpr (.cons hvisit (visitEach_eq_iff.mp hvisits)), ht''⟩

/-- **Entering a project is repeated** if the visits of its references are. -/
theorem enter_repeats {fs fs' : σ} {descend descend' : Path → Progress → Step Nat}
    (h : ∀ path, Repeats fs fs' (descend path) (descend' path)) (configPath : Path) :
    Repeats fs fs' (enter fs descend configPath) (enter fs' descend' configPath) := by
  intro s i s' hs
  obtain ⟨loaded, targets, children, t, node, hread, htargets, hvisit, hproject, rfl, rfl⟩ :=
    enter_ok hs
  obtain ⟨hmore, hrepeat⟩ := visitEach_repeats targets (fun path _ => h path) _ children t hvisit
  refine ⟨hmore.trans (List.prefix_append _ _), fun halike u hu => ?_⟩
  -- the project that was entered is the last one
  have hnode : node.Alike fs fs' :=
    halike node (List.mem_append_right _ (List.mem_singleton_self _))
  have hpath : node.configPath = configPath :=
    (project_configPath hproject).trans (read_path hread)
  have hread' : (LoadedConfig.read fs node.configPath).value = .ok loaded := hpath ▸ hread
  obtain ⟨u', hvisit', hu'⟩ := hrepeat (fun p hp => halike p (List.mem_append_left _ hp))
    ((u.note (LoadedConfig.read fs' configPath).notes).note (configNotes loaded))
    ((hu.note _ _).note _ _)
  have hentered := enter_eq_iff.mpr (.numbered ((hpath ▸ hnode.read).trans hread)
    ((hnode.references loaded hread').trans htargets) hvisit'
    (hnode.project loaded targets hread' hproject))
  rw [hu'.nodes] at hentered
  exact ⟨_, hentered, (hu'.note _ _).push node children⟩

/-- What has an index is not visited again. -/
theorem visit_of_indexOf? (fs : σ) (depth : Nat) (stack : List Path) {configPath : Path}
    {t : Progress} {i : Nat} (h : t.indexOf? configPath = some i) :
    visit fs depth stack configPath t = (.ok i, t) := by
  unfold visit
  rw [h]

/-- What is neither numbered nor in progress is entered. -/
theorem visit_of_new (fs : σ) (depth : Nat) {stack : List Path} {configPath : Path}
    {t : Progress} (h : t.indexOf? configPath = none) (hstack : stack.any configPath.same = false) :
    visit fs (depth + 1) stack configPath t
      = enter fs (visit fs depth (stack ++ [configPath])) configPath t := by
  conv_lhs => unfold visit
  rw [h, hstack]
  rfl

/-- **A visit is repeated**, also with more room on the stack. -/
theorem visit_repeats (fs fs' : σ) {depth depth' : Nat} (hle : depth ≤ depth') (stack : List Path)
    (configPath : Path) :
    Repeats fs fs' (visit fs depth stack configPath) (visit fs' depth' stack configPath) := by
  intro s i s' hs
  refine visit_induct fs (P := fun depth stack configPath s step => ∀ depth', depth ≤ depth' →
    ∀ i s', step = (.ok i, s') → s.nodes <+: s'.nodes ∧ ((∀ p ∈ s'.nodes, p.Alike fs fs') →
      ∀ t, t.Matches s → ∃ t', visit fs' depth' stack configPath t = (.ok i, t') ∧ t'.Matches s'))
    ?_ ?_ ?_ ?_ depth stack configPath s depth' hle i s' hs
  · intro depth stack configPath s k hk depth' _ i s' hs
    obtain ⟨hi, rfl⟩ := Prod.mk.inj hs
    obtain rfl := Except.ok.inj hi
    refine ⟨List.prefix_rfl, fun _ t ht => ⟨t, ?_, ht⟩⟩
    exact visit_of_indexOf? fs' depth' stack ((ht.indexOf? configPath).trans hk)
  · exact fun _ _ _ _ _ _ _ _ _ _ hs => nomatch hs
  · exact fun _ _ _ _ _ _ _ _ hs => nomatch hs
  · -- a new project: its references are visited with one less on either side
    intro depth stack configPath s hindex hstack hdescend depth' hle i s' hs
    obtain ⟨d', rfl⟩ := Nat.exists_eq_succ_of_ne_zero (Nat.ne_zero_of_lt hle)
    obtain ⟨hmore, hrepeat⟩ := enter_repeats
      (fun path t => hdescend path t d' (Nat.le_of_succ_le_succ hle)) configPath s i s' hs
    refine ⟨hmore, fun halike t ht => ?_⟩
    obtain ⟨t', hentered, ht'⟩ := hrepeat halike t ht
    refine ⟨t', ?_, ht'⟩
    rw [← hentered]
    exact visit_of_new fs' d' ((ht.indexOf? configPath).trans hindex) hstack

/-- **The roots are visited again** with the same result. -/
theorem visitRoots_repeats {fs fs' : σ}
    (hbound : FileSystem.fileBound fs ≤ FileSystem.fileBound fs') {roots : List Path}
    (hroots : ∀ root ∈ roots, resolveRoot fs' root = resolveRoot fs root) :
    Repeats fs fs' (visitRoots fs roots) (visitRoots fs' roots) := by
  refine visitEach_repeats roots fun root hroot s i s' hs => ?_
  rw [hroots root hroot]
  cases hresolve : resolveRoot fs root with
  | error e =>
      rw [hresolve] at hs
      exact nomatch hs
  | ok configPath =>
      rw [hresolve] at hs
      exact visit_repeats fs fs' hbound [] configPath s i s' hs

/-! ## Violations -/

/-- Projects that are alike in two sets of files break the same restriction first.
    -/
theorem firstViolation?_alike {fs fs' : σ} (edges : List (Nat × Nat)) (dirs : List Path)
    {nodes : List Project} (h : ∀ p ∈ nodes, p.Alike fs fs') (i : Nat) :
    (firstViolation? fs' edges dirs i nodes).value
      = (firstViolation? fs edges dirs i nodes).value := by
  induction nodes generalizing i with
  | nil => rfl
  | cons p rest ih =>
      have hrest := ih (fun q hq => h q (List.mem_cons_of_mem p hq)) (i + 1)
      unfold firstViolation?
      by_cases hreferenced : isReferenced edges i = true
      · rw [if_pos hreferenced, if_pos hreferenced]
        simp only [(h p List.mem_cons_self).violation dirs]
        cases (violation? fs p dirs).value with
        | some e => rfl
        | none => exact hrest
      · rw [if_neg hreferenced, if_neg hreferenced]
        exact hrest

end Closure

/-- **Files that are alike load alike.**  If a traversal of some files succeeds, and
    other files, of which there may be more, are alike for the roots and for all
    projects that it found, the graph of the other files is the same. -/
theorem loadGraph_alike {fs fs' : σ} (hbound : FileSystem.fileBound fs ≤ FileSystem.fileBound fs')
    {roots : List Path}
    (hroots : ∀ root ∈ roots, Closure.resolveRoot fs' root = Closure.resolveRoot fs root)
    {indices : List Nat} {s : Closure.Progress}
    (hvisit : Closure.visitRoots fs roots {} = (.ok indices, s))
    (halike : ∀ p ∈ s.nodes, p.Alike fs fs') :
    (loadGraph fs' roots).value = (loadGraph fs roots).value := by
  obtain ⟨t, hvisit', ht⟩ :=
    (Closure.visitRoots_repeats hbound hroots {} indices s hvisit).2 halike {} ⟨rfl, rfl⟩
  have hviolation := Closure.firstViolation?_alike s.edges (s.nodes.map Project.configDir) halike 0
  unfold loadGraph
  simp only [hvisit, hvisit', ht.nodes, ht.edges, hviolation]
  cases (Closure.firstViolation? fs s.edges (s.nodes.map Project.configDir) 0 s.nodes).value with
  | some e => rfl
  | none => rfl

end ProjectBuild
