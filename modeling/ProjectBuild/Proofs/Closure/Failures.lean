import ProjectBuild.Error.ExitCode
import ProjectBuild.Proofs.Closure.Reach

/-! # What loading fails with

    A failure of the traversal is the failure of a root, of loading one
    configuration that can be reached, or a cycle (`Closure.visitRoots_error`).
    What loading one configuration fails with is told apart by function, from
    reading its text to arranging its project (`Closure.Fault`).  All of it is
    structural but for two things: patterns that do not compile, which keep the
    error of the patterns, and directories that cannot be listed, which do not
    occur in memory (`loadGraph_failure`). -/

namespace ProjectBuild

/-- Steps in turn fail where the first does, or where the second does then. -/
theorem bind_error {α β : Type} {x : Except Error α} {f : α → Except Error β} {e : Error}
    (h : x.bind f = .error e) : x = .error e ∨ ∃ a, x = .ok a ∧ f a = .error e := by
  cases x with
  | error e' => exact Or.inl (congrArg Except.error (Except.error.inj h))
  | ok a => exact Or.inr ⟨a, rfl, h⟩

/-- What is observed of the error, if there is one. -/
def observed {α β : Type} (f : Error → β) : Except Error α → Option β
  | .ok _ => none
  | .error e => some (f e)

/-- What is observed of a result belongs to its error. -/
theorem observed_eq_some {α β : Type} {f : Error → β} {x : Except Error α} {b : β} :
    observed f x = some b ↔ ∃ e, x = .error e ∧ f e = b := by
  cases x with
  | ok a => simp [observed]
  | error e => simp [observed]

/-- A value that is left of a result was the result. -/
theorem eq_ok_of_toOption {α : Type} {x : Except Error α} {a : α} (h : x.toOption = some a) :
    x = .ok a := by
  cases x with
  | error e => cases h
  | ok b => exact congrArg Except.ok (Option.some.inj h)

/-- The patterns of a configuration that select inputs, or those that exclude
    some, do not compile. -/
def ProjectConfig.Malformed (config : ProjectConfig) (fault : Glob.PatternError) : Prop :=
  GlobSet.ofPatterns config.inputPatterns = .error fault ∨
    GlobSet.ofPatterns (config.excludes.getD defaultExcludes) = .error fault

namespace Closure

section general

variable {σ : Type} [FileSystem σ]

/-! ## Single configurations -/

/-- Why files that patterns select are not found. -/
inductive SearchFault (fs : σ) (config : ProjectConfig) : Error → Prop
  | pattern {fault : Glob.PatternError} (malformed : config.Malformed fault) :
      SearchFault fs config (.pattern fault)
  | listing {dir : Path} {prune : Path → Bool} {failure : IoFailure}
      (failed : (FileSystem.list fs dir prune).value = .error failure) :
      SearchFault fs config (.io failure)

/-- Why a project does not come of a configuration. -/
inductive Fault (fs : σ) (config : ProjectConfig) : Error → Prop
  | config (path : Path) (problem : ConfigProblem) : Fault fs config (.config path problem)
  | search {e : Error} (fault : SearchFault fs config e) : Fault fs config e

/-- A search for inputs never blames the configuration. -/
theorem SearchFault.ne_config {fs : σ} {config : ProjectConfig} {path : Path}
    {problem : ConfigProblem} : ¬ SearchFault fs config (.config path problem) := by
  intro h
  cases h

/-- No fault of a project's own is a restriction. -/
theorem Fault.ne_restriction {fs : σ} {config : ProjectConfig} {path : Path} {rule : Restriction} :
    ¬ Fault fs config (.restriction path rule) := by
  rintro (_ | ⟨⟨⟩⟩)

/-- No fault of a project's own is a cycle. -/
theorem Fault.ne_cycle {fs : σ} {config : ProjectConfig} {cycle : List Path} :
    ¬ Fault fs config (.cycle cycle) := by
  rintro (_ | ⟨⟨⟩⟩)

/-- A configuration is not read because its file cannot be, or because its text is
    malformed. -/
theorem read_error {fs : σ} {p : Path} {e : Error}
    (h : (LoadedConfig.read fs p).value = .error e) :
    (∃ failure, (FileSystem.read fs p).value = .error failure ∧
        e = .config p (.unreadable failure)) ∨
      ∃ text mistake, (FileSystem.read fs p).value = .ok text ∧
        ProjectConfig.ofText text = .error mistake ∧ e = .config p (.malformed mistake) := by
  unfold LoadedConfig.read LoadedConfig.ofText at h
  simp only at h
  cases hcontent : (FileSystem.read fs p).value with
  | error failure =>
      rw [hcontent] at h
      exact Or.inl ⟨failure, rfl, (Except.error.inj h).symm⟩
  | ok text =>
      simp only [hcontent] at h
      cases hconfig : ProjectConfig.ofText text with
      | error mistake =>
          rw [hconfig] at h
          exact Or.inr ⟨text, mistake, rfl, hconfig, (Except.error.inj h).symm⟩
      | ok config =>
          rw [hconfig] at h
          cases h

/-- References are not resolved because one stands for no configuration, and the
    error names it. -/
theorem resolveReferences_error {fs : σ} {loaded : LoadedConfig} {e : Error}
    (h : resolveReferences fs loaded = .error e) :
    ∃ reference ∈ loaded.config.references.getD [], target? fs loaded reference = none ∧
      e = .config loaded.path
        (.missingReference (Path.absolutize loaded.path.dir ⟨reference.path⟩)) := by
  -- targets are added on the way, so the induction is for all of them
  have heach : ∀ (references : List ProjectReference) (seen : List Path),
      references.foldlM (resolveOne fs loaded) seen = .error e →
        ∃ reference ∈ references, target? fs loaded reference = none ∧
          e = .config loaded.path
            (.missingReference (Path.absolutize loaded.path.dir ⟨reference.path⟩)) := by
    intro references
    induction references with
    | nil => exact fun _ h => nomatch h
    | cons reference rest ih =>
        intro seen h
        rcases bind_error h with hfirst | ⟨targets, -, hrest⟩
        · unfold resolveOne at hfirst
          split at hfirst
          · rename_i habsent
            exact ⟨reference, List.mem_cons_self, habsent, (Except.error.inj hfirst).symm⟩
          · cases hfirst
        · obtain ⟨reference', hmem, hwrong⟩ := ih targets hrest
          exact ⟨reference', List.mem_cons_of_mem reference hmem, hwrong⟩
  exact heach _ _ h

/-- A root stands for the configuration that its normal form stands for. -/
theorem resolveRoot_eq_ok {fs : σ} {root p : Path} :
    resolveRoot fs root = .ok p ↔ resolveConfig? fs root.normalize = some p := by
  unfold resolveRoot
  simp only
  cases resolveConfig? fs root.normalize with
  | none => exact iff_of_false (fun h => nomatch h) fun h => nomatch h
  | some q =>
      constructor
      · exact fun h => congrArg some (Except.ok.inj h)
      · exact fun h => congrArg Except.ok (Option.some.inj h)

/-- A root that stands for none is reported under its normal form. -/
theorem resolveRoot_error {fs : σ} {root : Path} {e : Error}
    (h : resolveRoot fs root = .error e) :
    resolveConfig? fs root.normalize = none ∧ e = .config root.normalize .notFound := by
  unfold resolveRoot at h
  simp only at h
  cases hconfig : resolveConfig? fs root.normalize with
  | some p =>
      rw [hconfig] at h
      cases h
  | none =>
      rw [hconfig] at h
      exact ⟨rfl, (Except.error.inj h).symm⟩

/-- Patterns are refused for the fault of one of them. -/
theorem compilePatterns_error {patterns : List String} {e : Error}
    (h : ProjectConfig.compilePatterns patterns = .error e) :
    ∃ fault, e = .pattern fault ∧ GlobSet.ofPatterns patterns = .error fault := by
  unfold ProjectConfig.compilePatterns at h
  cases hcompiled : GlobSet.ofPatterns patterns with
  | ok compiled =>
      rw [hcompiled] at h
      cases h
  | error fault =>
      rw [hcompiled] at h
      exact ⟨fault, (Except.error.inj h).symm, rfl⟩

/-- Patterns of what is no input can fail a search. -/
theorem excludeSet_error {fs : σ} {config : ProjectConfig} {e : Error}
    (h : config.excludeSet = .error e) : SearchFault fs config e := by
  obtain ⟨fault, rfl, hfault⟩ := compilePatterns_error h
  exact .pattern (Or.inr hfault)

/-- Files are not selected because a pattern is wrong or a listing fails. -/
theorem selectedFiles_error {fs : σ} {configDir : Path} {config : ProjectConfig}
    {outDir : Option Path} {e : Error}
    (h : (selectedFiles fs configDir config outDir).value = .error e) :
    SearchFault fs config e := by
  unfold selectedFiles at h
  simp only at h
  split at h
  · cases h
  · split at h
    · rename_i e' hincluded
      obtain rfl := Except.error.inj h
      obtain ⟨fault, rfl, hfault⟩ := compilePatterns_error hincluded
      exact .pattern (Or.inl hfault)
    · split at h
      · rename_i e' hexcluded
        obtain rfl := Except.error.inj h
        exact excludeSet_error hexcluded
      · split at h
        · rename_i failure hlist
          obtain rfl := Except.error.inj h
          exact .listing hlist
        · cases h

/-- A listed file does not exist.  It is reported for the file of the
    conventional name, whatever the configuration is called. -/
def MissesInput (fs : σ) (configDir : Path) (config : ProjectConfig) (e : Error) : Prop :=
  ∃ file ∈ config.files.getD [],
    FileSystem.isFile fs (Path.absolutize configDir ⟨file⟩) = false ∧
      e = .config (configDir.join ⟨configFileName⟩)
        (.missingInput (Path.absolutize configDir ⟨file⟩))

/-- Inputs are not found if a listed file is missing, or in a search. -/
theorem inputs_error {fs : σ} {configDir : Path} {config : ProjectConfig} {outDir : Option Path}
    {e : Error} (h : (inputs fs configDir config outDir).value = .error e) :
    MissesInput fs configDir config e ∨ SearchFault fs config e := by
  unfold inputs at h
  split at h
  · rename_i path hmissing
    refine Or.inl ?_
    obtain ⟨file, hfile, rfl⟩ := List.mem_map.mp (List.mem_of_find?_eq_some hmissing)
    have habsent := List.find?_some hmissing
    exact ⟨file, hfile, Bool.not_eq_true' _ ▸ habsent, (Except.error.inj h).symm⟩
  · simp only at h
    cases hselected : (selectedFiles fs configDir config outDir).value with
    | ok found =>
        rw [hselected] at h
        cases h
    | error e' =>
        rw [hselected] at h
        obtain rfl := Except.error.inj h
        exact Or.inr (selectedFiles_error hselected)

/-- A project whose inputs are found fails only for one outside its root directory. -/
theorem project_error {fs : σ} {loaded : LoadedConfig} {references : List Path} {e : Error}
    (h : (project fs loaded references).value = .error e) :
    (MissesInput fs loaded.path.dir loaded.config e ∨ SearchFault fs loaded.config e) ∨
      ∃ found file, (inputs fs loaded.path.dir loaded.config
          (loaded.config.options.outDir.map fun dir =>
            Path.absolutize loaded.path.dir ⟨dir⟩)).value = .ok found ∧
        outsider? (arrange loaded references found) = some file ∧
        e = .config loaded.path (.outsideRoot file (arrange loaded references found).rootDir) := by
  rcases bind_error h with hinputs | ⟨found, hfound, harrange⟩
  · exact Or.inl (inputs_error hinputs)
  · simp only at harrange
    split at harrange
    · rename_i file houtsider
      exact Or.inr ⟨found, file, hfound, houtsider, (Except.error.inj harrange).symm⟩
    · cases harrange

/-- What a project fails for is a fault of its own. -/
theorem fault_of_project_error {fs : σ} {loaded : LoadedConfig} {references : List Path}
    {e : Error} (h : (project fs loaded references).value = .error e) :
    Fault fs loaded.config e := by
  rcases project_error h with (⟨file, -, -, rfl⟩ | hsearch) | ⟨found, file, -, -, rfl⟩
  · exact .config _ _
  · exact .search hsearch
  · exact .config _ _

/-- The outcome of loading a project alone. -/
def load (fs : σ) (p : Path) : Except Error Project :=
  (LoadedConfig.read fs p).value.bind fun loaded =>
    (resolveReferences fs loaded).bind fun targets => (project fs loaded targets).value

/-- A project loads if it is read, its references are resolved, and its inputs can
    be arranged. -/
theorem load_eq_ok {fs : σ} {p : Path} {node : Project} :
    load fs p = .ok node ↔ ∃ loaded targets, (LoadedConfig.read fs p).value = .ok loaded ∧
      resolveReferences fs loaded = .ok targets ∧ (project fs loaded targets).value = .ok node := by
  unfold load
  constructor
  · intro h
    cases hread : (LoadedConfig.read fs p).value with
    | error e =>
        rw [hread] at h
        exact nomatch h
    | ok loaded =>
        rw [hread] at h
        simp only [Except.bind] at h
        cases htargets : resolveReferences fs loaded with
        | error e =>
            rw [htargets] at h
            exact nomatch h
        | ok targets =>
            rw [htargets] at h
            exact ⟨loaded, targets, rfl, htargets, h⟩
  · rintro ⟨loaded, targets, hread, htargets, hproject⟩
    rw [hread]
    simp only [Except.bind, htargets, hproject]

/-- **Why a configuration cannot be loaded**: something is wrong with its text,
    or with what it says. -/
theorem load_error {fs : σ} {p : Path} {e : Error} (h : load fs p = .error e) :
    (∃ problem, e = .config p problem) ∨
      ∃ loaded, (LoadedConfig.read fs p).value = .ok loaded ∧ Fault fs loaded.config e := by
  rcases bind_error h with hread | ⟨loaded, hread, h⟩
  · rcases read_error hread with ⟨failure, -, rfl⟩ | ⟨text, mistake, -, -, rfl⟩
    · exact Or.inl ⟨_, rfl⟩
    · exact Or.inl ⟨_, rfl⟩
  refine Or.inr ⟨loaded, hread, ?_⟩
  rcases bind_error h with htargets | ⟨targets, -, hproject⟩
  · obtain ⟨reference, -, -, rfl⟩ := resolveReferences_error htargets
    exact .config _ _
  · exact fault_of_project_error hproject

/-! ## Restrictions -/

/-- Unlisted files are not found because a pattern is wrong or a listing fails. -/
theorem unlisted_error {fs : σ} {p : Project} {dirs : List Path} {e : Error}
    (h : (unlisted fs p dirs).value = .error e) : SearchFault fs p.config e := by
  unfold unlisted at h
  split at h
  · rename_i e' hexcluded
    obtain rfl := Except.error.inj h
    exact excludeSet_error hexcluded
  · simp only at h
    split at h
    · rename_i failure hlist
      obtain rfl := Except.error.inj h
      exact .listing hlist
    · cases h

/-- What is reported of a referenced project is a restriction or a failed search. -/
theorem violation?_error {fs : σ} {p : Project} {dirs : List Path} {e : Error}
    (h : (violation? fs p dirs).value = some e) :
    (∃ rule, e = .restriction p.configPath rule) ∨ SearchFault fs p.config e := by
  unfold violation? at h
  split at h
  · exact Or.inl ⟨_, (Option.some.inj h).symm⟩
  · split at h
    · exact Or.inl ⟨_, (Option.some.inj h).symm⟩
    · split at h
      · simp only at h
        split at h
        · rename_i e' hunlisted
          obtain rfl := Option.some.inj h
          exact Or.inr (unlisted_error hunlisted)
        · cases h
        · exact Or.inl ⟨_, (Option.some.inj h).symm⟩
      · cases h

/-- The violation that is reported is that of the first project that has one. -/
theorem firstViolation?_error {fs : σ} {edges : List (Nat × Nat)} {dirs : List Path} {e : Error}
    (i : Nat) (nodes : List Project)
    (h : (firstViolation? fs edges dirs i nodes).value = some e) :
    ∃ k p, nodes[k]? = some p ∧ isReferenced edges (i + k) = true ∧
      (violation? fs p dirs).value = some e ∧
      ∀ k' < k, ∀ q, nodes[k']? = some q → isReferenced edges (i + k') = true →
        (violation? fs q dirs).value = none := by
  induction nodes generalizing i with
  | nil => cases h
  | cons p rest ih =>
      -- a first project that is not to blame is one more before the one that is
      have hlater : (isReferenced edges i = true → (violation? fs p dirs).value = none) →
          (firstViolation? fs edges dirs (i + 1) rest).value = some e →
          ∃ k q, (p :: rest)[k]? = some q ∧ isReferenced edges (i + k) = true ∧
            (violation? fs q dirs).value = some e ∧
            ∀ k' < k, ∀ q, (p :: rest)[k']? = some q → isReferenced edges (i + k') = true →
              (violation? fs q dirs).value = none := by
        intro hfirst h
        obtain ⟨k, q, hq, hreferenced, hviolation, hbefore⟩ := ih (i + 1) h
        refine ⟨k + 1, q, hq, ?_, hviolation, fun k' hk' q' hq' hreferenced' => ?_⟩
        · rwa [Nat.add_right_comm] at hreferenced
        · cases k' with
          | zero => exact Option.some.inj hq' ▸ hfirst hreferenced'
          | succ k' =>
              refine hbefore k' (Nat.lt_of_succ_lt_succ hk') q' hq' ?_
              rwa [Nat.add_right_comm]
      unfold firstViolation? at h
      split at h
      · rename_i hreferenced
        simp only at h
        split at h
        · rename_i e' hviolation
          exact ⟨0, p, rfl, hreferenced, hviolation.trans h, fun k' hk' => nomatch hk'⟩
        · rename_i hviolation
          exact hlater (fun _ => hviolation) h
      · rename_i hreferenced
        exact hlater (fun h => absurd h hreferenced) h

/-! ## The traversal -/

/-- Visits in order fail because one of them does. -/
theorem visitEach_error {visit : Path → Progress → Step Nat} {paths : List Path}
    {s s' : Progress} {e : Error} (h : visitEach visit paths s = (.error e, s')) :
    ∃ path ∈ paths, ∃ t t', visit path t = (.error e, t') := by
  have hvisits := visitEach_eq_iff.mp h
  generalize hstep : (Except.error e, s') = step at hvisits
  induction hvisits with
  | nil | cons => cases hstep
  | @failed path _ s _ _ first =>
      cases hstep
      exact ⟨path, List.mem_cons_self, s, s', first⟩
  | @stopped path _ _ _ _ _ _ _ others ih =>
      cases hstep
      obtain ⟨p, hp, hvisit⟩ := ih (visitEach_eq_iff.mpr others) rfl
      exact ⟨p, List.mem_cons_of_mem path hp, hvisit⟩

/-- **Why a project cannot be entered**: something is wrong with it, or with
    something that it mentions. -/
theorem enter_error {fs : σ} {descend : Path → Progress → Step Nat} {configPath : Path}
    {s s' : Progress} {e : Error} (h : enter fs descend configPath s = (.error e, s')) :
    load fs configPath = .error e ∨
      ∃ q, Mentions fs configPath q ∧ ∃ t t', descend q t = (.error e, t') := by
  unfold load
  cases enter_eq_iff.mp h with
  | unread read => exact Or.inl (by rw [read]; rfl)
  | unresolved read resolve => exact Or.inl (by simp only [read, resolve, Except.bind])
  | stopped read resolve visits =>
      obtain ⟨q, hq, hfailed⟩ := visitEach_error visits
      exact Or.inr ⟨q, (resolveReferences_mentions read resolve).2.1 q hq, hfailed⟩
  | unlisted read resolve _ build =>
      exact Or.inl (by simp only [read, resolve, build, Except.bind])

/-- A visit fails for a configuration that does not load, or for a cycle. -/
theorem visit_error {fs : σ} {P : Path → Prop} (hP : ∀ {p q}, P p → Mentions fs p q → P q)
    (depth : Nat) (stack : List Path) (configPath : Path) (hpath : P configPath) (s : Progress)
    {s' : Progress} {e : Error} (h : visit fs depth stack configPath s = (.error e, s')) :
    (∃ p, P p ∧ load fs p = .error e) ∨ ∃ cycle, e = .cycle cycle := by
  -- found before, on the stack, too deep, and entered
  refine visit_induct fs (P := fun _ _ p _ step => P p → ∀ e s', step = (.error e, s') →
    (∃ p, P p ∧ load fs p = .error e) ∨ ∃ cycle, e = .cycle cycle) ?_ ?_ ?_ ?_ depth stack
    configPath s hpath e s' h
  · exact fun _ _ _ _ _ _ _ _ _ h => nomatch (Prod.mk.inj h).1
  · exact fun _ _ _ _ _ _ _ _ _ h => Or.inr ⟨_, (Except.error.inj (Prod.mk.inj h).1).symm⟩
  · exact fun _ _ _ _ _ _ _ h => Or.inr ⟨_, (Except.error.inj (Prod.mk.inj h).1).symm⟩
  · intro depth stack configPath s _ _ hdescend hpath e s' h
    rcases enter_error h with hload | ⟨q, hmentions, t, t', hvisit⟩
    · exact Or.inl ⟨configPath, hpath, hload⟩
    · exact hdescend q t (hP hpath hmentions) e t' hvisit

/-- **Why the traversal fails**: a root names nothing, something that can be
    reached does not load, or there is a cycle. -/
theorem visitRoots_error {fs : σ} {roots : List Path} {s s' : Progress} {e : Error}
    (h : visitRoots fs roots s = (.error e, s')) :
    (∃ root ∈ roots, resolveRoot fs root = .error e) ∨
      (∃ p, Reachable fs roots p ∧ load fs p = .error e) ∨ ∃ cycle, e = .cycle cycle := by
  obtain ⟨root, hroot, t, t', hvisit⟩ := visitEach_error h
  cases hresolve : resolveRoot fs root with
  | error e' =>
      rw [hresolve] at hvisit
      obtain rfl := Except.error.inj (Prod.mk.inj hvisit).1
      exact Or.inl ⟨root, hroot, hresolve⟩
  | ok p =>
      rw [hresolve] at hvisit
      exact Or.inr (visit_error (fun h hpq => h.mentions hpq) _ [] p
        ⟨root, hroot, p, hresolve, .refl⟩ t hvisit)

end general

end Closure

/-! ## Graphs -/

/-- Loading fails with what the traversal fails with, or with a violation. -/
theorem loadGraph_error {fs : MemoryFs} {roots : List Path} {e : Error}
    (h : (loadGraph fs roots).value = .error e) :
    (∃ s, Closure.visitRoots fs roots {} = (.error e, s)) ∨
      ∃ indices s, Closure.visitRoots fs roots {} = (.ok indices, s) ∧
        (Closure.firstViolation? fs s.edges (s.nodes.map Project.configDir) 0 s.nodes).value
          = some e := by
  unfold loadGraph at h
  rcases hvisit : Closure.visitRoots fs roots {} with ⟨result, s⟩
  rw [hvisit] at h
  cases result with
  | error e' => exact Or.inl ⟨s, by rw [Except.error.inj h]⟩
  | ok indices =>
      simp only at h
      split at h
      · rename_i e' hviolation
        exact Or.inr ⟨indices, s, rfl, hviolation.trans (congrArg some (Except.error.inj h))⟩
      · obtain ⟨g, hg, -⟩ := Closure.ofEdges_visitRoots hvisit
        exact nomatch h.symm.trans hg

/-- Loading fails with a structural error, or for a fault of a configuration that
    can be reached. -/
theorem loadGraph_fault {fs : MemoryFs} {roots : List Path} {e : Error}
    (h : (loadGraph fs roots).value = .error e) :
    e.isStructural = true ∨ ∃ p loaded, Closure.Reachable fs roots p ∧
      (LoadedConfig.read fs p).value = .ok loaded ∧ Closure.Fault fs loaded.config e := by
  rcases loadGraph_error h with ⟨s, hvisit⟩ | ⟨indices, s, hvisit, hviolation⟩
  · rcases Closure.visitRoots_error hvisit with ⟨root, -, hroot⟩ | ⟨p, hp, hload⟩ | ⟨cycle, rfl⟩
    · exact Or.inl ((Closure.resolveRoot_error hroot).2 ▸ rfl)
    · rcases Closure.load_error hload with ⟨problem, rfl⟩ | ⟨loaded, hread, hfault⟩
      · exact Or.inl rfl
      · exact Or.inr ⟨p, loaded, hp, hread, hfault⟩
    · exact Or.inl rfl
  · obtain ⟨k, node, hget, -, hrule, -⟩ := Closure.firstViolation?_error 0 s.nodes hviolation
    rcases Closure.violation?_error hrule with ⟨rule, rfl⟩ | hfault
    · exact Or.inl rfl
    · have hnode := List.mem_of_getElem? hget
      have hloaded := (Closure.visitRoots_sound fs roots).loaded node (by rwa [hvisit])
      -- what was loaded keeps the configuration that was read
      obtain ⟨loaded, hread, hconfig⟩ := hloaded.read
      exact Or.inr ⟨_, loaded, (Closure.visitRoots_explored hvisit).1.within node hnode, hread,
        .search (hconfig ▸ hfault)⟩

/-- Patterns that do not compile are all that keeps a fault from being structural. -/
theorem Closure.Fault.cases {fs : MemoryFs} {config : ProjectConfig} {e : Error}
    (h : Closure.Fault fs config e) :
    e.isStructural = true ∨ ∃ fault, e = .pattern fault ∧ config.Malformed fault := by
  cases h with
  | config path problem => exact Or.inl rfl
  | search hsearch =>
      cases hsearch with
      | pattern malformed => exact Or.inr ⟨_, rfl, malformed⟩
      | listing failed => exact nomatch failed

/-- Errors of the structure have an exit code of their own. -/
theorem Error.exitCode_of_isStructural {e : Error} (h : e.isStructural = true) :
    e.exitCode.toNat = 3 := by
  unfold Error.exitCode
  rw [if_pos h]
  rfl

/-- **Failures of loading are structural**, with an exit code of their own,
    except that patterns of a configuration that can be reached do not compile. -/
theorem loadGraph_failure (fs : MemoryFs) (roots : List Path) (e : Error)
    (h : (loadGraph fs roots).value = .error e) :
    (e.isStructural = true ∧ e.exitCode.toNat = 3) ∨
      ∃ fault, e = .pattern fault ∧ e.isStructural = false ∧ e.exitCode.toNat = 1 ∧
        ∃ p loaded, Closure.Reachable fs roots p ∧
          (LoadedConfig.read fs p).value = .ok loaded ∧ loaded.config.Malformed fault := by
  rcases loadGraph_fault h with hstructural | ⟨p, loaded, hp, hread, hfault⟩
  · exact Or.inl ⟨hstructural, Error.exitCode_of_isStructural hstructural⟩
  rcases hfault.cases with hstructural | ⟨fault, rfl, hmalformed⟩
  · exact Or.inl ⟨hstructural, Error.exitCode_of_isStructural hstructural⟩
  · exact Or.inr ⟨fault, rfl, rfl, rfl, p, loaded, hp, hread, hmalformed⟩

/-- A project whose pattern has two stars in the middle of a segment. -/
def malformedFiles : MemoryFs :=
  .ofTexts [("/r/tsconfig.json", "\x7b\"include\": [\"a**\"]\x7d")]

/-- Patterns that do not compile are reported as such, and a root that does not
    exist as structural. -/
theorem loadGraph_failure_pattern :
    (∃ e, (loadGraph malformedFiles [⟨"/r"⟩]).value = .error e ∧
      ∃ fault, e = .pattern fault ∧ e.isStructural = false ∧ e.exitCode.toNat = 1) ∧
    ∃ e, (loadGraph malformedFiles [⟨"/s"⟩]).value = .error e ∧ e.isStructural = true ∧
      e.exitCode.toNat = 3 := by
  constructor
  · have hobserved : observed Error.isStructural (loadGraph malformedFiles [⟨"/r"⟩]).value
        = some false := by decide +kernel
    obtain ⟨e, he, hkind⟩ := observed_eq_some.mp hobserved
    rcases loadGraph_failure malformedFiles [⟨"/r"⟩] e he with ⟨hstructural, -⟩ | ⟨fault, hfault⟩
    · exact nomatch hstructural.symm.trans hkind
    · exact ⟨e, he, fault, hfault.1, hfault.2.1, hfault.2.2.1⟩
  · have hobserved : observed Error.isStructural (loadGraph malformedFiles [⟨"/s"⟩]).value
        = some true := by decide +kernel
    obtain ⟨e, he, hkind⟩ := observed_eq_some.mp hobserved
    rcases loadGraph_failure malformedFiles [⟨"/s"⟩] e he with hstructural | ⟨fault, -, hbad, -⟩
    · exact ⟨e, he, hstructural⟩
    · exact nomatch hkind.symm.trans hbad

end ProjectBuild
