import ProjectBuild.Closure.Load
import ProjectBuild.Proofs.FileSystem.Memory
import ProjectBuild.Proofs.Graph.Order
import ProjectBuild.Proofs.Path.Map
import ProjectBuild.Proofs.Project

/-! # Loaded graphs

    What a graph that was loaded is known to be like: it is well-formed, no two
    of its projects have the same configuration, and each project is what its
    configuration and the files make of it (`loadGraph_sound`).

    What the traversal does is told by two relations: how visits in order go
    (`Closure.Visits`), and how a project is entered (`Closure.Enters`).  A
    project is numbered only after all projects it references.  That it cannot
    have been numbered meanwhile is due to the stack: a visit adds only projects
    that are not in progress (`Closure.visit_sound`). -/

namespace ProjectBuild

variable {σ : Type} [FileSystem σ]

/-- A project is what its configuration on file and the files make of it; only
    that declarations are emitted can have been added. -/
def Project.LoadedFrom (fs : σ) (p : Project) : Prop :=
  ∃ loaded references declaration,
    (LoadedConfig.read fs p.configPath).value = .ok loaded ∧
      (Closure.project fs loaded references).value.map
        (fun node => { node with declaration := declaration }) = .ok p

namespace Closure

/-! ## Single projects -/

/-- A configuration that has been read is made from the text of its file. -/
theorem read_eq_ok {fs : σ} {path : Path} {loaded : LoadedConfig} :
    (LoadedConfig.read fs path).value = .ok loaded ↔
      ∃ text config, (FileSystem.read fs path).value = .ok text ∧
        ProjectConfig.ofText text = .ok config ∧ loaded = ⟨path, config, fingerprint text⟩ := by
  unfold LoadedConfig.read LoadedConfig.ofText
  constructor
  · intro h
    cases hcontent : (FileSystem.read fs path).value with
    | error failure =>
        simp only [hcontent] at h
        cases h
    | ok text =>
        simp only [hcontent] at h
        cases hconfig : ProjectConfig.ofText text with
        | error mistake =>
            simp only [hconfig] at h
            cases h
        | ok config =>
            simp only [hconfig] at h
            exact ⟨text, config, rfl, hconfig, (Except.ok.inj h).symm⟩
  · rintro ⟨text, config, hcontent, hconfig, rfl⟩
    simp only [hcontent, hconfig]

theorem read_path {fs : σ} {path : Path} {loaded : LoadedConfig}
    (h : (LoadedConfig.read fs path).value = .ok loaded) : loaded.path = path := by
  obtain ⟨text, config, -, -, rfl⟩ := read_eq_ok.mp h
  rfl

/-- The project of a configuration, taken apart. -/
theorem project_ok {fs : σ} {loaded : LoadedConfig} {references : List Path} {node : Project}
    (h : (project fs loaded references).value = .ok node) :
    ∃ found, (inputs fs loaded.path.dir loaded.config
        (loaded.config.options.outDir.map fun dir =>
          Path.absolutize loaded.path.dir ⟨dir⟩)).value = .ok found ∧
      outsider? (arrange loaded references found) = none ∧
      node = arrange loaded references found := by
  unfold project at h
  simp only at h
  cases hfound : (inputs fs loaded.path.dir loaded.config
      (loaded.config.options.outDir.map fun dir =>
        Path.absolutize loaded.path.dir ⟨dir⟩)).value with
  | error e =>
      rw [hfound] at h
      exact nomatch h
  | ok found =>
      rw [hfound] at h
      simp only [Except.bind] at h
      refine ⟨found, rfl, ?_⟩
      cases houtsider : outsider? (arrange loaded references found) with
      | some file =>
          rw [houtsider] at h
          exact nomatch h
      | none =>
          rw [houtsider] at h
          exact ⟨rfl, (Except.ok.inj h).symm⟩

/-- A project has the path of its configuration. -/
theorem project_configPath {fs : σ} {loaded : LoadedConfig} {references : List Path}
    {node : Project} (h : (project fs loaded references).value = .ok node) :
    node.configPath = loaded.path := by
  obtain ⟨found, -, -, rfl⟩ := project_ok h
  rfl

end Closure

/-- What a project that was loaded is made of. -/
theorem Project.LoadedFrom.arranged {fs : σ} {p : Project} (h : p.LoadedFrom fs) :
    ∃ loaded references found declaration,
      (LoadedConfig.read fs p.configPath).value = .ok loaded ∧
        (Closure.inputs fs loaded.path.dir loaded.config
          (loaded.config.options.outDir.map fun dir =>
            Path.absolutize loaded.path.dir ⟨dir⟩)).value = .ok found ∧
        Closure.outsider? (Closure.arrange loaded references found) = none ∧
        p = { Closure.arrange loaded references found with declaration := declaration } := by
  obtain ⟨loaded, references, declaration, hread, hproject⟩ := h
  refine ⟨loaded, references, ?_⟩
  cases hvalue : (Closure.project fs loaded references).value with
  | error e =>
      rw [hvalue] at hproject
      exact nomatch hproject
  | ok node =>
      rw [hvalue] at hproject
      obtain ⟨found, hfound, hinside, rfl⟩ := Closure.project_ok hvalue
      exact ⟨found, declaration, hread, hfound, hinside, (Except.ok.inj hproject).symm⟩

/-- The project of a configuration has its settings and works in its directory. -/
theorem Project.LoadedFrom.config_eq {fs : σ} {p : Project} (h : p.LoadedFrom fs)
    {loaded : LoadedConfig} (hread : (LoadedConfig.read fs p.configPath).value = .ok loaded) :
    p.config = loaded.config ∧ p.configDir = loaded.path.dir := by
  obtain ⟨loaded', references, found, declaration, hread', -, -, hp⟩ := h.arranged
  obtain rfl := Except.ok.inj (hread.symm.trans hread')
  rw [hp]
  exact ⟨rfl, rfl⟩

/-- Outputs go to the directory that is stated, or to the root directory. -/
theorem Closure.arrange_outDir (loaded : LoadedConfig) (references found : List Path) :
    (arrange loaded references found).outDir = (loaded.config.options.outDir.map fun dir =>
      Path.absolutize loaded.path.dir ⟨dir⟩).getD (arrange loaded references found).rootDir := by
  show _ = (loaded.config.options.outDir.map fun dir =>
    Path.absolutize loaded.path.dir ⟨dir⟩).getD (rootDir loaded.path.dir loaded.config found)
  unfold arrange
  simp only
  cases loaded.config.options.outDir with
  | none => rfl
  | some dir => rfl

/-- Where a project that was loaded works, and what it emits, is made from its
    settings and inputs. -/
theorem Project.LoadedFrom.settings {fs : σ} {p : Project} (h : p.LoadedFrom fs) :
    p.rootDir = Closure.rootDir p.configPath.dir p.config p.inputs ∧
      p.outDir = (p.config.options.outDir.map fun dir =>
        Path.absolutize p.configPath.dir ⟨dir⟩).getD p.rootDir ∧
      p.emitDeclarationOnly = p.config.options.emitDeclarationOnly.getD false := by
  obtain ⟨loaded, references, found, declaration, -, -, -, hp⟩ := h.arranged
  rw [hp]
  exact ⟨rfl, Closure.arrange_outDir loaded references found, rfl⟩

/-- The root directory depends on that of the configuration, not on its spelling. -/
theorem Closure.rootDir_congr {dir dir' : Path} (h : dir.components = dir'.components)
    (config : ProjectConfig) (inputs : List Path) :
    (rootDir dir config inputs).components = (rootDir dir' config inputs).components := by
  unfold rootDir
  cases config.options.rootDir with
  | some root => exact congrArg Path.components (Path.absolutize_congr h ⟨root⟩)
  | none =>
      by_cases hreferences : config.references.isSome = true
      · simp only [if_pos hreferences]
        exact h
      · simp only [if_neg hreferences]
        cases Path.commonAncestor? (inputs.filter fun file => !file.isDeclaration) with
        | some ancestor => rfl
        | none => exact h

/-- **Projects that are loaded alike expect the same outputs**: those of one
    configuration with the same settings and inputs, of which both emit declarations
    or neither does. -/
theorem Project.LoadedFrom.expectedOutputs_congr {τ : Type} [FileSystem τ] {fs : σ} {fs' : τ}
    {p p' : Project} (h : p.LoadedFrom fs) (h' : p'.LoadedFrom fs')
    (hpath : p.configPath.components = p'.configPath.components) (hconfig : p.config = p'.config)
    (hinputs : p.inputs = p'.inputs) (hdeclaration : p.declaration = p'.declaration) {q : Path}
    (hq : q ∈ p.expectedOutputs) : ∃ q' ∈ p'.expectedOutputs, q'.same q = true := by
  obtain ⟨hroot, hout, hemit⟩ := h.settings
  obtain ⟨hroot', hout', hemit'⟩ := h'.settings
  have hdir := Path.dir_congr hpath
  have hroots : p.rootDir.components = p'.rootDir.components := by
    rw [hroot, hroot', hconfig, hinputs]
    exact Closure.rootDir_congr hdir _ _
  have houts : p.outDir.components = p'.outDir.components := by
    rw [hout, hout', hconfig]
    cases p'.config.options.outDir with
    | some out => exact congrArg Path.components (Path.absolutize_congr hdir ⟨out⟩)
    | none => exact hroots
  exact Project.expectedOutputs_congr hroots houts hinputs hdeclaration
    (hemit.trans (hconfig ▸ hemit'.symm)) hq

/-- A source outside the root directory would have kept its project from loading. -/
theorem Project.LoadedFrom.isWithin_rootDir {fs : σ} {p : Project} (h : p.LoadedFrom fs)
    {source : Path} (hsource : source ∈ p.inputs) (hambient : source.isDeclaration = false) :
    Path.isWithin p.rootDir source = true := by
  obtain ⟨loaded, references, found, declaration, -, -, hinside, hp⟩ := h.arranged
  rw [hp] at hsource ⊢
  have hnot := List.find?_eq_none.mp hinside source hsource
  rw [hambient, Bool.not_false, Bool.true_and, Bool.not_eq_true, Bool.not_eq_false'] at hnot
  exact hnot

/-- The settings of a loaded project are on file. -/
theorem Project.LoadedFrom.read {fs : σ} {p : Project} (h : p.LoadedFrom fs) :
    ∃ loaded, (LoadedConfig.read fs p.configPath).value = .ok loaded ∧
      loaded.config = p.config := by
  obtain ⟨loaded, -, -, -, hread, -⟩ := h.arranged
  exact ⟨loaded, hread, (h.config_eq hread).1.symm⟩

namespace Closure

/-! ## Visits -/

/-- What is known of the projects that have been loaded so far. -/
structure Progress.Sound (fs : σ) (s : Progress) : Prop where
  distinct : s.nodes.Pairwise fun a b => a.configPath.components ≠ b.configPath.components
  loaded : ∀ node ∈ s.nodes, node.LoadedFrom fs

/-- One progress continues another with projects that are not on the stack. -/
def Progress.Extends (stack : List Path) (s s' : Progress) : Prop :=
  ∃ added, s'.nodes = s.nodes ++ added ∧
    ∀ node ∈ added, ∀ q ∈ stack, node.configPath.components ≠ q.components

theorem Progress.Extends.refl (stack : List Path) (s : Progress) : s.Extends stack s :=
  ⟨[], (List.append_nil _).symm, fun _ h => nomatch h⟩

/-- Progress is extended step by step. -/
theorem Progress.Extends.trans {stack : List Path} {s s' s'' : Progress}
    (h : s.Extends stack s') (h' : s'.Extends stack s'') : s.Extends stack s'' := by
  obtain ⟨added, hnodes, hadded⟩ := h
  obtain ⟨added', hnodes', hadded'⟩ := h'
  refine ⟨added ++ added', by rw [hnodes', hnodes, List.append_assoc], ?_⟩
  intro node hnode
  rcases List.mem_append.mp hnode with hnode | hnode
  · exact hadded node hnode
  · exact hadded' node hnode

/-- Progress stays sound when a project is numbered that is new and on file. -/
theorem Progress.Sound.push {fs : σ} {s : Progress} (hs : s.Sound fs) {node : Project}
    (hnode : node.LoadedFrom fs)
    (hnew : ∀ other ∈ s.nodes, other.configPath.components ≠ node.configPath.components)
    (children : List Nat) : (s.push node children).Sound fs := by
  constructor
  · refine List.pairwise_append.mpr ⟨hs.distinct, List.pairwise_singleton _ _, ?_⟩
    intro other hother last hlast
    rw [List.mem_singleton.mp hlast]
    exact hnew other hother
  · intro other hother
    rcases List.mem_append.mp hother with hother | hother
    · exact hs.loaded other hother
    · exact List.mem_singleton.mp hother ▸ hnode

/-- Numbering a project that is not on the stack extends progress. -/
theorem Progress.Extends.push {stack : List Path} {s s' : Progress} (h : s.Extends stack s')
    {node : Project} (hnode : ∀ q ∈ stack, node.configPath.components ≠ q.components)
    (children : List Nat) : s.Extends stack (s'.push node children) := by
  refine h.trans ⟨[node], rfl, fun other hother => ?_⟩
  exact List.mem_singleton.mp hother ▸ hnode

/-- What may not be added below a longer stack may not be added below a shorter one. -/
theorem Progress.Extends.of_concat {stack : List Path} {path : Path} {s s' : Progress}
    (h : s.Extends (stack ++ [path]) s') : s.Extends stack s' := by
  obtain ⟨added, hnodes, hadded⟩ := h
  exact ⟨added, hnodes, fun node hnode q hq => hadded node hnode q (List.mem_append_left _ hq)⟩

/-- How visits in order go: up to the first that fails, or through to the end. -/
inductive Visits (visit : Path → Progress → Step Nat) :
    List Path → Progress → Step (List Nat) → Prop where
  | nil (s : Progress) : Visits visit [] s (.ok [], s)
  | failed {path : Path} {rest : List Path} {s s' : Progress} {e : Error}
      (first : visit path s = (.error e, s')) : Visits visit (path :: rest) s (.error e, s')
  | stopped {path : Path} {rest : List Path} {s s' s'' : Progress} {i : Nat} {e : Error}
      (first : visit path s = (.ok i, s')) (others : Visits visit rest s' (.error e, s'')) :
      Visits visit (path :: rest) s (.error e, s'')
  | cons {path : Path} {rest : List Path} {s s' s'' : Progress} {i : Nat} {indices : List Nat}
      (first : visit path s = (.ok i, s')) (others : Visits visit rest s' (.ok indices, s'')) :
      Visits visit (path :: rest) s (.ok (i :: indices), s'')

/-- **What visits in order come to** is told by the relation `Visits`, and by it
    alone. -/
theorem visitEach_eq_iff {visit : Path → Progress → Step Nat} {paths : List Path} {s : Progress}
    {step : Step (List Nat)} : visitEach visit paths s = step ↔ Visits visit paths s step := by
  constructor
  · rintro rfl
    induction paths generalizing s with
    | nil => exact .nil s
    | cons path rest ih =>
        unfold visitEach
        rcases hfirst : visit path s with ⟨e | i, t⟩
        · exact .failed hfirst
        · have hothers := ih (s := t)
          simp only
          generalize visitEach visit rest t = step at hothers ⊢
          rcases step with ⟨e | indices, t'⟩
          · exact .stopped hfirst hothers
          · exact .cons hfirst hothers
  · intro h
    induction h with
    | nil s => rfl
    | failed first =>
        unfold visitEach
        simp only [first]
    | stopped first _ ih =>
        unfold visitEach
        simp only [first, ih]
    | cons first _ ih =>
        unfold visitEach
        simp only [first, ih]

theorem visitEach_visits (visit : Path → Progress → Step Nat) (paths : List Path) (s : Progress) :
    Visits visit paths s (visitEach visit paths s) :=
  visitEach_eq_iff.mp rfl

/-- What single visits keep up is kept up by visits in order. -/
theorem visitEach_induct (visit : Path → Progress → Step Nat) {P : Progress → Progress → Prop}
    (hrefl : ∀ s, P s s) (htrans : ∀ {s s' s''}, P s s' → P s' s'' → P s s'')
    (hvisit : ∀ path s, P s (visit path s).2) (paths : List Path) (s : Progress) :
    P s (visitEach visit paths s).2 := by
  have hvisits := visitEach_visits visit paths s
  generalize visitEach visit paths s = step at hvisits ⊢
  have hone : ∀ {path s result s'}, visit path s = (result, s') → P s s' := by
    intro path s result s' h
    have hfirst := hvisit path s
    rwa [h] at hfirst
  induction hvisits with
  | nil s => exact hrefl s
  | failed first => exact hone first
  | stopped first _ ih => exact htrans (hone first) ih
  | cons first _ ih => exact htrans (hone first) ih

/-- **Induction along visits**: a visit finds a finished project, closes a cycle,
    has no room left on the stack, or enters a new project. -/
theorem visit_induct (fs : σ) {P : Nat → List Path → Path → Progress → Step Nat → Prop}
    (hfound : ∀ depth stack configPath s i, s.indexOf? configPath = some i →
      P depth stack configPath s (.ok i, s))
    (hmet : ∀ depth stack configPath s, s.indexOf? configPath = none →
      stack.any configPath.same = true →
      P depth stack configPath s (.error (.cycle (closeCycle stack configPath)), s))
    (hspent : ∀ stack configPath s, stack.any configPath.same = false →
      P 0 stack configPath s (.error (.cycle (stack ++ [configPath])), s))
    (henter : ∀ depth stack configPath s, s.indexOf? configPath = none →
      stack.any configPath.same = false →
      (∀ path t, P depth (stack ++ [configPath]) path t
        (visit fs depth (stack ++ [configPath]) path t)) →
      P (depth + 1) stack configPath s
        (enter fs (visit fs depth (stack ++ [configPath])) configPath s))
    (depth : Nat) (stack : List Path) (configPath : Path) (s : Progress) :
    P depth stack configPath s (visit fs depth stack configPath s) := by
  induction depth generalizing stack configPath s with
  | zero =>
      unfold visit
      cases hindex : s.indexOf? configPath with
      | some i => exact hfound 0 stack configPath s i hindex
      | none =>
          simp only
          by_cases hstack : stack.any configPath.same = true
          · rw [if_pos hstack]
            exact hmet 0 stack configPath s hindex hstack
          · rw [if_neg hstack]
            exact hspent stack configPath s (Bool.eq_false_iff.mpr hstack)
  | succ depth ih =>
      unfold visit
      cases hindex : s.indexOf? configPath with
      | some i => exact hfound (depth + 1) stack configPath s i hindex
      | none =>
          simp only
          by_cases hstack : stack.any configPath.same = true
          · rw [if_pos hstack]
            exact hmet (depth + 1) stack configPath s hindex hstack
          · rw [if_neg hstack]
            exact henter depth stack configPath s hindex (Bool.eq_false_iff.mpr hstack)
              (ih (stack ++ [configPath]))

/-- How a project is entered: its configuration is read, what that mentions is
    visited, and the project is numbered behind, unless one of these fails. -/
inductive Enters (fs : σ) (descend : Path → Progress → Step Nat) (configPath : Path)
    (s : Progress) : Step Nat → Prop where
  | unread {e : Error} (read : (LoadedConfig.read fs configPath).value = .error e) :
      Enters fs descend configPath s (.error e, s.note (LoadedConfig.read fs configPath).notes)
  | unresolved {loaded : LoadedConfig} {e : Error}
      (read : (LoadedConfig.read fs configPath).value = .ok loaded)
      (resolve : resolveReferences fs loaded = .error e) :
      Enters fs descend configPath s
        (.error e, (s.note (LoadedConfig.read fs configPath).notes).note (configNotes loaded))
  | stopped {loaded : LoadedConfig} {targets : List Path} {t : Progress} {e : Error}
      (read : (LoadedConfig.read fs configPath).value = .ok loaded)
      (resolve : resolveReferences fs loaded = .ok targets)
      (visits : visitEach descend targets ((s.note (LoadedConfig.read fs configPath).notes).note
        (configNotes loaded)) = (.error e, t)) :
      Enters fs descend configPath s (.error e, t)
  | unlisted {loaded : LoadedConfig} {targets : List Path} {children : List Nat} {t : Progress}
      {e : Error} (read : (LoadedConfig.read fs configPath).value = .ok loaded)
      (resolve : resolveReferences fs loaded = .ok targets)
      (visits : visitEach descend targets ((s.note (LoadedConfig.read fs configPath).notes).note
        (configNotes loaded)) = (.ok children, t))
      (build : (project fs loaded targets).value = .error e) :
      Enters fs descend configPath s (.error e, t.note (project fs loaded targets).notes)
  | numbered {loaded : LoadedConfig} {targets : List Path} {children : List Nat} {t : Progress}
      {node : Project} (read : (LoadedConfig.read fs configPath).value = .ok loaded)
      (resolve : resolveReferences fs loaded = .ok targets)
      (visits : visitEach descend targets ((s.note (LoadedConfig.read fs configPath).notes).note
        (configNotes loaded)) = (.ok children, t))
      (build : (project fs loaded targets).value = .ok node) :
      Enters fs descend configPath s (.ok t.nodes.length,
        (t.note (project fs loaded targets).notes).push node children)

/-- **What entering a project comes to** is told by the relation `Enters`, and by it
    alone. -/
theorem enter_eq_iff {fs : σ} {descend : Path → Progress → Step Nat} {configPath : Path}
    {s : Progress} {step : Step Nat} :
    enter fs descend configPath s = step ↔ Enters fs descend configPath s step := by
  constructor
  · rintro rfl
    unfold enter
    simp only
    rcases hread : (LoadedConfig.read fs configPath).value with e | loaded
    · exact .unread hread
    simp only
    rcases htargets : resolveReferences fs loaded with e | targets
    · exact .unresolved hread htargets
    simp only
    rcases hvisits : visitEach descend targets
        ((s.note (LoadedConfig.read fs configPath).notes).note (configNotes loaded)) with
      ⟨e | children, t⟩
    · exact .stopped hread htargets hvisits
    simp only
    rcases hnode : (project fs loaded targets).value with e | node
    · exact .unlisted hread htargets hvisits hnode
    · exact .numbered hread htargets hvisits hnode
  · intro h
    unfold enter
    cases h with
    | unread read => simp only [read]
    | unresolved read resolve => simp only [read, resolve]
    | stopped read resolve visits => simp only [read, resolve, visits]
    | unlisted read resolve visits build => simp only [read, resolve, visits, build]
    | numbered read resolve visits build =>
        simp only [read, resolve, visits, build]
        rfl

theorem enter_enters (fs : σ) (descend : Path → Progress → Step Nat) (configPath : Path)
    (s : Progress) : Enters fs descend configPath s (enter fs descend configPath s) :=
  enter_eq_iff.mp rfl

/-- One project, once all projects it references are loaded. -/
theorem enter_sound {fs : σ} {descend : Path → Progress → Step Nat} {configPath : Path}
    {stack : List Path} {s : Progress} (hs : s.Sound fs)
    (hnew : ∀ node ∈ s.nodes, node.configPath.components ≠ configPath.components)
    (hstack : ∀ q ∈ stack, configPath.components ≠ q.components)
    (hdescend : ∀ path s, s.Sound fs → (descend path s).2.Sound fs ∧
      s.Extends (stack ++ [configPath]) (descend path s).2) :
    (enter fs descend configPath s).2.Sound fs ∧
      s.Extends stack (enter fs descend configPath s).2 := by
  -- the references are visited below a stack with this configuration on it
  have heach : ∀ {targets s result t}, visitEach descend targets s = (result, t) →
      s.Sound fs → t.Sound fs ∧ s.Extends (stack ++ [configPath]) t := by
    intro targets s result t hvisits
    have heach := visitEach_induct descend (P := fun s t => s.Sound fs → t.Sound fs ∧
      s.Extends (stack ++ [configPath]) t) (fun s hs => ⟨hs, .refl _ s⟩)
      (fun h h' hs => ⟨(h' (h hs).1).1, (h hs).2.trans (h' (h hs).1).2⟩) hdescend targets s
    rwa [hvisits] at heach
  have hbegun : ∀ notes notes', ((s.note notes).note notes').Sound fs :=
    fun _ _ => ⟨hs.distinct, hs.loaded⟩
  have henters := enter_enters fs descend configPath s
  generalize enter fs descend configPath s = step at henters ⊢
  cases henters with
  | unread => exact ⟨⟨hs.distinct, hs.loaded⟩, .refl stack s⟩
  | unresolved => exact ⟨hbegun _ _, .refl stack s⟩
  | stopped _ _ visits =>
      obtain ⟨ht, hext⟩ := heach visits (hbegun _ _)
      exact ⟨ht, hext.of_concat⟩
  | unlisted _ _ visits _ =>
      obtain ⟨ht, hext⟩ := heach visits (hbegun _ _)
      exact ⟨⟨ht.distinct, ht.loaded⟩, hext.of_concat⟩
  | @numbered loaded targets children t node read _ visits build =>
      obtain ⟨ht, hext⟩ := heach visits (hbegun _ _)
      have hpath : node.configPath = configPath :=
        (project_configPath build).trans (read_path read)
      have ht' : (t.note (project fs loaded targets).notes).Sound fs := ⟨ht.distinct, ht.loaded⟩
      refine ⟨ht'.push ?_ ?_ children, hext.of_concat.push (hpath ▸ hstack) children⟩
      · exact ⟨loaded, targets, node.declaration, hpath.symm ▸ read, by rw [build]; rfl⟩
      · -- neither was it there before, nor has it been added meanwhile
        obtain ⟨added, hnodes, hadded⟩ := hext
        intro other hother
        rw [hpath]
        rcases List.mem_append.mp (hnodes ▸ hother : other ∈ s.nodes ++ added) with hold | hfresh
        · exact hnew other hold
        · exact hadded other hfresh configPath (by simp)

/-- **A visit keeps what is known of the projects**, and adds none that is in
    progress. -/
theorem visit_sound {fs : σ} (depth : Nat) (stack : List Path) (configPath : Path)
    (s : Progress) (hs : s.Sound fs) :
    (visit fs depth stack configPath s).2.Sound fs ∧
      s.Extends stack (visit fs depth stack configPath s).2 := by
  refine visit_induct fs (P := fun _ stack _ s step => s.Sound fs →
    step.2.Sound fs ∧ s.Extends stack step.2) ?_ ?_ ?_ ?_ depth stack configPath s hs
  · exact fun _ stack _ s _ _ hs => ⟨hs, Progress.Extends.refl stack s⟩
  · exact fun _ stack _ s _ _ hs => ⟨hs, Progress.Extends.refl stack s⟩
  · exact fun stack _ s _ hs => ⟨hs, Progress.Extends.refl stack s⟩
  · intro depth stack configPath s hindex hstack hdescend hs
    refine enter_sound hs ?_ ?_ hdescend
    · intro node hnode
      unfold Progress.indexOf? at hindex
      exact Path.same_eq_false_iff.mp (List.findIdx?_eq_none_iff.mp hindex node hnode)
    · intro q hq hsame
      exact List.any_eq_false.mp hstack q hq (Path.same_iff.mpr hsame)

/-- **The traversal numbers projects soundly**, whether it succeeds or not. -/
theorem visitRoots_sound (fs : σ) (roots : List Path) :
    (visitRoots fs roots {}).2.Sound fs := by
  refine visitEach_induct _ (P := fun s s' => s.Sound fs → s'.Sound fs) (fun s h => h)
    (fun h h' hs => h' (h hs)) ?_ roots {} ?_
  · intro root s hs
    cases resolveRoot fs root with
    | error e => exact hs
    | ok configPath => exact (visit_sound _ [] configPath s hs).1
  · exact ⟨List.Pairwise.nil, List.forall_mem_nil _⟩

end Closure

/-! ## Graphs -/

/-- A graph that was loaded is one that was built from the projects and edges
    that the traversal found, none of which breaks a restriction. -/
theorem loadGraph_checked {fs : σ} {roots : List Path} {g : Graph}
    (h : (loadGraph fs roots).value = .ok g) :
    ∃ indices s, Closure.visitRoots fs roots {} = (.ok indices, s) ∧
      (Closure.firstViolation? fs s.edges (s.nodes.map Project.configDir) 0 s.nodes).value = none ∧
      Graph.ofEdges (Closure.withDeclarations s.edges s.nodes) s.edges indices = .ok g := by
  unfold loadGraph at h
  rcases hvisit : Closure.visitRoots fs roots {} with ⟨result, s⟩
  cases result with
  | error e =>
      rw [hvisit] at h
      exact nomatch h
  | ok indices =>
      simp only [hvisit] at h
      cases hviolation :
          (Closure.firstViolation? fs s.edges (s.nodes.map Project.configDir) 0 s.nodes).value with
      | some e =>
          simp only [hviolation] at h
          exact nomatch h
      | none =>
          simp only [hviolation] at h
          exact ⟨indices, s, rfl, hviolation, h⟩

/-- A graph that was loaded is made of what the traversal has numbered. -/
theorem loadGraph_ok {fs : σ} {roots : List Path} {g : Graph}
    (h : (loadGraph fs roots).value = .ok g) :
    ∃ indices s, Closure.visitRoots fs roots {} = (.ok indices, s) ∧
      Graph.ofEdges (Closure.withDeclarations s.edges s.nodes) s.edges indices = .ok g := by
  obtain ⟨indices, s, hvisit, -, hedges⟩ := loadGraph_checked h
  exact ⟨indices, s, hvisit, hedges⟩

/-- The projects of a loaded graph are those that the traversal found, apart from
    declarations that were turned on. -/
theorem loadGraph_nodes {fs : σ} {roots : List Path} {g : Graph}
    (h : (loadGraph fs roots).value = .ok g) :
    ∃ indices s, Closure.visitRoots fs roots {} = (.ok indices, s) ∧
      g.nodes = Closure.withDeclarations s.edges s.nodes := by
  obtain ⟨indices, s, hvisit, hg⟩ := loadGraph_ok h
  exact ⟨indices, s, hvisit, by rw [Graph.eq_of_ofEdges hg]⟩

/-- **Loaded graphs are well-formed.** -/
theorem loadGraph_wellFormed {fs : σ} {roots : List Path} {g : Graph}
    (h : (loadGraph fs roots).value = .ok g) : g.WellFormed := by
  obtain ⟨indices, s, -, hg⟩ := loadGraph_ok h
  exact Graph.wellFormed_of_ofEdges hg

theorem Graph.node_of_getElem? {g : Graph} {i : Nat} {p : Project} (h : g.nodes[i]? = some p) :
    g.node i = p := by
  unfold Graph.node
  rw [List.getD_eq_getElem?_getD, h, Option.getD_some]

theorem Graph.node_eq {g : Graph} {i : Nat} (hi : i < g.nodes.length) : g.node i = g.nodes[i] :=
  Graph.node_of_getElem? (List.getElem?_eq_getElem hi)

theorem Graph.node_mem {g : Graph} {i : Nat} (hi : i < g.size) : g.node i ∈ g.nodes := by
  rw [Graph.node_eq hi]
  exact List.getElem_mem hi

/-- The record files of all projects. -/
def Graph.recordPaths (g : Graph) : List Path :=
  g.nodes.map Project.recordPath

theorem Graph.mem_recordPaths {g : Graph} {j : Nat} (hj : j < g.size) :
    (g.node j).recordPath ∈ g.recordPaths :=
  List.mem_map_of_mem (Graph.node_mem hj)

/-- No two projects have the same configuration. -/
def Graph.Distinct (g : Graph) : Prop :=
  ∀ i < g.size, ∀ j < g.size, i ≠ j →
    (g.node i).configPath.components ≠ (g.node j).configPath.components

/-- **Loaded graphs are sound**: their projects differ in their configurations,
    and each is what the files make of it. -/
theorem loadGraph_sound {fs : σ} {roots : List Path} {g : Graph}
    (h : (loadGraph fs roots).value = .ok g) :
    g.Distinct ∧ ∀ i < g.size, (g.node i).LoadedFrom fs := by
  obtain ⟨indices, s, hvisit, hnodes⟩ := loadGraph_nodes h
  have hs := Closure.visitRoots_sound fs roots
  rw [hvisit] at hs
  -- a node of the graph is one that was loaded, up to its declarations
  have hget : ∀ i (hi : i < s.nodes.length), ∃ declaration,
      g.node i = { s.nodes[i] with declaration := declaration } := by
    intro i hi
    unfold Graph.node
    rw [hnodes, List.getD_eq_getElem?_getD]
    unfold Closure.withDeclarations
    rw [List.getElem?_mapIdx, List.getElem?_eq_getElem hi]
    simp only [Option.map_some, Option.getD_some]
    split
    · exact ⟨true, rfl⟩
    · exact ⟨s.nodes[i].declaration, rfl⟩
  have hsize : g.size = s.nodes.length := by
    unfold Graph.size
    rw [hnodes]
    exact List.length_mapIdx
  constructor
  · intro i hi j hj hij
    rw [hsize] at hi hj
    obtain ⟨d, hd⟩ := hget i hi
    obtain ⟨d', hd'⟩ := hget j hj
    rw [hd, hd']
    rcases Nat.lt_or_gt_of_ne hij with hlt | hlt
    · exact List.pairwise_iff_getElem.mp hs.distinct i j hi hj hlt
    · exact (List.pairwise_iff_getElem.mp hs.distinct j i hj hi hlt).symm
  · intro i hi
    rw [hsize] at hi
    obtain ⟨d, hd⟩ := hget i hi
    obtain ⟨loaded, references, d', hread, hproject⟩ := hs.loaded _ (List.getElem_mem hi)
    refine ⟨loaded, references, d, ?_, ?_⟩
    · rw [hd]
      exact hread
    · cases hvalue : (Closure.project fs loaded references).value with
      | error e =>
          rw [hvalue] at hproject
          exact nomatch hproject
      | ok node =>
          rw [hvalue] at hproject
          have hnode := Except.ok.inj hproject
          rw [hd, ← hnode]
          rfl

/-- What has been loaded without an error is the graph that it gives. -/
theorem Graph.loaded_of_isSome {x : Except Error Graph} (h : x.toOption.isSome = true) :
    x = .ok (x.toOption.getD {}) := by
  cases x with
  | error e => exact nomatch h
  | ok g => rfl

/-- What is observed of a loaded graph belongs to a graph. -/
theorem Graph.loaded_of_map {β : Type} {x : Except Error Graph} {f : Graph → β} {b : β}
    (h : x.toOption.map f = some b) : ∃ g, x = .ok g ∧ f g = b := by
  cases x with
  | error e => exact nomatch h
  | ok g => exact ⟨g, rfl, Option.some.inj h⟩

/-! ## Two projects -/

/-- Two projects, of which the second references the first. -/
def pairFiles : MemoryFs :=
  .ofTexts [("/r/core/tsconfig.json",
      "\x7b\"compilerOptions\": \x7b\"composite\": true\x7d, \"files\": [\"a.ts\"], \"references\": []\x7d"),
    ("/r/core/a.ts", ""),
    ("/r/app/tsconfig.json",
      "\x7b\"files\": [\"b.ts\"], \"references\": [\x7b\"path\": \"../core\"\x7d]\x7d"),
    ("/r/app/b.ts", "")]

def pairGraph : Graph :=
  (loadGraph pairFiles [⟨"/r/app"⟩]).value.toOption.getD {}

/-- The graph of the two projects is what their files are loaded as. -/
theorem pairGraph_loaded : (loadGraph pairFiles [⟨"/r/app"⟩]).value = .ok pairGraph := by
  have hsome : (loadGraph pairFiles [⟨"/r/app"⟩]).value.toOption.isSome = true := by
    decide +kernel
  unfold pairGraph
  exact Graph.loaded_of_isSome hsome

end ProjectBuild
