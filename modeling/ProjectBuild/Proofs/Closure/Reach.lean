import Mathlib.Data.List.Forall2
import Mathlib.Logic.Relation
import ProjectBuild.Proofs.Closure.Load
import ProjectBuild.Proofs.Path.Components

/-! # The reference closure

    A loaded graph is the closure of its roots under references
    (`Graph.IsClosure`).  The traversal keeps, of every project it has
    finished, that the edges lead to exactly what its configuration mentions
    (`Closure.Progress.Explored`); nothing is known of the projects on the
    stack, and nothing has to be.  Configurations are numbered behind all they
    mention, so the edges descend, and building the graph cannot fail. -/

namespace ProjectBuild

namespace Closure

variable {σ : Type} [FileSystem σ]

/-! ## What configurations mention -/

/-- The configuration that a reference names. -/
def target? (fs : σ) (loaded : LoadedConfig) (reference : ProjectReference) : Option Path :=
  resolveConfig? fs (Path.absolutize loaded.path.dir ⟨reference.path⟩)

/-- The configuration of `p` has a reference that names `q`. -/
def Mentions (fs : σ) (p q : Path) : Prop :=
  ∃ loaded, (LoadedConfig.read fs p).value = .ok loaded ∧
    ∃ reference ∈ loaded.config.references.getD [], target? fs loaded reference = some q

/-- A chain of references leads from some root to `q`. -/
def Reachable (fs : σ) (roots : List Path) (q : Path) : Prop :=
  ∃ root ∈ roots, ∃ p, resolveRoot fs root = .ok p ∧ Relation.ReflTransGen (Mentions fs) p q

/-- What a reachable configuration mentions is reachable. -/
theorem Reachable.mentions {fs : σ} {roots : List Path} {p q : Path}
    (h : Reachable fs roots p) (hpq : Mentions fs p q) : Reachable fs roots q := by
  obtain ⟨root, hroot, start, hstart, hchain⟩ := h
  exact ⟨root, hroot, start, hstart, hchain.tail hpq⟩

/-- One more path in a list that holds each path once. -/
def keep (targets : List Path) (target : Path) : List Path :=
  if targets.any target.same then targets else targets ++ [target]

/-- Resolves one more reference. -/
def resolveOne (fs : σ) (loaded : LoadedConfig) (targets : List Path)
    (reference : ProjectReference) : Except Error (List Path) :=
  match target? fs loaded reference with
  | none => .error (.config loaded.path
      (.missingReference (Path.absolutize loaded.path.dir ⟨reference.path⟩)))
  | some target => .ok (keep targets target)

theorem resolveReferences_eq (fs : σ) (loaded : LoadedConfig) :
    resolveReferences fs loaded
      = (loaded.config.references.getD []).foldlM (resolveOne fs loaded) [] := rfl

/-- References that are resolved one by one are those that stand for a configuration
    each, without repeats. -/
theorem resolveEach_ok {fs : σ} {loaded : LoadedConfig} (references : List ProjectReference)
    {seen targets : List Path}
    (h : references.foldlM (resolveOne fs loaded) seen = .ok targets) :
    ∃ named : List Path, references.map (target? fs loaded) = named.map some ∧
      targets = named.foldl keep seen := by
  induction references generalizing seen with
  | nil => exact ⟨[], rfl, (Except.ok.inj h).symm⟩
  | cons reference rest ih =>
      rw [List.foldlM_cons, resolveOne] at h
      cases htarget : target? fs loaded reference with
      | none =>
          rw [htarget] at h
          exact nomatch h
      | some target =>
          rw [htarget] at h
          obtain ⟨named, hnamed, htargets⟩ := ih h
          exact ⟨target :: named, by rw [List.map_cons, hnamed, htarget, List.map_cons], htargets⟩

/-- **What resolving references comes to**: every one names a configuration,
    and each of these is kept once. -/
theorem resolveReferences_ok {fs : σ} {loaded : LoadedConfig} {targets : List Path}
    (h : resolveReferences fs loaded = .ok targets) :
    ∃ named : List Path,
      (loaded.config.references.getD []).map (target? fs loaded) = named.map some ∧
        targets = named.eraseDupsBy Path.same := by
  rw [resolveReferences_eq] at h
  obtain ⟨named, hnamed, htargets⟩ := resolveEach_ok _ h
  exact ⟨named, hnamed, htargets.trans (eraseDupsBy_eq Path.same named).symm⟩

/-- A list without repeats holds what the list holds, each once. -/
theorem foldl_keep (paths seen : List Path)
    (hseen : seen.Pairwise fun p q => p.components ≠ q.components) :
    (paths.foldl keep seen).Pairwise (fun p q => p.components ≠ q.components) ∧
      (∀ p ∈ paths.foldl keep seen, p ∈ seen ∨ p ∈ paths) ∧
      ∀ p, p ∈ seen ∨ p ∈ paths → ∃ q ∈ paths.foldl keep seen, q.components = p.components := by
  -- on the paths, for any `seen`, which holds what has been kept
  induction paths generalizing seen with
  | nil =>
      exact ⟨hseen, fun p hp => Or.inl hp,
        fun p hp => ⟨p, hp.resolve_right List.not_mem_nil, rfl⟩⟩
  | cons path rest ih =>
      rw [List.foldl_cons]
      cases hany : seen.any path.same with
      | true =>
          have hkeep : keep seen path = seen := if_pos hany
          rw [hkeep]
          obtain ⟨hdistinct, hsub, hsup⟩ := ih seen hseen
          refine ⟨hdistinct, fun p hp => (hsub p hp).imp id (List.mem_cons_of_mem _), ?_⟩
          rintro p (hp | hp)
          · exact hsup p (Or.inl hp)
          · rcases List.mem_cons.mp hp with rfl | hp
            · -- the path is not kept, but another spelling of it has been
              obtain ⟨q, hq, hsame⟩ := List.any_eq_true.mp hany
              obtain ⟨r, hr, hrq⟩ := hsup q (Or.inl hq)
              exact ⟨r, hr, hrq.trans (Path.same_iff.mp hsame).symm⟩
            · exact hsup p (Or.inr hp)
      | false =>
          have hkeep : keep seen path = seen ++ [path] :=
            if_neg (by rw [hany]; exact Bool.false_ne_true)
          rw [hkeep]
          have hnew : (seen ++ [path]).Pairwise fun p q => p.components ≠ q.components := by
            refine List.pairwise_append.mpr ⟨hseen, List.pairwise_singleton _ _, ?_⟩
            intro p hp q hq heq
            rw [List.mem_singleton.mp hq] at heq
            have := List.any_eq_false.mp hany p hp
            exact this (Path.same_iff.mpr heq.symm)
          obtain ⟨hdistinct, hsub, hsup⟩ := ih (seen ++ [path]) hnew
          have hmem : ∀ p, p ∈ seen ++ [path] ∨ p ∈ rest ↔ p ∈ seen ∨ p ∈ path :: rest := by
            intro p
            rw [List.mem_append, List.mem_singleton, List.mem_cons, or_assoc]
          exact ⟨hdistinct, fun p hp => (hmem p).mp (hsub p hp),
            fun p hp => hsup p ((hmem p).mpr hp)⟩

/-- Without repeats, paths differ, and each is there in one spelling. -/
theorem eraseDupsBy_same (paths : List Path) :
    (paths.eraseDupsBy Path.same).Pairwise (fun p q => p.components ≠ q.components) ∧
      (∀ p ∈ paths.eraseDupsBy Path.same, p ∈ paths) ∧
      ∀ p ∈ paths, ∃ q ∈ paths.eraseDupsBy Path.same, q.components = p.components := by
  rw [eraseDupsBy_eq]
  obtain ⟨hdistinct, hsub, hsup⟩ := foldl_keep paths [] List.Pairwise.nil
  exact ⟨hdistinct, fun p hp => (hsub p hp).resolve_left List.not_mem_nil,
    fun p hp => hsup p (Or.inr hp)⟩

/-- The configurations that are kept are those that are mentioned. -/
theorem resolveReferences_mentions {fs : σ} {p : Path} {loaded : LoadedConfig}
    {targets : List Path} (hread : (LoadedConfig.read fs p).value = .ok loaded)
    (h : resolveReferences fs loaded = .ok targets) :
    targets.Pairwise (fun p q => p.components ≠ q.components) ∧
      (∀ q ∈ targets, Mentions fs p q) ∧
      ∀ q, Mentions fs p q → ∃ q' ∈ targets, q'.components = q.components := by
  obtain ⟨named, hnamed, rfl⟩ := resolveReferences_ok h
  obtain ⟨hdistinct, hsub, hsup⟩ := eraseDupsBy_same named
  refine ⟨hdistinct, fun q hq => ?_, fun q hq => ?_⟩
  · have hmem : some q ∈ (loaded.config.references.getD []).map (target? fs loaded) := by
      rw [hnamed]
      exact List.mem_map_of_mem (hsub q hq)
    obtain ⟨reference, hreference, htarget⟩ := List.mem_map.mp hmem
    exact ⟨loaded, hread, reference, hreference, htarget⟩
  · obtain ⟨loaded', hread', reference, hreference, htarget⟩ := hq
    obtain rfl : loaded = loaded' := Except.ok.inj (hread.symm.trans hread')
    have hmem : some q ∈ named.map some := by
      rw [← hnamed, ← htarget]
      exact List.mem_map_of_mem hreference
    obtain ⟨q', hq', heq⟩ := List.mem_map.mp hmem
    exact hsup q (Option.some.inj heq ▸ hq')

/-! ## The traversal -/

namespace Progress

/-- The project of the configuration `p` has the index `i`. -/
def Has (s : Progress) (i : Nat) (p : Path) : Prop :=
  ∃ node, s.nodes[i]? = some node ∧ node.configPath.components = p.components

/-- The ends of the edges from `i`, in order. -/
def children (s : Progress) (i : Nat) : List Nat :=
  (s.edges.filter fun edge => edge.1 == i).map Prod.snd

/-- What is known of the projects that have been finished: their configurations
    are among those that `P` accepts, and the edges lead to what they mention,
    which was finished before. -/
structure Explored (fs : σ) (P : Path → Prop) (s : Progress) : Prop where
  within : ∀ node ∈ s.nodes, P node.configPath
  entered : ∀ i node, s.nodes[i]? = some node → ∃ loaded,
    (LoadedConfig.read fs node.configPath).value = .ok loaded ∧
      resolveReferences fs loaded = .ok node.references ∧
      List.Forall₂ s.Has (s.children i) node.references
  descending : ∀ edge ∈ s.edges, edge.2 < edge.1 ∧ edge.1 < s.nodes.length
  nodup : s.edges.Nodup

/-- What has an index is one of the projects. -/
theorem Has.lt {s : Progress} {i : Nat} {p : Path} (h : s.Has i p) : i < s.nodes.length := by
  obtain ⟨node, hnode, -⟩ := h
  exact (List.getElem?_eq_some_iff.mp hnode).1

/-- An index is kept when more projects are numbered. -/
theorem Has.mono {s s' : Progress} (h : s.nodes <+: s'.nodes) {i : Nat} {p : Path}
    (hp : s.Has i p) : s'.Has i p := by
  obtain ⟨node, hnode, hpath⟩ := hp
  obtain ⟨added, hadded⟩ := h
  refine ⟨node, ?_, hpath⟩
  rw [← hadded, List.getElem?_append_left (List.getElem?_eq_some_iff.mp hnode).1]
  exact hnode

end Progress

/-- What single visits keep and find, visits in order keep and find. -/
theorem visitEach_ok {visit : Path → Progress → Step Nat} {I : Progress → Prop}
    {R : Progress → Nat → Path → Prop}
    (hR : ∀ {s s' : Progress} {i p}, s.nodes <+: s'.nodes → R s i p → R s' i p)
    (paths : List Path)
    (hvisit : ∀ path ∈ paths, ∀ s i s', I s → visit path s = (.ok i, s') →
      I s' ∧ s.nodes <+: s'.nodes ∧ R s' i path)
    {s s' : Progress} {indices : List Nat} (hs : I s)
    (h : visitEach visit paths s = (.ok indices, s')) :
    I s' ∧ s.nodes <+: s'.nodes ∧ List.Forall₂ (R s') indices paths := by
  have hvisits := visitEach_eq_iff.mp h
  generalize hstep : (Except.ok indices, s') = step at hvisits
  induction hvisits generalizing indices with
  | nil s =>
      cases hstep
      exact ⟨hs, List.prefix_refl _, .nil⟩
  | failed | stopped => cases hstep
  | @cons path rest _ t _ _ _ first others ih =>
      cases hstep
      obtain ⟨ht, hst, hi⟩ := hvisit path List.mem_cons_self _ _ _ hs first
      obtain ⟨hs', hts, hmore⟩ := ih (fun p hp => hvisit p (List.mem_cons_of_mem path hp)) ht
        (visitEach_eq_iff.mpr others) rfl
      exact ⟨hs', hst.trans hts, .cons (hR hts hi) hmore⟩

namespace Progress

/-- A project that is numbered gets its children, and no other project does. -/
theorem children_push (s : Progress) (node : Project) (children : List Nat) (i : Nat) :
    (s.push node children).children i
      = s.children i ++ if i = s.nodes.length then children else [] := by
  show ((s.edges ++ children.map fun child => (s.nodes.length, child)).filter
    fun edge => edge.1 == i).map Prod.snd = _
  rw [List.filter_append, List.map_append]
  refine congrArg (s.children i ++ ·) ?_
  by_cases hi : i = s.nodes.length
  · subst hi
    rw [if_pos rfl, List.filter_eq_self.mpr, List.map_map]
    · exact List.map_id children
    · intro edge hedge
      obtain ⟨child, -, rfl⟩ := List.mem_map.mp hedge
      exact beq_self_eq_true _
  · rw [if_neg hi, List.filter_eq_nil_iff.mpr]
    · rfl
    · intro edge hedge
      obtain ⟨child, -, rfl⟩ := List.mem_map.mp hedge
      simpa using Ne.symm hi

/-- What has no index yet has no children. -/
theorem Explored.children_eq_nil {fs : σ} {P : Path → Prop} {s : Progress}
    (hs : s.Explored fs P) : s.children s.nodes.length = [] := by
  unfold children
  rw [List.map_eq_nil_iff, List.filter_eq_nil_iff]
  intro edge hedge
  have := (hs.descending edge hedge).2
  simp only [beq_iff_eq]
  omega

/-- Indices that have different configurations are different. -/
theorem nodup_of_has {s : Progress} {indices : List Nat} {paths : List Path}
    (h : List.Forall₂ s.Has indices paths)
    (hpaths : paths.Pairwise fun p q => p.components ≠ q.components) : indices.Nodup := by
  induction h with
  | nil => exact List.nodup_nil
  | @cons i p indices paths hi hrest ih =>
      obtain ⟨hp, hpaths⟩ := List.pairwise_cons.mp hpaths
      refine List.nodup_cons.mpr ⟨fun hmem => ?_, ih hpaths⟩
      obtain ⟨k, hk, hget⟩ := List.mem_iff_getElem.mp hmem
      obtain ⟨node, hnode, hpath⟩ := hi
      have hk' : k < paths.length := hrest.length_eq ▸ hk
      obtain ⟨node', hnode', hpath'⟩ := List.Forall₂.get hrest hk hk'
      rw [List.get_eq_getElem, hget, hnode] at hnode'
      obtain rfl := Option.some.inj hnode'
      exact hp _ (List.getElem_mem hk') (hpath.symm.trans hpath')

/-- A project that is numbered behind all that its configuration mentions. -/
theorem Explored.push {fs : σ} {P : Path → Prop} {s : Progress} (hs : s.Explored fs P)
    {node : Project} {loaded : LoadedConfig} {children : List Nat}
    (hnode : P node.configPath) (hread : (LoadedConfig.read fs node.configPath).value = .ok loaded)
    (hreferences : resolveReferences fs loaded = .ok node.references)
    (hchildren : List.Forall₂ s.Has children node.references) :
    (s.push node children).Explored fs P := by
  have hprefix : s.nodes <+: (s.push node children).nodes := List.prefix_append _ _
  -- references are resolved without repetition
  have hnodup : children.Nodup :=
    nodup_of_has hchildren (resolveReferences_mentions hread hreferences).1
  -- the new edges lead from the new number to earlier ones
  have hnew : ∀ edge ∈ children.map fun child => (s.nodes.length, child),
      edge.1 = s.nodes.length ∧ edge.2 < s.nodes.length := by
    intro edge hedge
    obtain ⟨child, hchild, rfl⟩ := List.mem_map.mp hedge
    obtain ⟨k, hk, hget⟩ := List.mem_iff_getElem.mp hchild
    have hhas := List.Forall₂.get hchildren hk (hchildren.length_eq ▸ hk)
    rw [List.get_eq_getElem, hget] at hhas
    exact ⟨rfl, hhas.lt⟩
  constructor
  case within =>
    intro other hother
    rcases List.mem_append.mp hother with hother | hother
    · exact hs.within other hother
    · rw [List.mem_singleton.mp hother]
      exact hnode
  case entered =>
    intro i other hother
    rw [children_push]
    rcases Nat.lt_or_ge i s.nodes.length with hi | hi
    · have hother' : s.nodes[i]? = some other := by
        rw [← hother]
        exact (List.getElem?_append_left hi).symm
      obtain ⟨loaded', hread', hreferences', hchildren'⟩ := hs.entered i other hother'
      rw [if_neg (by omega), List.append_nil]
      exact ⟨loaded', hread', hreferences', hchildren'.imp fun _ _ h => h.mono hprefix⟩
    · have hlt := (List.getElem?_eq_some_iff.mp hother).1
      have hlength : (s.push node children).nodes.length = s.nodes.length + 1 :=
        List.length_append
      obtain rfl : i = s.nodes.length := by omega
      obtain rfl : node = other := by
        have hlast : (s.push node children).nodes[s.nodes.length]? = some node :=
          List.getElem?_concat_length
        exact Option.some.inj (hlast.symm.trans hother)
      rw [hs.children_eq_nil, if_pos rfl, List.nil_append]
      exact ⟨loaded, hread, hreferences, hchildren.imp fun _ _ h => h.mono hprefix⟩
  case descending =>
    intro edge hedge
    have hlength : (s.push node children).nodes.length = s.nodes.length + 1 :=
      List.length_append
    rcases List.mem_append.mp hedge with hedge | hedge
    · have := hs.descending edge hedge
      omega
    · have := hnew edge hedge
      omega
  case nodup =>
    refine List.nodup_append.mpr ⟨hs.nodup, ?_, ?_⟩
    · exact hnodup.map fun a b hab => (Prod.mk.inj hab).2
    · rintro edge hedge other hother rfl
      have h1 := hs.descending edge hedge
      have h2 := hnew edge hother
      omega

end Progress

/-- An index that is found belongs to the configuration. -/
theorem Progress.has_of_indexOf? {s : Progress} {p : Path} {i : Nat}
    (h : s.indexOf? p = some i) : s.Has i p := by
  obtain ⟨hi, hsame, -⟩ := List.findIdx?_eq_some_iff_getElem.mp h
  exact ⟨s.nodes[i], List.getElem?_eq_getElem hi, Path.same_iff.mp hsame⟩

/-- **What entering a project does**, if it succeeds: it reads the configuration,
    visits what that mentions, and numbers the project behind. -/
theorem enter_ok {fs : σ} {descend : Path → Progress → Step Nat} {configPath : Path}
    {s s' : Progress} {i : Nat} (h : enter fs descend configPath s = (.ok i, s')) :
    ∃ loaded targets children t node,
      (LoadedConfig.read fs configPath).value = .ok loaded ∧
        resolveReferences fs loaded = .ok targets ∧
        visitEach descend targets ((s.note (LoadedConfig.read fs configPath).notes).note
          (configNotes loaded)) = (.ok children, t) ∧
        (project fs loaded targets).value = .ok node ∧
        i = t.nodes.length ∧
        s' = (t.note (project fs loaded targets).notes).push node children := by
  cases enter_eq_iff.mp h with
  | numbered read resolve visits build =>
      exact ⟨_, _, _, _, _, read, resolve, visits, build, rfl, rfl⟩

section visits

variable {fs : σ} {P : Path → Prop} (hP : ∀ {p q}, P p → Mentions fs p q → P q)
include hP

/-- A project that is entered, if what it mentions is explored. -/
theorem enter_explored {descend : Path → Progress → Step Nat} {configPath : Path}
    (hdescend : ∀ path, P path → ∀ s i s', s.Explored fs P → descend path s = (.ok i, s') →
      s'.Explored fs P ∧ s.nodes <+: s'.nodes ∧ s'.Has i path)
    (hpath : P configPath) {s s' : Progress} {i : Nat} (hs : s.Explored fs P)
    (h : enter fs descend configPath s = (.ok i, s')) :
    s'.Explored fs P ∧ s.nodes <+: s'.nodes ∧ s'.Has i configPath := by
  obtain ⟨loaded, targets, children, t, node, hread, htargets, hvisit, hproject, rfl, rfl⟩ :=
    enter_ok h
  have hnoted : ((s.note (LoadedConfig.read fs configPath).notes).note
      (configNotes loaded)).Explored fs P :=
    ⟨hs.within, hs.entered, hs.descending, hs.nodup⟩
  obtain ⟨ht, hst, hchildren⟩ := visitEach_ok (I := fun s => s.Explored fs P)
    (R := Progress.Has) (fun h hp => hp.mono h) targets
    (fun path hmem s i s' => hdescend path
      (hP hpath ((resolveReferences_mentions hread htargets).2.1 path hmem)) s i s')
    hnoted hvisit
  have hconfig : node.configPath = configPath :=
    (project_configPath hproject).trans (read_path hread)
  have hreferences : node.references = targets := by
    obtain ⟨found, -, -, rfl⟩ := project_ok hproject
    rfl
  have ht' : (t.note (project fs loaded targets).notes).Explored fs P :=
    ⟨ht.within, ht.entered, ht.descending, ht.nodup⟩
  refine ⟨ht'.push (hconfig ▸ hpath) (hconfig ▸ hread)
    (hreferences ▸ htargets) (hreferences ▸ hchildren), ?_, ?_⟩
  · exact hst.trans (List.prefix_append _ _)
  · exact ⟨node, List.getElem?_concat_length, congrArg Path.components hconfig⟩

/-- **A visit that succeeds finds its project**, and leaves everything that is
    finished explored. -/
theorem visit_explored (depth : Nat) (stack : List Path) (configPath : Path)
    (hpath : P configPath) (s : Progress) (i : Nat) (s' : Progress) (hs : s.Explored fs P)
    (h : visit fs depth stack configPath s = (.ok i, s')) :
    s'.Explored fs P ∧ s.nodes <+: s'.nodes ∧ s'.Has i configPath := by
  refine visit_induct fs (P := fun _ _ p s step => P p → ∀ i s', s.Explored fs P →
    step = (.ok i, s') → s'.Explored fs P ∧ s.nodes <+: s'.nodes ∧ s'.Has i p) ?_ ?_ ?_ ?_ depth
    stack configPath s hpath i s' hs h
  · intro _ _ p s k hk _ i s' hs h
    obtain ⟨hi, rfl⟩ := Prod.mk.inj h
    obtain rfl := Except.ok.inj hi
    exact ⟨hs, List.prefix_refl _, Progress.has_of_indexOf? hk⟩
  · exact fun _ _ _ _ _ _ _ _ _ _ h => nomatch h
  · exact fun _ _ _ _ _ _ _ _ h => nomatch h
  · exact fun _ _ p s _ _ hdescend hp i s' hs h =>
      enter_explored hP (fun q hq t => hdescend q t hq) hp hs h

end visits

/-! ## Roots -/

/-- Indices of roots are indices of the configurations that the roots stand for. -/
theorem forall₂_resolved {s : Progress} {f : Path → Except Error Path} {indices : List Nat}
    {roots : List Path}
    (h : List.Forall₂ (fun i root => ∃ p, f root = .ok p ∧ s.Has i p) indices roots) :
    ∃ targets : List Path, roots.map f = targets.map .ok ∧ List.Forall₂ s.Has indices targets := by
  induction h with
  | nil => exact ⟨[], rfl, .nil⟩
  | cons hi _ ih =>
      obtain ⟨p, hp, hhas⟩ := hi
      obtain ⟨targets, htargets, hall⟩ := ih
      exact ⟨p :: targets, by rw [List.map_cons, List.map_cons, hp, htargets], .cons hhas hall⟩

/-- What a root names has an index. -/
theorem exists_has_of_root {fs : σ} {s : Progress} {roots named : List Path} {indices : List Nat}
    (hnamed : roots.map (resolveRoot fs) = named.map .ok)
    (hroots : List.Forall₂ s.Has indices named) {root start : Path} (hroot : root ∈ roots)
    (hstart : resolveRoot fs root = .ok start) : ∃ i, s.Has i start := by
  have hmem : Except.ok start ∈ named.map (Except.ok (ε := Error)) := by
    rw [← hnamed, ← hstart]
    exact List.mem_map_of_mem hroot
  obtain ⟨start', hstart', heq⟩ := List.mem_map.mp hmem
  obtain ⟨k, hk, hget⟩ := List.mem_iff_getElem.mp hstart'
  have hfound := List.Forall₂.get hroots (hroots.length_eq ▸ hk) hk
  rw [List.get_eq_getElem, List.get_eq_getElem, hget, Except.ok.inj heq] at hfound
  exact ⟨_, hfound⟩

/-- Roots that are all loaded leave an explored closure. -/
theorem visitRoots_explored {fs : σ} {roots : List Path} {indices : List Nat} {s : Progress}
    (h : visitRoots fs roots {} = (.ok indices, s)) :
    s.Explored fs (Reachable fs roots) ∧ ∃ targets : List Path,
      roots.map (resolveRoot fs) = targets.map .ok ∧ List.Forall₂ s.Has indices targets := by
  have hempty : ({} : Progress).Explored fs (Reachable fs roots) :=
    ⟨fun _ h => (nomatch h), fun _ _ h => (nomatch h), fun _ h => (nomatch h), List.nodup_nil⟩
  obtain ⟨hs, -, hroots⟩ := visitEach_ok (I := fun s => s.Explored fs (Reachable fs roots))
    (R := fun s i root => ∃ p, resolveRoot fs root = .ok p ∧ s.Has i p)
    (fun h hp => hp.imp fun _ hp => ⟨hp.1, hp.2.mono h⟩) roots
    (fun root hroot s i s' hs hvisit => by
      cases hresolve : resolveRoot fs root with
      | error e =>
          rw [hresolve] at hvisit
          exact nomatch hvisit
      | ok p =>
          rw [hresolve] at hvisit
          have hp : Reachable fs roots p := ⟨root, hroot, p, hresolve, .refl⟩
          obtain ⟨hs', hprefix, hhas⟩ := visit_explored (fun h hpq => h.mentions hpq) _ [] p hp s
            i s' hs hvisit
          exact ⟨hs', hprefix, p, rfl, hhas⟩) hempty h
  exact ⟨hs, forall₂_resolved hroots⟩

/-! ## Other spellings -/

/-- A configuration is read under any spelling of its path. -/
theorem read_congr {fs : MemoryFs} {p q : Path} (h : p.components = q.components)
    {loaded : LoadedConfig} (hread : (LoadedConfig.read fs p).value = .ok loaded) :
    (LoadedConfig.read fs q).value = .ok { loaded with path := q } := by
  obtain ⟨text, config, htext, hconfig, rfl⟩ := read_eq_ok.mp hread
  refine read_eq_ok.mpr ⟨text, config, ?_, hconfig, rfl⟩
  rw [MemoryFs.read_eq_ok] at htext ⊢
  rw [← fs.file?_congr h]
  exact htext

/-- What a configuration mentions does not depend on how its path is spelled. -/
theorem Mentions.congr {fs : MemoryFs} {p p' q : Path} (h : p.components = p'.components)
    (hmentions : Mentions fs p q) : Mentions fs p' q := by
  obtain ⟨loaded, hread, reference, hreference, htarget⟩ := hmentions
  refine ⟨_, read_congr h hread, reference, hreference, ?_⟩
  rw [← htarget]
  unfold target?
  rw [read_path hread, Path.absolutize_congr (Path.dir_congr h)]

/-- **Everything that is reachable has been finished.** -/
theorem Progress.Explored.complete {fs : MemoryFs} {P : Path → Prop} {s : Progress}
    (hs : s.Explored fs P) {p q : Path} (hp : ∃ i, s.Has i p)
    (hpq : Relation.ReflTransGen (Mentions fs) p q) : ∃ i, s.Has i q := by
  induction hpq with
  | refl => exact hp
  | @tail q r _ hqr ih =>
      obtain ⟨i, node, hnode, hpath⟩ := ih
      obtain ⟨loaded, hread, hreferences, hchildren⟩ := hs.entered i node hnode
      obtain ⟨r', hr', hsame⟩ := (resolveReferences_mentions hread hreferences).2.2 r
        (hqr.congr hpath.symm)
      obtain ⟨k, hk, rfl⟩ := List.mem_iff_getElem.mp hr'
      obtain ⟨other, hother, hpath'⟩ := List.Forall₂.get hchildren (hchildren.length_eq ▸ hk) hk
      exact ⟨_, other, hother, hpath'.trans hsame⟩

/-- **What is reachable has an index**, once all roots have one. -/
theorem Progress.Explored.reaches {fs : MemoryFs} {P : Path → Prop} {s : Progress}
    (hs : s.Explored fs P) {roots named : List Path} {indices : List Nat}
    (hnamed : roots.map (resolveRoot fs) = named.map .ok)
    (hroots : List.Forall₂ s.Has indices named) {p : Path} (hp : Reachable fs roots p) :
    ∃ i, s.Has i p := by
  obtain ⟨root, hroot, start, hstart, hchain⟩ := hp
  exact hs.complete (exists_has_of_root hnamed hroots hroot hstart) hchain

end Closure

/-! ## Graphs -/

/-- A graph is the reference closure of some roots. -/
structure Graph.IsClosure {σ : Type} [FileSystem σ] (g : Graph) (fs : σ) (roots : List Path) :
    Prop where
  /-- Every project is reachable from a root. -/
  reachable : ∀ i < g.size, Closure.Reachable fs roots (g.node i).configPath
  /-- Every configuration that is reachable from a root has a project. -/
  complete : ∀ p, Closure.Reachable fs roots p → ∃ i < g.size, (g.node i).configPath.same p = true
  distinct : g.Distinct
  /-- Looking up a configuration is the inverse of taking the node. -/
  indexOf?_eq_some : ∀ p i, g.indexOf? p = some i ↔
    i < g.size ∧ (g.node i).configPath.same p = true
  /-- An edge is a reference that names the other project. -/
  edges : ∀ i j, (i, j) ∈ g.edges ↔ i < g.size ∧ j < g.size ∧
    ∃ p, Closure.Mentions fs (g.node i).configPath p ∧ (g.node j).configPath.same p = true
  /-- A project has the references of its configuration, each once, in order, and its dependencies
  are their projects. -/
  references : ∀ i < g.size, ∃ loaded, ∃ named : List Path,
    (LoadedConfig.read fs (g.node i).configPath).value = .ok loaded ∧
      (loaded.config.references.getD []).map (Closure.target? fs loaded) = named.map some ∧
      (g.node i).references = named.eraseDupsBy Path.same ∧
      List.Forall₂ (fun j p => j < g.size ∧ (g.node j).configPath.same p = true)
        (g.dependencies i) (g.node i).references
  descending : ∀ edge ∈ g.edges, edge.2 < edge.1
  /-- The roots are those that were asked for, each once, in order. -/
  roots : ∃ named : List Path, roots.map (Closure.resolveRoot fs) = named.map .ok ∧
    List.Forall₂ (fun j p => j < g.size ∧ (g.node j).configPath.same p = true) g.roots
      (named.eraseDupsBy Path.same)

namespace Closure

/-- A project is referenced if an edge leads to it. -/
theorem isReferenced_eq_true {edges : List (Nat × Nat)} {i : Nat} :
    isReferenced edges i = true ↔ ∃ j, (j, i) ∈ edges := by
  unfold isReferenced
  simp only [List.any_eq_true, beq_iff_eq]
  exact ⟨fun ⟨edge, hedge, heq⟩ => ⟨edge.1, heq ▸ hedge⟩, fun ⟨j, hj⟩ => ⟨(j, i), hj, rfl⟩⟩

/-- Declarations are turned on for what is referenced. -/
theorem getElem?_withDeclarations_eq (edges : List (Nat × Nat)) {nodes : List Project} {i : Nat}
    {node : Project} (h : nodes[i]? = some node) :
    (withDeclarations edges nodes)[i]?
      = some (if isReferenced edges i then { node with declaration := true } else node) := by
  unfold withDeclarations
  rw [List.getElem?_mapIdx, h]
  rfl

/-- Turning declarations on changes nothing else of a project. -/
theorem getElem?_withDeclarations (edges : List (Nat × Nat)) {nodes : List Project} {i : Nat}
    {node : Project} (h : nodes[i]? = some node) :
    ∃ declaration,
      (withDeclarations edges nodes)[i]? = some { node with declaration := declaration } := by
  rw [getElem?_withDeclarations_eq edges h]
  split
  · exact ⟨true, rfl⟩
  · exact ⟨node.declaration, rfl⟩

/-- No two of the finished projects have the same configuration. -/
def Progress.Distinct (s : Progress) : Prop :=
  s.nodes.Pairwise fun a b => a.configPath.components ≠ b.configPath.components

/-- Indices are the same if the configurations are. -/
theorem Progress.Distinct.has_iff {s : Progress} (hs : s.Distinct) {i j : Nat} {p q : Path}
    (hi : s.Has i p) (hj : s.Has j q) : i = j ↔ p.components = q.components := by
  obtain ⟨node, hnode, hp⟩ := hi
  obtain ⟨other, hother, hq⟩ := hj
  obtain ⟨hi, rfl⟩ := List.getElem?_eq_some_iff.mp hnode
  obtain ⟨hj, rfl⟩ := List.getElem?_eq_some_iff.mp hother
  rw [← hp, ← hq]
  constructor
  · rintro rfl
    rfl
  · intro heq
    rcases Nat.lt_trichotomy i j with hlt | hij | hlt
    · exact absurd heq (List.pairwise_iff_getElem.mp hs i j hi hj hlt)
    · exact hij
    · exact absurd heq.symm (List.pairwise_iff_getElem.mp hs j i hj hi hlt)

/-- What has been seen by its index has been kept by its path. -/
theorem Progress.Distinct.contains_eq {s : Progress} (hs : s.Distinct) {i : Nat} {p : Path}
    (hi : s.Has i p) {seen : List Nat} {kept : List Path} (h : List.Forall₂ s.Has seen kept) :
    seen.contains i = kept.any p.same := by
  induction h with
  | nil => rfl
  | cons hj _ ih =>
      rw [List.contains_cons, List.any_cons, ih]
      refine congrArg (· || _) ?_
      rw [Bool.eq_iff_iff, beq_iff_eq, Path.same_iff]
      exact hs.has_iff hi hj

/-- Indices without repeats have the paths without repeats. -/
theorem Progress.Distinct.forall₂ {s : Progress} (hs : s.Distinct) {indices : List Nat}
    {paths : List Path} (h : List.Forall₂ s.Has indices paths) :
    List.Forall₂ s.Has (distinct indices) (paths.eraseDupsBy Path.same) := by
  rw [eraseDupsBy_eq]
  unfold distinct
  have hfold : ∀ {seen : List Nat} {kept : List Path}, List.Forall₂ s.Has seen kept →
      List.Forall₂ s.Has
        (indices.foldl (fun seen x => if seen.contains x then seen else seen ++ [x]) seen)
        (paths.foldl (fun seen x => if seen.any x.same then seen else seen ++ [x]) kept) := by
    induction h with
    | nil => exact id
    | @cons i p indices paths hi _ ih =>
        intro seen kept hseen
        rw [List.foldl_cons, List.foldl_cons]
        rw [hs.contains_eq hi hseen]
        refine ih ?_
        split
        · exact hseen
        · exact List.rel_append hseen (.cons hi .nil)
  exact hfold .nil

/-- A graph has the projects and the references that the traversal has
    finished. -/
structure Progress.Becomes (s : Progress) (g : Graph) : Prop where
  size : g.size = s.nodes.length
  node : ∀ {i node}, s.nodes[i]? = some node →
    ∃ declaration, g.node i = { node with declaration := declaration }
  edges : g.edges = s.edges

/-- The graph that the traversal has made, with declarations turned on. -/
theorem Progress.becomes {s : Progress} (hnodup : s.edges.Nodup) (indices : List Nat) :
    s.Becomes ⟨withDeclarations s.edges s.nodes, distinct s.edges, indices⟩ := by
  refine ⟨List.length_mapIdx, fun {i node} h => ?_, distinct_eq_of_nodup hnodup⟩
  obtain ⟨declaration, hd⟩ := getElem?_withDeclarations s.edges h
  refine ⟨declaration, ?_⟩
  unfold Graph.node
  rw [List.getD_eq_getElem?_getD, hd]
  rfl

namespace Progress.Becomes

variable {fs : MemoryFs} {P : Path → Prop} {s : Progress} {g : Graph} (h : s.Becomes g)
include h

/-- The projects of the graph are those that were numbered, up to their
    declarations. -/
theorem node_get {i : Nat} (hi : i < g.size) :
    ∃ node ∈ s.nodes, s.nodes[i]? = some node ∧
      ∃ declaration, g.node i = { node with declaration := declaration } := by
  have hlt : i < s.nodes.length := h.size ▸ hi
  have hget := List.getElem?_eq_getElem hlt
  exact ⟨s.nodes[i], List.getElem_mem hlt, hget, h.node hget⟩

/-- Indices mean the same during the traversal and in the graph. -/
theorem has_iff {i : Nat} {p : Path} :
    s.Has i p ↔ i < g.size ∧ (g.node i).configPath.same p = true := by
  rw [Path.same_iff]
  constructor
  · rintro ⟨node, hget, hp⟩
    obtain ⟨d, hd⟩ := h.node hget
    rw [h.size, hd]
    exact ⟨(List.getElem?_eq_some_iff.mp hget).1, hp⟩
  · rintro ⟨hi, hp⟩
    obtain ⟨node, -, hget, d, hd⟩ := h.node_get hi
    rw [hd] at hp
    exact ⟨node, hget, hp⟩

theorem has_self {i : Nat} (hi : i < g.size) : s.Has i (g.node i).configPath :=
  h.has_iff.mpr ⟨hi, Path.same_iff.mpr rfl⟩

theorem distinct (hs : s.Distinct) : g.Distinct :=
  fun _ hi _ hj hij heq => hij ((hs.has_iff (h.has_self hi) (h.has_self hj)).mpr heq)

/-- Each project is the one that its configuration makes, and its dependencies
    are those that the references name. -/
theorem entered (hs : s.Explored fs P) {i : Nat} (hi : i < g.size) : ∃ loaded,
    (LoadedConfig.read fs (g.node i).configPath).value = .ok loaded ∧
      resolveReferences fs loaded = .ok (g.node i).references ∧
      List.Forall₂ s.Has (g.dependencies i) (g.node i).references := by
  have hdependencies : g.dependencies i = s.children i := by
    unfold Graph.dependencies children
    rw [h.edges]
  obtain ⟨node, -, hget, d, hd⟩ := h.node_get hi
  obtain ⟨loaded, hread, hreferences, hchildren⟩ := hs.entered i node hget
  rw [hd, hdependencies]
  exact ⟨loaded, hread, hreferences, hchildren⟩

/-- A configuration has one index in the graph, under any spelling. -/
theorem indexOf?_iff (hs : s.Distinct) {p : Path} {i : Nat} :
    g.indexOf? p = some i ↔ i < g.size ∧ (g.node i).configPath.same p = true := by
  have hsome : ∀ {k}, g.indexOf? p = some k → s.Has k p := by
    intro k hk
    unfold Graph.indexOf? at hk
    have hmem := List.mem_of_find?_eq_some hk
    rw [List.mem_reverse, Graph.indices, List.mem_range] at hmem
    have hsame := List.find?_some hk
    exact h.has_iff.mpr ⟨hmem, hsame⟩
  constructor
  · exact fun hi => h.has_iff.mp (hsome hi)
  · intro hi
    cases hindex : g.indexOf? p with
    | none =>
        have hnone := List.find?_eq_none.mp hindex i
          (List.mem_reverse.mpr (List.mem_range.mpr hi.1))
        exact absurd hi.2 hnone
    | some k => exact congrArg some ((hs.has_iff (hsome hindex) (h.has_iff.mpr hi)).mpr rfl)

/-- **The edges of the graph are the references**: one leads to another if its
    configuration mentions that of the other. -/
theorem edge_iff (hs : s.Explored fs P) (hdistinct : s.Distinct) {i j : Nat} :
    (i, j) ∈ g.edges ↔ i < g.size ∧ j < g.size ∧
      ∃ p, Mentions fs (g.node i).configPath p ∧ (g.node j).configPath.same p = true := by
  rw [← Graph.mem_dependencies]
  constructor
  · intro hj
    have hedge : (i, j) ∈ s.edges := h.edges ▸ Graph.mem_dependencies.mp hj
    have hi : i < g.size := h.size ▸ (hs.descending _ hedge).2
    obtain ⟨loaded, hread, hreferences, hchildren⟩ := h.entered hs hi
    obtain ⟨k, hk, rfl⟩ := List.mem_iff_getElem.mp hj
    have hfound := h.has_iff.mp (List.Forall₂.get hchildren hk (hchildren.length_eq ▸ hk))
    refine ⟨hi, hfound.1, _, ?_, hfound.2⟩
    exact (resolveReferences_mentions hread hreferences).2.1 _ (List.getElem_mem _)
  · rintro ⟨hi, hj, p, hmentions, hp⟩
    obtain ⟨loaded, hread, hreferences, hchildren⟩ := h.entered hs hi
    obtain ⟨q, hq, hqp⟩ := (resolveReferences_mentions hread hreferences).2.2 p hmentions
    obtain ⟨k, hk, rfl⟩ := List.mem_iff_getElem.mp hq
    have hfound := List.Forall₂.get hchildren (hchildren.length_eq ▸ hk) hk
    rw [(hdistinct.has_iff (h.has_iff.mpr ⟨hj, hp⟩) hfound).mpr hqp.symm]
    exact List.getElem_mem _

end Progress.Becomes

end Closure

/-- **A graph that is made of an explored closure** is the closure of the roots. -/
theorem Closure.Progress.Explored.isClosure {fs : MemoryFs} {roots : List Path}
    {s : Closure.Progress} (hs : s.Explored fs (Closure.Reachable fs roots))
    (hdistinct : s.Distinct) {indices : List Nat} {named : List Path}
    (hnamed : roots.map (Closure.resolveRoot fs) = named.map .ok)
    (hroots : List.Forall₂ s.Has indices named) :
    (Graph.mk (Closure.withDeclarations s.edges s.nodes) (distinct s.edges)
      (distinct indices)).IsClosure fs roots := by
  have h := s.becomes hs.nodup (distinct indices)
  generalize hg : Graph.mk (Closure.withDeclarations s.edges s.nodes) (distinct s.edges)
    (distinct indices) = g at h
  have hkept : List.Forall₂ s.Has g.roots (named.eraseDupsBy Path.same) := by
    rw [← hg]
    exact hdistinct.forall₂ hroots
  constructor
  case reachable =>
    intro i hi
    obtain ⟨node, hmem, -, d, hd⟩ := h.node_get hi
    rw [hd]
    exact hs.within node hmem
  case complete =>
    intro p hp
    obtain ⟨i, hi⟩ := hs.reaches hnamed hroots hp
    exact ⟨i, h.has_iff.mp hi⟩
  case distinct => exact h.distinct hdistinct
  case indexOf?_eq_some => exact fun p i => h.indexOf?_iff hdistinct
  case edges => exact fun i j => h.edge_iff hs hdistinct
  case references =>
    intro i hi
    obtain ⟨loaded, hread, hreferences, hchildren⟩ := h.entered hs hi
    obtain ⟨named, hnamed, htargets⟩ := Closure.resolveReferences_ok hreferences
    exact ⟨loaded, named, hread, hnamed, htargets, hchildren.imp fun _ _ hj => h.has_iff.mp hj⟩
  case descending => exact fun edge hedge => (hs.descending edge (h.edges ▸ hedge)).1
  case roots => exact ⟨named, hnamed, hkept.imp fun _ _ hi => h.has_iff.mp hi⟩

/-- The graph that comes of roots that are all loaded. -/
theorem Closure.ofEdges_visitRoots {fs : MemoryFs} {roots : List Path} {indices : List Nat}
    {s : Closure.Progress} (h : Closure.visitRoots fs roots {} = (.ok indices, s)) :
    ∃ g, Graph.ofEdges (Closure.withDeclarations s.edges s.nodes) s.edges indices = .ok g ∧
      g.IsClosure fs roots := by
  obtain ⟨hs, named, hnamed, hroots⟩ := Closure.visitRoots_explored h
  have hsound := Closure.visitRoots_sound fs roots
  rw [h] at hsound
  have hlength : (Closure.withDeclarations s.edges s.nodes).length = s.nodes.length :=
    List.length_mapIdx
  refine ⟨_, Graph.ofEdges_of_descending ?_ (fun edge hedge => (hs.descending edge hedge).1) ?_,
    hs.isClosure hsound.distinct hnamed hroots⟩
  · intro edge hedge
    rw [hlength]
    exact (hs.descending edge hedge).2
  · intro i hi
    obtain ⟨k, hk, rfl⟩ := List.mem_iff_getElem.mp hi
    rw [hlength]
    exact (List.Forall₂.get hroots hk (hroots.length_eq ▸ hk)).lt

/-- A graph that was loaded is the closure of its roots. -/
theorem Graph.isClosure_of_loaded {fs : MemoryFs} {roots : List Path} {g : Graph}
    (h : (loadGraph fs roots).value = .ok g) : g.IsClosure fs roots := by
  obtain ⟨indices, s, hvisit, hedges⟩ := loadGraph_ok h
  obtain ⟨g', hg', hclosure⟩ := Closure.ofEdges_visitRoots hvisit
  obtain rfl := Except.ok.inj (hedges.symm.trans hg')
  exact hclosure

/-- **Loading computes the reference closure**: a graph that is loaded is the
    closure of its roots, and building it of what the traversal found never is
    the step that fails. -/
theorem loadGraph_isClosure (fs : MemoryFs) (roots : List Path) :
    (∀ g, (loadGraph fs roots).value = .ok g → g.IsClosure fs roots) ∧
      ∀ indices s, Closure.visitRoots fs roots {} = (.ok indices, s) →
        ∃ g, Graph.ofEdges (Closure.withDeclarations s.edges s.nodes) s.edges indices = .ok g := by
  constructor
  · exact fun g hg => Graph.isClosure_of_loaded hg
  · intro indices s hvisit
    obtain ⟨g, hg, -⟩ := Closure.ofEdges_visitRoots hvisit
    exact ⟨g, hg⟩

/-- Two projects are the closure of the one that references the other. -/
theorem loadGraph_isClosure_pair :
    pairGraph.IsClosure pairFiles [⟨"/r/app"⟩] ∧ ∃ indices s g,
      Closure.visitRoots pairFiles [⟨"/r/app"⟩] {} = (.ok indices, s) ∧
        Graph.ofEdges (Closure.withDeclarations s.edges s.nodes) s.edges indices = .ok g := by
  refine ⟨(loadGraph_isClosure pairFiles [⟨"/r/app"⟩]).1 pairGraph pairGraph_loaded, ?_⟩
  obtain ⟨indices, s, hvisit, -⟩ := loadGraph_ok pairGraph_loaded
  obtain ⟨g, hg⟩ := (loadGraph_isClosure pairFiles [⟨"/r/app"⟩]).2 indices s hvisit
  exact ⟨indices, s, g, hvisit, hg⟩

end ProjectBuild
