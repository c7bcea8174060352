import ProjectBuild.Proofs.Closure.Reach

/-! # What loading reads

    Loading opens configurations and nothing else, and opens each of them once
    (`Closure.ReadsOnce`), however it ends.  Of the traversal it is enough to
    know that what has been read is what is finished or on the stack
    (`Closure.Progress.Accounts`): neither is entered again.  A failure breaks
    that account, but nothing is read after it. -/

namespace ProjectBuild

namespace Closure

/-! ## Logs of reads -/

/-- A path to read: the configuration that a root names, or one that a
    configuration read before mentions. -/
def Sourced (fs : MemoryFs) (roots before : List Path) (p : Path) : Prop :=
  (∃ root ∈ roots, resolveRoot fs root = .ok p) ∨ ∃ q ∈ before, Mentions fs q p

/-- Each path that is read is one to read by then, and none is read twice. -/
structure ReadsOnce (fs : MemoryFs) (roots reads : List Path) : Prop where
  sourced : ∀ k (hk : k < reads.length), Sourced fs roots (reads.take k) reads[k]
  distinct : reads.Pairwise fun p q => p.same q = false

variable {fs : MemoryFs} {roots stack : List Path}

/-- What has a source among the reads so far keeps it. -/
theorem Sourced.mono {before after : List Path} {p : Path} (h : before <+: after)
    (hp : Sourced fs roots before p) : Sourced fs roots after p :=
  hp.imp id fun ⟨q, hq, hmentions⟩ => ⟨q, h.subset hq, hmentions⟩

theorem ReadsOnce.nil : ReadsOnce fs roots [] :=
  ⟨fun _ hk => absurd hk (Nat.not_lt_zero _), .nil⟩

/-- One more read is allowed if it has a source and is new. -/
theorem ReadsOnce.concat {reads : List Path} (h : ReadsOnce fs roots reads) {p : Path}
    (hp : Sourced fs roots reads p) (hnew : ∀ q ∈ reads, q.same p = false) :
    ReadsOnce fs roots (reads ++ [p]) := by
  refine ⟨fun k hk => ?_, ?_⟩
  · rw [List.length_append, List.length_singleton] at hk
    rcases Nat.lt_succ_iff_lt_or_eq.mp hk with hk | rfl
    · rw [List.take_append_of_le_length (Nat.le_of_lt hk), List.getElem_append_left hk]
      exact h.sourced k hk
    · rw [List.take_left, List.getElem_concat_length rfl]
      exact hp
  · refine List.pairwise_append.mpr ⟨h.distinct, List.pairwise_singleton _ _, ?_⟩
    intro q hq r hr
    exact (List.mem_singleton.mp hr) ▸ hnew q hq

/-! ## Notes that are no reads -/

theorem reads_append (notes more : List Note) :
    Note.reads (notes ++ more) = Note.reads notes ++ Note.reads more :=
  List.filterMap_append

theorem reads_read (p : Path) : Note.reads (LoadedConfig.read fs p).notes = [p] := by
  unfold LoadedConfig.read
  simp only
  split <;> rfl

/-- Remarks on a configuration are no reads. -/
theorem reads_configNotes (loaded : LoadedConfig) : Note.reads (configNotes loaded) = [] := by
  unfold configNotes
  split <;> rfl

/-- Files are listed without a look into them. -/
theorem notes_selectedFiles (configDir : Path) (config : ProjectConfig) (outDir : Option Path) :
    (selectedFiles fs configDir config outDir).notes = [] := by
  unfold selectedFiles
  simp only
  split
  · rfl
  · split
    · rfl
    · split
      · rfl
      · split <;> rfl

/-- Arranging a project of these files leaves no notes. -/
theorem notes_project (loaded : LoadedConfig) (references : List Path) :
    (project fs loaded references).notes = [] := by
  unfold project inputs
  simp only
  split
  · rfl
  · exact notes_selectedFiles _ _ _

/-- Checking restrictions on these files leaves no notes. -/
theorem notes_violation? (p : Project) (dirs : List Path) : (violation? fs p dirs).notes = [] := by
  unfold violation?
  split
  · rfl
  · split
    · rfl
    · split
      · simp only [unlisted]
        split
        · rfl
        · split <;> rfl
      · rfl

/-- Looking for the first violation leaves no notes. -/
theorem notes_firstViolation? (edges : List (Nat × Nat)) (dirs : List Path) (i : Nat)
    (nodes : List Project) : (firstViolation? fs edges dirs i nodes).notes = [] := by
  induction nodes generalizing i with
  | nil => rfl
  | cons p rest ih =>
      unfold firstViolation?
      split
      · simp only
        split
        · exact notes_violation? p dirs
        · rw [notes_violation?, ih]
          rfl
      · exact ih (i + 1)

/-! ## Visits -/

namespace Progress

/-- The paths that have been read so far. -/
def reads (s : Progress) : List Path :=
  Note.reads s.notes

/-- What has been read is what is finished, and what is in progress. -/
def Accounts (stack : List Path) (s : Progress) : Prop :=
  s.reads.Perm (s.nodes.map Project.configPath ++ stack)

theorem reads_note (s : Progress) (notes : List Note) :
    (s.note notes).reads = s.reads ++ Note.reads notes :=
  reads_append s.notes notes

theorem note_nil (s : Progress) : s.note [] = s := by
  unfold note
  rw [List.append_nil]

/-- A path that is neither finished nor in progress has not been read. -/
theorem Accounts.unread {s : Progress} (h : s.Accounts stack) {p : Path}
    (hindex : s.indexOf? p = none) (hstack : stack.any p.same = false) :
    ∀ q ∈ s.reads, q.same p = false := by
  intro q hq
  rcases List.mem_append.mp (h.subset hq) with hq | hq
  · obtain ⟨node, hnode, rfl⟩ := List.mem_map.mp hq
    unfold indexOf? at hindex
    exact List.findIdx?_eq_none_iff.mp hindex node hnode
  · refine Path.same_eq_false_iff.mpr fun heq => ?_
    exact List.any_eq_false.mp hstack q hq (Path.same_iff.mpr heq.symm)

/-- What is read goes on the stack. -/
theorem Accounts.read {s t : Progress} (h : s.Accounts stack) {p : Path}
    (hreads : t.reads = s.reads ++ [p]) (hnodes : t.nodes = s.nodes) :
    t.Accounts (stack ++ [p]) := by
  unfold Accounts
  rw [hreads, hnodes, ← List.append_assoc]
  exact h.append_right [p]

/-- What is finished leaves the stack. -/
theorem Accounts.push {s : Progress} {node : Project}
    (h : s.Accounts (stack ++ [node.configPath])) (children : List Nat) :
    (s.push node children).Accounts stack := by
  show s.reads.Perm ((s.nodes ++ [node]).map Project.configPath ++ stack)
  rw [List.map_append, List.map_singleton, List.append_assoc]
  exact h.trans (List.perm_append_comm.append_left _)

end Progress

/-- How a step ends that begins with the progress `s`: with a log that goes on
    from there, and with an account of it unless it fails. -/
structure Exits {α : Type} (fs : MemoryFs) (roots stack : List Path) (s : Progress)
    (step : Step α) : Prop where
  once : ReadsOnce fs roots step.2.reads
  continues : s.reads <+: step.2.reads
  accounts : ∀ a, step.1 = .ok a → step.2.Accounts stack

/-- A step that fails owes no account of its log. -/
theorem Exits.error {α : Type} {s s' : Progress} {e : Error} (h : ReadsOnce fs roots s'.reads)
    (hgrown : s.reads <+: s'.reads) : Exits (α := α) fs roots stack s (.error e, s') :=
  ⟨h, hgrown, fun _ h => nomatch h⟩

/-- Visits in order end as single visits do, of paths that may be visited at any
    later time too. -/
theorem visitEach_exits {visit : Path → Progress → Step Nat} {M : List Path → Path → Prop}
    (hmono : ∀ {before after p}, before <+: after → M before p → M after p)
    (hvisit : ∀ path s, ReadsOnce fs roots s.reads → s.Accounts stack → M s.reads path →
      Exits fs roots stack s (visit path s))
    (paths : List Path) {s : Progress} (hs : ReadsOnce fs roots s.reads)
    (haccounts : s.Accounts stack) (hpaths : ∀ path ∈ paths, M s.reads path) :
    Exits fs roots stack s (visitEach visit paths s) := by
  have hvisits := visitEach_visits visit paths s
  generalize visitEach visit paths s = step at hvisits ⊢
  have hfirst : ∀ {path rest s result t}, visit path s = (result, t) →
      ReadsOnce fs roots s.reads → s.Accounts stack → (∀ p ∈ path :: rest, M s.reads p) →
        Exits fs roots stack s (result, t) ∧ ∀ p ∈ rest, M t.reads p := by
    intro path rest s result t hstep hs haccounts hpaths
    have hexits := hvisit path s hs haccounts (hpaths path List.mem_cons_self)
    rw [hstep] at hexits
    exact ⟨hexits, fun p hp => hmono hexits.continues (hpaths p (List.mem_cons_of_mem path hp))⟩
  induction hvisits with
  | nil s => exact ⟨hs, List.prefix_refl _, fun _ _ => haccounts⟩
  | failed first =>
      obtain ⟨hexits, -⟩ := hfirst first hs haccounts hpaths
      exact .error hexits.once hexits.continues
  | stopped first _ ih =>
      obtain ⟨hexits, hlater⟩ := hfirst first hs haccounts hpaths
      have hrest := ih hexits.once (hexits.accounts _ rfl) hlater
      exact .error hrest.once (hexits.continues.trans hrest.continues)
  | cons first _ ih =>
      obtain ⟨hexits, hlater⟩ := hfirst first hs haccounts hpaths
      have hrest := ih hexits.once (hexits.accounts _ rfl) hlater
      exact ⟨hrest.once, hexits.continues.trans hrest.continues,
        fun _ _ => hrest.accounts _ rfl⟩

/-- Entering a project reads its configuration and nothing else. -/
theorem reads_begun (s : Progress) (configPath : Path) (loaded : LoadedConfig) :
    ((s.note (LoadedConfig.read fs configPath).notes).note (configNotes loaded)).reads
      = s.reads ++ [configPath] := by
  rw [Progress.reads_note, reads_configNotes, List.append_nil, Progress.reads_note, reads_read]

section entering

variable {descend : Path → Progress → Step Nat} {configPath : Path} {s : Progress}
  (hs : ReadsOnce fs roots s.reads) (haccounts : s.Accounts stack)
  (hsource : Sourced fs roots s.reads configPath)
  (hnew : ∀ q ∈ s.reads, q.same configPath = false)
  (hdescend : ∀ path s, ReadsOnce fs roots s.reads → s.Accounts (stack ++ [configPath]) →
    Sourced fs roots s.reads path → Exits fs roots (stack ++ [configPath]) s (descend path s))
include hs haccounts hsource hnew hdescend

/-- What a configuration mentions is visited after it was read. -/
theorem references_exit {loaded : LoadedConfig} {targets : List Path}
    (hread : (LoadedConfig.read fs configPath).value = .ok loaded)
    (htargets : resolveReferences fs loaded = .ok targets) :
    Exits fs roots (stack ++ [configPath]) s (visitEach descend targets
      ((s.note (LoadedConfig.read fs configPath).notes).note (configNotes loaded))) := by
  generalize ht : (s.note (LoadedConfig.read fs configPath).notes).note (configNotes loaded) = t
  have hreads : t.reads = s.reads ++ [configPath] := ht ▸ reads_begun s configPath loaded
  have hmem : configPath ∈ t.reads :=
    hreads ▸ List.mem_append_right _ (List.mem_singleton.mpr rfl)
  have hmentions := (resolveReferences_mentions hread htargets).2.1
  have heach := visitEach_exits (M := Sourced fs roots) Sourced.mono hdescend targets
    (hreads ▸ hs.concat hsource hnew) (haccounts.read hreads (by rw [← ht]; rfl))
    fun path hpath => Or.inr ⟨configPath, hmem, hmentions path hpath⟩
  have hgrown : s.reads <+: t.reads := hreads ▸ List.prefix_append _ _
  exact ⟨heach.once, hgrown.trans heach.continues, heach.accounts⟩

/-- A project that is entered is read first, and what it mentions after it. -/
theorem enter_exits : Exits fs roots stack s (enter fs descend configPath s) := by
  have hexit {loaded targets result t} (hread) (htargets)
      (hvisits : visitEach descend targets ((s.note (LoadedConfig.read fs configPath).notes).note
        (configNotes loaded)) = (result, t)) :=
    hvisits ▸ references_exit hs haccounts hsource hnew hdescend hread htargets
  have henters := enter_enters fs descend configPath s
  generalize enter fs descend configPath s = step at henters ⊢
  -- the project itself is read here, for the first time
  have honce := hs.concat hsource hnew
  have hgrown : s.reads <+: s.reads ++ [configPath] := List.prefix_append _ _
  cases henters with
  | unread =>
      have hreads : (s.note (LoadedConfig.read fs configPath).notes).reads
          = s.reads ++ [configPath] := by
        rw [Progress.reads_note, reads_read]
      exact .error (hreads ▸ honce) (hreads ▸ hgrown)
  | @unresolved loaded =>
      have hreads := @reads_begun fs s configPath loaded
      exact .error (hreads ▸ honce) (hreads ▸ hgrown)
  | stopped read resolve visits =>
      have heach := hexit read resolve visits
      exact .error heach.once heach.continues
  | unlisted read resolve visits _ =>
      have heach := hexit read resolve visits
      rw [notes_project, Progress.note_nil]
      exact .error heach.once heach.continues
  | @numbered _ _ children _ node read resolve visits build =>
      have heach := hexit read resolve visits
      have hpath : node.configPath = configPath :=
        (project_configPath build).trans (read_path read)
      rw [notes_project, Progress.note_nil]
      refine ⟨heach.once, heach.continues, fun _ _ => Progress.Accounts.push ?_ children⟩
      exact hpath.symm ▸ heach.accounts children rfl

end entering

/-- **A visit reads each configuration once**, and only what is to be read. -/
theorem visit_exits (depth : Nat) (stack : List Path) (configPath : Path) (s : Progress)
    (hs : ReadsOnce fs roots s.reads) (haccounts : s.Accounts stack)
    (hsource : Sourced fs roots s.reads configPath) :
    Exits fs roots stack s (visit fs depth stack configPath s) := by
  refine visit_induct fs (P := fun _ stack p s step => ReadsOnce fs roots s.reads →
    s.Accounts stack → Sourced fs roots s.reads p → Exits fs roots stack s step) ?_ ?_ ?_ ?_ depth
    stack configPath s hs haccounts hsource
  · exact fun _ _ _ _ _ _ hs haccounts _ => ⟨hs, List.prefix_refl _, fun _ _ => haccounts⟩
  · exact fun _ _ _ _ _ _ hs _ _ => .error hs (List.prefix_refl _)
  · exact fun _ _ _ _ hs _ _ => .error hs (List.prefix_refl _)
  · exact fun _ stack p s hindex hnew hdescend hs haccounts hsource =>
      enter_exits hs haccounts hsource (haccounts.unread hindex hnew) hdescend

/-- **The traversal reads each path once**, however it ends. -/
theorem visitRoots_exits (fs : MemoryFs) (roots : List Path) :
    Exits fs roots [] {} (visitRoots fs roots {}) := by
  refine visitEach_exits (M := fun _ root => root ∈ roots) (fun _ h => h) ?_ roots .nil
    (List.Perm.refl _) fun _ hroot => hroot
  intro root s hs haccounts hroot
  cases hresolve : resolveRoot fs root with
  | error e => exact .error hs (List.prefix_refl _)
  | ok p => exact visit_exits _ [] p s hs haccounts (Or.inl ⟨root, hroot, hresolve⟩)

/-- Turning declarations on leaves the configurations as they are. -/
theorem map_configPath_withDeclarations (edges : List (Nat × Nat)) (nodes : List Project) :
    (withDeclarations edges nodes).map Project.configPath = nodes.map Project.configPath := by
  unfold withDeclarations
  refine List.ext_getElem ?_ fun i hi hi' => ?_
  · rw [List.length_map, List.length_map, List.length_mapIdx]
  · rw [List.getElem_map, List.getElem_map, List.getElem_mapIdx]
    split <;> rfl

end Closure

/-! ## Graphs -/

/-- The log of loading is the log of the traversal. -/
theorem reads_loadGraph (fs : MemoryFs) (roots : List Path) :
    Note.reads (loadGraph fs roots).notes = (Closure.visitRoots fs roots {}).2.reads := by
  unfold loadGraph
  rcases Closure.visitRoots fs roots {} with ⟨result, s⟩
  cases result with
  | error e => rfl
  | ok indices =>
      simp only [Closure.notes_firstViolation?, List.append_nil]
      split <;> rfl

/-- **Loading reads configurations only, each at most once**: whether it succeeds
    or fails, each path that it reads is what a root names or what a
    configuration that was read before mentions, and no path is read twice.  If
    it succeeds, the paths are the configurations of the graph's projects. -/
theorem loadGraph_reads (fs : MemoryFs) (roots : List Path) :
    Closure.ReadsOnce fs roots (Note.reads (loadGraph fs roots).notes) ∧
      ∀ g, (loadGraph fs roots).value = .ok g →
        (Note.reads (loadGraph fs roots).notes).Perm (g.nodes.map Project.configPath) := by
  rw [reads_loadGraph]
  have hexits := Closure.visitRoots_exits fs roots
  refine ⟨hexits.once, fun g hg => ?_⟩
  obtain ⟨indices, s, hvisit, hnodes⟩ := loadGraph_nodes hg
  rw [hvisit] at hexits ⊢
  rw [hnodes, Closure.map_configPath_withDeclarations]
  exact (hexits.accounts indices rfl).trans (List.Perm.of_eq (List.append_nil _))

/-- What is read to load two projects is the configurations of both. -/
theorem loadGraph_reads_pair :
    (Note.reads (loadGraph pairFiles [⟨"/r/app"⟩]).notes).Perm
      [⟨"/r/core/tsconfig.json"⟩, ⟨"/r/app/tsconfig.json"⟩] := by
  have hnodes : pairGraph.nodes.map Project.configPath
      = [⟨"/r/core/tsconfig.json"⟩, ⟨"/r/app/tsconfig.json"⟩] := by decide +kernel
  rw [← hnodes]
  exact (loadGraph_reads pairFiles [⟨"/r/app"⟩]).2 pairGraph pairGraph_loaded

end ProjectBuild
