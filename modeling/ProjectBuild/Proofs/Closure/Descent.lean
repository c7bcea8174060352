import ProjectBuild.Proofs.Closure.Cycle

/-! # The descent, step by step

    Loading descends along references: the projects in progress, each with the
    references it still has to visit, are the recursion's stack.  Taken one step
    at a time (`Traversal.next`), the descent knows no bound on its depth, and
    needs none: at every moment the paths on the stack are different files that
    have no index yet (`Traversal.Orderly`), so there are never more than there
    are files, and the descent ends with what `visitRoots` returns
    (`loadGraph_terminates`).

    References may lead anywhere, also back onto the stack; that a path is
    compared by its components makes all its spellings one. -/

namespace ProjectBuild

namespace Closure

/-- A project in progress. -/
structure Frame where
  loaded : LoadedConfig
  targets : List Path
  /-- The references that have still to be visited. -/
  waiting : List Path
  /-- The indices of those that have been. -/
  children : List Nat

/-- What is to be done next. -/
inductive Task
  | visit (configPath : Path)
  /-- The innermost project in progress goes on, or the next root is taken. -/
  | resume
  | ended (outcome : Except Error (List Nat))

/-- A traversal at one moment. -/
structure Traversal where
  /-- The projects in progress, innermost first. -/
  frames : List Frame
  /-- The roots that have still to be visited. -/
  waiting : List Path
  /-- The indices of those that have been. -/
  indices : List Nat
  progress : Progress
  task : Task

namespace Traversal

/-- The paths of projects in progress, outermost first. -/
def paths (frames : List Frame) : List Path := (frames.map fun frame => frame.loaded.path).reverse

def stack (t : Traversal) : List Path := paths t.frames

def note (t : Traversal) (notes : List Note) : Traversal :=
  { t with progress := t.progress.note notes }

def fail (t : Traversal) (e : Error) : Traversal := { t with task := .ended (.error e) }

/-- Hands an index to whoever asked for it: a project in progress, or the roots. -/
def give (t : Traversal) (i : Nat) : Traversal :=
  match t.frames with
  | [] => { t with indices := t.indices ++ [i], task := .resume }
  | frame :: outer =>
    { t with frames := { frame with children := frame.children ++ [i] } :: outer, task := .resume }

/-- Puts a new project on the stack. -/
def push (t : Traversal) (loaded : LoadedConfig) (targets : List Path) : Traversal :=
  { t with frames := ⟨loaded, targets, targets, []⟩ :: t.frames, task := .resume }

/-- Takes a project off the stack, and numbers it. -/
def pop (t : Traversal) (node : Project) (frame : Frame) (outer : List Frame) : Traversal :=
  { t with frames := outer, progress := t.progress.push node frame.children }.give
    t.progress.nodes.length

def start (roots : List Path) : Traversal := ⟨[], roots, [], {}, .resume⟩

section general

variable {σ : Type} [FileSystem σ]

/-- Begins with a new project. -/
def enter (fs : σ) (t : Traversal) (configPath : Path) : Traversal :=
  let content := LoadedConfig.read fs configPath
  let t := t.note content.notes
  match content.value with
  | .error e => t.fail e
  | .ok loaded =>
    let t := t.note (configNotes loaded)
    match resolveReferences fs loaded with
    | .error e => t.fail e
    | .ok targets => t.push loaded targets

def visit (fs : σ) (t : Traversal) (configPath : Path) : Traversal :=
  match t.progress.indexOf? configPath with
  | some i => t.give i
  | none =>
    if t.stack.any configPath.same then t.fail (.cycle (closeCycle t.stack configPath))
    else t.enter fs configPath

/-- Completes a project whose references have been visited. -/
def leave (fs : σ) (t : Traversal) (frame : Frame) (outer : List Frame) : Traversal :=
  let built := project fs frame.loaded frame.targets
  let t := t.note built.notes
  match built.value with
  | .error e => t.fail e
  | .ok node => t.pop node frame outer

/-- Goes on with the innermost project, or with the next root. -/
def resume (fs : σ) (t : Traversal) : Traversal :=
  match t.frames with
  | frame :: outer =>
    match frame.waiting with
    | target :: rest =>
      { t with frames := { frame with waiting := rest } :: outer, task := .visit target }
    | [] => t.leave fs frame outer
  | [] =>
    match t.waiting with
    | root :: rest =>
      match resolveRoot fs root with
      | .error e => t.fail e
      | .ok configPath => { t with waiting := rest, task := .visit configPath }
    | [] => { t with task := .ended (.ok t.indices) }

/-- One step. -/
def next (fs : σ) (t : Traversal) : Traversal :=
  match t.task with
  | .visit configPath => t.visit fs configPath
  | .resume => t.resume fs
  | .ended _ => t

/-- The moment after so many steps. -/
def after (fs : σ) (roots : List Path) : Nat → Traversal
  | 0 => start roots
  | n + 1 => (after fs roots n).next fs

end general

theorem paths_cons (frame : Frame) (outer : List Frame) :
    paths (frame :: outer) = paths outer ++ [frame.loaded.path] :=
  List.reverse_cons

theorem stack_give (t : Traversal) (i : Nat) : (t.give i).stack = t.stack := by
  unfold give stack
  split
  · rfl
  · rename_i frame outer hframes
    rw [hframes]
    rfl

theorem progress_give (t : Traversal) (i : Nat) : (t.give i).progress = t.progress := by
  unfold give
  split
  · rfl
  · rfl

/-! ## What holds at every moment -/

/-- The stack is in order: its paths are different from each other, all of them
    files, and none of them has been indexed. -/
structure Orderly (fs : MemoryFs) (t : Traversal) : Prop where
  distinct : t.stack.Pairwise fun p q => p.components ≠ q.components
  files : ∀ p ∈ t.stack, FileSystem.isFile fs p = true
  unindexed : ∀ p ∈ t.stack, t.progress.indexOf? p = none

/-- What is visited next is a file as well. -/
structure Ready (fs : MemoryFs) (t : Traversal) : Prop extends t.Orderly fs where
  waiting : ∀ frame ∈ t.frames, ∀ target ∈ frame.waiting, FileSystem.isFile fs target = true
  next : ∀ configPath, t.task = .visit configPath → FileSystem.isFile fs configPath = true

variable {fs : MemoryFs} {t : Traversal}

/-- **The stack is never deeper than there are files.** -/
theorem Orderly.length_le (h : t.Orderly fs) : t.stack.length ≤ fs.files.size :=
  length_le_fileBound fs h.distinct h.files

theorem Ready.note (h : t.Ready fs) (notes : List Note) : (t.note notes).Ready fs :=
  ⟨⟨h.distinct, h.files, h.unindexed⟩, h.waiting, h.next⟩

theorem Ready.fail (h : t.Ready fs) (e : Error) : (t.fail e).Ready fs :=
  ⟨⟨h.distinct, h.files, h.unindexed⟩, h.waiting, nofun⟩

/-- Handing on a result keeps a traversal ready. -/
theorem Ready.give (h : t.Ready fs) (i : Nat) : (t.give i).Ready fs := by
  refine ⟨⟨?_, ?_, ?_⟩, ?_, ?_⟩
  · rw [stack_give]
    exact h.distinct
  · rw [stack_give]
    exact h.files
  · rw [stack_give, progress_give]
    exact h.unindexed
  · have hwaiting := h.waiting
    unfold Traversal.give
    split
    · exact hwaiting
    · rename_i frame outer hframes
      rw [hframes] at hwaiting
      exact List.forall_mem_cons.mpr (List.forall_mem_cons.mp hwaiting)
  · unfold Traversal.give
    split
    · exact nofun
    · exact nofun

/-- A path that has no index and is not on the stack may be put there. -/
theorem Ready.push (h : t.Ready fs) {loaded : LoadedConfig} {targets : List Path}
    (hnew : t.progress.indexOf? loaded.path = none) (hfree : t.stack.any loaded.path.same = false)
    (hfile : FileSystem.isFile fs loaded.path = true)
    (htargets : ∀ target ∈ targets, FileSystem.isFile fs target = true) :
    (t.push loaded targets).Ready fs := by
  have hstack : (t.push loaded targets).stack = t.stack ++ [loaded.path] := paths_cons _ _
  refine ⟨⟨?_, ?_, ?_⟩, List.forall_mem_cons.mpr ⟨htargets, h.waiting⟩, nofun⟩
  · rw [hstack]
    refine List.pairwise_append.mpr ⟨h.distinct, List.pairwise_singleton _ _, ?_⟩
    intro p hp q hq heq
    rw [List.mem_singleton.mp hq] at heq
    exact List.any_eq_false.mp hfree p hp (Path.same_iff.mpr heq.symm)
  · rw [hstack]
    exact List.forall_mem_append.mpr ⟨h.files, List.forall_mem_singleton.mpr hfile⟩
  · rw [hstack]
    exact List.forall_mem_append.mpr ⟨h.unindexed, List.forall_mem_singleton.mpr hnew⟩

/-- The project that leaves the stack is the only one to get an index. -/
theorem Ready.pop (h : t.Ready fs) {node : Project} {frame : Frame} {outer : List Frame}
    (hframes : t.frames = frame :: outer) (hnode : node.configPath = frame.loaded.path) :
    (t.pop node frame outer).Ready fs := by
  have hstack : t.stack = paths outer ++ [frame.loaded.path] :=
    (congrArg paths hframes).trans (paths_cons frame outer)
  have hdistinct := h.distinct
  have hfiles := h.files
  have hunindexed := h.unindexed
  rw [hstack] at hdistinct hfiles hunindexed
  obtain ⟨houter, -, happart⟩ := List.pairwise_append.mp hdistinct
  have hwaiting := h.waiting
  rw [hframes] at hwaiting
  -- the index itself goes to the project outside, or to the roots
  suffices hbefore : Ready fs { t with
      frames := outer, progress := t.progress.push node frame.children, task := .resume } by
    exact hbefore.give t.progress.nodes.length
  refine ⟨⟨houter, (List.forall_mem_append.mp hfiles).1, ?_⟩,
    (List.forall_mem_cons.mp hwaiting).2, nofun⟩
  intro p hp
  have hnone : t.progress.indexOf? p = none := (List.forall_mem_append.mp hunindexed).1 p hp
  have hne : node.configPath.same p = false := by
    rw [hnode]
    exact Path.same_eq_false_iff.mpr fun h => happart p hp _ List.mem_cons_self h.symm
  show (t.progress.nodes ++ [node]).findIdx? _ = none
  rw [List.findIdx?_append, show t.progress.nodes.findIdx? _ = none from hnone]
  simp [hne]

/-- Entering a new configuration that is a file keeps a traversal ready. -/
theorem Ready.enter (h : t.Ready fs) {configPath : Path}
    (hnew : t.progress.indexOf? configPath = none) (hfree : t.stack.any configPath.same = false)
    (hfile : FileSystem.isFile fs configPath = true) : (t.enter fs configPath).Ready fs := by
  unfold Traversal.enter
  simp only
  cases hread : (LoadedConfig.read fs configPath).value with
  | error e => exact (h.note _).fail e
  | ok loaded =>
      simp only
      cases htargets : resolveReferences fs loaded with
      | error e => exact ((h.note _).note _).fail e
      | ok targets =>
          obtain rfl := read_path hread
          exact ((h.note _).note _).push hnew hfree hfile
            fun q hq => ((resolveReferences_mentions hread htargets).2.1 q hq).isFile

/-- Leaving the innermost project keeps a traversal ready. -/
theorem Ready.leave (h : t.Ready fs) {frame : Frame} {outer : List Frame}
    (hframes : t.frames = frame :: outer) : (t.leave fs frame outer).Ready fs := by
  unfold Traversal.leave
  simp only
  cases hproject : (project fs frame.loaded frame.targets).value with
  | error e => exact (h.note _).fail e
  | ok node => exact (h.note _).pop hframes (project_configPath hproject)

/-- One step with the innermost project keeps a traversal ready. -/
theorem Ready.resume (h : t.Ready fs) : (t.resume fs).Ready fs := by
  unfold Traversal.resume
  split
  · rename_i frame outer hframes
    split
    · rename_i target rest htarget
      have hfiles := h.waiting
      rw [hframes] at hfiles
      obtain ⟨hframe, houter⟩ := List.forall_mem_cons.mp hfiles
      rw [htarget] at hframe
      obtain ⟨hfirst, hrest⟩ := List.forall_mem_cons.mp hframe
      -- the stack is the same, and less is waiting
      have hstack : t.stack = paths ({ frame with waiting := rest } :: outer) := by
        unfold stack
        rw [hframes]
        rfl
      refine ⟨⟨?_, ?_, ?_⟩, List.forall_mem_cons.mpr ⟨hrest, houter⟩, fun _ hnext => ?_⟩
      · exact Eq.mp (congrArg (List.Pairwise _) hstack) h.distinct
      · exact fun p hp => h.files p (hstack ▸ hp)
      · exact fun p hp => h.unindexed p (hstack ▸ hp)
      · exact Task.visit.inj hnext ▸ hfirst
    · exact h.leave hframes
  · split
    · split
      · exact h.fail _
      · rename_i configPath hresolve
        refine ⟨⟨h.distinct, h.files, h.unindexed⟩, h.waiting, fun _ hnext => ?_⟩
        obtain rfl := Task.visit.inj hnext
        exact isFile_of_resolveConfig? (resolveRoot_eq_ok.mp hresolve)
    · exact ⟨⟨h.distinct, h.files, h.unindexed⟩, h.waiting, nofun⟩

/-- **A step keeps the stack in order.** -/
theorem Ready.step (h : t.Ready fs) : (t.next fs).Ready fs := by
  unfold Traversal.next
  split
  · rename_i configPath htask
    unfold Traversal.visit
    split
    · exact h.give _
    · rename_i hnew
      split
      · exact h.fail _
      · rename_i hfree
        exact h.enter hnew (Bool.eq_false_iff.mpr hfree) (h.next configPath htask)
  · exact h.resume
  · exact h

/-- **After any number of steps a traversal is ready.** -/
theorem ready_after (fs : MemoryFs) (roots : List Path) (n : Nat) :
    (after fs roots n).Ready fs := by
  induction n with
  | zero =>
      refine ⟨⟨List.Pairwise.nil, ?_, ?_⟩, ?_, ?_⟩
      · exact fun p hp => absurd hp List.not_mem_nil
      · exact fun p hp => absurd hp List.not_mem_nil
      · exact fun frame hframe => absurd hframe List.not_mem_nil
      · exact fun p hnext => Task.noConfusion hnext
  | succ n ih => exact ih.step

/-! ## Where it ends -/

/-- Some steps lead from one moment to another. -/
def Leads (fs : MemoryFs) : Traversal → Traversal → Prop :=
  Relation.ReflTransGen fun t t' => t.next fs = t'

/-- Some steps lead to where a result is handed on, or to an end with the error. -/
def Arrives {α : Type} (fs : MemoryFs) (t : Traversal) (handOn : α → Progress → Traversal) :
    Step α → Prop
  | (.ok a, s) => Leads fs t (handOn a s)
  | (.error e, s) => ∃ t', Leads fs t t' ∧ t'.task = .ended (.error e) ∧ t'.progress = s

variable {α : Type} {handOn : α → Progress → Traversal}

/-- What is arrived at from a later traversal is arrived at from an earlier one. -/
theorem Arrives.of_leads {t' : Traversal} (h : Leads fs t t') {step : Step α}
    (harrives : Arrives fs t' handOn step) : Arrives fs t handOn step := by
  rcases step with ⟨result, s⟩
  cases result with
  | ok a => exact h.trans harrives
  | error e =>
      obtain ⟨t'', hleads, hend⟩ := harrives
      exact ⟨t'', h.trans hleads, hend⟩

theorem Arrives.fail {t' : Traversal} {e : Error} (h : t.next fs = t'.fail e) :
    Arrives fs t handOn (.error e, t'.progress) :=
  ⟨t'.fail e, .single h, rfl, rfl⟩

variable {waiting : List Path} {indices : List Nat}

/-- The references of a project are visited one by one. -/
theorem each_arrives {descend : Path → Progress → Step Nat} {loaded : LoadedConfig}
    {outer : List Frame} (targets rest : List Path)
    (hdescend : ∀ target ∈ rest, ∀ frame s, frame.loaded = loaded →
      Arrives fs ⟨frame :: outer, waiting, indices, s, .visit target⟩
        (fun i s => give ⟨frame :: outer, waiting, indices, s, .resume⟩ i) (descend target s))
    (seen : List Nat) (s : Progress) :
    Arrives fs ⟨⟨loaded, targets, rest, seen⟩ :: outer, waiting, indices, s, .resume⟩
      (fun children s =>
        ⟨⟨loaded, targets, [], seen ++ children⟩ :: outer, waiting, indices, s, .resume⟩)
      (visitEach descend rest s) := by
  -- on the references that are still to come; `seen` has the indices of the others
  induction rest generalizing seen s with
  | nil =>
      show Leads fs _ ⟨⟨loaded, targets, [], seen ++ []⟩ :: outer, waiting, indices, s, .resume⟩
      rw [List.append_nil]
      exact .refl
  | cons target rest ih =>
      have hfirst := hdescend target List.mem_cons_self ⟨loaded, targets, rest, seen⟩ s rfl
      have hrest := fun i =>
        ih (fun q hq => hdescend q (List.mem_cons_of_mem target hq)) (seen ++ [i])
      unfold visitEach
      refine Arrives.of_leads (.single rfl) ?_
      rcases hvisit : descend target s with ⟨result, s'⟩
      rw [hvisit] at hfirst
      cases result with
      | error e => exact hfirst
      | ok i =>
          have hlater := Arrives.of_leads hfirst (hrest i s')
          simp only
          rcases hvisits : visitEach descend rest s' with ⟨results, s''⟩
          rw [hvisits] at hlater
          cases results with
          | error e => exact hlater
          | ok children =>
              show Leads fs _
                ⟨⟨loaded, targets, [], seen ++ i :: children⟩ :: outer, waiting, indices, s'',
                  .resume⟩
              rw [List.append_cons]
              exact hlater

/-- A project is left when none of its references is waiting any more. -/
theorem next_eq_leave (loaded : LoadedConfig) (targets : List Path) (children : List Nat)
    (outer : List Frame) (s : Progress) :
    next fs ⟨⟨loaded, targets, [], children⟩ :: outer, waiting, indices, s, .resume⟩
      = leave fs ⟨⟨loaded, targets, [], children⟩ :: outer, waiting, indices, s, .resume⟩
          ⟨loaded, targets, [], children⟩ outer :=
  rfl

section entering

variable {descend : Path → Progress → Step Nat} {configPath : Path} {s : Progress}
  {frames : List Frame} {task : Task}
  (hnext : next fs ⟨frames, waiting, indices, s, task⟩
    = enter fs ⟨frames, waiting, indices, s, task⟩ configPath)
  (hdescend : ∀ loaded, (LoadedConfig.read fs configPath).value = .ok loaded →
    ∀ target, Mentions fs configPath target → ∀ frame s, frame.loaded = loaded →
      Arrives fs ⟨frame :: frames, waiting, indices, s, .visit target⟩
        (fun i s => give ⟨frame :: frames, waiting, indices, s, .resume⟩ i) (descend target s))
include hnext hdescend

/-- A new project is begun, and its references are visited on top of it. -/
theorem references_arrive {loaded : LoadedConfig} {targets : List Path}
    (hread : (LoadedConfig.read fs configPath).value = .ok loaded)
    (htargets : resolveReferences fs loaded = .ok targets) :
    Arrives fs ⟨frames, waiting, indices, s, task⟩
      (fun children s =>
        ⟨⟨loaded, targets, [], children⟩ :: frames, waiting, indices, s, .resume⟩)
      (visitEach descend targets
        ((s.note (LoadedConfig.read fs configPath).notes).note (configNotes loaded))) := by
  unfold Traversal.enter at hnext
  simp only [hread, htargets] at hnext
  have hmentions := (resolveReferences_mentions hread htargets).2.1
  refine Arrives.of_leads (.single hnext) (each_arrives targets targets ?_ [] _)
  exact fun target htarget => hdescend loaded hread target (hmentions target htarget)

/-- A new project is begun, its references are visited, and it is completed. -/
theorem enter_arrives : Arrives fs ⟨frames, waiting, indices, s, task⟩
    (fun i s => give ⟨frames, waiting, indices, s, .resume⟩ i)
    (Closure.enter fs descend configPath s) := by
  have henters := enter_enters fs descend configPath s
  generalize Closure.enter fs descend configPath s = step at henters ⊢
  cases henters with
  | unread read =>
      unfold Traversal.enter at hnext
      simp only [read] at hnext
      exact Arrives.fail hnext
  | unresolved read resolve =>
      unfold Traversal.enter at hnext
      simp only [read, resolve] at hnext
      exact Arrives.fail hnext
  | stopped read resolve visits =>
      have hvisits := references_arrive hnext hdescend read resolve
      rwa [visits] at hvisits
  | @unlisted loaded targets children t e read resolve visits build =>
      have hvisits := references_arrive hnext hdescend read resolve
      rw [visits] at hvisits
      have hleave := @next_eq_leave fs waiting indices loaded targets children frames t
      unfold leave at hleave
      simp only [build] at hleave
      exact Arrives.of_leads hvisits (Arrives.fail hleave)
  | @numbered loaded targets children t node read resolve visits build =>
      have hvisits := references_arrive hnext hdescend read resolve
      rw [visits] at hvisits
      have hleave := @next_eq_leave fs waiting indices loaded targets children frames t
      unfold leave at hleave
      simp only [build] at hleave
      exact Arrives.of_leads hvisits (.single hleave)

end entering

/-- **A visit in steps**, below a stack on which there is room. -/
theorem visit_arrives {roots : List Path} {depth : Nat} {stack : List Path} {configPath : Path}
    (h : Stacked fs roots stack configPath)
    (hdepth : FileSystem.fileBound fs ≤ stack.length + depth) (s : Progress) {frames : List Frame}
    (hframes : paths frames = stack) :
    Arrives fs ⟨frames, waiting, indices, s, .visit configPath⟩
      (fun i s => give ⟨frames, waiting, indices, s, .resume⟩ i)
      (Closure.visit fs depth stack configPath s) := by
  refine visit_induct fs (P := fun depth stack configPath s step =>
    Stacked fs roots stack configPath → FileSystem.fileBound fs ≤ stack.length + depth →
      ∀ frames, paths frames = stack →
        Arrives fs ⟨frames, waiting, indices, s, .visit configPath⟩
          (fun i s => give ⟨frames, waiting, indices, s, .resume⟩ i) step)
    ?_ ?_ ?_ ?_ depth stack configPath s h hdepth frames hframes
  · intro _ _ configPath s i hindex _ _ frames _
    refine Relation.ReflTransGen.single ?_
    show visit fs _ configPath = _
    unfold Traversal.visit
    rw [hindex]
    cases frames <;> rfl
  · intro _ _ configPath s hindex hmet _ _ frames hframes
    subst hframes
    let t : Traversal := ⟨frames, waiting, indices, s, .visit configPath⟩
    have hnext : t.next fs = t.fail (.cycle (closeCycle (paths frames) configPath)) := by
      show visit fs t configPath = _
      unfold Traversal.visit
      rw [hindex]
      exact if_pos hmet
    exact Arrives.fail hnext
  · intro stack configPath _ hnew h hdepth
    exact absurd hdepth (Nat.not_le_of_lt (h.length_lt hnew))
  · intro depth stack configPath s hindex hnew hdescend h hdepth frames hframes
    subst hframes
    have hnext : next fs ⟨frames, waiting, indices, s, .visit configPath⟩
        = enter fs ⟨frames, waiting, indices, s, .visit configPath⟩ configPath := by
      show visit fs _ configPath = _
      unfold Traversal.visit
      rw [hindex]
      exact if_neg (Bool.eq_false_iff.mp hnew)
    refine enter_arrives hnext fun loaded hread q hq frame t hframe => ?_
    refine hdescend q t (h.descend hnew hq) ?_ (frame :: frames) ?_
    · rw [List.length_append, List.length_singleton]
      omega
    · rw [paths_cons, hframe, read_path hread]

/-- The roots are visited one by one. -/
theorem roots_arrive {roots : List Path} (rest : List Path) (hrest : ∀ root ∈ rest, root ∈ roots)
    (seen : List Nat) (s : Progress) :
    Arrives fs ⟨[], rest, seen, s, .resume⟩
      (fun indices s => ⟨[], [], seen ++ indices, s, .ended (.ok (seen ++ indices))⟩)
      (visitRoots fs rest s) := by
  induction rest generalizing seen s with
  | nil =>
      show Leads fs _ ⟨[], [], seen ++ [], s, .ended (.ok (seen ++ []))⟩
      rw [List.append_nil]
      exact .single rfl
  | cons root rest ih =>
      have hlater := fun i => ih (fun q hq => hrest q (List.mem_cons_of_mem root hq)) (seen ++ [i])
      have hnext : next fs ⟨[], root :: rest, seen, s, .resume⟩
          = resume fs ⟨[], root :: rest, seen, s, .resume⟩ := rfl
      unfold Traversal.resume at hnext
      unfold visitRoots visitEach
      simp only at hnext ⊢
      cases hresolve : resolveRoot fs root with
      | error e =>
          simp only [hresolve] at hnext ⊢
          exact Arrives.fail hnext
      | ok configPath =>
          simp only [hresolve] at hnext ⊢
          have hstacked : Stacked fs roots [] configPath :=
            .root (hrest root List.mem_cons_self) hresolve
          have hfirst : Arrives fs ⟨[], rest, seen, s, .visit configPath⟩
              (fun i s => give ⟨[], rest, seen, s, .resume⟩ i)
              (Closure.visit fs (FileSystem.fileBound fs) [] configPath s) :=
            visit_arrives hstacked (Nat.le_of_eq (Nat.zero_add _).symm) s rfl
          refine Arrives.of_leads (.single hnext) ?_
          rcases hvisit : Closure.visit fs (FileSystem.fileBound fs) [] configPath s with
            ⟨result, s'⟩
          rw [hvisit] at hfirst
          cases result with
          | error e => exact hfirst
          | ok i =>
              have hothers := Arrives.of_leads hfirst (hlater i s')
              unfold visitRoots at hothers
              simp only
              generalize visitEach _ rest s' = visits at hothers ⊢
              rcases visits with ⟨results, s''⟩
              cases results with
              | error e => exact hothers
              | ok indices =>
                  show Leads fs _
                    ⟨[], [], seen ++ i :: indices, s'', .ended (.ok (seen ++ i :: indices))⟩
                  rw [List.append_cons]
                  exact hothers

/-- What a traversal leads to is there after some number of steps. -/
theorem exists_after {t' : Traversal} {roots : List Path} (h : Leads fs (start roots) t') :
    ∃ n, after fs roots n = t' := by
  induction h with
  | refl => exact ⟨0, rfl⟩
  | tail _ hnext ih =>
      obtain ⟨n, hn⟩ := ih
      refine ⟨n + 1, ?_⟩
      show next fs (after fs roots n) = _
      rw [hn]
      exact hnext

end Traversal

end Closure

/-- **Loading terminates**: at every moment of its descent the stack holds
    different files that have no index yet, and thus no more than there are
    files; and the descent, which no depth bounds, comes to an end, with what
    loading goes on from. -/
theorem loadGraph_terminates (fs : MemoryFs) (roots : List Path) :
    (∀ n, (Closure.Traversal.after fs roots n).Orderly fs ∧
      (Closure.Traversal.after fs roots n).stack.length ≤ fs.files.size) ∧
    ∃ n result, (Closure.Traversal.after fs roots n).task = .ended result ∧
      Closure.visitRoots fs roots {} = (result, (Closure.Traversal.after fs roots n).progress) ∧
      (∀ e, result = .error e → (loadGraph fs roots).value = .error e) := by
  refine ⟨fun n => ?_, ?_⟩
  · have horderly := (Closure.Traversal.ready_after fs roots n).toOrderly
    exact ⟨horderly, horderly.length_le⟩
  have harrives : Closure.Traversal.Arrives fs ⟨[], roots, [], {}, .resume⟩ _ _ :=
    Closure.Traversal.roots_arrive roots (fun _ h => h) [] {}
  rcases hvisit : Closure.visitRoots fs roots {} with ⟨result, s⟩
  rw [hvisit] at harrives
  cases result with
  | error e =>
      obtain ⟨t, hleads, hended, rfl⟩ := harrives
      obtain ⟨n, rfl⟩ := Closure.Traversal.exists_after hleads
      refine ⟨n, .error e, hended, rfl, ?_⟩
      rintro _ ⟨⟩
      unfold loadGraph
      rw [hvisit]
  | ok indices =>
      obtain ⟨n, hn⟩ := Closure.Traversal.exists_after harrives
      rw [← List.nil_append indices]
      exact ⟨n, .ok ([] ++ indices), hn ▸ rfl, hn ▸ rfl, nofun⟩

/-- Two projects that reference each other are both on the stack before the first
    one is met again. -/
example : (Closure.Traversal.after ringFiles [⟨"/r/a"⟩] 4).stack
    = [⟨"/r/a/tsconfig.json"⟩, ⟨"/r/b/tsconfig.json"⟩] := by
  decide +kernel

end ProjectBuild
