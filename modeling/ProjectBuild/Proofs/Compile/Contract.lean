import ProjectBuild.Compile.Scripted
import ProjectBuild.Proofs.FileSystem.Memory

/-! # What is expected of a compiler

    A job on files in memory makes edits, in every situation it may meet.
    `Job.Only` says which edits it may make, `Job.Delivers` that it has written
    certain files when it succeeds.  Both look at one step at a time, so they
    hold whatever other jobs do in between; how far the files are still to be
    written is kept in a list of what is `due`. -/

namespace ProjectBuild

open MemoryFs (Edit)

namespace Job

/-- A job that makes no other edits than these. -/
def Only (ok : Edit → Prop) : Job MemoryFs → Prop
  | .done _ => True
  | .step effect next => ∀ s,
    (∃ es, (effect s).files = s.files.edits es ∧ ∀ e ∈ es, ok e) ∧ (next s).Only ok

/-- What is still to be written after an edit: a file that was written is not,
    and one that was removed is once more. -/
def dueAfter (outputs due : List Path) : Edit → List Path
  | .write p _ => due.filter fun q => !p.same q
  | .touch p => due.filter fun q => !p.same q
  | .remove p => due ++ outputs.filter p.same

/-- A job that has written all of these files when it succeeds, given that no
    others than `due` are still to be written. -/
def Delivers (outputs due : List Path) : Job MemoryFs → Prop
  | .done (.ok _) => due = []
  | .done (.error _) => True
  | .step effect next => ∀ s, ∃ es, (effect s).files = s.files.edits es ∧
    (next s).Delivers outputs (es.foldl (dueAfter outputs) due)

/-- A job that succeeds whatever it meets, unless somebody cancels the run. -/
def Succeeds {σ : Type} : Job σ → Prop
  | .done result => ∃ messages, result = .ok messages
  | .step effect next =>
    ∀ s, s.cancelled = false → (effect s).cancelled = false ∧ (next s).Succeeds

/-- What a job is held to can be relaxed. -/
theorem Only.imp {ok ok' : Edit → Prop} (himp : ∀ e, ok e → ok' e) {job : Job MemoryFs}
    (h : job.Only ok) : job.Only ok' := by
  induction job with
  | done result => exact True.intro
  | step effect next ih =>
      intro s
      obtain ⟨⟨es, hes, hok⟩, hnext⟩ := h s
      exact ⟨⟨es, hes, fun e he => himp e (hok e he)⟩, ih s hnext⟩

end Job

/-! ## What has been written -/

namespace MemoryFs

/-- All outputs but those that are due were written after the moment, if they
    exist. -/
def Delivered (fs : MemoryFs) (moment : Nat) (outputs due : List Path) : Prop :=
  ∀ q ∈ outputs, q ∉ due → fs.NewSince moment q

/-- They exist, too. -/
def Present (fs : MemoryFs) (outputs due : List Path) : Prop :=
  ∀ q ∈ outputs, q ∉ due → (fs.file? q).isSome = true

/-- Whether outputs have been delivered depends on the outputs alone. -/
theorem Delivered.congr {fs fs' : MemoryFs} {moment : Nat} {outputs due : List Path}
    (h : fs.Delivered moment outputs due) (hfiles : ∀ q ∈ outputs, fs'.file? q = fs.file? q) :
    fs'.Delivered moment outputs due := by
  intro q hq hdue f hf
  rw [hfiles q hq] at hf
  exact h q hq hdue f hf

/-- Whether outputs are present depends on the outputs alone. -/
theorem Present.congr {fs fs' : MemoryFs} {outputs due : List Path} (h : fs.Present outputs due)
    (hfiles : ∀ q ∈ outputs, fs'.file? q = fs.file? q) : fs'.Present outputs due := by
  intro q hq hdue
  rw [hfiles q hq]
  exact h q hq hdue

/-- Outputs are there under any spelling. -/
theorem Present.of_same {fs : MemoryFs} {outputs outputs' : List Path} (h : fs.Present outputs [])
    (hsame : ∀ q ∈ outputs', ∃ q' ∈ outputs, q'.same q = true) : fs.Present outputs' [] := by
  intro q hq _
  obtain ⟨q', hq', hsame⟩ := hsame q hq
  rw [← fs.file?_congr (Path.same_iff.mp hsame)]
  exact h q' hq' List.not_mem_nil

/-- What has been delivered stays so, whatever happens to the files. -/
theorem Later.delivered {fs fs' : MemoryFs} (h : fs.Later fs') {moment : Nat}
    {outputs due : List Path} (hle : moment ≤ fs.clock) (hd : fs.Delivered moment outputs due) :
    fs'.Delivered moment outputs due :=
  fun q hq hdue => h.newSince hle (hd q hq hdue)

/-- An edit that removes nothing leaves its file there, and new. -/
theorem edit_write {fs : MemoryFs} {moment : Nat} (hle : moment ≤ fs.clock) {e : Edit}
    (he : ∀ p, e ≠ .remove p) {q : Path} (hq : e.path.components = q.components) :
    (fs.edit e).NewSince moment q ∧ ((fs.edit e).file? q).isSome = true := by
  cases e with
  | write p content => exact newSince_put fs hle hq content
  | touch p =>
      obtain ⟨content, hput⟩ := fs.touch_eq p
      show (fs.touch p).NewSince moment q ∧ ((fs.touch p).file? q).isSome = true
      rw [hput]
      exact newSince_put fs hle hq content
  | remove p => exact absurd rfl (he p)

/-- What is not due after an edit has been written by it, or was not due before
    and has not been touched. -/
theorem not_due_cases {outputs due : List Path} {e : Edit} {q : Path} (hq : q ∈ outputs)
    (hdue : q ∉ Job.dueAfter outputs due e) :
    (e.path.components = q.components ∧ ∀ p, e ≠ .remove p) ∨
      (e.path.components ≠ q.components ∧ q ∉ due) := by
  by_cases hpath : e.path.components = q.components
  · refine Or.inl ⟨hpath, ?_⟩
    rintro p rfl
    refine hdue (List.mem_append.mpr (Or.inr (List.mem_filter.mpr ⟨hq, ?_⟩)))
    exact Path.same_iff.mpr hpath
  · refine Or.inr ⟨hpath, fun hmem => hdue ?_⟩
    have hsame : e.path.same q = false := Path.same_eq_false_iff.mpr hpath
    cases e with
    | write p content =>
        refine List.mem_filter.mpr ⟨hmem, ?_⟩
        rw [show p.same q = false from hsame]
        rfl
    | touch p =>
        refine List.mem_filter.mpr ⟨hmem, ?_⟩
        rw [show p.same q = false from hsame]
        rfl
    | remove p => exact List.mem_append_left _ hmem

/-- An edit delivers what it touches, and keeps what was delivered. -/
theorem edit_delivered {fs : MemoryFs} {moment : Nat} (hle : moment ≤ fs.clock)
    {outputs due : List Path} (h : fs.Delivered moment outputs due) (e : Edit) :
    (fs.edit e).Delivered moment outputs (Job.dueAfter outputs due e) := by
  intro q hq hdue
  rcases not_due_cases hq hdue with ⟨hpath, hwrite⟩ | ⟨hpath, hdue'⟩
  · exact (edit_write hle hwrite hpath).1
  · intro f hf
    rw [fs.file?_edit_ne hpath] at hf
    exact h q hq hdue' f hf

/-- An edit that removes an output makes it due again; all others stay present. -/
theorem edit_present {fs : MemoryFs} {outputs due : List Path} (h : fs.Present outputs due)
    (e : Edit) : (fs.edit e).Present outputs (Job.dueAfter outputs due e) := by
  intro q hq hdue
  rcases not_due_cases hq hdue with ⟨hpath, hwrite⟩ | ⟨hpath, hdue'⟩
  · exact (edit_write (Nat.le_refl _) hwrite hpath).2
  · rw [fs.file?_edit_ne hpath]
    exact h q hq hdue'

/-- **A step of a job brings its files nearer to being written.** -/
theorem edits_delivered {fs : MemoryFs} {moment : Nat} (hle : moment ≤ fs.clock)
    {outputs due : List Path} (h : fs.Delivered moment outputs due) (es : List Edit) :
    (fs.edits es).Delivered moment outputs (es.foldl (Job.dueAfter outputs) due) := by
  induction es generalizing fs due with
  | nil => exact h
  | cons e rest ih =>
      exact ih (Nat.le_trans hle (fs.edit_later e).clock) (edit_delivered hle h e)

/-- Edits keep all outputs present but those that they make due again. -/
theorem edits_present {fs : MemoryFs} {outputs due : List Path} (h : fs.Present outputs due)
    (es : List Edit) :
    (fs.edits es).Present outputs (es.foldl (Job.dueAfter outputs) due) := by
  induction es generalizing fs due with
  | nil => exact h
  | cons e rest ih => exact ih (edit_present h e)

/-- A file that is written among edits none of which removes anything. -/
theorem edits_written {fs : MemoryFs} {moment : Nat} (hle : moment ≤ fs.clock) {es : List Edit}
    (hkeep : ∀ e ∈ es, ∀ p, e ≠ .remove p) {q : Path}
    (hq : ∃ e ∈ es, e.path.components = q.components) :
    (fs.edits es).NewSince moment q ∧ ((fs.edits es).file? q).isSome = true := by
  induction es generalizing fs with
  | nil =>
      obtain ⟨e, he, -⟩ := hq
      exact nomatch he
  | cons e rest ih =>
      have hrest : ∀ e' ∈ rest, ∀ p, e' ≠ .remove p :=
        fun e' he' => hkeep e' (List.mem_cons_of_mem e he')
      by_cases hlater : ∃ e' ∈ rest, e'.path.components = q.components
      · exact ih (Nat.le_trans hle (fs.edit_later e).clock) hrest hlater
      · -- the last edit of the file is this one
        have hframe : (fs.edits (e :: rest)).file? q = (fs.edit e).file? q :=
          file?_edits_ne (fs.edit e) fun e' he' hpath => hlater ⟨e', he', hpath⟩
        obtain ⟨e', he', hpath⟩ := hq
        obtain rfl : e' = e :=
          (List.mem_cons.mp he').resolve_right fun hmem => hlater ⟨e', hmem, hpath⟩
        obtain ⟨hnew, hsome⟩ := edit_write hle (hkeep e' List.mem_cons_self) hpath
        unfold NewSince
        rw [hframe]
        exact ⟨hnew, hsome⟩

/-- Such edits keep what exists. -/
theorem edits_isSome {fs : MemoryFs} {es : List Edit} (hkeep : ∀ e ∈ es, ∀ p, e ≠ .remove p)
    {q : Path} (hq : (fs.file? q).isSome = true) : ((fs.edits es).file? q).isSome = true := by
  by_cases hedited : ∃ e ∈ es, e.path.components = q.components
  · exact (edits_written (Nat.le_refl _) hkeep hedited).2
  · rw [file?_edits_ne fs fun e he hpath => hedited ⟨e, he, hpath⟩]
    exact hq

end MemoryFs

/-! ## Scripted compilers -/

namespace Job

/-- A job that writes files is held to writing them. -/
theorem writeEach_only {ok : Edit → Prop} (text : String) {paths : List Path}
    (hpaths : ∀ p ∈ paths, ok (.write p text.toUTF8)) {next : Job MemoryFs} (h : next.Only ok) :
    (writeEach text paths next).Only ok := by
  induction paths with
  | nil => exact h
  | cons p rest ih =>
      intro s
      refine ⟨⟨[.write p text.toUTF8], rfl, ?_⟩,
        ih fun q hq => hpaths q (List.mem_cons_of_mem p hq)⟩
      intro e he
      rw [List.mem_singleton.mp he]
      exact hpaths p List.mem_cons_self

/-- Writing files gets in the way of no success. -/
theorem writeEach_succeeds (text : String) (paths : List Path) {next : Job MemoryFs}
    (h : next.Succeeds) : (writeEach text paths next).Succeeds := by
  induction paths with
  | nil => exact h
  | cons p rest ih => exact fun s hs => ⟨hs, ih⟩

/-- Whatever is due and is written is not due any more. -/
theorem writeEach_delivers (text : String) {outputs paths due : List Path}
    (hdue : ∀ q ∈ due, ∃ p ∈ paths, p.components = q.components) {next : Job MemoryFs}
    (h : next.Delivers outputs []) : (writeEach text paths next).Delivers outputs due := by
  induction paths generalizing due with
  | nil =>
      have hnil : due = [] := by
        refine List.eq_nil_iff_forall_not_mem.mpr fun q hq => ?_
        obtain ⟨p, hp, -⟩ := hdue q hq
        exact nomatch hp
      rw [hnil]
      exact h
  | cons p rest ih =>
      intro s
      refine ⟨[.write p text.toUTF8], rfl, ih ?_⟩
      intro q hq
      obtain ⟨hmem, hsame⟩ := List.mem_filter.mp hq
      obtain ⟨p', hp', hpath⟩ := hdue q hmem
      rcases List.mem_cons.mp hp' with rfl | hrest
      · rw [Path.same_iff.mpr hpath] at hsame
        exact nomatch hsame
      · exact ⟨p', hrest, hpath⟩

end Job

namespace CompileScript

section outcomes

variable {σ : Type} (script : CompileScript) {P : Job σ → Prop}

/-- A script ends with success, and may cancel the run before. -/
theorem conclude_induct (project : Path) (hends : ∀ messages, P (.done (.ok messages)))
    (hcancels : ∀ messages, script.cancelling.any project.same = true →
      P (.step Site.cancel fun _ => .done (.ok messages))) :
    P (script.conclude project) := by
  unfold conclude
  by_cases hcancel : script.cancelling.any project.same = true
  · rw [if_pos hcancel]
    exact hcancels _ hcancel
  · rw [if_neg hcancel]
    exact hends _

variable [FileSystem σ]

/-- A script fails with what it has for a project, or it writes outputs. -/
theorem perform_induct (p : Project)
    (hfails : ∀ diagnostics, P (.done (.error (.compile p.configPath diagnostics))))
    (herrs : ∀ e, script.errors.lookup p.configPath.text = some e → P (.done (.error e)))
    (hwrites : P (Job.writeEach "// emitted" (script.emitted p) (script.conclude p.configPath))) :
    P (script.perform p) := by
  unfold perform
  cases script.failures.lookup p.configPath.text with
  | some diagnostics => exact hfails diagnostics
  | none =>
      cases herror : script.errors.lookup p.configPath.text with
      | some e => exact herrs e herror
      | none => exact hwrites

/-- Before a script is performed the run may be found cancelled, or the references
    of the project not built. -/
theorem compiler_induct (g : Graph) (i : Nat) (s : Site σ)
    (hcancelled : s.cancelled = true → P (.done (.error .cancelled)))
    (hrefused : ∀ e, Resolution.verifyReferences s.files g i = .error e → P (.done (.error e)))
    (hperform : P (script.perform (g.node i))) :
    P (if s.cancelled then .done (.error .cancelled)
      else if script.verify then
        match Resolution.verifyReferences s.files g i with
        | .error e => .done (.error e)
        | .ok () => script.perform (g.node i)
      else script.perform (g.node i)) := by
  by_cases hcancel : s.cancelled = true
  · rw [if_pos hcancel]
    exact hcancelled hcancel
  · rw [if_neg hcancel]
    by_cases hverify : script.verify = true
    · rw [if_pos hverify]
      cases hresolve : Resolution.verifyReferences s.files g i with
      | error e => exact hrefused e hresolve
      | ok done => exact hperform
    · rw [if_neg hverify]
      exact hperform

end outcomes

/-- All that a script does to files is writing outputs that are expected of the
    project. -/
theorem compiler_writes (script : CompileScript) (g : Graph) (i : Nat) :
    (script.compiler g i).Only fun e =>
      ∃ p ∈ (g.node i).expectedOutputs, e = .write p "// emitted".toUTF8 := by
  intro s
  refine ⟨⟨[], rfl, fun e he => nomatch he⟩, script.compiler_induct g i s
    (P := fun job => job.Only fun e =>
      ∃ p ∈ (g.node i).expectedOutputs, e = .write p "// emitted".toUTF8)
    (fun _ => True.intro) (fun _ _ => True.intro) ?_⟩
  refine script.perform_induct (g.node i) (fun _ => True.intro) (fun _ _ => True.intro) ?_
  refine Job.writeEach_only _ (fun p hp => ⟨p, (List.mem_filter.mp hp).1, rfl⟩) ?_
  refine script.conclude_induct _ (fun _ => True.intro) fun _ _ s => ?_
  exact ⟨⟨[], rfl, fun e he => nomatch he⟩, True.intro⟩

/-- **Scripted compiles write expected outputs** and touch nothing else. -/
theorem compiler_only (script : CompileScript) (g : Graph) (i : Nat) :
    (script.compiler g i).Only fun e => e.path ∈ (g.node i).expectedOutputs := by
  refine (compiler_writes script g i).imp ?_
  rintro e ⟨p, hp, rfl⟩
  exact hp

/-- A script that leaves no outputs out writes them all when it succeeds. -/
theorem compiler_delivers {script : CompileScript} (hemissions : script.emissions = [])
    (g : Graph) (i : Nat) :
    (script.compiler g i).Delivers (g.node i).expectedOutputs (g.node i).expectedOutputs := by
  have hemitted : script.emitted (g.node i) = (g.node i).expectedOutputs := by
    unfold emitted
    rw [hemissions]
    exact List.filter_eq_self.mpr fun _ _ => rfl
  intro s
  refine ⟨[], rfl, script.compiler_induct g i s
    (P := fun job => job.Delivers (g.node i).expectedOutputs (g.node i).expectedOutputs)
    (fun _ => True.intro) (fun _ _ => True.intro) ?_⟩
  refine script.perform_induct (g.node i) (fun _ => True.intro) (fun _ _ => True.intro) ?_
  rw [hemitted]
  refine Job.writeEach_delivers _ (fun q hq => ⟨q, hq, rfl⟩) ?_
  exact script.conclude_induct _ (fun _ => rfl) fun _ _ s => ⟨[], rfl, rfl⟩

/-- A script in which nothing goes wrong is followed with success, if it does
    not verify what references have left. -/
theorem compiler_succeeds {script : CompileScript} (hverify : script.verify = false)
    (hfailures : script.failures = []) (herrors : script.errors = [])
    (hcancelling : script.cancelling = []) (g : Graph) (i : Nat) :
    (script.compiler (σ := MemoryFs) g i).Succeeds := by
  intro s hs
  refine ⟨hs, ?_⟩
  have hperform : (script.perform (σ := MemoryFs) (g.node i)).Succeeds := by
    unfold perform
    rw [hfailures, herrors]
    refine Job.writeEach_succeeds _ _ ?_
    unfold conclude
    rw [hcancelling]
    exact ⟨_, rfl⟩
  simp only [hs, hverify, Bool.false_eq_true, if_false]
  exact hperform

end CompileScript

end ProjectBuild
