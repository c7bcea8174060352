import Mathlib.Data.List.Forall2
import ProjectBuild.Proofs.Compile.Contract

/-! # Effects of compiles

    A compile acts on files and may cancel the run, a step at a time and amid
    the steps of others.  `Job.Always` says of what kind all its effects are,
    whatever it meets: that it does not take a cancellation back
    (`Site.StaysCancelled`), as no compile can that follows a script
    (`CompileScript.compiler_staysCancelled`), or that it keeps certain files
    (`Job.Only.keeps`).  `Job.Yields` says more: that the outcome is determined
    by some files. -/

namespace ProjectBuild

variable {σ : Type}

/-- A job all of whose effects are of this kind. -/
def Job.Always (R : Site σ → Site σ → Prop) : Job σ → Prop
  | .done _ => True
  | .step effect next => ∀ s, R s (effect s) ∧ (next s).Always R

/-- What always holds of a job can be relaxed. -/
theorem Job.Always.imp {R R' : Site σ → Site σ → Prop} (himp : ∀ s s', R s s' → R' s s')
    {job : Job σ} (h : job.Always R) : job.Always R' := by
  induction job with
  | done result => exact True.intro
  | step effect next ih => exact fun s => ⟨himp s _ (h s).1, ih s (h s).2⟩

/-- Two things that always hold of a job hold together. -/
theorem Job.Always.and {R R' : Site σ → Site σ → Prop} {job : Job σ} (h : job.Always R)
    (h' : job.Always R') : job.Always fun s s' => R s s' ∧ R' s s' := by
  induction job with
  | done result => exact True.intro
  | step effect next ih => exact fun s => ⟨⟨(h s).1, (h' s).1⟩, ih s (h s).2 (h' s).2⟩

/-- A cancellation is not taken back. -/
def Site.StaysCancelled (s s' : Site σ) : Prop :=
  s.cancelled = true → s'.cancelled = true

/-- What can be seen of single files: replacing and removing one does not change
    what is seen of the others. -/
structure FileSystem.Observes {β : Type} [FileSystem σ] (look : σ → Path → β) : Prop where
  replace : ∀ fs p q text, p.same q = false → look (FileSystem.replace fs p text).2 q = look fs q
  remove : ∀ fs p q, p.same q = false → look (FileSystem.remove fs p).2 q = look fs q

/-- Looking up a file in memory sees that file alone. -/
theorem MemoryFs.file?_observes : FileSystem.Observes MemoryFs.file? where
  replace fs p q text h := by
    show (fs.put p text.toUTF8).file? q = fs.file? q
    rw [file?_put, if_neg (Path.same_eq_false_iff.mp h)]
  remove fs p q h := by
    show (fs.edit (.remove p)).file? q = fs.file? q
    rw [file?_remove, if_neg (Path.same_eq_false_iff.mp h)]

/-! ## Scripted compilers -/

/-- Writing files does not take a cancellation back. -/
theorem Job.writeEach_staysCancelled [FileSystem σ] (text : String) (paths : List Path)
    {next : Job σ} (h : next.Always Site.StaysCancelled) :
    (Job.writeEach text paths next).Always Site.StaysCancelled := by
  induction paths with
  | nil => exact h
  | cons path rest ih =>
      intro s
      refine ⟨fun hs => hs, ?_⟩
      cases hwrite : (FileSystem.write s.files path text).1 with
      | ok done =>
          simp only [hwrite]
          exact ih
      | error failure =>
          simp only [hwrite]
          exact True.intro

/-- Whatever the script, a cancellation is not taken back. -/
theorem CompileScript.compiler_staysCancelled [FileSystem σ] (script : CompileScript) (g : Graph)
    (i : Nat) : (script.compiler (σ := σ) g i).Always Site.StaysCancelled := by
  intro s
  refine ⟨fun hs => hs, script.compiler_induct g i s
    (P := fun job => job.Always Site.StaysCancelled)
    (fun _ => True.intro) (fun _ _ => True.intro) ?_⟩
  refine script.perform_induct (g.node i) (fun _ => True.intro) (fun _ _ => True.intro) ?_
  refine Job.writeEach_staysCancelled _ _ ?_
  exact script.conclude_induct _ (fun _ => True.intro) fun _ _ s => ⟨fun _ => rfl, True.intro⟩

/-- A job on files in memory keeps those that its edits spare. -/
theorem Job.Only.keeps {ok : MemoryFs.Edit → Prop} {job : Job MemoryFs} (h : job.Only ok) :
    job.Always fun s s' => ∀ q, (∀ e, ok e → e.path.components ≠ q.components) →
      s'.files.file? q = s.files.file? q := by
  induction job with
  | done result => exact True.intro
  | step effect next ih =>
      intro s
      obtain ⟨⟨es, hes, hok⟩, hnext⟩ := h s
      refine ⟨fun q hq => ?_, ih s hnext⟩
      rw [hes]
      exact MemoryFs.file?_edits_ne s.files fun e he => hq e (hok e he)

end ProjectBuild

/-! ## Compiles whose outcome is determined

    A compile reads some files and writes its outputs, a step at a time, while
    others are at work.  Its outcome is determined by what these files hold
    when it begins if it comes to the same result and the same outputs whatever
    else it meets: other files, other times, and whatever others do in between,
    as long as they keep away from what it reads and writes
    (`Job.Yields`).  Compiles that follow a script are of this kind
    (`CompileScript.compiler_yields`). -/

namespace ProjectBuild

/-- What files hold, in the order of a list of paths. -/
abbrev Contents := List (Option ByteArray)

namespace MemoryFs

/-- What the files at some paths hold, whenever they were written. -/
def contents (fs : MemoryFs) (paths : List Path) : Contents :=
  paths.map fun q => (fs.file? q).map MemoryFile.content

/-- The contents at some paths depend on the files there. -/
theorem contents_congr {fs fs' : MemoryFs} {paths : List Path}
    (h : ∀ q ∈ paths, fs'.file? q = fs.file? q) : fs'.contents paths = fs.contents paths :=
  List.map_congr_left fun q hq => by rw [h q hq]

@[simp] theorem contents_append (fs : MemoryFs) (paths more : List Path) :
    fs.contents (paths ++ more) = fs.contents paths ++ fs.contents more :=
  List.map_append

@[simp] theorem contents_flatMap (fs : MemoryFs) (indices : List Nat) (paths : Nat → List Path) :
    fs.contents (indices.flatMap paths) = indices.flatMap fun j => fs.contents (paths j) :=
  List.map_flatMap

end MemoryFs

/-- What a compile comes to: its result, and what the outputs hold then. -/
structure Made where
  result : Except Error (List String)
  outputs : Contents

namespace Job

/-- A job that reads files which hold what was `found`, and that comes to what is
    `made` when its outputs hold the given contents at first, unless somebody
    cancels the run.  At each step the site may be any at which the files that it
    reads and writes hold what they did after the step before. -/
def Yields (reads outputs : List Path) (found : Contents) (made : Made) :
    Contents → Job MemoryFs → Prop
  | held, .done result => made = ⟨result, held⟩
  | held, .step effect next => ∀ s, s.cancelled = false → s.files.contents reads = found →
    s.files.contents outputs = held → (effect s).cancelled = false →
    (next s).Yields reads outputs found made ((effect s).files.contents outputs)

variable {reads outputs : List Path} {found : Contents} {made : Made}

/-- Outputs that hold the text already, but for those that are still to be
    written. -/
def Emitted (text : String) (due : List Path) : List Path → Contents → Prop :=
  List.Forall₂ fun q content => content = some text.toUTF8 ∨ ∃ p ∈ due, p.components = q.components

/-- Writing a file leaves one less to be written. -/
theorem Emitted.put {text : String} {p : Path} {due outputs : List Path} {fs : MemoryFs}
    (h : Emitted text (p :: due) outputs (fs.contents outputs)) :
    Emitted text due outputs ((fs.put p text.toUTF8).contents outputs) := by
  simp only [Emitted, MemoryFs.contents, List.forall₂_map_right_iff, List.forall₂_same] at h ⊢
  intro q hq
  rw [MemoryFs.file?_put]
  by_cases hpath : p.components = q.components
  · exact Or.inl (by simp [hpath])
  · rw [if_neg hpath]
    refine (h q hq).imp_right ?_
    rintro ⟨p', hp', hsame⟩
    rcases List.mem_cons.mp hp' with rfl | hrest
    · exact absurd hsame hpath
    · exact ⟨p', hrest, hsame⟩

/-- Once nothing is left to be written, all outputs hold the text. -/
theorem Emitted.done {text : String} {outputs : List Path} {held : Contents}
    (h : Emitted text [] outputs held) : held = outputs.map fun _ => some text.toUTF8 := by
  induction h with
  | nil => rfl
  | cons hcontent _ ih =>
      rw [List.map_cons, ← ih]
      simpa using hcontent

/-- Writing one text to all outputs makes them hold it, whatever they held. -/
theorem writeEach_yields (text : String) {due : List Path} {next : Job MemoryFs}
    (hnext : next.Yields reads outputs found made (outputs.map fun _ => some text.toUTF8))
    {held : Contents} (h : Emitted text due outputs held) :
    (writeEach text due next).Yields reads outputs found made held := by
  induction due generalizing held with
  | nil => exact h.done ▸ hnext
  | cons p rest ih =>
      intro s _ _ hheld _
      subst hheld
      exact ih h.put

end Job

namespace CompileScript

/-- What a script that leaves no outputs out makes of a project. -/
def made (script : CompileScript) (p : Project) (held : Contents) : Made :=
  match script.failures.lookup p.configPath.text with
  | some diagnostics => ⟨.error (.compile p.configPath diagnostics), held⟩
  | none =>
    match script.errors.lookup p.configPath.text with
    | some error => ⟨.error error, held⟩
    | none => {
        result := .ok ((script.warnings.lookup p.configPath.text).getD [])
        outputs := p.expectedOutputs.map fun _ => some "// emitted".toUTF8 }

/-- **The outcome of a scripted compile is determined**, if no references are
    verified and no outputs left out: it depends on the project alone, and on what
    its outputs hold if it fails. -/
theorem compiler_yields {script : CompileScript} (hverify : script.verify = false)
    (hemissions : script.emissions = []) (g : Graph) (i : Nat) (reads : List Path)
    (found held : Contents) :
    (script.compiler g i).Yields reads (g.node i).expectedOutputs found
      (script.made (g.node i) held) held := by
  have hemitted : script.emitted (g.node i) = (g.node i).expectedOutputs := by
    simp [emitted, hemissions, Emission.includes]
  intro s hrunning _ hheld _
  subst hheld
  rw [id_eq]
  simp only [hrunning, hverify, perform, made, Bool.false_eq_true, if_false]
  cases script.failures.lookup (g.node i).configPath.text with
  | some diagnostics => rfl
  | none =>
      cases script.errors.lookup (g.node i).configPath.text with
      | some error => rfl
      | none =>
          refine Job.writeEach_yields _ ?_ ?_
          · -- a compile that cancels the run comes to nothing that counts
            simp only [conclude]
            split
            · intro s _ _ _ hcancelled
              simp [Site.cancel] at hcancelled
            · rfl
          · simp only [hemitted, Job.Emitted, MemoryFs.contents, List.forall₂_map_right_iff,
              List.forall₂_same]
            exact fun q hq => Or.inr ⟨q, hq, rfl⟩

end CompileScript

end ProjectBuild
