import ProjectBuild.FileSystem.Faulty
import ProjectBuild.Proofs.Compile.Effects
import ProjectBuild.Proofs.Record.Store

/-! # When calls on files fail

    Two conditions on a filesystem, for what a run leaves behind when calls
    fail; files in memory meet both, and so they do under any plan of faults.
    `FileSystem.Faithful` asks that no text comes up that has not been written.
    `FileSystem.InMemory` looks at the files that are in memory below: a call
    answers what is true of them and changes them as it should, or it fails and
    leaves them alone.  Then a record that is read is the one in memory, and a
    record that is taken is taken of the files there (`BuildRecord.load_memory`,
    `BuildRecord.capture_memory`). -/

namespace ProjectBuild

/-! ## Texts on file -/

/-- A file with this text can be read. -/
def FileSystem.Holds {σ : Type} [FileSystem σ] (fs : σ) (p : Path) (text : String) : Prop :=
  FileSystem.isFile fs p = true ∧ (FileSystem.read fs p).value = .ok text

/-- What records rely on: a file that was removed is gone, and replacing and
    removing, whether they succeed or fail, bring up no other text than the one
    that is written. -/
class FileSystem.Faithful (σ : Type) [FileSystem σ] : Prop where
  remove_gone : ∀ (fs : σ) (p : Path) (found : Bool) (text : String),
    (FileSystem.remove fs p).1 = .ok found → ¬ FileSystem.Holds (FileSystem.remove fs p).2 p text
  remove_holds : ∀ (fs : σ) (p q : Path) (text : String),
    FileSystem.Holds (FileSystem.remove fs p).2 q text → FileSystem.Holds fs q text
  replace_holds : ∀ (fs : σ) (p q : Path) (written text : String),
    FileSystem.Holds (FileSystem.replace fs p written).2 q text →
      FileSystem.Holds fs q text ∨ text = written

/-- A file in memory holds a text if its content decodes to it. -/
theorem MemoryFs.holds_iff {fs : MemoryFs} {p : Path} {text : String} :
    FileSystem.Holds fs p text ↔
      ∃ file, fs.file? p = some file ∧ Utf8.decode file.content = .ok text := by
  unfold FileSystem.Holds
  rw [MemoryFs.isFile_eq, MemoryFs.read_eq_ok]
  refine and_iff_right_of_imp fun h => ?_
  obtain ⟨file, hfile, -⟩ := h
  rw [hfile]
  rfl

instance : FileSystem.Faithful MemoryFs where
  remove_gone fs p found text _ h := by
    obtain ⟨file, hfile, -⟩ := MemoryFs.holds_iff.mp h
    have hgone : (fs.edit (.remove p)).file? p = none := by
      rw [MemoryFs.file?_remove, if_pos rfl]
    exact nomatch hgone.symm.trans hfile
  remove_holds fs p q text h := by
    obtain ⟨file, hfile, htext⟩ := MemoryFs.holds_iff.mp h
    have hkept : (fs.edit (.remove p)).file? q = some file := hfile
    rw [MemoryFs.file?_remove] at hkept
    by_cases hq : p.components = q.components
    · rw [if_pos hq] at hkept
      exact nomatch hkept
    · rw [if_neg hq] at hkept
      exact MemoryFs.holds_iff.mpr ⟨file, hkept, htext⟩
  replace_holds fs p q written text h := by
    obtain ⟨file, hfile, htext⟩ := MemoryFs.holds_iff.mp h
    have hput : (fs.put p written.toUTF8).file? q = some file := hfile
    rw [MemoryFs.file?_put] at hput
    by_cases hq : p.components = q.components
    · rw [if_pos hq] at hput
      obtain rfl := Option.some.inj hput
      exact Or.inr (Except.ok.inj (htext.symm.trans (BuildRecord.decode_toUTF8 written)))
    · rw [if_neg hq] at hput
      exact Or.inl (MemoryFs.holds_iff.mpr ⟨file, hput, htext⟩)

/-- A file is seen to hold a text if it does, and reading it is not made to fail. -/
theorem FaultyFs.holds_iff {σ : Type} [FileSystem σ] {fs : FaultyFs σ} {p : Path}
    {text : String} : FileSystem.Holds fs p text ↔
      strikes fs.plan.read p = false ∧ FileSystem.Holds fs.files p text := by
  have hread : (FileSystem.read fs p).value
      = (if strikes fs.plan.read p then ⟨.error (injected p), []⟩
          else FileSystem.read fs.files p : Noted (Except IoFailure String)).value := rfl
  have hfile : FileSystem.isFile fs p = FileSystem.isFile fs.files p := rfl
  unfold FileSystem.Holds
  rw [hread, hfile]
  cases strikes fs.plan.read p with
  | true => exact ⟨fun h => (nomatch h.2), fun h => (nomatch h.1)⟩
  | false => exact ⟨fun h => ⟨rfl, h⟩, fun h => h.2⟩

/-- Injected faults make nothing up. -/
instance {σ : Type} [FileSystem σ] [FileSystem.Faithful σ] :
    FileSystem.Faithful (FaultyFs σ) where
  remove_gone fs p found text hok h := by
    have hguarded : FileSystem.remove fs p
        = fs.guarded fs.plan.remove p (FileSystem.remove fs.files p) := rfl
    rw [hguarded] at hok h
    unfold FaultyFs.guarded at hok h
    by_cases hstrikes : FaultyFs.strikes fs.plan.remove p = true
    · rw [if_pos hstrikes] at hok
      exact nomatch hok
    · rw [if_neg hstrikes] at hok h
      exact FileSystem.Faithful.remove_gone fs.files p found text hok (FaultyFs.holds_iff.mp h).2
  remove_holds fs p q text h := by
    have hguarded : FileSystem.remove fs p
        = fs.guarded fs.plan.remove p (FileSystem.remove fs.files p) := rfl
    rw [hguarded] at h
    unfold FaultyFs.guarded at h
    by_cases hstrikes : FaultyFs.strikes fs.plan.remove p = true
    · rw [if_pos hstrikes] at h
      exact h
    · rw [if_neg hstrikes] at h
      obtain ⟨hread, hholds⟩ := FaultyFs.holds_iff.mp h
      exact FaultyFs.holds_iff.mpr
        ⟨hread, FileSystem.Faithful.remove_holds fs.files p q text hholds⟩
  replace_holds fs p q written text h := by
    have hguarded : FileSystem.replace fs p written
        = fs.guarded fs.plan.write p (FileSystem.replace fs.files p written) := rfl
    rw [hguarded] at h
    unfold FaultyFs.guarded at h
    by_cases hstrikes : FaultyFs.strikes fs.plan.write p = true
    · rw [if_pos hstrikes] at h
      exact Or.inl h
    · rw [if_neg hstrikes] at h
      obtain ⟨hread, hholds⟩ := FaultyFs.holds_iff.mp h
      refine (FileSystem.Faithful.replace_holds fs.files p q written text hholds).imp_left ?_
      exact fun hholds => FaultyFs.holds_iff.mpr ⟨hread, hholds⟩

namespace BuildRecord

/-- A record is read where its project's record file holds a text that is one
    of the project. -/
theorem load_eq_some {σ : Type} [FileSystem σ] {fs : σ} {p : Project} {r : BuildRecord} :
    (load fs p).value = some r ↔
      ∃ text, FileSystem.Holds fs p.recordPath text ∧ interpret p text = .ok r := by
  unfold load FileSystem.Holds
  by_cases hfile : FileSystem.isFile fs p.recordPath = true
  · rw [if_pos hfile, hfile]
    simp only [true_and]
    cases (FileSystem.read fs p.recordPath).value with
    | error failure => exact ⟨fun h => (nomatch h), fun ⟨_, h, _⟩ => (nomatch h)⟩
    | ok text =>
        simp only [Except.ok.injEq, exists_eq_left']
        cases interpret p text with
        | error notice => exact ⟨fun h => (nomatch h), fun h => (nomatch h)⟩
        | ok r' =>
            exact ⟨fun h => congrArg _ (Option.some.inj h), fun h => congrArg _ (Except.ok.inj h)⟩
  · rw [if_neg hfile]
    exact ⟨fun h => (nomatch h), fun ⟨_, h, _⟩ => absurd h.1 hfile⟩

end BuildRecord

/-! ## Files in memory -/

/-- Files in memory, on which calls may fail. -/
class FileSystem.InMemory (σ : Type) [FileSystem σ] where
  memory : σ → MemoryFs
  modified_eq : ∀ (fs : σ) (p : Path),
    FileSystem.modified? fs p = FileSystem.modified? (memory fs) p
  holds_memory : ∀ (fs : σ) (p : Path) (text : String),
    FileSystem.Holds fs p text → FileSystem.Holds (memory fs) p text
  replace_cases : ∀ (fs : σ) (p : Path) (text : String),
    (FileSystem.replace fs p text).1 = .ok () ∧
        memory (FileSystem.replace fs p text).2 = (memory fs).put p text.toUTF8 ∨
      (∃ failure, (FileSystem.replace fs p text).1 = .error failure) ∧
        memory (FileSystem.replace fs p text).2 = memory fs
  remove_cases : ∀ (fs : σ) (p : Path),
    memory (FileSystem.remove fs p).2 = (memory fs).edit (.remove p) ∨
      memory (FileSystem.remove fs p).2 = memory fs

open FileSystem (InMemory)

instance : InMemory MemoryFs where
  memory fs := fs
  modified_eq _ _ := rfl
  holds_memory _ _ _ h := h
  replace_cases _ _ _ := Or.inl ⟨rfl, rfl⟩
  remove_cases _ _ := Or.inl rfl

/-- Injected faults do not reach the files. -/
instance {σ : Type} [FileSystem σ] [InMemory σ] : InMemory (FaultyFs σ) where
  memory fs := InMemory.memory fs.files
  modified_eq fs p := InMemory.modified_eq fs.files p
  holds_memory fs p text h :=
    InMemory.holds_memory fs.files p text (FaultyFs.holds_iff.mp h).2
  replace_cases fs p text := by
    have hguarded : FileSystem.replace fs p text
        = fs.guarded fs.plan.write p (FileSystem.replace fs.files p text) := rfl
    rw [hguarded]
    unfold FaultyFs.guarded
    by_cases hstrikes : FaultyFs.strikes fs.plan.write p = true
    · rw [if_pos hstrikes]
      exact Or.inr ⟨⟨_, rfl⟩, rfl⟩
    · rw [if_neg hstrikes]
      exact InMemory.replace_cases fs.files p text
  remove_cases fs p := by
    have hguarded : FileSystem.remove fs p
        = fs.guarded fs.plan.remove p (FileSystem.remove fs.files p) := rfl
    rw [hguarded]
    unfold FaultyFs.guarded
    by_cases hstrikes : FaultyFs.strikes fs.plan.remove p = true
    · rw [if_pos hstrikes]
      exact Or.inr rfl
    · rw [if_neg hstrikes]
      exact InMemory.remove_cases fs.files p

section memory

variable {σ : Type} [FileSystem σ] [InMemory σ]

/-- The files in memory at a site. -/
def Site.memory (site : Site σ) : MemoryFs :=
  InMemory.memory site.files

/-- One site comes of another by such edits in memory. -/
def Site.Edits (ok : MemoryFs.Edit → Prop) (site site' : Site σ) : Prop :=
  ∃ es, site'.memory = site.memory.edits es ∧ ∀ e ∈ es, ok e

/-- A job that is held to some edits makes no others. -/
theorem Job.Only.edits {ok : MemoryFs.Edit → Prop} {job : Job MemoryFs} (h : job.Only ok) :
    job.Always (Site.Edits ok) := by
  induction job with
  | done result => exact True.intro
  | step effect next ih => exact fun s => ⟨(h s).1, ih s (h s).2⟩

namespace BuildRecord

/-- A record that is read is the one in memory. -/
theorem load_memory {fs : σ} {p : Project} {r : BuildRecord} (h : (load fs p).value = some r) :
    (load (InMemory.memory fs) p).value = some r := by
  obtain ⟨text, hholds, hread⟩ := load_eq_some.mp h
  exact load_eq_some.mpr ⟨text, InMemory.holds_memory fs p.recordPath text hholds, hread⟩

/-- A record is taken of the files in memory. -/
theorem capture_memory (fs : σ) (p : Project) (references : PathMap String) :
    capture fs p references = capture (InMemory.memory fs) p references := by
  have htimes : ∀ paths, times fs paths = times (InMemory.memory fs) paths := by
    intro paths
    unfold times
    refine congrArg PathMap.ofList (List.filterMap_congr fun q _ => ?_)
    rw [InMemory.modified_eq]
  unfold capture
  rw [htimes, htimes]

/-- Writing a record puts its written form into memory, or fails and changes
    nothing. -/
theorem save_memory (fs : σ) (p : Project) {r : BuildRecord} (h : r.Canonical) :
    (save fs p r).1 = .ok () ∧
        InMemory.memory (save fs p r).2
          = (InMemory.memory fs).put p.recordPath r.printer.text.toUTF8 ∨
      (∃ e, (save fs p r).1 = .error e) ∧
        InMemory.memory (save fs p r).2 = InMemory.memory fs := by
  unfold save
  rw [toText_eq h]
  rcases InMemory.replace_cases fs p.recordPath r.printer.text with
    ⟨hok, hput⟩ | ⟨⟨failure, herror⟩, hkept⟩
  · refine Or.inl ⟨?_, hput⟩
    simp only [hok]
    rfl
  · refine Or.inr ⟨⟨.record p.recordPath (.file failure), ?_⟩, hkept⟩
    simp only [herror]
    rfl

end BuildRecord

end memory

end ProjectBuild
