import ProjectBuild.FileSystem.Memory
import ProjectBuild.Proofs.Path.Map

/-! # Files in memory over time

    Whatever happens to files in memory is a sequence of writes, touches and
    removals (`MemoryFs.Edit`).  The clock never goes back, and a file that
    changed bears a time that the clock had not shown before
    (`MemoryFs.Later`): so a file that is newer than a moment was written after
    it, and one that is not has been left alone. -/

namespace ProjectBuild.MemoryFs

/-! ## Edits -/

/-- What can happen to a file. -/
inductive Edit where
  | write (path : Path) (content : ByteArray)
  | touch (path : Path)
  | remove (path : Path)

def Edit.path : Edit → Path
  | write path _ => path
  | touch path => path
  | remove path => path

/-- The files after an edit. -/
def edit (fs : MemoryFs) : Edit → MemoryFs
  | .write path content => fs.put path content
  | .touch path => fs.touch path
  | .remove path => { fs with files := fs.files.erase path }

/-- The files after edits, one after the other. -/
def edits (fs : MemoryFs) (es : List Edit) : MemoryFs :=
  es.foldl edit fs

/-- Files that come about from none. -/
def Reachable (fs : MemoryFs) : Prop :=
  ∃ es, fs = ({} : MemoryFs).edits es

/-- Files with the given texts, written in order. -/
def ofTexts (files : List (String × String)) : MemoryFs :=
  files.foldl (fun fs file => fs.put ⟨file.1⟩ file.2.toUTF8) {}

/-- Files with given texts are made by writing them. -/
theorem ofTexts_reachable (files : List (String × String)) : (ofTexts files).Reachable := by
  refine ⟨files.map fun file => .write ⟨file.1⟩ file.2.toUTF8, ?_⟩
  unfold edits
  rw [List.foldl_map]
  rfl

/-! ## What an edit does -/

/-- The file at a path, under any spelling of it. -/
def file? (fs : MemoryFs) (q : Path) : Option MemoryFile :=
  fs.files.get? q

/-- A file is found under any spelling of its path. -/
theorem file?_congr (fs : MemoryFs) {p q : Path} (h : p.components = q.components) :
    fs.file? p = fs.file? q :=
  fs.files.get?_congr h

theorem isFile_eq (fs : MemoryFs) (q : Path) : FileSystem.isFile fs q = (fs.file? q).isSome :=
  fs.files.contains_eq q

theorem modified?_eq (fs : MemoryFs) (q : Path) :
    FileSystem.modified? fs q = (fs.file? q).map MemoryFile.modified := rfl

/-- A file is there under any spelling of its path. -/
theorem isFile_of_same {fs : MemoryFs} {p q : Path} (h : p.same q = true)
    (hp : FileSystem.isFile fs p = true) : FileSystem.isFile fs q = true := by
  rwa [isFile_eq, ← fs.file?_congr (Path.same_iff.mp h), ← isFile_eq]

/-- There are filesystems with files at given paths only. -/
theorem exists_files (paths : List Path) :
    ∃ fs : MemoryFs, ∀ q, FileSystem.isFile fs q = true ↔ ∃ p ∈ paths, p.same q = true := by
  refine ⟨{ files := PathMap.ofList (paths.map fun p => (p, default)) }, fun q => ?_⟩
  rw [isFile_eq]
  refine PathMap.get?_ofList_isSome.trans ?_
  simp only [List.mem_map, Path.same_iff]
  constructor
  · rintro ⟨_, ⟨p, hp, rfl⟩, heq⟩
    exact ⟨p, hp, heq⟩
  · rintro ⟨p, hp, heq⟩
    exact ⟨_, ⟨p, hp, rfl⟩, heq⟩

/-- Reading a file that is there gives its text, unless it is none. -/
theorem read_of_file? {fs : MemoryFs} {p : Path} {file : MemoryFile} (h : fs.file? p = some file) :
    (FileSystem.read fs p).value
      = (Utf8.decode file.content).mapError fun fault => ⟨p, .notText fault⟩ := by
  show fs.text p = _
  unfold text
  rw [show fs.files.get? p = some file from h]
  simp only
  cases Utf8.decode file.content with
  | error fault => rfl
  | ok text => rfl

/-- Reading gives the text of the file at a path. -/
theorem read_eq_ok {fs : MemoryFs} {p : Path} {text : String} :
    (FileSystem.read fs p).value = .ok text ↔
      ∃ file, fs.file? p = some file ∧ Utf8.decode file.content = .ok text := by
  cases hfile : fs.file? p with
  | none =>
      have hnone : (FileSystem.read fs p).value = .error ⟨p, .absent⟩ := by
        show fs.text p = _
        unfold MemoryFs.text
        rw [show fs.files.get? p = none from hfile]
      rw [hnone]
      constructor
      · intro h
        cases h
      · rintro ⟨file, h, -⟩
        cases h
  | some file =>
      rw [read_of_file? hfile]
      simp only [Option.some.injEq, exists_eq_left']
      cases Utf8.decode file.content with
      | error fault =>
          constructor
          · intro h
            cases h
          · intro h
            cases h
      | ok text' =>
          exact ⟨fun h => congrArg _ (Except.ok.inj h), fun h => congrArg _ (Except.ok.inj h)⟩

/-- Writing a file changes that file alone. -/
theorem file?_put (fs : MemoryFs) (p : Path) (content : ByteArray) (q : Path) :
    (fs.put p content).file? q
      = if p.components = q.components then some ⟨content, fs.nextTime⟩ else fs.file? q :=
  fs.files.get?_insert p _ q

/-- Touching a file is writing it, with the contents it had. -/
theorem touch_eq (fs : MemoryFs) (p : Path) : ∃ content, fs.touch p = fs.put p content := by
  unfold touch
  cases fs.files.get? p with
  | none => exact ⟨_, rfl⟩
  | some file => exact ⟨_, rfl⟩

/-- Removing a file changes that file alone. -/
theorem file?_remove (fs : MemoryFs) (p q : Path) :
    (fs.edit (.remove p)).file? q = if p.components = q.components then none else fs.file? q :=
  fs.files.get?_erase p q

/-- An edit of one path leaves the files at all others alone. -/
theorem file?_edit_ne (fs : MemoryFs) {e : Edit} {q : Path}
    (h : e.path.components ≠ q.components) : (fs.edit e).file? q = fs.file? q := by
  cases e with
  | write p content =>
      show (fs.put p content).file? q = _
      rw [file?_put]
      exact if_neg h
  | touch p =>
      obtain ⟨content, hput⟩ := fs.touch_eq p
      show (fs.touch p).file? q = _
      rw [hput, file?_put]
      exact if_neg h
  | remove p =>
      rw [file?_remove]
      exact if_neg h

/-- Edits leave all files alone that they do not name. -/
theorem file?_edits_ne (fs : MemoryFs) {es : List Edit} {q : Path}
    (h : ∀ e ∈ es, e.path.components ≠ q.components) : (fs.edits es).file? q = fs.file? q := by
  induction es generalizing fs with
  | nil => rfl
  | cons e rest ih =>
      show ((fs.edit e).edits rest).file? q = _
      rw [ih (fs.edit e) fun e' he' => h e' (List.mem_cons_of_mem e he'),
        file?_edit_ne fs (h e List.mem_cons_self)]

theorem edits_append (fs : MemoryFs) (es es' : List Edit) :
    fs.edits (es ++ es') = (fs.edits es).edits es' :=
  List.foldl_append

/-! ## The clock -/

/-- A file's time is one that the clock has shown. -/
def Timely (fs : MemoryFs) : Prop :=
  ∀ q f, fs.file? q = some f → ∃ n, n ≤ fs.clock ∧ f.modified = .ofEpoch n 0

/-- What holds of files later on: the clock has not gone back, and every file
    is as it was or bears a newer time. -/
structure Later (fs fs' : MemoryFs) : Prop where
  clock : fs.clock ≤ fs'.clock
  fresh : ∀ q f, fs'.file? q = some f → fs.file? q = some f ∨
    ∃ n, fs.clock < n ∧ n ≤ fs'.clock ∧ f.modified = .ofEpoch n 0

theorem Later.refl (fs : MemoryFs) : fs.Later fs :=
  ⟨Nat.le_refl _, fun _ _ h => Or.inl h⟩

/-- Files become later step by step. -/
theorem Later.trans {fs fs' fs'' : MemoryFs} (h : fs.Later fs') (h' : fs'.Later fs'') :
    fs.Later fs'' := by
  refine ⟨Nat.le_trans h.clock h'.clock, ?_⟩
  intro q f hf
  rcases h'.fresh q f hf with hf | ⟨n, hn, hle, htime⟩
  · rcases h.fresh q f hf with hf | ⟨n, hn, hle, htime⟩
    · exact Or.inl hf
    · exact Or.inr ⟨n, hn, Nat.le_trans hle h'.clock, htime⟩
  · exact Or.inr ⟨n, Nat.lt_of_le_of_lt h.clock hn, hle, htime⟩

/-- Files that are later are no newer than their clock, if the earlier ones were
    not. -/
theorem Later.timely {fs fs' : MemoryFs} (h : fs.Later fs') (ht : fs.Timely) : fs'.Timely := by
  intro q f hf
  rcases h.fresh q f hf with hf | ⟨n, -, hle, htime⟩
  · obtain ⟨n, hle, htime⟩ := ht q f hf
    exact ⟨n, Nat.le_trans hle h.clock, htime⟩
  · exact ⟨n, hle, htime⟩

/-- Writing makes files later. -/
theorem put_later (fs : MemoryFs) (p : Path) (content : ByteArray) :
    fs.Later (fs.put p content) := by
  refine ⟨Nat.le_succ _, ?_⟩
  intro q f hf
  rw [file?_put] at hf
  by_cases hq : p.components = q.components
  · rw [if_pos hq] at hf
    exact Or.inr ⟨fs.clock + 1, Nat.lt_succ_self _, Nat.le_refl _,
      (congrArg MemoryFile.modified (Option.some.inj hf)).symm⟩
  · rw [if_neg hq] at hf
    exact Or.inl hf

/-- **Every edit makes files later.** -/
theorem edit_later (fs : MemoryFs) (e : Edit) : fs.Later (fs.edit e) := by
  cases e with
  | write p content => exact fs.put_later p content
  | touch p =>
      obtain ⟨content, hput⟩ := fs.touch_eq p
      show fs.Later (fs.touch p)
      rw [hput]
      exact fs.put_later p content
  | remove p =>
      refine ⟨Nat.le_refl _, ?_⟩
      intro q f hf
      rw [file?_remove] at hf
      by_cases hq : p.components = q.components
      · rw [if_pos hq] at hf
        exact nomatch hf
      · rw [if_neg hq] at hf
        exact Or.inl hf

/-- Edits make files later, one after another. -/
theorem edits_later (fs : MemoryFs) (es : List Edit) : fs.Later (fs.edits es) := by
  induction es generalizing fs with
  | nil => exact Later.refl fs
  | cons e rest ih => exact (fs.edit_later e).trans (ih (fs.edit e))

/-- No file is newer than the clock. -/
theorem Reachable.timely {fs : MemoryFs} (h : fs.Reachable) : fs.Timely := by
  obtain ⟨es, rfl⟩ := h
  exact (edits_later {} es).timely fun q f hf => nomatch hf

/-- Edits lead from files that can come about to files that can. -/
theorem Reachable.edits {fs : MemoryFs} (h : fs.Reachable) (es : List Edit) :
    (fs.edits es).Reachable := by
  obtain ⟨es', rfl⟩ := h
  exact ⟨es' ++ es, (edits_append {} es' es).symm⟩

/-- Files that can come about are sorted by their paths. -/
theorem Reachable.sorted {fs : MemoryFs} (h : fs.Reachable) : fs.files.Sorted := by
  obtain ⟨es, rfl⟩ := h
  have hall : ∀ (es : List Edit) (fs : MemoryFs), fs.files.Sorted → (fs.edits es).files.Sorted := by
    intro es
    induction es with
    | nil => exact fun fs h => h
    | cons e rest ih =>
        intro fs h
        refine ih (fs.edit e) ?_
        cases e with
        | write p content => exact h.insert p _
        | touch p =>
            obtain ⟨content, hput⟩ := fs.touch_eq p
            show (fs.touch p).files.Sorted
            rw [hput]
            exact h.insert p _
        | remove p => exact h.erase p
  exact hall es {} PathMap.sorted_empty

/-! ## Files written since a moment -/

/-- The file at a path, if there is one, was written after the clock showed
    `moment`. -/
def NewSince (fs : MemoryFs) (moment : Nat) (q : Path) : Prop :=
  ∀ f, fs.file? q = some f → ∃ n, moment < n ∧ f.modified = .ofEpoch n 0

/-- What was new is new to later files. -/
theorem Later.newSince {fs fs' : MemoryFs} (h : fs.Later fs') {moment : Nat} {q : Path}
    (hle : moment ≤ fs.clock) (hnew : fs.NewSince moment q) : fs'.NewSince moment q := by
  intro f hf
  rcases h.fresh q f hf with hf | ⟨n, hn, -, htime⟩
  · exact hnew f hf
  · exact ⟨n, Nat.lt_of_le_of_lt hle hn, htime⟩

/-- A file that is written is new. -/
theorem newSince_put (fs : MemoryFs) {moment : Nat} (hle : moment ≤ fs.clock) {p q : Path}
    (h : p.components = q.components) (content : ByteArray) :
    (fs.put p content).NewSince moment q ∧ ((fs.put p content).file? q).isSome = true := by
  have hfile : (fs.put p content).file? q = some ⟨content, fs.nextTime⟩ := by
    rw [file?_put, if_pos h]
  constructor
  · intro f hf
    rw [hfile] at hf
    exact ⟨fs.clock + 1, Nat.lt_succ_of_le hle,
      (congrArg MemoryFile.modified (Option.some.inj hf)).symm⟩
  · rw [hfile]
    rfl

end ProjectBuild.MemoryFs
