import Mathlib.Data.List.Basic
import ProjectBuild.Proofs.FileSystem.Memory

/-! # Files that are only written, or only removed

    Writing some paths, in any order and any number of times, removes nothing:
    the files that were there keep their paths as they are spelled, and all new
    ones are among the paths that were written (`MemoryFs.Grown`).  So a list of
    files that passes over the new ones is as it was.  Removing files is the same
    backwards (`MemoryFs.Grown.removes`). -/

namespace ProjectBuild

namespace MemoryFs

/-- What becomes of files when some paths are written and nothing is removed. -/
structure Grown (fs fs' : MemoryFs) (written : List Path) : Prop where
  sorted : fs'.files.Sorted
  /-- What was there is there, and spelled as it was. -/
  keys : ∀ q, fs.files.contains q = true → (q ∈ fs'.files.keys ↔ q ∈ fs.files.keys)
  fresh : ∀ q ∈ fs'.files.keys, fs.files.contains q = false → q ∈ written
  file : ∀ q, (∀ p ∈ written, p.same q = false) → fs'.file? q = fs.file? q

theorem Grown.refl {fs : MemoryFs} (hsorted : fs.files.Sorted) (written : List Path) :
    fs.Grown fs written := by
  refine ⟨hsorted, fun _ _ => Iff.rfl, ?_, fun _ _ => rfl⟩
  intro q hq hnone
  rw [PathMap.contains_of_mem_keys hq] at hnone
  exact nomatch hnone

/-- Files grow by what is written. -/
theorem Grown.put {fs fs' : MemoryFs} {written : List Path} (h : fs.Grown fs' written) {p : Path}
    (hp : p ∈ written) (content : ByteArray) : fs.Grown (fs'.put p content) written := by
  have hmem : ∀ q, q ∈ (fs'.put p content).files.keys ↔
      q ∈ fs'.files.keys ∨ q = p ∧ fs'.files.contains p = false :=
    fun q => h.sorted.mem_keys_insert _
  refine ⟨h.sorted.insert p _, ?_, ?_, ?_⟩
  · intro q hq
    rw [hmem, h.keys q hq, or_iff_left]
    -- a file that was there is no new one
    rintro ⟨rfl, hnone⟩
    obtain ⟨k, hk, hsame⟩ := PathMap.contains_iff.mp hq
    have hk' := (h.keys k (PathMap.contains_of_mem_keys hk)).mpr hk
    rw [PathMap.contains_iff.mpr ⟨k, hk', hsame⟩] at hnone
    exact nomatch hnone
  · intro q hq hnew
    rcases (hmem q).mp hq with hq | ⟨rfl, -⟩
    · exact h.fresh q hq hnew
    · exact hp
  · intro q hq
    rw [file?_put, if_neg (Path.same_eq_false_iff.mp (hq p hp)), h.file q hq]

/-- **Writing is growing**, one file after the other. -/
theorem Grown.edits {fs fs' : MemoryFs} {written : List Path} (h : fs.Grown fs' written)
    {es : List Edit} (hes : ∀ e ∈ es, ∃ p ∈ written, ∃ content, e = .write p content) :
    fs.Grown (fs'.edits es) written := by
  induction es generalizing fs' with
  | nil => exact h
  | cons e rest ih =>
      obtain ⟨p, hp, content, rfl⟩ := hes e List.mem_cons_self
      exact ih (h.put hp content) fun e he => hes e (List.mem_cons_of_mem _ he)

variable {fs fs' : MemoryFs} {written : List Path}

/-- The files that were there are those of the later files that were there. -/
theorem Grown.keys_eq (h : fs.Grown fs' written) (hsorted : fs.files.Sorted) :
    fs'.files.keys.filter fs.files.contains = fs.files.keys := by
  refine PathMap.eq_of_mem_iff (h.sorted.keys.filter _) hsorted.keys fun q => ?_
  rw [List.mem_filter]
  constructor
  · rintro ⟨hq, hold⟩
    exact (h.keys q hold).mp hq
  · intro hq
    have hold := PathMap.contains_of_mem_keys hq
    exact ⟨(h.keys q hold).mpr hq, hold⟩

/-- Files that grow leave no less room for listing. -/
theorem Grown.fileBound_le (h : fs.Grown fs' written) (hsorted : fs.files.Sorted) :
    FileSystem.fileBound fs ≤ FileSystem.fileBound fs' := by
  have hlength := List.length_filter_le fs.files.contains fs'.files.keys
  rw [h.keys_eq hsorted] at hlength
  rw [PathMap.keys, PathMap.keys, List.length_map, List.length_map] at hlength
  exact hlength

theorem Grown.isFile (h : fs.Grown fs' written) {q : Path} (hq : FileSystem.isFile fs q = true) :
    FileSystem.isFile fs' q = true := by
  obtain ⟨k, hk, hsame⟩ := PathMap.contains_iff.mp hq
  exact PathMap.contains_iff.mpr ⟨k, (h.keys k (PathMap.contains_of_mem_keys hk)).mpr hk, hsame⟩

/-- Without what is new, the same files are found. -/
theorem Grown.filter_old (h : fs.Grown fs' written) (hsorted : fs.files.Sorted)
    (accepts : Path → Bool) :
    (fs'.files.keys.filter accepts).filter fs.files.contains = fs.files.keys.filter accepts := by
  rw [List.filter_comm, h.keys_eq hsorted]

/-- A selection that accepts no new file selects what it selected. -/
theorem Grown.filter_eq (h : fs.Grown fs' written) (hsorted : fs.files.Sorted)
    {accepts : Path → Bool}
    (hnew : ∀ q ∈ fs'.files.keys, fs.files.contains q = false → accepts q = false) :
    fs'.files.keys.filter accepts = fs.files.keys.filter accepts := by
  rw [← h.filter_old hsorted, List.filter_filter]
  refine List.filter_congr fun q hq => ?_
  cases hold : fs.files.contains q with
  | true => rfl
  | false => rw [hnew q hq hold, Bool.false_and]

/-! ## Removing

    The other way round, files that are only removed grow back into what they
    were. -/

/-- Files are gone that were removed, and no others. -/
theorem file?_removes (fs : MemoryFs) (paths : List Path) (q : Path) :
    (fs.edits (paths.map .remove)).file? q
      = if (paths.any fun p => p.same q) = true then none else fs.file? q := by
  induction paths generalizing fs with
  | nil => rfl
  | cons p rest ih =>
      show ((fs.edit (.remove p)).edits (rest.map .remove)).file? q = _
      rw [ih, file?_remove, List.any_cons]
      by_cases hrest : (rest.any fun p => p.same q) = true
      · rw [hrest, Bool.or_true, if_pos rfl, if_pos rfl]
      · rw [if_neg hrest, Bool.eq_false_iff.mpr hrest, Bool.or_false]
        by_cases hp : p.components = q.components
        · rw [if_pos hp, if_pos (Path.same_iff.mpr hp)]
        · rw [if_neg hp, if_neg fun h => hp (Path.same_iff.mp h)]

/-- What is left after files were removed. -/
theorem mem_keys_removes (fs : MemoryFs) (paths : List Path) {q : Path} :
    q ∈ (fs.edits (paths.map .remove)).files.keys ↔
      q ∈ fs.files.keys ∧ (paths.any fun p => p.same q) = false := by
  induction paths generalizing fs with
  | nil => exact (and_iff_left rfl).symm
  | cons p rest ih =>
      show q ∈ ((fs.edit (.remove p)).edits (rest.map .remove)).files.keys ↔ _
      have hone : q ∈ (fs.edit (.remove p)).files.keys ↔ q ∈ fs.files.keys ∧ p.same q = false := by
        show q ∈ ((fs.files.entries.filter _).map Prod.fst) ↔ q ∈ fs.files.entries.map Prod.fst ∧ _
        simp only [List.mem_map, List.mem_filter, Bool.not_eq_true', Path.same_eq_false_iff]
        constructor
        · rintro ⟨entry, ⟨hentry, hne⟩, rfl⟩
          exact ⟨⟨entry, hentry, rfl⟩, Ne.symm hne⟩
        · rintro ⟨⟨entry, hentry, rfl⟩, hne⟩
          exact ⟨entry, ⟨hentry, Ne.symm hne⟩, rfl⟩
      rw [ih, hone, List.any_cons, Bool.or_eq_false_iff, and_assoc]

/-- **Removing is growing backwards**, by the files that were removed. -/
theorem Grown.removes (hsorted : fs.files.Sorted) (paths : List Path) :
    (fs.edits (paths.map .remove)).Grown fs
      (fs.files.keys.filter fun q => paths.any fun p => p.same q) := by
  have hgone : ∀ q, (fs.edits (paths.map .remove)).files.contains q = true →
      (paths.any fun p => p.same q) = false := by
    intro q hq
    rw [← Bool.not_eq_true]
    intro hany
    rw [PathMap.contains_eq] at hq
    have hfile := fs.file?_removes paths q
    rw [if_pos hany] at hfile
    rw [show (fs.edits (paths.map .remove)).files.get? q = none from hfile] at hq
    cases hq
  refine ⟨hsorted, fun q hq => ?_, fun q hq hnone => ?_, fun q hq => ?_⟩
  · rw [mem_keys_removes, and_iff_left (hgone q hq)]
  · refine List.mem_filter.mpr ⟨hq, ?_⟩
    by_contra hany
    rw [PathMap.contains_of_mem_keys
      ((fs.mem_keys_removes paths).mpr ⟨hq, Bool.eq_false_iff.mpr hany⟩)] at hnone
    cases hnone
  · rw [file?_removes]
    split
    · rename_i hany
      -- the file is gone under the spelling that it had
      cases hfile : fs.file? q with
      | none => rfl
      | some file =>
          have hthere : fs.files.contains q = true := by
            rw [PathMap.contains_eq, show fs.files.get? q = some file from hfile]
            rfl
          obtain ⟨k, hk, hsame⟩ := PathMap.contains_iff.mp hthere
          obtain ⟨p, hp, hpq⟩ := List.any_eq_true.mp hany
          have hmem : k ∈ fs.files.keys.filter fun q => paths.any fun p => p.same q := by
            refine List.mem_filter.mpr ⟨hk, List.any_eq_true.mpr ⟨p, hp, ?_⟩⟩
            exact Path.same_iff.mpr ((Path.same_iff.mp hpq).trans hsame.symm)
          exact absurd hsame (Path.same_eq_false_iff.mp (hq k hmem))
    · rfl

/-- Removing what is not there changes nothing. -/
theorem removes_of_absent {paths : List Path}
    (h : ∀ p ∈ paths, FileSystem.isFile fs p = false) : fs.edits (paths.map .remove) = fs := by
  induction paths with
  | nil => rfl
  | cons p rest ih =>
      have hone : fs.edit (.remove p) = fs := by
        have hentries : fs.files.entries.filter (fun entry => !entry.1.same p)
            = fs.files.entries := by
          refine List.filter_eq_self.mpr fun entry hentry => ?_
          have hnone := List.any_eq_false.mp (h p List.mem_cons_self) entry hentry
          rw [Bool.eq_false_iff.mpr hnone]
          rfl
        show MemoryFs.mk ⟨fs.files.entries.filter fun entry => !entry.1.same p⟩ fs.clock = fs
        rw [hentries]
      show (fs.edit (.remove p)).edits (rest.map .remove) = fs
      rw [hone]
      exact ih fun q hq => h q (List.mem_cons_of_mem p hq)

end MemoryFs

end ProjectBuild
