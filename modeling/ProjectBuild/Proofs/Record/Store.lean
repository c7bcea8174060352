import Mathlib.Data.List.Basic
import ProjectBuild.Proofs.FileSystem.Memory
import ProjectBuild.Proofs.Record.Codec
import ProjectBuild.Record.Store

/-! # Records of files in memory

    A record takes the times of the files that exist (`times_get?`).  Taken
    from files in memory it has a written form, and on file it is what its
    project's record reads as (`load_written`), unless the clock has run beyond
    what the reader accepts. -/

namespace ProjectBuild

open MemoryFs (Timely)

/-! ## Capturing times -/

namespace BuildRecord

/-- A recorded time is the time of a file, under any spelling of its path. -/
theorem times_get? (fs : MemoryFs) (paths : List Path) (q : Path) :
    (times fs paths).get? q
      = if ∃ p ∈ paths, p.components = q.components then FileSystem.modified? fs q else none := by
  have hmod : ∀ p : Path, p.components = q.components →
      FileSystem.modified? fs p = FileSystem.modified? fs q := by
    intro p hp
    rw [MemoryFs.modified?_eq, MemoryFs.modified?_eq, fs.file?_congr hp]
  unfold times
  -- from the right, as a later path overwrites an earlier spelling of it
  induction paths using List.reverseRecOn with
  | nil =>
      rw [if_neg (by rintro ⟨p, hp, -⟩; exact nomatch hp)]
      rfl
  | append_singleton paths last ih =>
      have hiff : (∃ p ∈ paths ++ [last], p.components = q.components) ↔
          last.components = q.components ∨ ∃ p ∈ paths, p.components = q.components := by
        constructor
        · rintro ⟨p, hp, hsame⟩
          rcases List.mem_append.mp hp with hp | hp
          · exact Or.inr ⟨p, hp, hsame⟩
          · rw [List.mem_singleton.mp hp] at hsame
            exact Or.inl hsame
        · rintro (hsame | ⟨p, hp, hsame⟩)
          · exact ⟨last, by simp, hsame⟩
          · exact ⟨p, List.mem_append.mpr (Or.inl hp), hsame⟩
      rw [List.filterMap_append]
      cases htime : FileSystem.modified? fs last with
      | none =>
          have hnil : [last].filterMap (fun path =>
              (FileSystem.modified? fs path).map fun time => (path, time)) = [] := by
            rw [List.filterMap_cons_none (by rw [htime]; rfl)]
            rfl
          rw [hnil, List.append_nil, ih]
          by_cases hlast : last.components = q.components
          · rw [if_pos (hiff.mpr (Or.inl hlast)), ← hmod last hlast, htime]
            split <;> rfl
          · by_cases hpaths : ∃ p ∈ paths, p.components = q.components
            · rw [if_pos hpaths, if_pos (hiff.mpr (Or.inr hpaths))]
            · rw [if_neg hpaths, if_neg (fun h => (hiff.mp h).elim hlast hpaths)]
      | some time =>
          have hone : [last].filterMap (fun path =>
              (FileSystem.modified? fs path).map fun time => (path, time)) = [(last, time)] := by
            rw [List.filterMap_cons_some (by rw [htime]; rfl)]
            rfl
          rw [hone, PathMap.get?_ofList_concat, ih]
          by_cases hlast : last.components = q.components
          · rw [if_pos hlast, if_pos (hiff.mpr (Or.inl hlast)), ← hmod last hlast, htime]
          · rw [if_neg hlast]
            by_cases hpaths : ∃ p ∈ paths, p.components = q.components
            · rw [if_pos hpaths, if_pos (hiff.mpr (Or.inr hpaths))]
            · rw [if_neg hpaths, if_neg (fun h => (hiff.mp h).elim hlast hpaths)]

/-- A time on record is that of the file. -/
theorem mem_times {σ : Type} [FileSystem σ] {fs : σ} {paths : List Path} {entry : Path × Time}
    (h : entry ∈ (times fs paths).entries) :
    entry.1 ∈ paths ∧ FileSystem.modified? fs entry.1 = some entry.2 := by
  obtain ⟨p, hp, hentry⟩ := List.mem_filterMap.mp (PathMap.mem_ofList h)
  obtain ⟨time, htime, rfl⟩ := Option.map_eq_some_iff.mp hentry
  exact ⟨hp, htime⟩

theorem times_sorted {σ : Type} [FileSystem σ] (fs : σ) (paths : List Path) :
    (times fs paths).Sorted :=
  PathMap.sorted_ofList _

/-- When all files exist and no path is listed twice, all of them are
    recorded. -/
theorem times_size {σ : Type} [FileSystem σ] {fs : σ} {paths : List Path}
    (hdistinct : paths.Pairwise fun p q => p.components ≠ q.components)
    (hexist : ∀ p ∈ paths, (FileSystem.modified? fs p).isSome = true) :
    (times fs paths).size = paths.length := by
  have hbindings : ∀ paths : List Path,
      (∀ p ∈ paths, (FileSystem.modified? fs p).isSome = true) →
      (paths.filterMap fun path =>
        (FileSystem.modified? fs path).map fun time => (path, time)).map Prod.fst = paths := by
    intro paths hexist
    induction paths with
    | nil => rfl
    | cons p paths ih =>
        obtain ⟨time, htime⟩ := Option.isSome_iff_exists.mp (hexist p List.mem_cons_self)
        rw [List.filterMap_cons_some (by rw [htime]; rfl), List.map_cons,
          ih fun q hq => hexist q (List.mem_cons_of_mem p hq)]
  unfold times
  rw [PathMap.size_ofList]
  · have := congrArg List.length (hbindings paths hexist)
    rwa [List.length_map] at this
  · rw [← hbindings paths hexist] at hdistinct
    have hpairs := List.pairwise_map.mp hdistinct
    exact hpairs

/-! ## Captured records -/

section capture

variable {fs : MemoryFs} {p : Project} {references : PathMap String}

theorem capture_inputs : (capture fs p references).inputs = times fs p.inputs := rfl
theorem capture_references : (capture fs p references).references = references := rfl
theorem capture_project : (capture fs p references).project = p.configPath := rfl

/-- A record is captured with the times of the files. -/
theorem capture_times {entry : Path × Time}
    (h : entry ∈ (capture fs p references).inputs.entries ++
      (capture fs p references).outputs.entries) :
    FileSystem.modified? fs entry.1 = some entry.2 := by
  rcases List.mem_append.mp h with h | h
  · exact (mem_times h).2
  · exact (mem_times h).2

/-- A record that is captured is canonical. -/
theorem capture_canonical (hfs : fs.Timely) (hreferences : references.Sorted) :
    (capture fs p references).Canonical := by
  refine ⟨times_sorted fs _, times_sorted fs _, hreferences, ?_⟩
  intro entry hentry
  obtain ⟨f, hf, htime⟩ := Option.map_eq_some_iff.mp (capture_times hentry)
  obtain ⟨n, -, hn⟩ := hfs _ f hf
  rw [← htime, hn]
  exact Time.ofEpoch_nonneg n

/-- Before the horizon, its times are in range. -/
theorem capture_inRange (hfs : fs.Timely) (hclock : fs.clock < Time.horizon) :
    (capture fs p references).InRange := by
  intro entry hentry
  obtain ⟨f, hf, htime⟩ := Option.map_eq_some_iff.mp (capture_times hentry)
  obtain ⟨n, hle, hn⟩ := hfs _ f hf
  rw [← htime, hn, Time.seconds_ofEpoch]
  exact Nat.lt_of_le_of_lt hle hclock

/-- A record depends on the times of its project's files only. -/
theorem capture_congr {fs' : MemoryFs}
    (h : ∀ q ∈ p.inputs ++ p.expectedOutputs, fs'.file? q = fs.file? q) :
    capture fs' p references = capture fs p references := by
  have htimes : ∀ paths : List Path, (∀ q ∈ paths, fs'.file? q = fs.file? q) →
      times fs' paths = times fs paths := by
    intro paths hpaths
    unfold times
    refine congrArg PathMap.ofList (List.filterMap_congr ?_)
    intro q hq
    rw [MemoryFs.modified?_eq, MemoryFs.modified?_eq, hpaths q hq]
  unfold capture
  rw [htimes p.inputs fun q hq => h q (List.mem_append_left _ hq),
    htimes p.expectedOutputs fun q hq => h q (List.mem_append_right _ hq)]

end capture

/-! ## Records on file -/

/-- A text is read back from its bytes. -/
theorem decode_toUTF8 (text : String) : Utf8.decode text.toUTF8 = .ok text := by
  unfold Utf8.decode String.fromUTF8?
  have hvalid : text.toUTF8.IsValidUTF8 := text.isValidUTF8
  rw [dif_pos hvalid]
  rfl

/-- What a file holds as the record of a project. -/
def recordIn? (p : Project) (file : MemoryFile) : Option BuildRecord :=
  match Utf8.decode file.content with
  | .error _ => none
  | .ok text => (interpret p text).toOption

/-- What is loaded is the record found in the record file. -/
theorem load_eq (fs : MemoryFs) (p : Project) :
    (load fs p).value = (fs.file? p.recordPath).bind (recordIn? p) := by
  unfold load
  rw [MemoryFs.isFile_eq]
  cases hfile : fs.file? p.recordPath with
  | none => rfl
  | some file =>
      simp only [Option.isSome_some, if_true, MemoryFs.read_of_file? hfile, Option.bind_some]
      unfold recordIn?
      cases Utf8.decode file.content with
      | error fault => rfl
      | ok text =>
          simp only [Except.mapError]
          cases interpret p text with
          | error notice => rfl
          | ok r => rfl

/-- What is loaded depends on the record file alone. -/
theorem load_congr {fs fs' : MemoryFs} {p : Project}
    (h : fs'.file? p.recordPath = fs.file? p.recordPath) :
    (load fs' p).value = (load fs p).value := by
  rw [load_eq, load_eq, h]

/-- A record counts if it has the format of this program and is one of the
    project, in whatever spelling. -/
theorem refusal?_eq_none {p : Project} {r : BuildRecord} :
    refusal? p r = none ↔
      r.version = currentVersion ∧ r.project.components = p.configPath.components := by
  unfold refusal?
  by_cases hversion : r.version = currentVersion
  · rw [if_neg (not_not_intro hversion)]
    cases hsame : r.project.same p.configPath with
    | true => exact iff_of_true rfl ⟨hversion, Path.same_iff.mp hsame⟩
    | false =>
        refine iff_of_false (fun h => nomatch h) fun h => ?_
        exact Path.same_eq_false_iff.mp hsame h.2
  · rw [if_pos hversion]
    exact iff_of_false (fun h => nomatch h) fun h => hversion h.1

/-- A text is taken for a record if it can be read and nothing refuses it. -/
theorem interpret_eq_ok {p : Project} {text : String} {r : BuildRecord} :
    interpret p text = .ok r ↔ ofText text = .ok r ∧ refusal? p r = none := by
  unfold interpret
  cases hread : ofText text with
  | error mistake => exact iff_of_false (fun h => nomatch h) fun h => nomatch h.1
  | ok r' =>
      simp only
      cases hrefusal : refusal? p r' with
      | some notice =>
          refine iff_of_false (fun h => nomatch h) fun h => ?_
          obtain rfl := Except.ok.inj h.1
          exact nomatch hrefusal.symm.trans h.2
      | none =>
          constructor
          · intro h
            obtain rfl := Except.ok.inj h
            exact ⟨rfl, hrefusal⟩
          · exact fun h => congrArg Except.ok (Except.ok.inj h.1)

/-- **What counts as a project's record**: text that parses as a record of this
    format and of this project. -/
theorem recordIn?_eq_some {p : Project} {file : MemoryFile} {r : BuildRecord} :
    recordIn? p file = some r ↔
      (∃ text, Utf8.decode file.content = .ok text ∧ ofText text = .ok r) ∧
        r.version = currentVersion ∧ r.project.components = p.configPath.components := by
  unfold recordIn?
  rw [← refusal?_eq_none]
  cases hdecode : Utf8.decode file.content with
  | error fault =>
      refine iff_of_false (fun h => nomatch h) ?_
      rintro ⟨⟨text, h, -⟩, -⟩
      exact nomatch h
  | ok text =>
      simp only
      constructor
      · intro h
        cases hread : interpret p text with
        | error notice =>
            rw [hread] at h
            exact nomatch h
        | ok r' =>
            rw [hread] at h
            obtain rfl := Option.some.inj h
            obtain ⟨htext, hrefusal⟩ := interpret_eq_ok.mp hread
            exact ⟨⟨text, rfl, htext⟩, hrefusal⟩
      · rintro ⟨⟨text', heq, htext⟩, hrefusal⟩
        obtain rfl := Except.ok.inj heq
        rw [interpret_eq_ok.mpr ⟨htext, hrefusal⟩]
        rfl

/-- A usable record is one of the project, in whatever spelling. -/
theorem project_of_recordIn? {p : Project} {file : MemoryFile} {r : BuildRecord}
    (h : recordIn? p file = some r) :
    (∃ text, Utf8.decode file.content = .ok text ∧ ofText text = .ok r) ∧
      r.project.components = p.configPath.components :=
  (recordIn?_eq_some.mp h).imp id And.right

/-- The written form of a record is read back as the record of its project. -/
theorem recordIn?_written {p : Project} {r : BuildRecord} (h : r.Canonical)
    (hversion : r.version = currentVersion)
    (hproject : r.project.components = p.configPath.components) (time : Time) :
    recordIn? p ⟨r.printer.text.toUTF8, time⟩ = some r ∨
      (¬ r.InRange ∧ recordIn? p ⟨r.printer.text.toUTF8, time⟩ = none) := by
  have hbound : r.version < Nat.pow 2 32 := by
    rw [hversion]
    decide
  have hrecover := ofText_printer h hbound
  generalize r.printer.text = text at hrecover ⊢
  have hdecode := decode_toUTF8 text
  rcases hrecover with hread | ⟨hbad, mistake, hread⟩
  · exact Or.inl (recordIn?_eq_some.mpr ⟨⟨text, hdecode, hread⟩, hversion, hproject⟩)
  · refine Or.inr ⟨hbad, Option.eq_none_iff_forall_ne_some.mpr fun r' hr' => ?_⟩
    obtain ⟨⟨text', htext, hread'⟩, -⟩ := recordIn?_eq_some.mp hr'
    obtain rfl := Except.ok.inj (hdecode.symm.trans htext)
    exact nomatch hread.symm.trans hread'

/-- A record that was taken is read back where it was written. -/
theorem load_written {fs fs' : MemoryFs} {p : Project} {references : PathMap String}
    (hfs : fs.Timely) (hclock : fs.clock < Time.horizon) (hreferences : references.Sorted) :
    (load (fs'.put p.recordPath (capture fs p references).printer.text.toUTF8) p).value
      = some (capture fs p references) := by
  rw [load_eq, MemoryFs.file?_put, if_pos rfl, Option.bind_some]
  refine (recordIn?_written (capture_canonical hfs hreferences) rfl rfl _).resolve_right ?_
  exact fun hbad => hbad.1 (capture_inRange hfs hclock)

section outcomes

variable {σ : Type} [FileSystem σ] {fs fs' : σ} {p : Project}

/-- A record that can be written replaces its file; nothing happens to the files
    otherwise. -/
theorem save_cases {r : BuildRecord} {result : Except Error Unit}
    (h : save fs p r = (result, fs')) :
    (∃ problem, result = .error (.record p.recordPath problem) ∧ fs' = fs) ∨
      ∃ text, r.toText = .ok text ∧ fs' = (FileSystem.replace fs p.recordPath text).2 ∧
        result = (FileSystem.replace fs p.recordPath text).1.mapError fun failure =>
          .record p.recordPath (.file failure) := by
  unfold save at h
  cases htext : r.toText with
  | error problem =>
      simp only [htext, Prod.mk.injEq] at h
      exact Or.inl ⟨problem, h.1.symm, h.2.symm⟩
  | ok text =>
      simp only [htext, Prod.mk.injEq] at h
      exact Or.inr ⟨text, rfl, h.2.symm, h.1.symm⟩

/-- What hinders a save is told of the record. -/
theorem save_error {r : BuildRecord} {e : Error} (h : save fs p r = (.error e, fs')) :
    ∃ problem, e = .record p.recordPath problem := by
  rcases save_cases h with ⟨problem, herror, -⟩ | ⟨text, -, -, hresult⟩
  · exact ⟨problem, Except.error.inj herror⟩
  · cases hreplaced : (FileSystem.replace fs p.recordPath text).1 with
    | ok done =>
        rw [hreplaced] at hresult
        exact nomatch hresult
    | error failure =>
        rw [hreplaced] at hresult
        exact ⟨.file failure, Except.error.inj hresult⟩

/-- Making a record invalid removes its file and changes no other. -/
theorem invalidate_files {result : Except Error Bool} (h : invalidate fs p = (result, fs')) :
    fs' = (FileSystem.remove fs p.recordPath).2 :=
  (congrArg Prod.snd h).symm

/-- A record was there if its file could be removed. -/
theorem invalidate_ok {existed : Bool} (h : invalidate fs p = (.ok existed, fs')) :
    (FileSystem.remove fs p.recordPath).1 = .ok existed := by
  have hresult : (FileSystem.remove fs p.recordPath).1.mapError _ = .ok existed :=
    congrArg Prod.fst h
  cases hremoved : (FileSystem.remove fs p.recordPath).1 with
  | ok found =>
      rw [hremoved] at hresult
      exact congrArg Except.ok (Except.ok.inj hresult)
  | error failure =>
      rw [hremoved] at hresult
      exact nomatch hresult

/-- What hinders a removal is told of the record. -/
theorem invalidate_error {e : Error} (h : invalidate fs p = (.error e, fs')) :
    ∃ failure, (FileSystem.remove fs p.recordPath).1 = .error failure ∧
      e = .record p.recordPath (.file failure) := by
  have hresult : (FileSystem.remove fs p.recordPath).1.mapError _ = .error e :=
    congrArg Prod.fst h
  cases hremoved : (FileSystem.remove fs p.recordPath).1 with
  | ok found =>
      rw [hremoved] at hresult
      exact nomatch hresult
  | error failure =>
      rw [hremoved] at hresult
      exact ⟨failure, rfl, (Except.error.inj hresult).symm⟩

end outcomes

/-- Writing a record puts its written form on file. -/
theorem save_eq {fs : MemoryFs} {p : Project} {r : BuildRecord} (h : r.Canonical) :
    save fs p r = (.ok (), fs.put p.recordPath r.printer.text.toUTF8) := by
  unfold save
  rw [toText_eq h]
  rfl

/-- **Records go through files unchanged**: writing a record succeeds, whatever
    its strings are, and the record that its project then has is the same one.
    And whatever the files hold, a project's record is one of the current
    format and of the project itself. -/
theorem load_save (fs : MemoryFs) (p : Project) :
    (∀ r : BuildRecord, r.Canonical → r.InRange → r.version = currentVersion →
      r.project.same p.configPath = true →
        ∃ fs', save fs p r = (.ok (), fs') ∧ (load fs' p).value = some r) ∧
    ∀ r, (load fs p).value = some r →
      r.version = currentVersion ∧ r.project.same p.configPath = true := by
  constructor
  · intro r hcanonical hrange hversion hproject
    refine ⟨_, save_eq hcanonical, ?_⟩
    rw [load_eq, MemoryFs.file?_put, if_pos rfl, Option.bind_some]
    have hwritten := recordIn?_written hcanonical hversion (Path.same_iff.mp hproject) fs.nextTime
    exact hwritten.resolve_right fun hbad => hbad.1 hrange
  · intro r hload
    rw [load_eq] at hload
    obtain ⟨file, -, hfile⟩ := Option.bind_eq_some_iff.mp hload
    obtain ⟨-, hversion, hproject⟩ := recordIn?_eq_some.mp hfile
    exact ⟨hversion, Path.same_iff.mpr hproject⟩

/-- A project whose path takes escapes to write. -/
def awkwardProject : Project :=
  .ofConfig ⟨"/r/é \"q\" \\/tsconfig.json"⟩ default

/-- A record of it that spells the path in another way; its strings take all
    kinds of escapes, and one of its times is close to the horizon. -/
def awkwardRecord : BuildRecord where
  version := currentVersion
  toolVersion := "\"0.1.0\" \\ \x00\x08\x0c\n\r\t\x1f\x7f"
  project := ⟨"/r/./é \"q\" \\//tsconfig.json"⟩
  configFingerprint := "\u2028 ∀ 𝔰"
  buildStamp := ""
  inputs := .ofList [(⟨"/r/ü.ts"⟩, .ofEpoch 1700000000 999999999), (⟨"/r/\n"⟩, .ofEpoch 0 0)]
  outputs := .ofList [(⟨"/r/ü.js"⟩, .ofEpoch 9223372036854775807 1)]
  references := .ofList [(⟨"/r/a/tsconfig.json"⟩, "\x01"), (⟨"/r/b/tsconfig.json"⟩, "")]

/-- Such a record is written and read back, and is found to be its project's. -/
theorem load_save_awkward :
    ∃ fs, save ({} : MemoryFs) awkwardProject awkwardRecord = (.ok (), fs) ∧
      (load fs awkwardProject).value = some awkwardRecord ∧
      awkwardRecord.project.same awkwardProject.configPath = true := by
  have hproject : awkwardRecord.project.same awkwardProject.configPath = true := by decide +kernel
  have hcanonical : awkwardRecord.Canonical :=
    ⟨PathMap.sorted_ofList _, PathMap.sorted_ofList _, PathMap.sorted_ofList _, by decide +kernel⟩
  have hrange : awkwardRecord.InRange := by
    unfold InRange
    decide +kernel
  obtain ⟨fs, hsave, hload⟩ :=
    (load_save ({} : MemoryFs) awkwardProject).1 awkwardRecord hcanonical hrange rfl hproject
  exact ⟨fs, hsave, hload, ((load_save fs awkwardProject).2 awkwardRecord hload).2⟩

end BuildRecord

end ProjectBuild
