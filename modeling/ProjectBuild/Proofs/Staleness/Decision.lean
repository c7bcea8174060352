import Mathlib.Data.List.Perm.Subperm
import ProjectBuild.Proofs.Staleness

/-! # The decision

    A project is up to date if and only if its own files are as its record has
    them (`Staleness.Current`) and its references are settled with the stamps on
    record.  `Staleness.Current` says it of each file by itself; the check runs
    through the files with an oldest output in hand, and it counts the recorded
    inputs where `Current` compares sets (`BuildRecord.hasInputs_iff`). -/

namespace ProjectBuild

/-- **Counting decides whether the sets of inputs are equal**, as neither the
    record nor the project has an input twice. -/
theorem BuildRecord.hasInputs_iff {r : BuildRecord} {inputs : List Path}
    (hsorted : r.inputs.Sorted)
    (hdistinct : inputs.Pairwise fun p q => p.components ≠ q.components) :
    r.hasInputs inputs = true ↔
      ∀ q, r.inputs.contains q = true ↔ ∃ p ∈ inputs, p.components = q.components := by
  have hinputs : (inputs.map Path.components).Nodup := List.pairwise_map.mpr hdistinct
  have hkeys : (r.inputs.keys.map Path.components).Nodup :=
    List.pairwise_map.mpr (hsorted.keys.imp Path.ne_of_lt)
  have hlength : r.inputs.size = (r.inputs.keys.map Path.components).length := by
    rw [List.length_map, PathMap.keys, List.length_map, PathMap.size]
  have hcontains : ∀ q, r.inputs.contains q = true ↔
      q.components ∈ r.inputs.keys.map Path.components := fun q => by
    rw [PathMap.contains_iff, List.mem_map]
  unfold hasInputs
  rw [Bool.and_eq_true, beq_iff_eq, List.all_eq_true, hlength]
  constructor
  · rintro ⟨hsize, hall⟩ q
    -- the inputs are among the keys, and as many
    have hsubset : inputs.map Path.components ⊆ r.inputs.keys.map Path.components := by
      intro parts hparts
      obtain ⟨p, hp, rfl⟩ := List.mem_map.mp hparts
      exact (hcontains p).mp (hall p hp)
    have hperm := (hinputs.subperm hsubset).perm_of_length_le (by rw [hsize, List.length_map])
    rw [hcontains, ← hperm.mem_iff, List.mem_map]
  · intro h
    have hperm : (r.inputs.keys.map Path.components).Perm (inputs.map Path.components) := by
      refine (List.perm_ext_iff_of_nodup hkeys hinputs).mpr fun parts => ?_
      constructor
      · intro hparts
        obtain ⟨q, hq, rfl⟩ := List.mem_map.mp hparts
        exact List.mem_map.mpr ((h q).mp (PathMap.contains_of_mem_keys hq))
      · intro hparts
        obtain ⟨p, hp, rfl⟩ := List.mem_map.mp hparts
        exact (hcontains p).mp ((h p).mpr ⟨p, hp, rfl⟩)
    exact ⟨by rw [hperm.length_eq, List.length_map], fun p hp => (h p).mpr ⟨p, hp, rfl⟩⟩

namespace Staleness

variable {σ : Type} [FileSystem σ]

/-- A project's own files are as its record has them. -/
structure Current (fs : σ) (p : Project) (r : BuildRecord) : Prop where
  configuration : r.configFingerprint = p.configFingerprint
  inputSet : ∀ q, r.inputs.contains q = true ↔ ∃ input ∈ p.inputs, input.components = q.components
  outputsExist : ∀ o ∈ r.outputs.keys, (FileSystem.modified? fs o).isSome = true
  inputsExist : ∀ q ∈ p.inputs, (FileSystem.modified? fs q).isSome = true
  covered : ∀ q ∈ p.inputs, ∀ o ∈ r.outputs.keys, ∀ t u, FileSystem.modified? fs q = some t →
    FileSystem.modified? fs o = some u → t.nanos ≤ u.nanos
  /-- With no outputs to compare them with, the inputs have the times on record. -/
  unchanged : r.outputs.keys = [] → ∀ q ∈ p.inputs, r.inputs.get? q = FileSystem.modified? fs q

/-- **The project's own files give no ground to rebuild it** exactly if they are
    as its record has them. -/
theorem ownReason?_none_iff_current {fs : σ} {p : Project} {r : BuildRecord}
    (hsorted : r.inputs.Sorted)
    (hdistinct : p.inputs.Pairwise fun p q => p.components ≠ q.components) :
    ownReason? fs p r = none ↔ Current fs p r := by
  rw [ownReason?_none_iff, BuildRecord.hasInputs_iff hsorted hdistinct]
  constructor
  · rintro ⟨hconfig, hset, houtputs, hinputs⟩
    refine ⟨hconfig, hset, houtputs, fun q hq => ?_, fun q hq o ho t u ht hu => ?_,
      fun hnil q hq => ?_⟩
    · obtain ⟨time, htime, -⟩ := hinputs q hq
      rw [htime]
      rfl
    · obtain ⟨time, htime, -, hcovered⟩ := hinputs q hq
      obtain rfl := Option.some.inj (ht.symm.trans htime)
      exact Int.not_lt.mp (hcovered o ho u hu)
    · obtain ⟨time, htime, hrecorded, -⟩ := hinputs q hq
      exact (hrecorded hnil).trans htime.symm
  · intro h
    refine ⟨h.configuration, h.inputSet, h.outputsExist, fun q hq => ?_⟩
    obtain ⟨time, htime⟩ := Option.isSome_iff_exists.mp (h.inputsExist q hq)
    exact ⟨time, htime, fun hnil => (h.unchanged hnil q hq).trans htime,
      fun o ho u hu => Int.not_lt.mpr (h.covered q hq o ho time u htime hu)⟩

/-- **The first reference that blocks is named.** -/
theorem Blocked.check_eq {g : Graph} {statuses : StatusTable} {i : Nat}
    (h : Blocked g statuses i) (fs : σ) (records : Records) :
    ∃ front k back, g.dependencies i = front ++ k :: back ∧
      (∀ d ∈ front, (statuses.get d).blocksDependents = false) ∧
      (statuses.get k).blocksDependents = true ∧
      check fs g statuses records i = .upstreamBlocked (g.node k).configPath := by
  obtain ⟨k, hk⟩ := Option.isSome_iff_exists.mp (blocked?_isSome.mpr h)
  obtain ⟨hblocks, front, back, hsplit, hfront⟩ := List.find?_eq_some_iff_append.mp hk
  refine ⟨front, k, back, hsplit, fun d hd => Bool.not_eq_true' _ ▸ hfront d hd, hblocks, ?_⟩
  unfold check
  rw [hk]

/-- Of the files' times only those of the project's inputs and of its recorded
    outputs count. -/
theorem check_congr_times {fs fs' : σ} {g : Graph} (statuses : StatusTable) {records : Records}
    {i : Nat}
    (hinputs : ∀ q ∈ (g.node i).inputs, FileSystem.modified? fs' q = FileSystem.modified? fs q)
    (houtputs : ∀ r, recordOf? records i = some r → ∀ q ∈ r.outputs.keys,
      FileSystem.modified? fs' q = FileSystem.modified? fs q) :
    check fs' g statuses records i = check fs g statuses records i := by
  refine check_congr (fun _ _ => rfl) (fun _ _ => rfl) rfl (fun r hr => ?_) fun _ _ _ => rfl
  refine ownReason?_congr_times fun q hq => ?_
  rcases List.mem_append.mp hq with hq | hq
  · exact hinputs q hq
  · exact houtputs r hr q hq

/-! ## The decision -/

/-- Projects that failed or were skipped block those that depend on them. -/
theorem blocksDependents_iff {status : Status} :
    status.blocksDependents = true ↔ status ∈ [.failed, .skipped] := by
  cases status <;> decide

theorem blocksDependents_eq_false_iff {status : Status} :
    status.blocksDependents = false ↔ status ∉ [.failed, .skipped] := by
  rw [← blocksDependents_iff, Bool.not_eq_true]

/-- A project that does not block its dependents and is not rebuilt. -/
theorem settled_iff {status : Status} :
    status.blocksDependents = false ∧ status.isRebuild = false ↔
      status ∉ [.failed, .skipped, .stale, .building, .built] := by
  cases status <;> decide

/-- **What a check decides.**  It finds a project up to date exactly if no
    reference blocks it or is rebuilt and a record has its configuration, its
    inputs, its files' times and its references' stamps.  A reference that failed
    or was skipped is named, the first of them, whatever else there is.  And no
    file counts but the project's inputs and the recorded outputs. -/
theorem check_exact (fs : σ) (g : Graph) (statuses : StatusTable) (records : Records) (i : Nat) :
    ((g.node i).inputs.Pairwise (fun p q => p.components ≠ q.components) →
      (∀ r, recordOf? records i = some r → r.inputs.Sorted) →
      (check fs g statuses records i = .upToDate ↔
        (∀ j ∈ g.dependencies i,
          statuses.get j ∉ [.failed, .skipped, .stale, .building, .built]) ∧
        ∃ r, recordOf? records i = some r ∧ Current fs (g.node i) r ∧
          ∀ j ∈ g.dependencies i,
            r.references.get? (g.node j).configPath = stampOf? records j)) ∧
    (∀ j ∈ g.dependencies i, statuses.get j ∈ [.failed, .skipped] →
      ∃ front k back, g.dependencies i = front ++ k :: back ∧
        (∀ d ∈ front, statuses.get d ∉ [.failed, .skipped]) ∧
        statuses.get k ∈ [.failed, .skipped] ∧
        check fs g statuses records i = .upstreamBlocked (g.node k).configPath) ∧
    ∀ fs' : σ,
      (∀ q ∈ (g.node i).inputs, FileSystem.modified? fs' q = FileSystem.modified? fs q) →
      (∀ r, recordOf? records i = some r → ∀ q ∈ r.outputs.keys,
        FileSystem.modified? fs' q = FileSystem.modified? fs q) →
      check fs' g statuses records i = check fs g statuses records i := by
  refine ⟨fun hdistinct hsorted => ?_, fun j hj hstatus => ?_,
    fun fs' hinputs houtputs => check_congr_times statuses hinputs houtputs⟩
  · have hsettled : (¬ Blocked g statuses i ∧
        ∀ j ∈ g.dependencies i, (statuses.get j).isRebuild = false) ↔
        ∀ j ∈ g.dependencies i,
          statuses.get j ∉ [.failed, .skipped, .stale, .building, .built] := by
      simp only [← settled_iff, Blocked, not_exists, not_and, Bool.not_eq_true, forall_and]
    rw [check_upToDate_iff, ← and_assoc, hsettled]
    refine and_congr_right fun _ => exists_congr fun r => and_congr_right fun hr => ?_
    rw [ownReason?_none_iff_current (hsorted r hr) hdistinct]
  · obtain ⟨front, k, back, hsplit, hfront, hk, hcheck⟩ :=
      Blocked.check_eq ⟨j, hj, blocksDependents_iff.mpr hstatus⟩ fs records
    exact ⟨front, k, back, hsplit, fun d hd => blocksDependents_eq_false_iff.mp (hfront d hd),
      blocksDependents_iff.mp hk, hcheck⟩

/-- A project with the source `m.ts`. -/
def sourceProject (dir : Path) : Project :=
  { Project.ofConfig (dir.join ⟨configFileName⟩) {} with
    inputs := [dir.join ⟨"m.ts"⟩]
    configFingerprint := "config" }

/-- Two projects, of which the second references the first. -/
def sourceGraph : Graph :=
  ⟨[sourceProject ⟨"/r/core"⟩, sourceProject ⟨"/r/app"⟩], [(1, 0)], [1]⟩

/-- Their sources, and a script for each. -/
def builtFiles : MemoryFs :=
  .ofTexts [("/r/core/m.ts", ""), ("/r/app/m.ts", ""), ("/r/core/m.js", ""), ("/r/app/m.js", "")]

/-- The record of the first project, with a stamp of its own. -/
def firstRecord : BuildRecord :=
  { BuildRecord.capture builtFiles (sourceGraph.node 0) {} with buildStamp := "first" }

/-- The record of the second, based on that of the first. -/
def secondRecord : BuildRecord :=
  BuildRecord.capture builtFiles (sourceGraph.node 1)
    (PathMap.empty.insert (sourceGraph.node 0).configPath "first")

/-- The second of two projects is up to date; it is not if the first failed; and
    a file that it does not have changes nothing. -/
theorem check_exact_pair :
    Current builtFiles (sourceGraph.node 1) secondRecord ∧
    check builtFiles sourceGraph ⟨[.failed, .unknown]⟩ [some firstRecord, some secondRecord] 1
      = .upstreamBlocked (sourceGraph.node 0).configPath ∧
    check (builtFiles.put ⟨"/r/app/c.ts"⟩ ByteArray.empty) sourceGraph ⟨[.upToDate, .unknown]⟩
      [some firstRecord, some secondRecord] 1 = .upToDate := by
  have hcheck : check builtFiles sourceGraph ⟨[.upToDate, .unknown]⟩
      [some firstRecord, some secondRecord] 1 = .upToDate := by decide +kernel
  have hrecord : ∀ first r : BuildRecord, recordOf? [some first, some secondRecord] 1 = some r →
      r = secondRecord := by
    generalize secondRecord = second
    exact fun first r hr => (Option.some.inj hr).symm
  have hkeys : secondRecord.outputs.keys = [⟨"/r/app/m.js"⟩] := by decide +kernel
  have hsorted : secondRecord.inputs.Sorted := by
    unfold secondRecord
    rw [BuildRecord.capture_inputs]
    exact PathMap.sorted_ofList _
  have hdistinct : (sourceGraph.node 1).inputs.Pairwise fun p q => p.components ≠ q.components := by
    decide +kernel
  obtain ⟨hupToDate, -, hframe⟩ := check_exact builtFiles sourceGraph ⟨[.upToDate, .unknown]⟩
    [some firstRecord, some secondRecord] 1
  refine ⟨?_, ?_, ?_⟩
  · obtain ⟨-, r, hr, hcurrent, -⟩ := (hupToDate hdistinct fun r hr => by
      rw [hrecord _ r hr]
      exact hsorted).mp hcheck
    rw [hrecord _ r hr] at hcurrent
    exact hcurrent
  · obtain ⟨-, hblocked, -⟩ := check_exact builtFiles sourceGraph ⟨[.failed, .unknown]⟩
      [some firstRecord, some secondRecord] 1
    have hdependencies : sourceGraph.dependencies 1 = [0] := by decide +kernel
    obtain ⟨front, k, back, hsplit, -, -, hcheck⟩ :=
      hblocked 0 (hdependencies ▸ List.mem_singleton.mpr rfl) (by decide)
    have hk : k ∈ sourceGraph.dependencies 1 := by
      rw [hsplit]
      exact List.mem_append_right _ List.mem_cons_self
    rw [hdependencies, List.mem_singleton] at hk
    rw [hcheck, hk]
  · refine (hframe _ (by decide +kernel) fun r hr => ?_).trans hcheck
    rw [hrecord _ r hr, hkeys]
    decide +kernel

end Staleness

end ProjectBuild
