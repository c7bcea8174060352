import ProjectBuild.Proofs.Closure.Inputs
import ProjectBuild.Proofs.FileSystem.Grown

/-! # Generated files among inputs

    A project finds files by a rule that does not depend on which files there
    are (`Closure.ruleFor`).  When new files appear, those that it finds are
    added to its inputs, except for declarations of its sources.  So its inputs
    stay as they are if it finds no others (`Closure.inputs_grown`). -/

namespace ProjectBuild

/-! ## What a project finds -/

/-- Whether a file is found under a rule, once it is there. -/
def InputRule.finds (rule : InputRule) (file : Path) : Bool :=
  MemoryFs.isListed rule.configDir rule.prunes file && rule.selects file

namespace Closure

/-- The rule for finding inputs; none for a project that only lists files. -/
def ruleFor (configDir : Path) (config : ProjectConfig) (outDir : Option Path) :
    Except Error (Option InputRule) :=
  if config.inputPatterns.isEmpty then .ok none
  else do
    let included ← ProjectConfig.compilePatterns config.inputPatterns
    let excluded ← config.excludeSet
    return some {
      configDir, included, excluded
      outDir := outDir.filter fun outDir => !Path.isWithin outDir configDir }

/-- The patterns of a project make its rule, unless it has none. -/
theorem ruleFor_cases {configDir : Path} {config : ProjectConfig} {outDir : Option Path}
    {rule? : Option InputRule} (h : ruleFor configDir config outDir = .ok rule?) :
    (config.inputPatterns.isEmpty = true ∧ rule? = none) ∨
      ∃ included excluded, ProjectConfig.compilePatterns config.inputPatterns = .ok included ∧
        config.excludeSet = .ok excluded ∧
        rule? = some {
          configDir, included, excluded
          outDir := outDir.filter fun outDir => !Path.isWithin outDir configDir } := by
  unfold ruleFor at h
  split at h
  · rename_i hempty
    exact Or.inl ⟨hempty, (Except.ok.inj h).symm⟩
  · cases hincluded : ProjectConfig.compilePatterns config.inputPatterns with
    | error e =>
        rw [hincluded] at h
        exact nomatch h
    | ok included =>
        rw [hincluded] at h
        cases hexcluded : config.excludeSet with
        | error e =>
            rw [hexcluded] at h
            exact nomatch h
        | ok excluded =>
            rw [hexcluded] at h
            exact Or.inr ⟨included, excluded, rfl, rfl, (Except.ok.inj h).symm⟩

/-- The rule for inputs has the directories of its project. -/
theorem ruleFor_ok {configDir : Path} {config : ProjectConfig} {outDir : Option Path}
    {rule : InputRule} (h : ruleFor configDir config outDir = .ok (some rule)) :
    rule.configDir = configDir ∧
      rule.outDir = outDir.filter fun outDir => !Path.isWithin outDir configDir := by
  obtain ⟨-, hnone⟩ | ⟨included, excluded, -, -, hrule⟩ := ruleFor_cases h
  · exact nomatch hnone
  · obtain rfl := Option.some.inj hrule
    exact ⟨rfl, rfl⟩

/-- **What is selected** are the files that are found under the rule. -/
theorem selectedFiles_value (fs : MemoryFs) (configDir : Path) (config : ProjectConfig)
    (outDir : Option Path) :
    (selectedFiles fs configDir config outDir).value = (ruleFor configDir config outDir).map
      fun rule => fs.files.keys.filter fun file => rule.any fun rule => rule.finds file := by
  unfold selectedFiles ruleFor
  simp only
  by_cases hempty : config.inputPatterns.isEmpty = true
  · rw [if_pos hempty, if_pos hempty]
    exact congrArg Except.ok (List.filter_eq_nil_iff.mpr fun _ _ => Bool.false_ne_true).symm
  · rw [if_neg hempty, if_neg hempty]
    cases ProjectConfig.compilePatterns config.inputPatterns with
    | error e => rfl
    | ok included =>
        cases config.excludeSet with
        | error e => rfl
        | ok excluded =>
            show Except.ok ((fs.listed _ _).filter _) = Except.ok _
            unfold MemoryFs.listed
            rw [List.filter_filter]
            refine congrArg Except.ok (List.filter_congr fun file _ => ?_)
            exact Bool.and_comm _ _

/-- Whether a project finds a file by its patterns, once it is there. -/
def finds (configDir : Path) (config : ProjectConfig) (outDir : Option Path) (file : Path) : Bool :=
  match ruleFor configDir config outDir with
  | .ok rule => rule.any fun rule => rule.finds file
  | .error _ => false

/-- A file is generated if it is a declaration whose source is among the files. -/
theorem isGenerated_iff {files : PathSet} {file : Path} :
    isGenerated files file = true ↔ file.isDeclaration = true ∧
      ∃ kind ∈ [SourceKind.plain, SourceKind.markup], ∃ source,
        file.replaceExtension? kind.extension = some source ∧ files.contains source = true := by
  unfold isGenerated
  rw [Bool.and_eq_true, List.any_eq_true]
  refine and_congr_right fun _ => exists_congr fun kind => and_congr_right fun _ => ?_
  cases file.replaceExtension? kind.extension with
  | none => simp
  | some source => simp

/-- A declaration beside its source is generated, however the source is spelled. -/
theorem isGenerated_of_mem {paths : List Path} {file source p : Path} {kind : SourceKind}
    (hdeclaration : file.isDeclaration = true)
    (hkind : kind ∈ [SourceKind.plain, SourceKind.markup])
    (hsource : file.replaceExtension? kind.extension = some source) (hp : p ∈ paths)
    (hsame : p.same source = true) : isGenerated (PathSet.ofPaths paths) file = true := by
  refine isGenerated_iff.mpr ⟨hdeclaration, kind, hkind, source, hsource, ?_⟩
  rw [PathSet.contains_ofPaths, List.any_eq_true]
  exact ⟨p, hp, hsame⟩

/-- A declaration that is generated from some files is generated from more. -/
theorem isGenerated_mono {files files' : PathSet} {file : Path}
    (h : ∀ q, files.contains q = true → files'.contains q = true)
    (hgenerated : isGenerated files file = true) : isGenerated files' file = true := by
  obtain ⟨hdeclaration, kind, hkind, source, hsource, hmem⟩ := isGenerated_iff.mp hgenerated
  exact isGenerated_iff.mpr ⟨hdeclaration, kind, hkind, source, hsource, h source hmem⟩

/-- What is left without generated declarations. -/
theorem mem_withoutGenerated {files : PathSet} {q : Path} :
    q ∈ withoutGenerated files ↔ q ∈ files.keys ∧ isGenerated files q = false := by
  unfold withoutGenerated
  rw [List.mem_filter, Bool.not_eq_true']

section added

/-! Files are found that were not there before; the old ones are those that were. -/

variable {listed found found' : List Path} {old : Path → Bool}
  (hlisted : ∀ q ∈ listed, old q = true) (hfound : found'.filter old = found)
include hlisted hfound

theorem mem_listed_found {p : Path} :
    p ∈ listed ++ found ↔ p ∈ listed ++ found' ∧ old p = true := by
  rw [← hfound, List.mem_append, List.mem_append, List.mem_filter, or_and_right]
  exact or_congr_left (iff_self_and.mpr (hlisted p))

/-- What is among all files is among the old ones or is new. -/
theorem contains_found {q : Path} (h : (PathSet.ofPaths (listed ++ found')).contains q = true) :
    (PathSet.ofPaths (listed ++ found)).contains q = true ∨
      ∃ p ∈ found', old p = false ∧ p.same q = true := by
  rw [PathSet.contains_ofPaths, List.any_eq_true] at h ⊢
  obtain ⟨p, hp, hsame⟩ := h
  cases hold : old p with
  | true => exact Or.inl ⟨p, (mem_listed_found hlisted hfound).mpr ⟨hp, hold⟩, hsame⟩
  | false =>
      refine Or.inr ⟨p, (List.mem_append.mp hp).resolve_left fun hp => ?_, hold, hsame⟩
      rw [hlisted p hp] at hold
      exact nomatch hold

/-- What was found with some files missing is found with all of them. -/
theorem contains_found_mono (q : Path)
    (h : (PathSet.ofPaths (listed ++ found)).contains q = true) :
    (PathSet.ofPaths (listed ++ found')).contains q = true := by
  rw [PathSet.contains_ofPaths, List.any_eq_true] at h ⊢
  obtain ⟨p, hp, hsame⟩ := h
  exact ⟨p, ((mem_listed_found hlisted hfound).mp hp).1, hsame⟩

omit hlisted in
/-- An old file is in both sets, in the same spelling, or in neither. -/
theorem mem_keys_found (hold : ∀ {p q : Path}, p.components = q.components → old p = old q)
    {q : Path} (hq : old q = true) :
    q ∈ (PathSet.ofPaths (listed ++ found')).keys ↔
      q ∈ (PathSet.ofPaths (listed ++ found)).keys := by
  -- the first path that is the same as an old one is old
  have hpred : (fun p => decide (old p = true ∧ Path.same p q = true)) = fun p => p.same q := by
    funext p
    rw [Bool.eq_iff_iff, decide_eq_true_iff, and_iff_right_iff_imp]
    intro hsame
    rw [hold (Path.same_iff.mp hsame), hq]
  rw [PathSet.mem_keys_ofPaths_iff, PathSet.mem_keys_ofPaths_iff, List.find?_append,
    List.find?_append, ← hfound, List.find?_filter, hpred]

/-- **New files that are generated from the inputs are no inputs**, if no input is
    generated from them. -/
theorem withoutGenerated_found (hold : ∀ {p q : Path}, p.components = q.components → old p = old q)
    (hnew : ∀ p ∈ found', old p = false →
      isGenerated (PathSet.ofPaths
        (withoutGenerated (PathSet.ofPaths (listed ++ found)))) p = true ∧
      ∀ q ∈ withoutGenerated (PathSet.ofPaths (listed ++ found)),
        isGenerated (PathSet.ofPaths [p]) q = false) :
    withoutGenerated (PathSet.ofPaths (listed ++ found'))
      = withoutGenerated (PathSet.ofPaths (listed ++ found)) := by
  have hinput : ∀ p, (PathSet.ofPaths
      (withoutGenerated (PathSet.ofPaths (listed ++ found)))).contains p = true →
      (PathSet.ofPaths (listed ++ found')).contains p = true := by
    intro p hp
    rw [PathSet.contains_ofPaths, List.any_eq_true] at hp
    obtain ⟨r, hr, hsame⟩ := hp
    refine contains_found_mono hlisted hfound p (PathMap.contains_iff.mpr ⟨r, ?_, ?_⟩)
    · exact (mem_withoutGenerated.mp hr).1
    · exact Path.same_iff.mp hsame
  refine PathMap.eq_of_mem_iff ((PathSet.sorted_ofPaths _).keys.filter _)
    ((PathSet.sorted_ofPaths _).keys.filter _) fun q => ?_
  constructor
  · intro hq
    obtain ⟨hkey, hnot⟩ := mem_withoutGenerated.mp hq
    have hmem := PathSet.mem_keys_ofPaths hkey
    rw [← Bool.not_eq_true] at hnot
    cases hq' : old q with
    | true =>
        refine mem_withoutGenerated.mpr ⟨(mem_keys_found hfound hold hq').mp hkey, ?_⟩
        rw [← Bool.not_eq_true]
        exact fun h => hnot (isGenerated_mono (contains_found_mono hlisted hfound) h)
    | false =>
        -- a new file is generated from an input, and all inputs are still there
        have hqfound : q ∈ found' := by
          refine (List.mem_append.mp hmem).resolve_left fun hq => ?_
          exact nomatch (hlisted q hq).symm.trans hq'
        exact absurd (isGenerated_mono hinput (hnew q hqfound hq').1) hnot
  · intro hq
    obtain ⟨hkey, hnot⟩ := mem_withoutGenerated.mp hq
    have hq' : old q = true :=
      ((mem_listed_found hlisted hfound).mp (PathSet.mem_keys_ofPaths hkey)).2
    refine mem_withoutGenerated.mpr ⟨(mem_keys_found hfound hold hq').mpr hkey, ?_⟩
    rw [← Bool.not_eq_true] at hnot ⊢
    intro hgenerated
    -- its source would be an old file or a new one
    obtain ⟨hdeclaration, kind, hkind, source, hsource, hmem⟩ := isGenerated_iff.mp hgenerated
    rcases contains_found hlisted hfound hmem with hmem | ⟨p, hp, hpold, hsame⟩
    · exact hnot (isGenerated_iff.mpr ⟨hdeclaration, kind, hkind, source, hsource, hmem⟩)
    · exact Bool.eq_false_iff.mp ((hnew p hp hpold).2 q hq)
        (isGenerated_of_mem hdeclaration hkind hsource (List.mem_singleton_self p) hsame)

end added

/-- **The inputs stay** when files are written, if every new one that is found is
    generated from them, and none of them from it. -/
theorem inputs_grown {fs fs' : MemoryFs} {written : List Path} (h : fs.Grown fs' written)
    (hsorted : fs.files.Sorted) {configDir : Path} {config : ProjectConfig} {outDir : Option Path}
    {files : List Path} (hfiles : (inputs fs configDir config outDir).value = .ok files)
    (hnew : ∀ q ∈ fs'.files.keys, fs.files.contains q = false →
      finds configDir config outDir q = true →
        isGenerated (PathSet.ofPaths files) q = true ∧
          ∀ input ∈ files, isGenerated (PathSet.ofPaths [q]) input = false) :
    (inputs fs' configDir config outDir).value = .ok files := by
  unfold inputs at hfiles ⊢
  cases hmissing : config.missingFile? fs configDir with
  | some file =>
      rw [hmissing] at hfiles
      exact nomatch hfiles
  | none =>
      have hlisted : ∀ q ∈ (config.files.getD []).map fun file => Path.absolutize configDir ⟨file⟩,
          fs.files.contains q = true := by
        intro q hq
        have := List.find?_eq_none.mp hmissing q hq
        rwa [Bool.not_eq_true, Bool.not_eq_false'] at this
      -- files that are listed have not gone away
      have hmissing' : config.missingFile? fs' configDir = none := by
        refine List.find?_eq_none.mpr fun q hq => ?_
        rw [Bool.not_eq_true, Bool.not_eq_false']
        exact h.isFile (hlisted q hq)
      rw [hmissing] at hfiles
      rw [hmissing']
      simp only [selectedFiles_value] at hfiles ⊢
      unfold finds at hnew
      cases hrule : ruleFor configDir config outDir with
      | error e =>
          rw [hrule] at hfiles
          exact nomatch hfiles
      | ok rule =>
          rw [hrule] at hfiles hnew
          obtain rfl := Except.ok.inj hfiles
          refine congrArg Except.ok
            (withoutGenerated_found hlisted (h.filter_old hsorted _) ?_ fun q hq hold => ?_)
          · intro p q hpq
            rw [PathMap.contains_eq, PathMap.contains_eq, PathMap.get?_congr _ hpq]
          · obtain ⟨hkey, hfinds⟩ := List.mem_filter.mp hq
            exact hnew q hkey hold hfinds

end Closure

end ProjectBuild
