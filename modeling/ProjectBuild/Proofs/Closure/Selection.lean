import ProjectBuild.Proofs.Closure.Generated
import ProjectBuild.Proofs.Closure.Restrictions
import ProjectBuild.Proofs.Glob.Meaning
import ProjectBuild.Proofs.Path.Normal

/-! # Which files are inputs

    What a project takes, told without the search for it: a file that it lists,
    or one below its directory that its patterns select (`Closure.Selects`),
    unless the file is a declaration beside its own source.  The search leaves
    whole directories out.  That is the same as asking of each directory between
    the configuration and a file whether it is excluded, since a file below a
    directory that holds outputs is not selected either. -/

namespace ProjectBuild

/-! ## Directories on the way -/

namespace Path

/-- A normal path is its directory and one component more. -/
theorem Normal.components_dir {p : Path} (h : p.Normal) (hroot : p.components ≠ [.root]) :
    ∃ c, p.components = p.dir.components ++ [c] := by
  rw [Path.components_dir, if_neg hroot]
  exact ⟨_, (List.dropLast_append_getLast (components_ne_nil h.isAbsolute)).symm⟩

/-- The parent of a normal path, unless the path is the root. -/
theorem Normal.parent? {p : Path} (h : p.Normal) (hroot : p.components ≠ [.root]) :
    p.parent? = some p.dir := by
  cases hparent : p.parent? with
  | some q => rw [(dir_of_parent? hparent).1]
  | none =>
      rcases components_of_parent?_none hparent with hnil | hroot'
      · exact absurd hnil (components_ne_nil h.isAbsolute)
      · exact absurd hroot' hroot

/-- A normal path is one deeper than its directory. -/
theorem Normal.depth_dir {p : Path} (h : p.Normal) (hroot : p.components ≠ [.root]) :
    p.depth = p.dir.depth + 1 := by
  obtain ⟨c, hc⟩ := h.components_dir hroot
  unfold depth
  rw [hc, List.length_append, List.length_singleton]

/-- What a normal path lies inside is its directory, or holds its directory. -/
theorem Normal.inside_iff_dir {dir p : Path} (h : p.Normal) (hroot : p.components ≠ [.root]) :
    Inside dir p ↔ p.dir.same dir = true ∨ Inside dir p.dir := by
  obtain ⟨c, hc⟩ := h.components_dir hroot
  have hself : Inside p.dir p := by
    rw [inside_iff, hc]
    exact ⟨List.prefix_append _ _, fun h => List.cons_ne_nil c [] (List.append_right_eq_self.mp h)⟩
  constructor
  · intro hinside
    obtain ⟨hstart, hne⟩ := inside_iff.mp hinside
    rw [hc, List.prefix_concat_iff, ← hc] at hstart
    by_cases heq : p.dir.components = dir.components
    · exact Or.inl (same_iff.mpr heq)
    · exact Or.inr (inside_iff.mpr ⟨hstart.resolve_left hne.symm, heq⟩)
  · rintro (hsame | habove)
    · rw [inside_iff, ← same_iff.mp hsame, ← inside_iff]
      exact hself
    · exact habove.trans hself

/-- What lies inside an absolute path is not the root. -/
theorem ne_root_of_inside {top p : Path} (htop : top.isAbsolute = true) (h : Inside top p) :
    p.components ≠ [.root] := by
  intro hroot
  obtain ⟨rest, hrest⟩ := isAbsolute_iff_components.mp htop
  obtain ⟨hstart, hne⟩ := inside_iff.mp h
  rw [hroot, hrest, List.cons_prefix_cons, List.prefix_nil] at hstart
  rw [hroot, hrest, hstart.2] at hne
  exact hne rfl

/-- Nothing lies between a normal path and its directory. -/
theorem Normal.not_between {dir p : Path} (h : p.Normal) (hroot : p.components ≠ [.root]) :
    ¬ (Inside p.dir dir ∧ Inside dir p) := by
  rintro ⟨hbelow, habove⟩
  rcases (h.inside_iff_dir hroot).mp habove with hsame | habove
  · rw [inside_iff, same_iff.mp hsame] at hbelow
    exact hbelow.2 rfl
  · exact (inside_iff.mp (hbelow.trans habove)).2 rfl

/-- **The directories between a normal path and one that holds it** are those that
    are passed on the way up. -/
theorem Normal.mem_between {top file : Path} (hfile : file.Normal) (htop : top.isAbsolute = true)
    (hbelow : Inside top file) {dir : Path} :
    dir ∈ between top file ↔ dir.Normal ∧ Inside top dir ∧ Inside dir file := by
  unfold between ancestors
  generalize hdepth : file.depth = n
  induction n generalizing file with
  | zero =>
      have hnil : file.components = [] := List.length_eq_zero_iff.mp hdepth
      exact absurd hnil (components_ne_nil hfile.isAbsolute)
  | succ n ih =>
      have hroot := ne_root_of_inside htop hbelow
      have hdir := hfile.dir hroot
      have hlength := hfile.depth_dir hroot
      unfold ancestorsUpTo
      rw [hfile.parent? hroot]
      simp only [List.takeWhile_cons]
      cases htopdir : file.dir.same top with
      | true =>
          -- the directory of the file is the top: nothing lies between
          simp only [Bool.not_true, Bool.false_eq_true, if_false, List.not_mem_nil, false_iff]
          rintro ⟨-, hbelow', habove⟩
          rw [inside_iff, ← same_iff.mp htopdir, ← inside_iff] at hbelow'
          exact hfile.not_between hroot ⟨hbelow', habove⟩
      | false =>
          have hbelowdir : Inside top file.dir :=
            ((hfile.inside_iff_dir hroot).mp hbelow).resolve_left (Bool.eq_false_iff.mp htopdir)
          simp only [Bool.not_false, if_true, List.mem_cons]
          rw [ih hdir hbelowdir (by omega), hfile.inside_iff_dir hroot]
          constructor
          · rintro (rfl | ⟨hnormal, hbelow', habove⟩)
            · exact ⟨hdir, hbelowdir, Or.inl (same_iff.mpr rfl)⟩
            · exact ⟨hnormal, hbelow', Or.inr habove⟩
          · rintro ⟨hnormal, hbelow', hsame | habove⟩
            · exact Or.inl (hnormal.1.eq_of_components hdir.1 (same_iff.mp hsame).symm)
            · exact Or.inr ⟨hnormal, hbelow', habove⟩

end Path

/-! ## Patterns -/

namespace Glob

/-- Patterns name a path: one of them matches what is left of it below a
    directory. -/
def Names (patterns : List String) (dir path : Path) : Prop :=
  ∃ set relative, GlobSet.ofPatterns patterns = .ok set ∧
    Path.afterDir? dir path = some relative ∧ set.accepts relative = true

theorem not_names_nil {dir path : Path} : ¬ Names [] dir path := by
  rintro ⟨set, relative, hset, -, haccepts⟩
  obtain rfl := Except.ok.inj hset
  cases haccepts

end Glob

/-- Patterns are compiled if all of them can be read. -/
theorem ProjectConfig.compilePatterns_eq_ok {patterns : List String} {set : GlobSet} :
    compilePatterns patterns = .ok set ↔ GlobSet.ofPatterns patterns = .ok set := by
  unfold compilePatterns
  cases GlobSet.ofPatterns patterns with
  | error fault =>
      constructor
      · intro h
        cases h
      · intro h
        cases h
  | ok set' => exact ⟨fun h => congrArg _ (Except.ok.inj h), fun h => congrArg _ (Except.ok.inj h)⟩

/-- A configuration asks for a path by patterns: for everything if it states
    neither patterns nor files. -/
def ProjectConfig.Includes (config : ProjectConfig) (configDir path : Path) : Prop :=
  match config.includes with
  | some patterns => Glob.Names patterns configDir path
  | none => config.files = none

/-- A configuration excludes a path. -/
def ProjectConfig.Excludes (config : ProjectConfig) (configDir path : Path) : Prop :=
  Glob.Names (config.excludes.getD defaultExcludes) configDir path

/-- What a configuration includes is what its patterns name. -/
theorem ProjectConfig.includes_iff {config : ProjectConfig} {configDir path : Path}
    (h : Path.isWithin configDir path = true) :
    config.Includes configDir path ↔ Glob.Names config.inputPatterns configDir path := by
  unfold Includes inputPatterns
  cases config.includes with
  | some patterns => rfl
  | none =>
      cases config.files with
      | some files =>
          constructor
          · intro h
            cases h
          · exact fun h => absurd h Glob.not_names_nil
      | none =>
          refine ⟨fun _ => ?_, fun _ => rfl⟩
          have hrest : ∃ relative, Path.afterDir? configDir path = some relative := by
            unfold Path.afterDir?
            rw [if_pos h]
            exact ⟨_, rfl⟩
          obtain ⟨relative, hrelative⟩ := hrest
          refine ⟨⟨[[.anySegments, .anySequence]]⟩, relative, rfl, hrelative, ?_⟩
          show (Glob.Matches _ _ || false) = true
          rw [Bool.or_false]
          exact Glob.matches_everything _

namespace InputRule

/-- A set of patterns accepts a path, as seen from the configuration's directory. -/
theorem names_iff {rule : InputRule} {patterns : List String} {set : GlobSet} {path : Path}
    (h : GlobSet.ofPatterns patterns = .ok set) :
    rule.names set path = true ↔ Glob.Names patterns rule.configDir path := by
  unfold names Glob.Names
  rw [h]
  cases Path.afterDir? rule.configDir path with
  | none =>
      constructor
      · intro h
        cases h
      · rintro ⟨_, _, -, h, -⟩
        cases h
  | some relative =>
      constructor
      · exact fun h => ⟨set, relative, rfl, rfl, h⟩
      · rintro ⟨set', relative', hset, hrelative, haccepts⟩
        cases hset
        cases hrelative
        exact haccepts

end InputRule

namespace Closure

/-! ## What a project finds -/

/-- A file that a project finds: a source file below the directory of its
    configuration that is included and not excluded, in no excluded directory, and
    not where outputs go, unless they go to a directory that holds the
    configuration. -/
structure Selects (configDir : Path) (config : ProjectConfig) (outDir : Option Path)
    (file : Path) : Prop where
  below : Path.Inside configDir file
  source : file.isSource = true
  included : config.Includes configDir file
  kept : ¬ config.Excludes configDir file
  entered : ∀ dir : Path, dir.Normal → Path.Inside configDir dir → Path.Inside dir file →
    ¬ config.Excludes configDir dir
  noOutput : ∀ dir, outDir = some dir → Path.isWithin dir configDir = false →
    Path.isWithin dir file = false

/-- The rule of a project compiles its patterns. -/
theorem ruleFor_patterns {configDir : Path} {config : ProjectConfig} {outDir : Option Path}
    {rule : InputRule} (h : ruleFor configDir config outDir = .ok (some rule)) :
    GlobSet.ofPatterns config.inputPatterns = .ok rule.included ∧
      GlobSet.ofPatterns (config.excludes.getD defaultExcludes) = .ok rule.excluded := by
  rw [← ProjectConfig.compilePatterns_eq_ok, ← ProjectConfig.compilePatterns_eq_ok]
  obtain ⟨-, hnone⟩ | ⟨included, excluded, hincluded, hexcluded, hrule⟩ := ruleFor_cases h
  · cases hnone
  · obtain rfl := Option.some.inj hrule
    exact ⟨hincluded, hexcluded⟩

/-- A file is no output if it lies below no output directory. -/
theorem isOutput_eq_false_iff {rule : InputRule} {file : Path} :
    rule.isOutput file = false ↔
      ∀ dir, rule.outDir = some dir → Path.isWithin dir file = false := by
  unfold InputRule.isOutput
  cases rule.outDir with
  | none =>
      constructor
      · intro _ dir h
        cases h
      · exact fun _ => rfl
  | some outDir =>
      constructor
      · rintro h dir hdir
        cases hdir
        exact h
      · exact fun h => h outDir rfl

/-- A directory is not looked into if it is the output directory or excluded. -/
theorem prunes_eq_true_iff {rule : InputRule} {dir : Path} :
    rule.prunes dir = true ↔
      (∃ outDir, rule.outDir = some outDir ∧ dir.same outDir = true) ∨
        rule.names rule.excluded dir = true := by
  unfold InputRule.prunes
  rw [Bool.or_eq_true]
  refine or_congr_left ?_
  cases rule.outDir with
  | none =>
      constructor
      · intro h
        cases h
      · rintro ⟨outDir, h, -⟩
        cases h
  | some outDir =>
      constructor
      · exact fun h => ⟨outDir, rfl, h⟩
      · rintro ⟨outDir', h, hsame⟩
        cases h
        exact hsame

/-- **What is found under the rule of a project** is told file by file. -/
theorem rule_finds_iff {configDir : Path} {config : ProjectConfig} {outDir : Option Path}
    {rule : InputRule} (hrule : ruleFor configDir config outDir = .ok (some rule))
    (hdir : configDir.isAbsolute = true) {file : Path} (hfile : file.Normal) :
    rule.finds file = true ↔ Selects configDir config outDir file := by
  obtain ⟨hconfigDir, houtDir⟩ := ruleFor_ok hrule
  obtain ⟨hincluded, hexcluded⟩ := ruleFor_patterns hrule
  have houtput : rule.isOutput file = false ↔ ∀ dir, outDir = some dir →
      Path.isWithin dir configDir = false → Path.isWithin dir file = false := by
    rw [isOutput_eq_false_iff, houtDir]
    simp only [Option.filter_eq_some_iff, Bool.not_eq_true', and_imp]
  unfold InputRule.finds MemoryFs.isListed InputRule.selects
  simp only [Bool.and_eq_true, Bool.not_eq_true', ← Bool.not_eq_true, InputRule.names_iff hincluded,
    InputRule.names_iff hexcluded, List.any_eq_true, not_exists, not_and, prunes_eq_true_iff]
  rw [Bool.not_eq_true, Bool.not_eq_true, houtput, hconfigDir]
  constructor
  · rintro ⟨⟨hbelow, hentered⟩, ⟨⟨hsource, hnoOutput⟩, hinclude⟩, hkept⟩
    refine ⟨hbelow, hsource, (ProjectConfig.includes_iff hbelow.1).mpr hinclude, hkept, ?_,
      hnoOutput⟩
    intro dir hnormal htop hinside hexclude
    have hmem := (hfile.mem_between hdir hbelow).mpr ⟨hnormal, htop, hinside⟩
    exact hentered dir hmem (Or.inr hexclude)
  · rintro ⟨hbelow, hsource, hinclude, hkept, hentered, hnoOutput⟩
    refine ⟨⟨hbelow, fun dir hmem hprunes => ?_⟩,
      ⟨⟨hsource, hnoOutput⟩, (ProjectConfig.includes_iff hbelow.1).mp hinclude⟩, hkept⟩
    obtain ⟨hnormal, htop, hinside⟩ := (hfile.mem_between hdir hbelow).mp hmem
    rcases hprunes with ⟨outDir', hout, hsame⟩ | hexclude
    · -- outputs go to a directory that holds the file
      have hfalse := isOutput_eq_false_iff.mp (houtput.mpr hnoOutput) outDir' hout
      rw [Path.same_eq_false_of_isWithin hinside.1 hfalse] at hsame
      cases hsame
    · exact hentered dir hnormal htop hinside hexclude

/-- A project that only lists files finds none. -/
theorem not_selects {configDir : Path} {config : ProjectConfig} {outDir : Option Path}
    (hrule : ruleFor configDir config outDir = .ok none) (file : Path) :
    ¬ Selects configDir config outDir file := by
  intro h
  obtain ⟨hempty, -⟩ | ⟨included, excluded, -, -, hsome⟩ := ruleFor_cases hrule
  · have hnames := (ProjectConfig.includes_iff h.below.1).mp h.included
    rw [List.isEmpty_iff.mp hempty] at hnames
    exact Glob.not_names_nil hnames
  · cases hsome

/-! ## What a project takes -/

/-- A file that a project lists. -/
def Lists (configDir : Path) (config : ProjectConfig) (file : Path) : Prop :=
  ∃ name ∈ config.files.getD [], Path.absolutize configDir ⟨name⟩ = file

/-- A file that a project would take if it were not generated: one that it lists
    or finds. -/
def Gathers (fs : MemoryFs) (configDir : Path) (config : ProjectConfig) (outDir : Option Path)
    (file : Path) : Prop :=
  Lists configDir config file ∨ file ∈ fs.files.keys ∧ Selects configDir config outDir file

/-- A declaration whose source, of either kind, is among some files. -/
def GeneratedAmong (files : Path → Prop) (file : Path) : Prop :=
  file.isDeclaration = true ∧ ∃ kind ∈ [SourceKind.plain, SourceKind.markup], ∃ source,
    file.replaceExtension? kind.extension = some source ∧ files source

/-- A normal file with another source extension has a canonical path. -/
theorem canonical_replaceExtension? {file source : Path} (h : file.Normal) {kind : SourceKind}
    (hsource : file.replaceExtension? kind.extension = some source) : source.Canonical := by
  obtain ⟨stem, old, hname, hcut, rfl⟩ := Path.replaceExtension?_eq_some.mp hsource
  have hslash := (Path.mem_components_name
    (List.mem_of_getLast? (Path.fileName?_eq_some hname))).1
  rw [String.toList_append, List.mem_append, not_or] at hslash
  refine h.1.withFileName hname (Path.inner_long_name ?_ ?_)
  · rw [String.toList_append, List.mem_append, not_or]
    refine ⟨hslash.1, ?_⟩
    cases kind <;> decide
  · rw [String.toList_append, List.length_append]
    have hlong : 2 < kind.extension.toList.length := by cases kind <;> decide
    omega

/-- Among normal paths, a set holds those that it is made of. -/
theorem mem_keys_ofPaths_normal {paths : List Path} (h : ∀ p ∈ paths, p.Normal) {q : Path} :
    q ∈ (PathSet.ofPaths paths).keys ↔ q ∈ paths := by
  refine ⟨PathSet.mem_keys_ofPaths, fun hq => ?_⟩
  rw [PathSet.mem_keys_ofPaths_iff]
  cases hfind : paths.find? fun p => p.same q with
  | none => exact absurd (Path.same_iff.mpr rfl) (List.find?_eq_none.mp hfind q hq)
  | some p =>
      have hsame : p.same q = true := List.find?_some (p := fun p : Path => p.same q) hfind
      have hp := List.mem_of_find?_eq_some hfind
      exact congrArg some ((h p hp).1.eq_of_components (h q hq).1 (Path.same_iff.mp hsame))

/-- Among normal paths a canonical one is found if it is one of them. -/
theorem contains_ofPaths_normal {paths : List Path} (h : ∀ p ∈ paths, p.Normal) {q : Path}
    (hq : q.Canonical) : (PathSet.ofPaths paths).contains q = true ↔ q ∈ paths := by
  rw [PathSet.contains_ofPaths, List.any_eq_true]
  constructor
  · rintro ⟨p, hp, hsame⟩
    rwa [← (h p hp).1.eq_of_components hq (Path.same_iff.mp hsame)]
  · exact fun hmem => ⟨q, hmem, Path.same_iff.mpr rfl⟩

variable {fs : MemoryFs} {configDir : Path} {config : ProjectConfig} {outDir : Option Path}

/-- What is found under the patterns of a project. -/
theorem mem_selectedFiles_iff (hkeys : ∀ q ∈ fs.files.keys, q.Normal)
    (hdir : configDir.isAbsolute = true) {selected : List Path}
    (h : (selectedFiles fs configDir config outDir).value = .ok selected) {file : Path} :
    file ∈ selected ↔ file ∈ fs.files.keys ∧ Selects configDir config outDir file := by
  rw [selectedFiles_value] at h
  cases hrule : ruleFor configDir config outDir with
  | error e =>
      rw [hrule] at h
      cases h
  | ok rule =>
      rw [hrule] at h
      obtain rfl := Except.ok.inj h
      rw [List.mem_filter]
      refine and_congr_right fun hkey => ?_
      cases rule with
      | none => exact ⟨fun h => (by cases h), fun h => absurd h (not_selects hrule file)⟩
      | some rule => exact rule_finds_iff hrule hdir (hkeys file hkey)

/-- **The inputs of a project** ascend, and they are what it lists, all of which
    exists, and what it finds, less the declarations whose sources are among
    these. -/
theorem inputs_iff (hkeys : ∀ q ∈ fs.files.keys, q.Normal) (hdir : configDir.isAbsolute = true)
    {found : List Path} (h : (inputs fs configDir config outDir).value = .ok found) :
    found.Pairwise (fun p q => Path.compare p q = .lt) ∧
      (∀ file, Lists configDir config file → FileSystem.isFile fs file = true) ∧
      ∀ file, file ∈ found ↔ Gathers fs configDir config outDir file ∧
        ¬ GeneratedAmong (Gathers fs configDir config outDir) file := by
  have hthere : ∀ file, Lists configDir config file → FileSystem.isFile fs file = true := by
    rintro _ ⟨name, hname, rfl⟩
    exact isFile_of_listed h hname
  obtain ⟨-, selected, hselected, rfl⟩ := inputs_split h
  generalize hlisted :
    (config.files.getD []).map (fun file => Path.absolutize configDir ⟨file⟩) = listed
  have hlists : ∀ {file}, file ∈ listed ↔ Lists configDir config file := by
    intro file
    rw [← hlisted, List.mem_map]
    rfl
  have hgathers : ∀ {file},
      file ∈ listed ++ selected ↔ Gathers fs configDir config outDir file := by
    intro file
    rw [List.mem_append, hlists, mem_selectedFiles_iff hkeys hdir hselected]
    rfl
  have hnormal : ∀ file ∈ listed ++ selected, file.Normal := by
    intro file hfile
    rcases hgathers.mp hfile with ⟨name, -, rfl⟩ | ⟨hkey, -⟩
    · exact Path.normal_absolutize hdir _
    · exact hkeys file hkey
  refine ⟨(PathSet.sorted_ofPaths _).keys.filter _, hthere, fun file => ?_⟩
  rw [mem_withoutGenerated, mem_keys_ofPaths_normal hnormal, hgathers, ← Bool.not_eq_true,
    isGenerated_iff]
  refine and_congr_right fun hfile => not_congr (and_congr_right fun _ => ?_)
  refine exists_congr fun kind => and_congr_right fun _ => exists_congr fun source =>
    and_congr_right fun hsource => ?_
  have hcanonical := canonical_replaceExtension? (hnormal file (hgathers.mpr hfile)) hsource
  rw [contains_ofPaths_normal hnormal hcanonical, hgathers]

/-- Sources and declarations, some where outputs go and some in an excluded
    directory. -/
def mixedFiles : MemoryFs :=
  .ofTexts [("/r/tsconfig.json", ""), ("/r/src/a.ts", ""), ("/r/src/a.d.ts", ""),
    ("/r/gen/b.ts", ""), ("/r/lib/c.ts", ""), ("/r/x.d.ts", "")]

/-- A declaration by itself is gathered and taken; one beside its source is not
    taken, nor is a source in an excluded directory or among the outputs. -/
theorem inputs_iff_mixed :
    (inputs mixedFiles ⟨"/r"⟩ { excludes := some ["gen"] } (some ⟨"/r/lib"⟩)).value
      = .ok [⟨"/r/src/a.ts"⟩, ⟨"/r/x.d.ts"⟩] ∧
    ∀ file : Path, (file = ⟨"/r/src/a.ts"⟩ ∨ file = ⟨"/r/x.d.ts"⟩) ↔
      Gathers mixedFiles ⟨"/r"⟩ { excludes := some ["gen"] } (some ⟨"/r/lib"⟩) file ∧
        ¬ GeneratedAmong
          (Gathers mixedFiles ⟨"/r"⟩ { excludes := some ["gen"] } (some ⟨"/r/lib"⟩)) file := by
  have hkeys : ∀ q ∈ mixedFiles.files.keys, q.isAbsolute = true ∧ q.normalize = q := by
    decide +kernel
  have hfound : (inputs mixedFiles ⟨"/r"⟩ { excludes := some ["gen"] }
      (some ⟨"/r/lib"⟩)).value.toOption = some [⟨"/r/src/a.ts"⟩, ⟨"/r/x.d.ts"⟩] := by
    decide +kernel
  refine ⟨eq_ok_of_toOption hfound, fun file => ?_⟩
  have hinputs := (inputs_iff (fun q hq => ?_) (by decide) (eq_ok_of_toOption hfound)).2.2 file
  · rwa [List.mem_cons, List.mem_singleton] at hinputs
  · rw [← (hkeys q hq).2]
    exact Path.normal_normalize (hkeys q hq).1

end Closure

end ProjectBuild
