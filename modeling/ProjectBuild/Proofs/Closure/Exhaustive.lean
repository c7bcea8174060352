import ProjectBuild.Proofs.Closure.Selection

/-! # Complete lists of files

    A project that others reference and that lists its files lists every source
    below its root directory, with exemptions: outputs, what is excluded, and the
    directories of other projects, unless these hold the project itself
    (`loadGraph_exhaustive`).  A list that is not complete is reported together
    with what it lacks.

    Nothing is said of a project whose outputs go to a directory above its root
    directory.  There every source lies among the outputs. -/

namespace ProjectBuild

namespace Closure

/-- A directory is left to another project: that project's configuration lies in
    it, and it lies below the root directory and does not hold the project itself. -/
structure LeftTo (fs : MemoryFs) (roots : List Path) (p : Project) (dir : Path) : Prop where
  other : ∃ q, Reachable fs roots q ∧ q.dir = dir
  below : Path.isWithin p.rootDir dir = true
  apart : Path.isWithin dir p.configDir = false

/-- A source file below the root directory that is no input of the project: it is
    not excluded, nor is a directory on the way to it, and it lies neither where
    outputs go below the root directory nor in an exempt directory. -/
structure Lacks (fs : MemoryFs) (exempt : Path → Prop) (p : Project) (file : Path) : Prop where
  stored : file ∈ fs.files.keys
  below : Path.Inside p.rootDir file
  source : file.isSource = true ∧ file.isDeclaration = false
  unlisted : ∀ input ∈ p.inputs, file.same input = false
  noOutput : Path.Inside p.rootDir p.outDir → Path.isWithin p.outDir file = false
  own : ∀ dir, exempt dir → Path.isWithin dir file = false
  kept : ∀ path ∈ file :: Path.between p.rootDir file, ¬ p.config.Excludes p.configDir path

variable {fs : MemoryFs} {roots : List Path} {p : Project}

/-- Compiled patterns exclude what the configuration excludes. -/
theorem excludes_iff {excluded : GlobSet} (h : p.config.excludeSet = .ok excluded) {path : Path} :
    p.Excludes excluded path ↔ p.config.Excludes p.configDir path := by
  have hset := ProjectConfig.compilePatterns_eq_ok.mp h
  unfold Project.Excludes ProjectConfig.Excludes Glob.Names
  constructor
  · rintro ⟨relative, hrelative, haccepts⟩
    exact ⟨excluded, relative, hset, hrelative, haccepts⟩
  · rintro ⟨set, relative, hset', hrelative, haccepts⟩
    obtain rfl := Except.ok.inj (hset.symm.trans hset')
    exact ⟨relative, hrelative, haccepts⟩

/-- The nested directories are those that are left to other projects. -/
theorem mem_nestedDirs_iff {dirs : List Path}
    (hdirs : ∀ dir, dir ∈ dirs ↔ ∃ q, Reachable fs roots q ∧ q.dir = dir) {dir : Path} :
    dir ∈ nestedDirs p dirs ↔ LeftTo fs roots p dir := by
  unfold nestedDirs
  rw [List.mem_filter, hdirs]
  simp only [Bool.and_eq_true, Bool.not_eq_true']
  constructor
  · rintro ⟨hother, ⟨-, hbelow⟩, hapart⟩
    exact ⟨hother, hbelow, hapart⟩
  · rintro ⟨hother, hbelow, hapart⟩
    have hself : Path.isWithin p.configDir p.configDir = true :=
      Path.isWithin_iff.mpr (List.prefix_refl _)
    refine ⟨hother, ⟨?_, hbelow⟩, hapart⟩
    rw [Path.same_eq_false_iff]
    exact Ne.symm (Path.same_eq_false_iff.mp (Path.same_eq_false_of_isWithin hself hapart))

/-- Two directories that hold a file are one, or one lies inside the other. -/
theorem inside_or_same {dir dir' file : Path} (h : Path.isWithin dir file = true)
    (h' : Path.isWithin dir' file = true) :
    dir.same dir' = true ∨ Path.Inside dir dir' ∨ Path.Inside dir' dir := by
  rw [Path.isWithin_iff] at h h'
  by_cases heq : dir.components = dir'.components
  · exact Or.inl (Path.same_iff.mpr heq)
  · right
    simp only [Path.inside_iff]
    exact (List.prefix_or_prefix_of_prefix h h').imp (fun h => ⟨h, Ne.symm heq⟩) fun h => ⟨h, heq⟩

/-- Above the root directory outputs are everywhere. -/
theorem Omits.not_above {dirs : List Path} {file : Path} (h : Omits fs dirs p file) :
    ¬ Path.Inside p.outDir p.rootDir := by
  rintro ⟨hwithin, hsame⟩
  have hsame' : p.outDir.same p.rootDir = false :=
    Path.same_eq_false_iff.mpr (Ne.symm (Path.same_eq_false_iff.mp hsame))
  have hfile := h.noOutput hsame'
  rw [Path.isWithin_iff.mpr ((Path.isWithin_iff.mp hwithin).trans
    (Path.isWithin_iff.mp h.below.1))] at hfile
  cases hfile

/-- **What the check misses** is what a list lacks, unless outputs go to a
    directory above the root directory. -/
theorem omits_iff {dirs : List Path} {excluded : GlobSet}
    (hdirs : ∀ dir, dir ∈ dirs ↔ ∃ q, Reachable fs roots q ∧ q.dir = dir)
    (hexcluded : p.config.excludeSet = .ok excluded) (hout : ¬ Path.Inside p.outDir p.rootDir)
    {file : Path} : Omits fs dirs p file ↔ Lacks fs (LeftTo fs roots p) p file := by
  constructor
  · rintro ⟨hstored, hbelow, hsource, hunlisted, hnoOutput, hown, excluded', hexcluded', hkept⟩
    refine ⟨hstored, hbelow, hsource, hunlisted, fun hinside => ?_, fun dir hdir => ?_,
      fun path hpath => ?_⟩
    · exact hnoOutput hinside.2
    · exact hown dir ((mem_nestedDirs_iff hdirs).mpr hdir)
    · exact fun h => hkept path hpath ((excludes_iff hexcluded').mpr h)
  · rintro ⟨hstored, hbelow, hsource, hunlisted, hnoOutput, hown, hkept⟩
    refine ⟨hstored, hbelow, hsource, hunlisted, fun hsame => ?_, fun dir hdir => ?_, excluded,
      hexcluded, fun path hpath => ?_⟩
    · rw [← Bool.not_eq_true]
      intro hwithin
      rcases inside_or_same hwithin hbelow.1 with hsame' | habove | hinside
      · rw [hsame] at hsame'
        cases hsame'
      · exact hout habove
      · rw [hnoOutput hinside] at hwithin
        cases hwithin
    · exact hown dir ((mem_nestedDirs_iff hdirs).mp hdir)
    · exact fun h => hkept path hpath ((excludes_iff hexcluded).mp h)

/-- What is reported as missing is in path order. -/
theorem unlisted_sorted (hsorted : fs.files.Sorted) {dirs missing : List Path}
    (h : (unlisted fs p dirs).value = .ok missing) :
    missing.Pairwise fun p q => Path.compare p q = .lt := by
  unfold unlisted at h
  cases hexcluded : p.config.excludeSet with
  | error e =>
      rw [hexcluded] at h
      cases h
  | ok excluded =>
      rw [hexcluded] at h
      obtain rfl := Except.ok.inj h
      exact (hsorted.keys.filter _).filter _

/-- A list that is reported is what was found not to be listed. -/
theorem unlisted_of_violation? {dirs missing : List Path} {path : Path}
    (h : (violation? fs p dirs).value = some (.restriction path (.filesNotExhaustive missing))) :
    (unlisted fs p dirs).value = .ok missing := by
  unfold violation? at h
  split at h
  · cases h
  · split at h
    · cases h
    · split at h
      · simp only at h
        split at h
        · rename_i e hunlisted
          obtain rfl := Option.some.inj h
          exact absurd (.search (unlisted_error hunlisted)) Fault.ne_restriction
        · cases h
        · rename_i hunlisted
          cases h
          exact hunlisted
      · cases h

end Closure

/-- **A list of files that others rely on is complete.**  In a graph that is loaded
    no source is lacking from the list of a project with dependents, unless its
    outputs go to a directory above its root directory.  A list that is refused is
    one of a project that another one references, and what is reported ascends and
    is what the list lacks. -/
theorem loadGraph_exhaustive {fs : MemoryFs} (hfs : fs.Reachable) (roots : List Path) :
    (∀ g, (loadGraph fs roots).value = .ok g → ∀ i < g.size, g.dependents i ≠ [] →
      (g.node i).config.files.isSome = true →
      ¬ Path.Inside (g.node i).outDir (g.node i).rootDir →
        ∀ file, ¬ Closure.Lacks fs (Closure.LeftTo fs roots (g.node i)) (g.node i) file) ∧
    ∀ path missing,
      (loadGraph fs roots).value = .error (.restriction path (.filesNotExhaustive missing)) →
      ∃ p, Closure.load fs path = .ok p ∧ Closure.Referenced fs roots path ∧
        p.config.files.isSome = true ∧ missing ≠ [] ∧
        missing.Pairwise (fun q r => Path.compare q r = .lt) ∧
        ∀ file, file ∈ missing ↔ Closure.Lacks fs (Closure.LeftTo fs roots p) p file := by
  constructor
  · intro g hg i hi hne hfiles hout file hlacks
    obtain ⟨node, -, -, hturned⟩ := loadGraph_node hg hi
    obtain ⟨hnode, dirs, hdirs, hnone⟩ := hturned hne
    -- whether declarations are on plays no part in the check
    have hnone' : (Closure.violation? fs (g.node i) dirs).value = none := by
      rw [hnode]
      exact hnone
    obtain ⟨⟨excluded, hexcluded⟩, hcomplete⟩ := (Closure.violation?_eq_none.mp hnone').2.2 hfiles
    exact hcomplete file ((Closure.omits_iff hdirs hexcluded hout).mpr hlacks)
  · intro path missing h
    obtain ⟨indices, s, hvisit, hviolation⟩ := loadGraph_violation h
    obtain ⟨i, p, hget, hreferenced, hbreaks, -⟩ :=
      Closure.firstViolation?_error 0 s.nodes hviolation
    rw [Nat.zero_add] at hreferenced
    obtain ⟨rfl, hfiles, hne, hmissing⟩ := Closure.violation?_restriction hbreaks
    have hwhole := Closure.visitRoots_whole hvisit
    obtain ⟨hreachable, hload⟩ := (hwhole.mem_nodes p).mp (List.mem_of_getElem? hget)
    have hunlisted := Closure.unlisted_of_violation? hbreaks
    refine ⟨p, hload, (hwhole.referenced i p hget).mp hreferenced, hfiles, hne,
      Closure.unlisted_sorted hfs.sorted hunlisted, fun file => ?_⟩
    obtain ⟨first, hfirst⟩ := List.exists_mem_of_ne_nil missing hne
    have homits := (hmissing first).mp hfirst
    obtain ⟨excluded, hexcluded, -⟩ := homits.included
    rw [hmissing]
    exact Closure.omits_iff (fun dir => hwhole.mem_dirs) hexcluded homits.not_above

/-- A project that lacks one source; another lies among its outputs and a third in
    the directory of the project that references it. -/
def lackingFiles : MemoryFs :=
  .ofTexts [("/r/tsconfig.json",
      "\x7b\"compilerOptions\": \x7b\"outDir\": \"lib\"\x7d, \"files\": [\"a.ts\"], \"references\": []\x7d"),
    ("/r/a.ts", ""), ("/r/extra.ts", ""), ("/r/lib/b.ts", ""),
    ("/r/app/tsconfig.json",
      "\x7b\"files\": [\"c.ts\"], \"references\": [\x7b\"path\": \"..\"\x7d]\x7d"),
    ("/r/app/c.ts", "")]

/-- The list of the first of two projects is complete; and where one source is
    lacking, that is reported and nothing else. -/
theorem loadGraph_exhaustive_pair :
    (∀ file, ¬ Closure.Lacks pairFiles
      (Closure.LeftTo pairFiles [⟨"/r/app"⟩] (pairGraph.node 0)) (pairGraph.node 0) file) ∧
    (loadGraph lackingFiles [⟨"/r/app"⟩]).value
      = .error (.restriction ⟨"/r/tsconfig.json"⟩ (.filesNotExhaustive [⟨"/r/extra.ts"⟩])) ∧
    ∃ p, Closure.load lackingFiles ⟨"/r/tsconfig.json"⟩ = .ok p ∧
      Closure.Lacks lackingFiles (Closure.LeftTo lackingFiles [⟨"/r/app"⟩] p) p ⟨"/r/extra.ts"⟩ ∧
      ¬ Closure.Lacks lackingFiles (Closure.LeftTo lackingFiles [⟨"/r/app"⟩] p) p
        ⟨"/r/lib/b.ts"⟩ := by
  refine ⟨?_, ?_⟩
  · have hfacts : 0 < pairGraph.size ∧ pairGraph.dependents 0 ≠ [] ∧
        (pairGraph.node 0).config.files.isSome = true ∧
        Path.isWithin (pairGraph.node 0).outDir (pairGraph.node 0).rootDir = true ∧
        (pairGraph.node 0).rootDir.same (pairGraph.node 0).outDir = true := by decide +kernel
    obtain ⟨hsize, hne, hfiles, -, hsame⟩ := hfacts
    refine (loadGraph_exhaustive (MemoryFs.ofTexts_reachable _) [⟨"/r/app"⟩]).1 pairGraph
      pairGraph_loaded 0 hsize hne hfiles fun hinside => ?_
    rw [hinside.2] at hsame
    cases hsame
  · have hobserved : observed Error.violation? (loadGraph lackingFiles [⟨"/r/app"⟩]).value
        = some (some (⟨"/r/tsconfig.json"⟩, .filesNotExhaustive [⟨"/r/extra.ts"⟩])) := by
      decide +kernel
    obtain ⟨e, he, hviolation⟩ := observed_eq_some.mp hobserved
    obtain rfl := Error.violation?_eq_some hviolation
    obtain ⟨p, hload, -, -, -, -, hmissing⟩ :=
      (loadGraph_exhaustive (MemoryFs.ofTexts_reachable _) [⟨"/r/app"⟩]).2 _ _ he
    refine ⟨he, p, hload, (hmissing _).mp (List.mem_singleton_self _), fun hlacks => ?_⟩
    exact nomatch List.mem_singleton.mp ((hmissing _).mpr hlacks)

/-- A project in a directory of another one, with a root directory above both. -/
def outerFiles : MemoryFs :=
  .ofTexts [("/r/a/tsconfig.json",
      "\x7b\"files\": [\"y.ts\"], \"references\": [\x7b\"path\": \"b\"\x7d]\x7d"),
    ("/r/a/y.ts", ""),
    ("/r/a/b/tsconfig.json",
      "\x7b\"compilerOptions\": \x7b\"rootDir\": \"../..\"\x7d, \"files\": [\"x.ts\"], \"references\": []\x7d"),
    ("/r/a/b/x.ts", "")]

/-- A project whose root directory is the directory of another one. -/
def sharedFiles : MemoryFs :=
  .ofTexts [("/r/src/tsconfig.json",
      "\x7b\"files\": [\"b.ts\"], \"references\": [\x7b\"path\": \"../cfg\"\x7d]\x7d"),
    ("/r/src/a.ts", ""), ("/r/src/b.ts", ""), ("/r/src/extra.ts", ""),
    ("/r/cfg/tsconfig.json",
      "\x7b\"compilerOptions\": \x7b\"rootDir\": \"../src\", \"outDir\": \"out\"\x7d, \"files\": [\"../src/a.ts\"], \"references\": []\x7d")]

def sharedGraph : Graph :=
  (loadGraph sharedFiles [⟨"/r/src"⟩]).value.toOption.getD {}

/-- A directory of another project strictly below the root directory. -/
def Closure.NestedOther (fs : MemoryFs) (roots : List Path) (p : Project) (dir : Path) : Prop :=
  (∃ q, Reachable fs roots q ∧ q.same p.configPath = false ∧ q.dir = dir) ∧
    Path.Inside p.rootDir dir

/-- Not all directories of other projects below the root directory are exempt, and
    not only they: a file in one that also holds the project itself is reported,
    and none is reported if another project lies in the root directory. -/
theorem loadGraph_exhaustive_outer :
    (∃ p, Closure.load outerFiles ⟨"/r/a/b/tsconfig.json"⟩ = .ok p ∧
      (loadGraph outerFiles [⟨"/r/a"⟩]).value = .error
        (.restriction ⟨"/r/a/b/tsconfig.json"⟩ (.filesNotExhaustive [⟨"/r/a/y.ts"⟩])) ∧
      ¬ Closure.Lacks outerFiles (Closure.NestedOther outerFiles [⟨"/r/a"⟩] p) p ⟨"/r/a/y.ts"⟩) ∧
    ∃ g, (loadGraph sharedFiles [⟨"/r/src"⟩]).value = .ok g ∧ 0 < g.size ∧
      g.dependents 0 ≠ [] ∧ (g.node 0).config.files.isSome = true ∧
      Closure.Lacks sharedFiles (Closure.NestedOther sharedFiles [⟨"/r/src"⟩] (g.node 0))
        (g.node 0) ⟨"/r/src/extra.ts"⟩ := by
  constructor
  · have hfacts : observed Error.violation? (loadGraph outerFiles [⟨"/r/a"⟩]).value
          = some (some (⟨"/r/a/b/tsconfig.json"⟩, .filesNotExhaustive [⟨"/r/a/y.ts"⟩])) ∧
        (Closure.load outerFiles ⟨"/r/a/b/tsconfig.json"⟩).toOption.map
          (fun p => (p.configPath, p.rootDir)) = some (⟨"/r/a/b/tsconfig.json"⟩, ⟨"/r"⟩) ∧
        resolveConfig? outerFiles (⟨"/r/a"⟩ : Path).normalize = some ⟨"/r/a/tsconfig.json"⟩ ∧
        (⟨"/r/a/tsconfig.json"⟩ : Path).dir = ⟨"/r/a"⟩ := by decide +kernel
    obtain ⟨hobserved, hproject, hroot, hdir⟩ := hfacts
    obtain ⟨e, he, hviolation⟩ := observed_eq_some.mp hobserved
    obtain rfl := Error.violation?_eq_some hviolation
    obtain ⟨p, hload, hp⟩ := Option.map_eq_some_iff.mp hproject
    obtain ⟨hpath, hrootDir⟩ := Prod.mk.inj hp
    refine ⟨p, eq_ok_of_toOption hload, he, fun hlacks => ?_⟩
    have hreachable : Closure.Reachable outerFiles [⟨"/r/a"⟩] ⟨"/r/a/tsconfig.json"⟩ :=
      ⟨_, List.mem_singleton_self _, _, Closure.resolveRoot_eq_ok.mpr hroot, .refl⟩
    -- `/r/a` is the directory of another project, and the file lies in it
    have hown := hlacks.own ⟨"/r/a"⟩ ⟨⟨_, hreachable, by rw [hpath]; decide +kernel, hdir⟩,
      by rw [hrootDir]; unfold Path.Inside; decide +kernel⟩
    exact absurd hown (by decide +kernel)
  · have hsketch : (loadGraph sharedFiles [⟨"/r/src"⟩]).value.toOption.isSome = true ∧
        (sharedGraph.size = 2 ∧ sharedGraph.dependents 0 = [1] ∧
          (sharedGraph.node 0).config.files.isSome = true) ∧
        ((sharedGraph.node 0).rootDir = ⟨"/r/src"⟩ ∧ (sharedGraph.node 0).outDir = ⟨"/r/cfg/out"⟩ ∧
          (sharedGraph.node 0).configDir = ⟨"/r/cfg"⟩ ∧
          (sharedGraph.node 0).inputs = [⟨"/r/src/a.ts"⟩]) ∧
        (sharedGraph.node 0).configPath.dir = ⟨"/r/cfg"⟩ ∧
        (sharedGraph.node 1).configPath.dir = ⟨"/r/src"⟩ := by decide +kernel
    obtain ⟨hsome, ⟨hsize, hdependents, hfiles⟩, ⟨hroot, hout, hconfigDir, hinputs⟩, hfirst,
      hsecond⟩ := hsketch
    have hg : (loadGraph sharedFiles [⟨"/r/src"⟩]).value = .ok sharedGraph :=
      Graph.loaded_of_isSome hsome
    refine ⟨sharedGraph, hg, by omega, by rw [hdependents]; exact List.cons_ne_nil _ _, hfiles, ?_⟩
    have hfacts : (⟨"/r/src/extra.ts"⟩ : Path) ∈ sharedFiles.files.keys ∧
        Path.isWithin ⟨"/r/src"⟩ ⟨"/r/src/extra.ts"⟩ = true ∧
        Path.same ⟨"/r/src/extra.ts"⟩ ⟨"/r/src"⟩ = false ∧
        Path.between ⟨"/r/src"⟩ ⟨"/r/src/extra.ts"⟩ = [] ∧
        Path.afterDir? ⟨"/r/cfg"⟩ ⟨"/r/src/extra.ts"⟩ = none := by decide +kernel
    obtain ⟨hstored, hbelow, hnot, hbetween, hoff⟩ := hfacts
    refine ⟨hstored, ?_, by decide +kernel, fun input hinput => ?_, fun hinside => ?_, ?_,
      fun path hpath => ?_⟩
    · rw [hroot]
      exact ⟨hbelow, hnot⟩
    · rw [hinputs, List.mem_singleton] at hinput
      rw [hinput]
      decide +kernel
    · rw [hroot, hout] at hinside
      exact absurd hinside.1 (by decide +kernel)
    · -- the directories of both projects, of which none lies strictly below `src`
      rintro dir ⟨⟨q, hq, -, rfl⟩, hinside⟩
      obtain ⟨i, hi, hsame⟩ := (Graph.isClosure_of_loaded hg).complete q hq
      rw [hroot, Path.inside_iff, ← Path.dir_congr (Path.same_iff.mp hsame), ← Path.inside_iff]
        at hinside
      obtain rfl | rfl : i = 0 ∨ i = 1 := by omega
      · rw [hfirst] at hinside
        exact absurd hinside.1 (by decide +kernel)
      · rw [hsecond] at hinside
        exact absurd hinside.2 (by decide +kernel)
    · rw [hroot, hbetween, List.mem_singleton] at hpath
      rw [hpath, hconfigDir]
      rintro ⟨set, relative, -, hrelative, -⟩
      rw [hoff] at hrelative
      cases hrelative

end ProjectBuild
