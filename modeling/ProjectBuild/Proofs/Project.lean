import ProjectBuild.Error.Basic
import ProjectBuild.Proofs.Path.Extension
import ProjectBuild.Proofs.Path.Map
import ProjectBuild.Project

/-! # Where a project's files lie

    The file name of an output ends in one of the extensions of outputs, and
    that of a record in one of its own.  So writing a record never touches an
    output (`Project.recordPath_ne_output`), and nothing that is written has the
    name of a configuration.  An output has the components of its input below
    another directory, under another name (`Project.components_outputFor?`). -/

namespace ProjectBuild

/-! ## Sorted paths -/

namespace Path

/-- A path is inserted once, and no other is lost. -/
theorem perm_insertSorted (p : Path) (paths : List Path) :
    (insertSorted p paths).Perm (p :: paths) := by
  induction paths with
  | nil => exact List.Perm.refl _
  | cons r rest ih =>
      unfold insertSorted
      by_cases h : compare p r = .lt
      · rw [if_pos h]
      · rw [if_neg h]
        exact (ih.cons r).trans (List.Perm.swap p r rest)

theorem mem_insertSorted {p q : Path} {paths : List Path} :
    q ∈ insertSorted p paths ↔ q = p ∨ q ∈ paths :=
  (perm_insertSorted p paths).mem_iff.trans List.mem_cons

/-- Sorting keeps each path as often as it is there. -/
theorem perm_sort (paths : List Path) : (sort paths).Perm paths := by
  have hall : ∀ (paths sorted : List Path),
      (paths.foldl (fun sorted p => insertSorted p sorted) sorted).Perm (sorted ++ paths) := by
    intro paths
    induction paths with
    | nil => exact fun sorted => List.Perm.of_eq (List.append_nil sorted).symm
    | cons p rest ih =>
        intro sorted
        refine (ih (insertSorted p sorted)).trans ?_
        exact ((perm_insertSorted p sorted).append_right rest).trans List.perm_middle.symm
  exact hall paths []

theorem mem_sort {q : Path} {paths : List Path} : q ∈ sort paths ↔ q ∈ paths :=
  (perm_sort paths).mem_iff

/-- A path is inserted in its place: what was in order still is. -/
theorem ordered_insertSorted (p : Path) {paths : List Path}
    (h : paths.Pairwise fun q r => compare r q ≠ .lt) :
    (insertSorted p paths).Pairwise fun q r => compare r q ≠ .lt := by
  induction paths with
  | nil => exact List.pairwise_singleton _ _
  | cons r rest ih =>
      obtain ⟨hfirst, hrest⟩ := List.pairwise_cons.mp h
      unfold insertSorted
      by_cases hlt : compare p r = .lt
      · rw [if_pos hlt]
        refine List.pairwise_cons.mpr ⟨fun q hq hqp => ?_, h⟩
        -- what comes before `p` comes before `r`
        rcases List.mem_cons.mp hq with rfl | hq
        · exact ne_of_lt (lt_trans hqp hlt) rfl
        · exact hfirst q hq (lt_trans hqp hlt)
      · rw [if_neg hlt]
        refine List.pairwise_cons.mpr ⟨fun q hq => ?_, ih hrest⟩
        rcases mem_insertSorted.mp hq with rfl | hq
        · exact hlt
        · exact hfirst q hq

/-- Sorted, no path comes before one that precedes it. -/
theorem ordered_sort (paths : List Path) :
    (sort paths).Pairwise fun q r => compare r q ≠ .lt := by
  have hall : ∀ (paths sorted : List Path), (sorted.Pairwise fun q r => compare r q ≠ .lt) →
      (paths.foldl (fun sorted p => insertSorted p sorted) sorted).Pairwise
        fun q r => compare r q ≠ .lt := by
    intro paths
    induction paths with
    | nil => exact fun sorted h => h
    | cons p rest ih => exact fun sorted h => ih _ (ordered_insertSorted p h)
  exact hall paths [] List.Pairwise.nil

/-- **Sorted, paths ascend** if none is the same as another. -/
theorem ascending_sort {paths : List Path}
    (h : paths.Pairwise fun p q => p.components ≠ q.components) :
    (sort paths).Pairwise fun p q => compare p q = .lt := by
  have hdistinct : (sort paths).Pairwise fun p q => p.components ≠ q.components :=
    ((perm_sort paths).pairwise_iff Ne.symm).mpr h
  refine ((ordered_sort paths).and hdistinct).imp ?_
  rintro p q ⟨hnot, hne⟩
  cases hcmp : compare p q with
  | lt => rfl
  | eq => exact absurd (compare_eq_iff.mp hcmp) hne
  | gt => exact absurd (lt_of_gt hcmp) hnot

theorem mem_of_mem_dedupFrom {p q : Path} {paths : List Path} (h : q ∈ dedupFrom p paths) :
    q = p ∨ q ∈ paths := by
  induction paths generalizing p with
  | nil => exact Or.inl (List.mem_singleton.mp h)
  | cons r rest ih =>
      unfold dedupFrom at h
      by_cases hsame : p.same r = true
      · rw [if_pos hsame] at h
        exact (ih h).imp_right (List.mem_cons_of_mem r)
      · rw [if_neg hsame] at h
        rcases List.mem_cons.mp h with h | h
        · exact Or.inl h
        · exact Or.inr (List.mem_cons.mpr (ih h))

/-- What is left without repeats was there. -/
theorem mem_of_mem_dedupSorted {q : Path} {paths : List Path} (h : q ∈ dedupSorted paths) :
    q ∈ paths := by
  cases paths with
  | nil => exact h
  | cons p rest => exact List.mem_cons.mpr (mem_of_mem_dedupFrom h)

/-- Every path of a list is there once more without repeats. -/
theorem exists_mem_dedupFrom {p q : Path} {paths : List Path} (h : q = p ∨ q ∈ paths) :
    ∃ r ∈ dedupFrom p paths, r.same q = true := by
  induction paths generalizing p q with
  | nil =>
      obtain rfl := h.resolve_right List.not_mem_nil
      exact ⟨q, List.mem_singleton_self q, same_iff.mpr rfl⟩
  | cons r rest ih =>
      unfold dedupFrom
      by_cases hsame : p.same r = true
      · rw [if_pos hsame]
        rcases h with rfl | h
        · exact ih (Or.inl rfl)
        · rcases List.mem_cons.mp h with rfl | h
          · obtain ⟨kept, hkept, hp⟩ := ih (p := p) (q := p) (Or.inl rfl)
            exact ⟨kept, hkept, same_iff.mpr ((same_iff.mp hp).trans (same_iff.mp hsame))⟩
          · exact ih (Or.inr h)
      · rw [if_neg hsame]
        rcases h with rfl | h
        · exact ⟨q, List.mem_cons_self, same_iff.mpr rfl⟩
        · obtain ⟨kept, hkept, hq⟩ := ih (List.mem_cons.mp h)
          exact ⟨kept, List.mem_cons_of_mem p hkept, hq⟩

/-- Without repeats, every path is there in one of its spellings. -/
theorem exists_mem_dedupSorted {q : Path} {paths : List Path} (h : q ∈ paths) :
    ∃ r ∈ dedupSorted paths, r.same q = true := by
  cases paths with
  | nil => exact nomatch h
  | cons p rest => exact exists_mem_dedupFrom (List.mem_cons.mp h)

/-- Paths in order ascend once repeats are dropped. -/
theorem ascending_dedupFrom {p : Path} {paths : List Path}
    (h : (p :: paths).Pairwise fun q r => compare r q ≠ .lt) :
    (dedupFrom p paths).Pairwise fun q r => compare q r = .lt := by
  induction paths generalizing p with
  | nil => exact List.pairwise_singleton _ _
  | cons r rest ih =>
      obtain ⟨hfirst, htail⟩ := List.pairwise_cons.mp h
      obtain ⟨hsecond, hrest⟩ := List.pairwise_cons.mp htail
      unfold dedupFrom
      by_cases hsame : p.same r = true
      · rw [if_pos hsame]
        exact ih (List.pairwise_cons.mpr
          ⟨fun q hq => hfirst q (List.mem_cons_of_mem r hq), hrest⟩)
      · rw [if_neg hsame]
        have hlt : compare p r = .lt := by
          cases hcmp : compare p r with
          | lt => rfl
          | eq => exact absurd (same_iff.mpr (compare_eq_iff.mp hcmp)) hsame
          | gt => exact absurd (lt_of_gt hcmp) (hfirst r List.mem_cons_self)
        refine List.pairwise_cons.mpr ⟨fun q hq => ?_, ih htail⟩
        rcases mem_of_mem_dedupFrom hq with rfl | hq
        · exact hlt
        · -- what comes after `r` is not before it
          cases hcmp : compare r q with
          | lt => exact lt_trans hlt hcmp
          | eq =>
              unfold compare at hlt ⊢
              rwa [← compare_eq_iff.mp hcmp]
          | gt => exact absurd (lt_of_gt hcmp) (hsecond q hq)

/-- **Without repeats, sorted paths ascend.** -/
theorem ascending_dedupSorted {paths : List Path}
    (h : paths.Pairwise fun q r => compare r q ≠ .lt) :
    (dedupSorted paths).Pairwise fun q r => compare q r = .lt := by
  cases paths with
  | nil => exact List.Pairwise.nil
  | cons p rest => exact ascending_dedupFrom h

/-! ## Names of files -/

/-- A name of some length is the last component of its path. -/
theorem getLast?_name {name : String} (hslash : '/' ∉ name.toList)
    (hlength : 2 < name.toList.length) :
    (Path.mk name).components.getLast? = some (.name name) := by
  rw [components_long_name hslash hlength]
  rfl

/-- The name of a path with its file name replaced. -/
theorem getLast?_withFileName {p : Path} {name : String} (hslash : '/' ∉ name.toList)
    (hlength : 2 < name.toList.length) :
    (p.withFileName name).components.getLast? = some (.name name) := by
  unfold withFileName
  split
  · exact getLast?_join (getLast?_name hslash hlength) _
  · exact getLast?_join (getLast?_name hslash hlength) _

end Path

namespace Project

open ProjectBuild.Path

/-- **Where an output goes**: to the output directory, under the name of a source
    below the root directory, with the extension replaced. -/
theorem outputFor?_ok {p : Project} {extension : String} {input output : Path}
    (h : p.outputFor? extension input = some output) :
    ∃ relative stem kind, afterDir? p.rootDir input = some relative ∧
      relative.fileName? = some (stem ++ kind.extension) ∧
      SourceKind.cut? (stem ++ kind.extension) = some (stem, kind) ∧ kind ≠ .declaration ∧
      output = p.outDir.join (relative.withFileName (stem ++ extension)) := by
  obtain ⟨relative, hrelative, h⟩ := Option.bind_eq_some_iff.mp h
  split at h
  · exact nomatch h
  rename_i hdeclaration
  obtain ⟨replaced, hreplaced, h⟩ := Option.bind_eq_some_iff.mp h
  obtain ⟨stem, kind, hname, hcut, rfl⟩ := replaceExtension?_eq_some.mp hreplaced
  refine ⟨relative, stem, kind, hrelative, hname, hcut, ?_, (Option.some.inj h).symm⟩
  rintro rfl
  refine hdeclaration ?_
  unfold isDeclaration
  rw [sourceKind?_eq hname, hcut]
  rfl

/-- The name of an output ends in its extension. -/
theorem getLast?_outputFor? {p : Project} {extension : String} {input output : Path}
    (h : p.outputFor? extension input = some output) (hslash : '/' ∉ extension.toList)
    (hlength : 2 < extension.toList.length) :
    ∃ stem : String, stem ≠ "" ∧
      output.components.getLast? = some (.name (stem ++ extension)) := by
  obtain ⟨relative, stem, kind, -, hname, hcut, -, rfl⟩ := outputFor?_ok h
  have hmem := List.mem_of_getLast? (fileName?_eq_some hname)
  refine ⟨stem, (SourceKind.cut?_ok hcut).2, getLast?_join (getLast?_withFileName ?_ ?_) p.outDir⟩
  · rw [String.toList_append, List.mem_append, not_or]
    refine ⟨fun hin => (mem_components_name hmem).1 ?_, hslash⟩
    rw [String.toList_append]
    exact List.mem_append_left _ hin
  · rw [String.toList_append, List.length_append]
    omega

/-- What an input is compiled to: a declaration and a script, as far as they are
    emitted. -/
theorem mem_outputsOf {p : Project} {input output : Path} :
    output ∈ p.outputsOf input ↔
      p.declaration = true ∧ p.outputFor? ".d.ts" input = some output ∨
        p.emitDeclarationOnly = false ∧ p.outputFor? ".js" input = some output := by
  unfold outputsOf scriptFor?
  rw [List.mem_append, Option.mem_toList]
  refine or_congr ?_ ?_
  · split
    · rename_i hdeclaration
      rw [Option.mem_toList, and_iff_right hdeclaration]
      rfl
    · rename_i hdeclaration
      exact iff_of_false List.not_mem_nil fun h => hdeclaration h.1
  · split
    · rename_i hemit
      exact iff_of_false nofun fun h => Bool.false_ne_true (h.1.symm.trans hemit)
    · rename_i hemit
      rw [and_iff_right (Bool.eq_false_iff.mpr hemit)]

/-- The extensions of outputs. -/
theorem getLast?_outputsOf {p : Project} {input output : Path} (h : output ∈ p.outputsOf input) :
    ∃ stem : String, stem ≠ "" ∧ (output.components.getLast? = some (.name (stem ++ ".d.ts")) ∨
      output.components.getLast? = some (.name (stem ++ ".js"))) := by
  rcases mem_outputsOf.mp h with ⟨-, h⟩ | ⟨-, h⟩
  · obtain ⟨stem, hne, hstem⟩ := getLast?_outputFor? h (by decide) (by decide)
    exact ⟨stem, hne, Or.inl hstem⟩
  · obtain ⟨stem, hne, hstem⟩ := getLast?_outputFor? h (by decide) (by decide)
    exact ⟨stem, hne, Or.inr hstem⟩

/-- What is expected of a project is an output of one of its inputs. -/
theorem mem_expectedOutputs {p : Project} {output : Path} (h : output ∈ p.expectedOutputs) :
    ∃ input ∈ p.inputs, output ∈ p.outputsOf input :=
  List.mem_flatMap.mp (mem_sort.mp (mem_of_mem_dedupSorted h))

/-- Every output of an input is expected, up to spelling. -/
theorem exists_mem_expectedOutputs {p : Project} {input output : Path} (hinput : input ∈ p.inputs)
    (houtput : output ∈ p.outputsOf input) : ∃ q ∈ p.expectedOutputs, q.same output = true :=
  exists_mem_dedupSorted (mem_sort.mpr (List.mem_flatMap.mpr ⟨input, hinput, houtput⟩))

/-- **Which sources have outputs**: all of those below the root directory, but not
    one that is the root directory itself. -/
theorem isSome_outputFor? {p : Project} {extension : String} {input : Path}
    (hwithin : isWithin p.rootDir input = true) (hsource : input.isSource = true)
    (hdeclaration : input.isDeclaration = false) :
    (p.outputFor? extension input).isSome = !input.same p.rootDir := by
  obtain ⟨relative, hrelative⟩ : ∃ relative, afterDir? p.rootDir input = some relative := by
    unfold afterDir?
    rw [if_pos hwithin]
    exact ⟨_, rfl⟩
  have hcomponents := components_afterDir? hrelative
  unfold outputFor?
  rw [hrelative]
  simp only [Option.bind_eq_bind, Option.bind_some]
  by_cases hempty : relative.components = []
  · -- no name is left to be given an extension
    have hsame : input.same p.rootDir = true := by
      rw [same_iff, hcomponents, hempty, List.append_nil]
    have hname : relative.fileName? = none := by
      unfold fileName?
      rw [hempty]
      rfl
    unfold isDeclaration sourceKind? replaceExtension?
    rw [hname, hsame]
    rfl
  · -- below the root directory both end in the same name
    have hname : relative.fileName? = input.fileName? := by
      unfold fileName?
      rw [hcomponents, List.getLast?_append_of_ne_nil _ hempty]
    have hsame : input.same p.rootDir = false := by
      rw [same_eq_false_iff, hcomponents]
      exact fun heq => hempty (List.append_right_eq_self.mp heq)
    have hkind : relative.isDeclaration = false := by
      unfold isDeclaration sourceKind? at hdeclaration ⊢
      rw [hname]
      exact hdeclaration
    unfold isSource sourceKind? at hsource
    unfold replaceExtension?
    rw [hkind, if_neg Bool.false_ne_true, hname, hsame]
    cases hfile : input.fileName? with
    | none =>
        rw [hfile] at hsource
        exact nomatch hsource
    | some name =>
        rw [hfile] at hsource
        simp only [Option.bind_eq_bind, Option.bind_some] at hsource ⊢
        cases hcut : SourceKind.cut? name with
        | none =>
            rw [hcut] at hsource
            exact nomatch hsource
        | some found => rfl

/-- A stem holds no character that its name does not. -/
theorem mem_stemOf {name : String} {c : Char} (h : c ∈ (stemOf name).toList) : c ∈ name.toList := by
  unfold stemOf at h
  simp only at h
  split at h
  · rename_i dot before heq
    rw [String.toList_ofList, List.mem_reverse, ← List.mem_reverse] at h
    have hdropped : c ∈ name.toList.reverse.dropWhile (· != '.') := by
      rw [heq]
      exact List.mem_cons_of_mem _ (List.mem_reverse.mp h)
    exact List.mem_reverse.mp ((List.dropWhile_suffix _).subset hdropped)
  · exact h

/-- The name of a project's record file. -/
def recordName (p : Project) : String :=
  p.configPath.fileStem?.getD "tsconfig" ++ ".tsbuildinfo"

/-- **A record lies in the output directory**, under a name made from that of the
    configuration. -/
theorem components_recordPath (p : Project) :
    p.recordPath.components = p.outDir.components ++ [.name p.recordName] := by
  have hstem : '/' ∉ (p.configPath.fileStem?.getD "tsconfig").toList := by
    unfold fileStem?
    cases hname : p.configPath.fileName? with
    | none => decide
    | some name =>
        have hmem : Component.name name ∈ p.configPath.components :=
          List.mem_of_getLast? (fileName?_eq_some hname)
        exact fun h => (mem_components_name hmem).1 (mem_stemOf h)
  have hname : (Path.mk p.recordName).components = [.name p.recordName] := by
    refine components_long_name ?_ ?_
    · unfold recordName
      rw [String.toList_append, List.mem_append, not_or]
      exact ⟨hstem, by decide⟩
    · unfold recordName
      rw [String.toList_append, List.length_append]
      exact Nat.lt_of_lt_of_le (by decide) (Nat.le_add_left _ _)
  have hrecord : p.recordPath = p.outDir.join ⟨p.recordName⟩ := rfl
  rw [hrecord, components_join_relative, hname]
  intro c hc
  rw [hname] at hc
  rw [List.mem_singleton.mp hc]
  exact ⟨fun h => (nomatch h), fun h => (nomatch h)⟩

/-- The name of a record ends as those of records do. -/
theorem getLast?_recordPath (p : Project) :
    ∃ stem : String,
      p.recordPath.components.getLast? = some (.name (stem ++ ".tsbuildinfo")) := by
  refine ⟨p.configPath.fileStem?.getD "tsconfig", ?_⟩
  rw [components_recordPath]
  exact List.getLast?_concat

/-- Texts with endings that differ in the last character differ. -/
theorem append_ne_append {s t a b : String} (h : a.toList.getLast? ≠ b.toList.getLast?)
    (ha : a.toList ≠ []) (hb : b.toList ≠ []) : s ++ a ≠ t ++ b := by
  intro heq
  have hlast := congrArg (fun s : String => s.toList.getLast?) heq
  simp only [String.toList_append] at hlast
  rw [List.getLast?_append_of_ne_nil _ ha, List.getLast?_append_of_ne_nil _ hb] at hlast
  exact h hlast

/-- **No record lies where an output does.** -/
theorem recordPath_ne_output {p p' : Project} {output : Path} (h : output ∈ p'.expectedOutputs) :
    p.recordPath.components ≠ output.components := by
  obtain ⟨input, -, houtput⟩ := mem_expectedOutputs h
  obtain ⟨stem, hrecord⟩ := getLast?_recordPath p
  obtain ⟨stem', -, hout⟩ := getLast?_outputsOf houtput
  intro heq
  rw [heq] at hrecord
  rcases hout with hout | hout
  · rw [hout] at hrecord
    exact append_ne_append (by decide) (by decide) (by decide)
      (Component.name.inj (Option.some.inj hrecord))
  · rw [hout] at hrecord
    exact append_ne_append (by decide) (by decide) (by decide)
      (Component.name.inj (Option.some.inj hrecord))

/-! ## Projects that emit alike -/

/-- Where an output goes depends on the directories, not on their spelling. -/
theorem outputFor?_congr {p p' : Project} (hroot : p.rootDir.components = p'.rootDir.components)
    (hout : p.outDir.components = p'.outDir.components) {extension : String} {input output : Path}
    (h : p.outputFor? extension input = some output) :
    ∃ output', p'.outputFor? extension input = some output' ∧ output'.same output = true := by
  obtain ⟨relative, hrelative, h⟩ := Option.bind_eq_some_iff.mp h
  rw [afterDir?_congr hroot] at hrelative
  split at h
  · exact nomatch h
  rename_i hambient
  obtain ⟨replaced, hreplaced, h⟩ := Option.bind_eq_some_iff.mp h
  obtain rfl := Option.some.inj h
  refine ⟨p'.outDir.join replaced, ?_, same_iff.mpr (join_congr hout.symm replaced)⟩
  refine Option.bind_eq_some_iff.mpr ⟨relative, hrelative, ?_⟩
  rw [if_neg hambient]
  exact Option.bind_eq_some_iff.mpr ⟨replaced, hreplaced, rfl⟩

/-- **What is expected of a project** depends on its directories, its inputs and
    the kinds of outputs that it emits, and on nothing else. -/
theorem expectedOutputs_congr {p p' : Project}
    (hroot : p.rootDir.components = p'.rootDir.components)
    (hout : p.outDir.components = p'.outDir.components) (hinputs : p.inputs = p'.inputs)
    (hdeclaration : p.declaration = p'.declaration)
    (hemit : p.emitDeclarationOnly = p'.emitDeclarationOnly) {q : Path}
    (hq : q ∈ p.expectedOutputs) : ∃ q' ∈ p'.expectedOutputs, q'.same q = true := by
  obtain ⟨input, hinput, hq⟩ := mem_expectedOutputs hq
  have houtput : ∃ output ∈ p'.outputsOf input, output.same q = true := by
    rcases mem_outputsOf.mp hq with ⟨hkind, hq⟩ | ⟨hkind, hq⟩
    · obtain ⟨output, houtput, hsame⟩ := outputFor?_congr hroot hout hq
      exact ⟨output, mem_outputsOf.mpr (Or.inl ⟨hdeclaration ▸ hkind, houtput⟩), hsame⟩
    · obtain ⟨output, houtput, hsame⟩ := outputFor?_congr hroot hout hq
      exact ⟨output, mem_outputsOf.mpr (Or.inr ⟨hemit ▸ hkind, houtput⟩), hsame⟩
  obtain ⟨output, houtput, hsame⟩ := houtput
  obtain ⟨q', hq', hsame'⟩ := exists_mem_expectedOutputs (hinputs ▸ hinput) houtput
  exact ⟨q', hq', same_iff.mpr ((same_iff.mp hsame').trans (same_iff.mp hsame))⟩

/-! ## Outputs and their sources -/

/-- **The components of an output** are those of its input, with the output
    directory in the place of the root directory and another name at the end.
    (Below the empty path an input can be absolute.) -/
theorem components_outputFor? {p : Project} {extension : String} {input output : Path}
    (h : p.outputFor? extension input = some output) (hslash : '/' ∉ extension.toList)
    (hlength : 2 < extension.toList.length) :
    ∃ (front : List Component) (stem : String) (kind : SourceKind), stem ≠ "" ∧
      kind ≠ .declaration ∧ '/' ∉ (stem ++ kind.extension).toList ∧
      input.components = p.rootDir.components ++ (front ++ [.name (stem ++ kind.extension)]) ∧
      (p.rootDir.components ≠ [] ∨ p.outDir.components = [] →
        output.components = p.outDir.components ++ (front ++ [.name (stem ++ extension)])) := by
  obtain ⟨relative, stem, kind, hrelative, hname, hcut, hkind, rfl⟩ := outputFor?_ok h
  have hlast := fileName?_eq_some hname
  -- the name is a component, so there is no slash in it
  have hnoslash := (mem_components_name (List.mem_of_getLast? hlast)).1
  have hrenamed : (relative.withFileName (stem ++ extension)).components
      = relative.components.dropLast ++ [.name (stem ++ extension)] := by
    refine components_withFileName hname ?_ ?_
    · rw [String.toList_append, List.mem_append, not_or] at hnoslash ⊢
      exact ⟨hnoslash.1, hslash⟩
    · rw [String.toList_append, List.length_append]
      exact Nat.lt_of_lt_of_le hlength (Nat.le_add_left _ _)
  refine ⟨relative.components.dropLast, stem, kind, (SourceKind.cut?_ok hcut).2, hkind, hnoslash,
    ?_, ?_⟩
  · obtain ⟨front, hfront⟩ := List.getLast?_eq_some_iff.mp hlast
    rw [components_afterDir? hrelative, hfront, List.dropLast_concat]
  · rintro (hroot | hout)
    · rw [components_join_relative, hrenamed]
      intro c hc
      rw [hrenamed] at hc
      rcases List.mem_append.mp hc with hc | hc
      · exact afterDir?_relative hrelative hroot c (List.dropLast_subset _ hc)
      · rw [List.mem_singleton.mp hc]
        exact ⟨fun h => (nomatch h), fun h => (nomatch h)⟩
    · rw [components_join_nil hout, hout, hrenamed, List.nil_append]

/-- An output lies below the output directory, if the root directory is not the
    empty path. -/
theorem isWithin_outputFor? {p : Project} (hroot : p.rootDir.components ≠ []) {extension : String}
    {input output : Path} (h : p.outputFor? extension input = some output)
    (hslash : '/' ∉ extension.toList) (hlength : 2 < extension.toList.length) :
    Path.isWithin p.outDir output = true := by
  obtain ⟨front, stem, kind, -, -, -, -, houtput⟩ := components_outputFor? h hslash hlength
  rw [isWithin_iff, houtput (Or.inl hroot)]
  exact List.prefix_append _ _

/-- Outputs lie below the output directory. -/
theorem isWithin_outDir {p : Project} (hroot : p.rootDir.components ≠ []) {q : Path}
    (hq : q ∈ p.expectedOutputs) : Path.isWithin p.outDir q = true := by
  obtain ⟨input, -, hq⟩ := mem_expectedOutputs hq
  rcases mem_outputsOf.mp hq with ⟨-, hq⟩ | ⟨-, hq⟩
  · exact isWithin_outputFor? hroot hq (by decide) (by decide)
  · exact isWithin_outputFor? hroot hq (by decide) (by decide)

/-- A declaration that a project emits into its root directory lies beside its
    source: replacing the extension leads back. -/
theorem declarationFor?_source {p : Project} {input output : Path}
    (h : p.declarationFor? input = some output) (hdirs : p.outDir.same p.rootDir = true) :
    ∃ kind ∈ [SourceKind.plain, SourceKind.markup], ∃ source,
      output.replaceExtension? kind.extension = some source ∧
        source.components = input.components := by
  obtain ⟨front, stem, kind, hstem, hkind, hslash, hinput, houtput⟩ :=
    components_outputFor? h (by decide) (by decide)
  have hsame := same_iff.mp hdirs
  have hcomponents := houtput (by rw [hsame]; exact ne_or_eq _ _)
  have hname : output.fileName? = some (stem ++ SourceKind.declaration.extension) := by
    refine fileName?_of_getLast? ?_
    rw [hcomponents, ← List.append_assoc]
    exact List.getLast?_concat
  have hlength : 2 < (stem ++ kind.extension).toList.length := by
    rw [String.toList_append, List.length_append]
    exact Nat.lt_of_lt_of_le (by cases kind <;> decide) (Nat.le_add_left _ _)
  refine ⟨kind, ?_, output.withFileName (stem ++ kind.extension), ?_, ?_⟩
  · cases kind with
    | declaration => exact absurd rfl hkind
    | markup => exact List.mem_cons_of_mem _ (List.mem_singleton_self _)
    | plain => exact List.mem_cons_self
  · exact replaceExtension?_eq_some.mpr
      ⟨stem, .declaration, hname, SourceKind.cut?_declaration hstem, rfl⟩
  · rw [components_withFileName hname hslash hlength, hcomponents, ← List.append_assoc,
      List.dropLast_concat, hinput, hsame, List.append_assoc]

/-- Outputs are declarations of sources, or no source files at all. -/
theorem output_cases {p : Project} {q : Path} (h : q ∈ p.expectedOutputs) :
    q.isSource = false ∨
      q.isDeclaration = true ∧ ∃ input ∈ p.inputs, p.declarationFor? input = some q := by
  obtain ⟨input, hinput, hq⟩ := mem_expectedOutputs h
  rcases mem_outputsOf.mp hq with ⟨-, hq⟩ | ⟨-, hq⟩
  · obtain ⟨stem, hstem, hlast⟩ := getLast?_outputFor? hq (by decide) (by decide)
    exact Or.inr ⟨isDeclaration_of_getLast? hlast hstem, input, hinput, hq⟩
  · obtain ⟨stem, -, hlast⟩ := getLast?_outputFor? hq (by decide) (by decide)
    exact Or.inl (isSource_product hlast (by decide))

/-- No record is a source file. -/
theorem isSource_recordPath (p : Project) : p.recordPath.isSource = false := by
  obtain ⟨stem, hlast⟩ := p.getLast?_recordPath
  exact isSource_product hlast (by decide)

/-- Nothing that is written has the name that configurations have by convention. -/
theorem config_ne_product {p : Project} {q : Path} (h : q = p.recordPath ∨ q ∈ p.expectedOutputs)
    (dir : Path) : q.same (dir.join ⟨configFileName⟩) = false := by
  have hname : (dir.join ⟨configFileName⟩).components.getLast?
      = some (.name ("tsconfig" ++ ".json")) :=
    getLast?_join (getLast?_name (by decide) (by decide)) dir
  rw [same_eq_false_iff]
  intro heq
  rw [← heq] at hname
  have hne : ∀ {stem ending : String}, ending.toList.getLast? ≠ some 'n' → ending.toList ≠ [] →
      q.components.getLast? ≠ some (.name (stem ++ ending)) := by
    intro stem ending hending hnil hlast
    rw [hlast] at hname
    exact append_ne_append hending hnil (by decide) (Component.name.inj (Option.some.inj hname))
  rcases h with rfl | h
  · obtain ⟨stem, hlast⟩ := p.getLast?_recordPath
    exact hne (by decide) (by decide) hlast
  · obtain ⟨input, -, houtput⟩ := mem_expectedOutputs h
    obtain ⟨stem, -, hlast | hlast⟩ := getLast?_outputsOf houtput
    · exact hne (by decide) (by decide) hlast
    · exact hne (by decide) (by decide) hlast

end Project

end ProjectBuild
