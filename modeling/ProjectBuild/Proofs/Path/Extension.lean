import ProjectBuild.Path.Extension
import ProjectBuild.Proofs.Path.Below

/-! # Source extensions

    A name is cut into a stem and the extension of one kind of source, the
    longest that fits.  A declaration has the longest of them; scripts and records
    have none, and are no source files. -/

namespace ProjectBuild

namespace SourceKind

/-- A stem is what stands before the extension, and is not empty. -/
theorem stem?_eq_some {extension name stem : String} :
    stem? extension name = some stem ↔ name = stem ++ extension ∧ stem ≠ "" := by
  unfold stem?
  simp only
  constructor
  · intro h
    split at h
    · rename_i hends
      -- a suffix is a prefix of the reversed name
      obtain ⟨front, hfront⟩ := List.isPrefixOf_iff_prefix.mp hends
      have hname : name.toList = front.reverse ++ extension.toList := by
        rw [← List.reverse_reverse name.toList, ← hfront, List.reverse_append,
          List.reverse_reverse]
      rw [← hfront, List.drop_left] at h
      cases hstem : front.reverse with
      | nil =>
          rw [hstem] at h
          exact nomatch h
      | cons c chars =>
          rw [hstem] at h
          obtain rfl := Option.some.inj h
          constructor
          · rw [← String.toList_inj, String.toList_append, String.toList_ofList, hname, hstem]
          · intro hempty
            have := congrArg String.toList hempty
            rw [String.toList_ofList] at this
            exact nomatch this
    · exact nomatch h
  · rintro ⟨rfl, hstem⟩
    rw [String.toList_append, List.reverse_append, if_pos
      (List.isPrefixOf_iff_prefix.mpr (List.prefix_append _ _)), List.drop_left,
      List.reverse_reverse]
    cases hchars : stem.toList with
    | nil => exact absurd (String.toList_eq_nil_iff.mp hchars) hstem
    | cons c chars =>
        show some (String.ofList (c :: chars)) = _
        rw [← hchars, String.ofList_toList]

/-- A name is cut into a stem and an extension. -/
theorem cut?_ok {name stem : String} {kind : SourceKind} (h : cut? name = some (stem, kind)) :
    name = stem ++ kind.extension ∧ stem ≠ "" := by
  obtain ⟨kind', -, hkind⟩ := List.exists_of_findSome?_eq_some h
  obtain ⟨stem', hstem, heq⟩ := Option.map_eq_some_iff.mp hkind
  obtain ⟨rfl, rfl⟩ := Prod.mk.inj heq
  exact stem?_eq_some.mp hstem

/-- The extension of declarations is the longest, so it is found first. -/
theorem cut?_declaration {stem : String} (h : stem ≠ "") :
    cut? (stem ++ declaration.extension) = some (stem, declaration) := by
  unfold cut? all
  rw [List.findSome?_cons, stem?_eq_some.mpr ⟨rfl, h⟩]
  rfl

/-- A name whose last two characters are not those of an extension does not end
    in it. -/
theorem stem?_eq_none {extension stem ending : String} (hextension : 2 ≤ extension.toList.length)
    (hending : 2 ≤ ending.toList.length)
    (h : ending.toList.reverse.take 2 ≠ extension.toList.reverse.take 2) :
    stem? extension (stem ++ ending) = none := by
  have htake : ∀ front back : String, 2 ≤ back.toList.length →
      (front ++ back).toList.reverse.take 2 = back.toList.reverse.take 2 := by
    intro front back hback
    rw [String.toList_append, List.reverse_append, List.take_append_of_le_length]
    rwa [List.length_reverse]
  cases hstem : stem? extension (stem ++ ending) with
  | none => rfl
  | some stem' =>
      have hname := (stem?_eq_some.mp hstem).1
      refine absurd ?_ h
      rw [← htake stem ending hending, hname, htake stem' extension hextension]

/-- What a build writes besides declarations has no source extension. -/
theorem cut?_product {ending : String} (h : ending ∈ [".js", ".tsbuildinfo"]) (stem : String) :
    cut? (stem ++ ending) = none := by
  unfold cut?
  rw [List.findSome?_eq_none_iff]
  intro kind _
  have hnone : stem? kind.extension (stem ++ ending) = none := by
    rcases List.mem_pair.mp h with rfl | rfl
    · cases kind <;> exact stem?_eq_none (by decide) (by decide) (by decide)
    · cases kind <;> exact stem?_eq_none (by decide) (by decide) (by decide)
  rw [hnone]
  rfl

end SourceKind

namespace Path

/-- A last component that is a name is the file name. -/
theorem fileName?_of_getLast? {p : Path} {name : String}
    (h : p.components.getLast? = some (.name name)) : p.fileName? = some name := by
  unfold fileName?
  rw [h]

/-- The kind of a source is marked by its name. -/
theorem sourceKind?_eq {p : Path} {name : String} (h : p.fileName? = some name) :
    p.sourceKind? = (SourceKind.cut? name).map Prod.snd := by
  unfold sourceKind?
  rw [h]
  show (SourceKind.cut? name).bind _ = _
  cases SourceKind.cut? name <;> rfl

/-- The kind of a source does not depend on the spelling of its path. -/
theorem sourceKind?_congr {p q : Path} (h : p.components = q.components) :
    p.sourceKind? = q.sourceKind? := by
  unfold sourceKind? fileName?
  rw [h]

theorem isSource_congr {p q : Path} (h : p.components = q.components) :
    p.isSource = q.isSource := by
  unfold isSource
  rw [sourceKind?_congr h]

theorem isDeclaration_congr {p q : Path} (h : p.components = q.components) :
    p.isDeclaration = q.isDeclaration := by
  unfold isDeclaration
  rw [sourceKind?_congr h]

/-- An extension is replaced behind the stem of a source. -/
theorem replaceExtension?_eq_some {p : Path} {extension : String} {file : Path} :
    p.replaceExtension? extension = some file ↔
      ∃ (stem : String) (kind : SourceKind), p.fileName? = some (stem ++ kind.extension) ∧
        SourceKind.cut? (stem ++ kind.extension) = some (stem, kind) ∧
        p.withFileName (stem ++ extension) = file := by
  unfold replaceExtension?
  constructor
  · intro h
    obtain ⟨name, hname, h⟩ := Option.bind_eq_some_iff.mp h
    obtain ⟨⟨stem, kind⟩, hcut, h⟩ := Option.bind_eq_some_iff.mp h
    obtain rfl := Option.some.inj h
    obtain ⟨rfl, -⟩ := SourceKind.cut?_ok hcut
    exact ⟨stem, kind, hname, hcut, rfl⟩
  · rintro ⟨stem, kind, hname, hcut, rfl⟩
    rw [hname]
    simp only [Option.bind_eq_bind, Option.bind_some, hcut]
    rfl

/-- Paths that are the same are the same with other extensions. -/
theorem replaceExtension?_congr {p q : Path} (h : p.components = q.components)
    {extension : String} {file : Path} (hfile : p.replaceExtension? extension = some file) :
    ∃ file', q.replaceExtension? extension = some file' ∧ file'.components = file.components := by
  have hnames : p.fileName? = q.fileName? := by
    unfold fileName?
    rw [h]
  obtain ⟨stem, kind, hname, hcut, rfl⟩ := replaceExtension?_eq_some.mp hfile
  refine ⟨q.withFileName (stem ++ extension),
    replaceExtension?_eq_some.mpr ⟨stem, kind, hnames ▸ hname, hcut, rfl⟩, ?_⟩
  unfold withFileName
  rw [← hnames, hname]
  exact join_congr (dir_congr h.symm) _

/-- What a build writes besides declarations is no source file. -/
theorem isSource_product {p : Path} {stem ending : String}
    (hlast : p.components.getLast? = some (.name (stem ++ ending)))
    (h : ending ∈ [".js", ".tsbuildinfo"]) : p.isSource = false := by
  unfold isSource
  rw [sourceKind?_eq (fileName?_of_getLast? hlast), SourceKind.cut?_product h]
  rfl

/-- What ends in the extension of declarations is one. -/
theorem isDeclaration_of_getLast? {p : Path} {stem : String}
    (hlast : p.components.getLast? = some (.name (stem ++ ".d.ts"))) (hstem : stem ≠ "") :
    p.isDeclaration = true := by
  unfold isDeclaration
  rw [sourceKind?_eq (fileName?_of_getLast? hlast),
    show ".d.ts" = SourceKind.declaration.extension from rfl, SourceKind.cut?_declaration hstem]
  rfl

end Path

end ProjectBuild
