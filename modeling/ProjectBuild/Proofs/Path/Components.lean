import Mathlib.Data.List.Basic
import ProjectBuild.Path.Normal

/-! # Components of composed paths

    Paths are spelled in many ways, but what becomes of them is settled by
    their components: the components of a joined path and of a directory are
    computed from the components alone
    (`Path.components_join`, `Path.components_dir`).  So these operations take
    paths that are the same to paths that are the same. -/

namespace ProjectBuild.Path

/-! ## Segments -/

/-- There always is a segment. -/
theorem splitSlash_ne_nil (chars : List Char) : splitSlash chars ≠ [] := by
  cases chars with
  | nil => exact List.cons_ne_nil _ _
  | cons c rest =>
      unfold splitSlash
      by_cases hc : c = '/'
      · rw [if_pos hc]
        exact List.cons_ne_nil _ _
      · rw [if_neg hc]
        split <;> exact List.cons_ne_nil _ _

/-- A slash separates segments. -/
theorem splitSlash_append (front back : List Char) :
    splitSlash (front ++ '/' :: back) = splitSlash front ++ splitSlash back := by
  induction front with
  | nil => simp [splitSlash]
  | cons c front ih =>
      rw [List.cons_append, splitSlash, splitSlash]
      by_cases hc : c = '/'
      · rw [if_pos hc, if_pos hc, ih]
        rfl
      · rw [if_neg hc, if_neg hc, ih]
        cases hfront : splitSlash front with
        | nil => exact absurd hfront (splitSlash_ne_nil front)
        | cons segment segments => rfl

/-- A text without a slash is one segment. -/
theorem splitSlash_of_not_mem {chars : List Char} (h : '/' ∉ chars) :
    splitSlash chars = [chars] := by
  induction chars with
  | nil => rfl
  | cons c rest ih =>
      rw [List.mem_cons, not_or] at h
      rw [splitSlash, if_neg (Ne.symm h.1), ih h.2]

/-- No segment holds a slash. -/
theorem not_mem_of_mem_splitSlash {chars segment : List Char} (h : segment ∈ splitSlash chars) :
    '/' ∉ segment := by
  induction chars generalizing segment with
  | nil =>
      rw [splitSlash, List.mem_singleton] at h
      rw [h]
      exact List.not_mem_nil
  | cons c rest ih =>
      rw [splitSlash] at h
      by_cases hc : c = '/'
      · rw [if_pos hc] at h
        rcases List.mem_cons.mp h with rfl | h
        · exact List.not_mem_nil
        · exact ih h
      · rw [if_neg hc] at h
        cases hrest : splitSlash rest with
        | nil => exact absurd hrest (splitSlash_ne_nil rest)
        | cons first segments =>
            rw [hrest] at h ih
            rcases List.mem_cons.mp h with rfl | h
            · rw [List.mem_cons, not_or]
              exact ⟨Ne.symm hc, ih List.mem_cons_self⟩
            · exact ih (List.mem_cons_of_mem _ h)

/-- Segments that are joined are cut again as they were. -/
theorem splitSlash_joinSlash {segments : List (List Char)} (hne : segments ≠ [])
    (h : ∀ segment ∈ segments, '/' ∉ segment) : splitSlash (joinSlash segments) = segments := by
  induction segments with
  | nil => exact absurd rfl hne
  | cons segment rest ih =>
      cases rest with
      | nil => exact splitSlash_of_not_mem (h segment List.mem_cons_self)
      | cons next rest =>
          rw [joinSlash, splitSlash_append,
            splitSlash_of_not_mem (h segment List.mem_cons_self),
            ih (List.cons_ne_nil _ _) fun s hs => h s (List.mem_cons_of_mem _ hs)]
          · rfl
          · exact fun h => nomatch h

/-- The components that inner segments stand for. -/
def meanings (segments : List (List Char)) : List Component :=
  segments.filterMap Component.ofSegment?

theorem filterMap_markInner (segments : List (List Char)) :
    (markInner segments).filterMap Prod.snd = meanings segments := by
  unfold markInner meanings
  rw [List.filterMap_map]
  rfl

theorem meanings_append (front back : List (List Char)) :
    meanings (front ++ back) = meanings front ++ meanings back :=
  List.filterMap_append

/-- An inner segment stands neither for the root nor for a leading dot. -/
theorem ofSegment?_ne_current {segment : List Char} {c : Component}
    (h : Component.ofSegment? segment = some c) : c ≠ .current ∧ c ≠ .root := by
  unfold Component.ofSegment? at h
  split at h
  · exact nomatch h
  · exact nomatch h
  · rw [← Option.some.inj h]
    exact ⟨fun h => (nomatch h), fun h => (nomatch h)⟩
  · rw [← Option.some.inj h]
    exact ⟨fun h => (nomatch h), fun h => (nomatch h)⟩

/-- What inner segments stand for is neither the root nor a leading dot. -/
theorem mem_meanings_ne {segments : List (List Char)} {c : Component} (h : c ∈ meanings segments) :
    c ≠ .current ∧ c ≠ .root := by
  obtain ⟨segment, -, hsegment⟩ := List.mem_filterMap.mp h
  exact ofSegment?_ne_current hsegment

/-! ## Components of a text -/

/-- The components of a text that does not begin with a slash. -/
def relativeComponents (chars : List Char) : List Component :=
  match splitSlash chars with
  | ['.'] :: rest => .current :: meanings rest
  | segments => meanings segments

/-- Behind a leading slash, the components are the root and what the segments stand
    for. -/
theorem components_rooted (rest : List Char) :
    components ⟨String.ofList ('/' :: rest)⟩ = .root :: meanings (splitSlash rest) := by
  unfold components cut
  rw [String.toList_ofList]
  simp only [if_true, filterMap_markInner]

/-- Without one, the first segment can stand for a leading dot. -/
theorem components_relative {chars : List Char} (h : ∀ rest, chars ≠ '/' :: rest) :
    components ⟨String.ofList chars⟩ = relativeComponents chars := by
  unfold components cut relativeComponents
  rw [String.toList_ofList]
  split
  · exact absurd rfl (h _)
  · generalize splitSlash chars = segments
    split
    · rename_i rest
      show Component.current :: (markInner rest).filterMap Prod.snd = Component.current :: _
      rw [filterMap_markInner]
    · simp only [Bool.false_eq_true, if_false, filterMap_markInner]

/-- The components of a path by the way its text begins. -/
theorem components_cases (p : Path) :
    (∃ rest, p.text.toList = '/' :: rest ∧ p.components = .root :: meanings (splitSlash rest)) ∨
      ((∀ rest, p.text.toList ≠ '/' :: rest) ∧
        p.components = relativeComponents p.text.toList) := by
  have hp : p = ⟨String.ofList p.text.toList⟩ := by rw [String.ofList_toList]
  by_cases h : ∃ rest, p.text.toList = '/' :: rest
  · obtain ⟨rest, hrest⟩ := h
    refine Or.inl ⟨rest, hrest, ?_⟩
    rw [hp, hrest]
    exact components_rooted rest
  · have h' : ∀ rest, p.text.toList ≠ '/' :: rest := fun rest hrest => h ⟨rest, hrest⟩
    refine Or.inr ⟨h', ?_⟩
    rw [hp, components_relative h', String.toList_ofList]

/-- A path is absolute if it is spelled with a slash first. -/
theorem isAbsolute_iff {p : Path} : p.isAbsolute = true ↔ ∃ rest, p.text.toList = '/' :: rest := by
  unfold isAbsolute cut
  split
  · rename_i rest heq
    exact ⟨fun _ => ⟨rest, heq⟩, fun _ => rfl⟩
  · rename_i chars hchars
    constructor
    · intro h
      split at h <;> exact nomatch h
    · rintro ⟨rest, hrest⟩
      exact absurd hrest (hchars rest)

/-- Segments behind a slash are inner ones. -/
theorem relativeComponents_append (front back : List Char) :
    relativeComponents (front ++ '/' :: back)
      = relativeComponents front ++ meanings (splitSlash back) := by
  unfold relativeComponents
  rw [splitSlash_append]
  cases hfront : splitSlash front with
  | nil => exact absurd hfront (splitSlash_ne_nil front)
  | cons segment segments =>
      rw [List.cons_append]
      split
      · rename_i rest heq
        obtain ⟨rfl, rfl⟩ := List.cons.inj heq
        rw [meanings_append]
        rfl
      · rename_i hne
        split
        · rename_i rest heq
          obtain ⟨rfl, rfl⟩ := List.cons.inj heq
          exact absurd rfl (hne _)
        · rw [← List.cons_append, meanings_append]

/-- What stands behind a slash adds its segments' meanings. -/
theorem components_slash {front : List Char} (hne : front ≠ []) (back : List Char) :
    components ⟨String.ofList (front ++ '/' :: back)⟩
      = components ⟨String.ofList front⟩ ++ meanings (splitSlash back) := by
  cases front with
  | nil => exact absurd rfl hne
  | cons c front =>
      by_cases hc : c = '/'
      · subst hc
        rw [List.cons_append, components_rooted, components_rooted, splitSlash_append,
          meanings_append]
        rfl
      · have hrelative : ∀ chars rest, c :: chars ≠ '/' :: rest :=
          fun chars rest h => hc (List.cons.inj h).1
        rw [List.cons_append, components_relative (hrelative _),
          components_relative (hrelative _), ← List.cons_append, relativeComponents_append]

/-- Behind a slash, a leading `.` means nothing. -/
theorem filter_relativeComponents (chars : List Char) :
    (relativeComponents chars).filter (· ≠ .current) = meanings (splitSlash chars) := by
  have hself : ∀ segments : List (List Char),
      (meanings segments).filter (· ≠ .current) = meanings segments := by
    intro segments
    rw [List.filter_eq_self]
    exact fun c hc => decide_eq_true (mem_meanings_ne hc).1
  unfold relativeComponents
  split
  · rename_i segments rest heq
    rw [heq, List.filter_cons, if_neg (by decide), hself]
    rfl
  · exact hself _

/-- **The components of a joined path.** -/
theorem components_join (base other : Path) :
    (base.join other).components
      = if other.isAbsolute then other.components
        else if base.text = "" then other.components
        else base.components ++ other.components.filter (· ≠ .current) := by
  unfold join
  by_cases habs : other.isAbsolute = true
  · rw [if_pos habs, if_pos habs]
  rw [if_neg habs, if_neg habs]
  by_cases hempty : base.text = ""
  · rw [if_pos hempty, if_pos hempty]
  rw [if_neg hempty, if_neg hempty]
  have hother : other.components = relativeComponents other.text.toList := by
    rcases components_cases other with ⟨rest, hrest, -⟩ | ⟨-, h⟩
    · exact absurd (isAbsolute_iff.mpr ⟨rest, hrest⟩) habs
    · exact h
  rw [hother, filter_relativeComponents]
  have hbase : base = ⟨String.ofList base.text.toList⟩ := by rw [String.ofList_toList]
  by_cases hlast : base.text.toList.getLast? = some '/'
  · rw [if_pos hlast]
    obtain ⟨front, hfront⟩ := List.getLast?_eq_some_iff.mp hlast
    have htext : base.text ++ other.text = String.ofList (front ++ '/' :: other.text.toList) := by
      rw [← String.ofList_toList (s := base.text ++ other.text), String.toList_append, hfront,
        List.append_assoc]
      rfl
    rw [htext]
    cases front with
    | nil =>
        rw [List.nil_append, components_rooted, hbase, hfront]
        rfl
    | cons c front =>
        -- a slash at the end adds nothing to the components
        rw [components_slash (List.cons_ne_nil _ _), hbase, hfront,
          components_slash (List.cons_ne_nil _ _)]
        rw [show meanings (splitSlash []) = [] from rfl, List.append_nil]
  · rw [if_neg hlast]
    have hne : base.text.toList ≠ [] := fun h => hempty (String.toList_eq_nil_iff.mp h)
    have htext : base.text ++ "/" ++ other.text
        = String.ofList (base.text.toList ++ '/' :: other.text.toList) := by
      rw [← String.ofList_toList (s := base.text ++ "/" ++ other.text), String.toList_append,
        String.toList_append, List.append_assoc]
      rfl
    rw [htext, components_slash hne, ← hbase]

/-- A simple name is its own only component. -/
theorem components_name {name : List Char} (hslash : '/' ∉ name) (hempty : name ≠ [])
    (hcurrent : name ≠ ['.']) (hparent : name ≠ ['.', '.']) :
    components ⟨String.ofList name⟩ = [.name (String.ofList name)] ∧
      isAbsolute ⟨String.ofList name⟩ = false := by
  have hroot : ∀ rest, name ≠ '/' :: rest := by
    rintro rest rfl
    exact hslash List.mem_cons_self
  constructor
  · rw [components_relative hroot]
    unfold relativeComponents
    rw [splitSlash_of_not_mem hslash]
    split
    · rename_i rest heq
      exact absurd (List.cons.inj heq).1 hcurrent
    · have hmeaning : Component.ofSegment? name = some (.name (String.ofList name)) := by
        unfold Component.ofSegment?
        split
        · exact absurd rfl hempty
        · exact absurd rfl hcurrent
        · exact absurd rfl hparent
        · rfl
      unfold meanings
      rw [List.filterMap_cons_some hmeaning]
      rfl
  · rw [← Bool.not_eq_true, isAbsolute_iff]
    rintro ⟨rest, hrest⟩
    rw [String.toList_ofList] at hrest
    exact hroot rest hrest

/-- A name of some length is a component by itself. -/
theorem components_long_name {name : String} (hslash : '/' ∉ name.toList)
    (hlength : 2 < name.toList.length) : (Path.mk name).components = [.name name] := by
  have hne : ∀ chars : List Char, chars.length ≤ 2 → name.toList ≠ chars := by
    intro chars hchars heq
    rw [heq] at hlength
    omega
  have h := (components_name hslash (hne [] (by decide)) (hne ['.'] (by decide))
    (hne ['.', '.'] (by decide))).1
  rwa [String.ofList_toList] at h

/-- The last component of a path below which a simple name was joined is that
    name. -/
theorem getLast?_join {other : Path} {name : String}
    (h : other.components.getLast? = some (.name name)) (base : Path) :
    (base.join other).components.getLast? = some (.name name) := by
  rw [components_join]
  split
  · exact h
  · split
    · exact h
    · have hne : other.components ≠ [] := by
        intro hnil
        rw [hnil] at h
        exact nomatch h
      obtain ⟨front, hfront⟩ := List.getLast?_eq_some_iff.mp h
      rw [hfront, List.filter_append]
      simp

/-! ## Directories -/

/-- A text that is cut at its slashes is joined again as it was. -/
theorem joinSlash_splitSlash (chars : List Char) : joinSlash (splitSlash chars) = chars := by
  induction chars with
  | nil => rfl
  | cons c rest ih =>
      unfold splitSlash
      cases hrest : splitSlash rest with
      | nil => exact absurd hrest (splitSlash_ne_nil rest)
      | cons segment segments =>
          rw [hrest] at ih
          by_cases hc : c = '/'
          · rw [if_pos hc, hc]
            show '/' :: joinSlash (segment :: segments) = _
            rw [ih]
          · rw [if_neg hc]
            cases segments with
            | nil => exact congrArg (c :: ·) ih
            | cons next segments => exact congrArg (c :: ·) ih

/-- The first segments spell the beginning of the text. -/
theorem joinSlash_prefix {front segments : List (List Char)} (h : front <+: segments) :
    joinSlash front <+: joinSlash segments := by
  induction front generalizing segments with
  | nil => exact List.nil_prefix
  | cons segment front ih =>
      obtain ⟨rest, rfl⟩ := h
      have hrest := ih (List.prefix_append front rest)
      cases front with
      | nil =>
          cases rest with
          | nil => exact List.prefix_refl _
          | cons next rest => exact List.prefix_append segment _
      | cons next front =>
          obtain ⟨more, hmore⟩ := hrest
          refine ⟨more, ?_⟩
          show (segment ++ '/' :: joinSlash (next :: front)) ++ more
            = segment ++ '/' :: joinSlash (next :: front ++ rest)
          rw [← hmore, List.append_assoc, List.cons_append]

/-- The segments of a relative path, marked. -/
def markRelative : List (List Char) → List Marked
  | ['.'] :: rest => (['.'], some .current) :: markInner rest
  | segments => markInner segments

theorem map_markInner (segments : List (List Char)) :
    (markInner segments).map Prod.fst = segments := by
  unfold markInner
  rw [List.map_map]
  exact List.map_id segments

theorem map_markRelative (segments : List (List Char)) :
    (markRelative segments).map Prod.fst = segments := by
  unfold markRelative
  split
  · exact congrArg (['.'] :: ·) (map_markInner _)
  · exact map_markInner _

/-- The components of a relative path are what its marked segments stand for. -/
theorem relativeComponents_eq (chars : List Char) :
    relativeComponents chars = (markRelative (splitSlash chars)).filterMap Prod.snd := by
  unfold relativeComponents markRelative
  split
  · exact congrArg (Component.current :: ·) (filterMap_markInner _).symm
  · exact (filterMap_markInner _).symm

/-- The first of marked segments are the first segments, marked. -/
theorem markInner_prefix {front : List Marked} {segments : List (List Char)}
    (h : front <+: markInner segments) :
    ∃ segments', segments' <+: segments ∧ front = markInner segments' := by
  obtain ⟨segments', hsegments, heq⟩ := List.prefix_map_iff.mp h
  exact ⟨segments', hsegments, heq⟩

/-- The first of a relative path's marked segments are its first segments, marked. -/
theorem markRelative_prefix {front : List Marked} {segments : List (List Char)}
    (h : front <+: markRelative segments) :
    ∃ segments', segments' <+: segments ∧ front = markRelative segments' := by
  unfold markRelative at h
  split at h
  · rename_i rest
    cases front with
    | nil => exact ⟨[], List.nil_prefix, rfl⟩
    | cons first front =>
        obtain ⟨rfl, hfront⟩ := List.cons_prefix_cons.mp h
        obtain ⟨segments', hsegments, rfl⟩ := markInner_prefix hfront
        exact ⟨['.'] :: segments', List.cons_prefix_cons.mpr ⟨rfl, hsegments⟩, rfl⟩
  · rename_i hne
    obtain ⟨segments', ⟨more, rfl⟩, rfl⟩ := markInner_prefix h
    refine ⟨segments', List.prefix_append _ _, ?_⟩
    unfold markRelative
    split
    · exact absurd rfl (hne _)
    · rfl

/-- A path is cut behind its leading slash, if it has one. -/
theorem cut_cases (p : Path) :
    (∃ rest, p.text.toList = '/' :: rest ∧ p.cut = ⟨true, markInner (splitSlash rest)⟩) ∨
      ((∀ rest, p.text.toList ≠ '/' :: rest) ∧
        p.cut = ⟨false, markRelative (splitSlash p.text.toList)⟩) := by
  unfold cut
  split
  · rename_i rest hrest
    exact Or.inl ⟨rest, hrest, rfl⟩
  · rename_i hne
    refine Or.inr ⟨hne, ?_⟩
    unfold markRelative
    cases splitSlash p.text.toList with
    | nil => rfl
    | cons segment rest => split <;> simp_all

/-- The first segments of a path spell the components that they stand for. -/
theorem components_toPath {p : Path} {front : List Marked} (h : front <+: p.cut.segments) :
    (Cut.toPath ⟨p.cut.rooted, front⟩).components
      = (if p.cut.rooted then [.root] else []) ++ front.filterMap Prod.snd := by
  rcases cut_cases p with ⟨rest, -, hcut⟩ | ⟨hrelative, hcut⟩
  · rw [hcut] at h ⊢
    obtain ⟨segments, hsegments, rfl⟩ := markInner_prefix h
    show components ⟨String.ofList ('/' :: joinSlash ((markInner segments).map Prod.fst))⟩
      = .root :: (markInner segments).filterMap Prod.snd
    rw [components_rooted, map_markInner, filterMap_markInner]
    cases segments with
    | nil => rfl
    | cons segment segments =>
        rw [splitSlash_joinSlash (List.cons_ne_nil _ _) fun s hs =>
          not_mem_of_mem_splitSlash (hsegments.subset hs)]
  · rw [hcut] at h ⊢
    obtain ⟨segments, hsegments, rfl⟩ := markRelative_prefix h
    show components ⟨String.ofList (joinSlash ((markRelative segments).map Prod.fst))⟩
      = (markRelative segments).filterMap Prod.snd
    rw [map_markRelative]
    -- what begins with a slash cannot be the beginning of a relative path
    have hrelative' : ∀ rest, joinSlash segments ≠ '/' :: rest := by
      intro rest hrest
      have hprefix := joinSlash_prefix hsegments
      rw [joinSlash_splitSlash, hrest] at hprefix
      obtain ⟨more, hmore⟩ := hprefix
      exact hrelative (rest ++ more) hmore.symm
    rw [components_relative hrelative', relativeComponents_eq]
    cases segments with
    | nil => rfl
    | cons segment segments =>
        rw [splitSlash_joinSlash (List.cons_ne_nil _ _) fun s hs =>
          not_mem_of_mem_splitSlash (hsegments.subset hs)]

/-- What is dropped in front stands for nothing. -/
theorem dropBlank_eq (segments : List Marked) :
    ∃ blanks, segments = blanks ++ dropBlank segments ∧ blanks.filterMap Prod.snd = [] := by
  induction segments with
  | nil => exact ⟨[], rfl, rfl⟩
  | cons segment rest ih =>
      obtain ⟨chars, meaning⟩ := segment
      cases meaning with
      | some c => exact ⟨[], rfl, rfl⟩
      | none =>
          obtain ⟨blanks, hrest, hblank⟩ := ih
          refine ⟨(chars, none) :: blanks, ?_, hblank⟩
          show (chars, none) :: rest = (chars, none) :: (blanks ++ dropBlank rest)
          rw [← hrest]

/-- What is left in front stands for a component. -/
theorem dropBlank_head {segments rest : List Marked} {segment : Marked}
    (h : dropBlank segments = segment :: rest) : ∃ c, segment.2 = some c := by
  induction segments with
  | nil => exact nomatch h
  | cons first segments ih =>
      obtain ⟨chars, meaning⟩ := first
      cases meaning with
      | some c => exact ⟨c, congrArg Prod.snd (List.cons.inj h).1.symm⟩
      | none => exact ih h

/-- Only an absolute path begins with the root. -/
theorem root_not_mem {p : Path} (h : p.cut.rooted = false) : .root ∉ p.components := by
  rcases cut_cases p with ⟨rest, -, hcut⟩ | ⟨hrelative, -⟩
  · rw [hcut] at h
    exact nomatch h
  · rcases components_cases p with ⟨rest, hrest, -⟩ | ⟨-, hcomponents⟩
    · exact absurd hrest (hrelative rest)
    · rw [hcomponents]
      unfold relativeComponents
      split
      · intro hroot
        rcases List.mem_cons.mp hroot with hroot | hroot
        · exact nomatch hroot
        · exact (mem_meanings_ne hroot).2 rfl
      · exact fun hroot => (mem_meanings_ne hroot).2 rfl

/-- The components are those that a path's cut stands for. -/
theorem components_eq (p : Path) :
    p.components = (if p.cut.rooted then [.root] else []) ++ p.cut.segments.filterMap Prod.snd := by
  unfold components
  simp only
  cases p.cut.rooted <;> rfl

/-- **The components of a directory**: all but the last, which the root keeps to
    itself. -/
theorem components_dir (p : Path) :
    p.dir.components = if p.components = [.root] then [] else p.components.dropLast := by
  have hcomponents := components_eq p
  obtain ⟨blanks, hblanks, hblank⟩ := dropBlank_eq p.cut.segments.reverse
  unfold dir parent? dropBlankEnd
  simp only [List.reverse_reverse]
  cases hmeaning : dropBlank p.cut.segments.reverse with
  | nil =>
      have hnone : p.cut.segments.filterMap Prod.snd = [] := by
        rw [hmeaning, List.append_nil] at hblanks
        rw [← List.reverse_eq_nil_iff, ← List.filterMap_reverse, hblanks, hblank]
      rw [hcomponents, hnone]
      cases p.cut.rooted <;> rfl
  | cons segment rest =>
      obtain ⟨c, hc⟩ := dropBlank_head hmeaning
      obtain ⟨blanks', hblanks', hblank'⟩ := dropBlank_eq rest
      -- the segments in front, and the last that means something, between blanks
      have hsegments : p.cut.segments = (dropBlank rest).reverse
          ++ (blanks'.reverse ++ segment :: blanks.reverse) := by
        rw [← List.reverse_reverse p.cut.segments, hblanks, hmeaning]
        conv_lhs => rw [hblanks']
        simp
      have hlast : p.cut.segments.filterMap Prod.snd
          = (dropBlank rest).reverse.filterMap Prod.snd ++ [c] := by
        rw [hsegments, List.filterMap_append, List.filterMap_append, List.filterMap_cons_some hc,
          List.filterMap_reverse (l := blanks'), List.filterMap_reverse (l := blanks), hblank,
          hblank']
        rfl
      show (Cut.toPath ⟨p.cut.rooted, (dropBlank rest).reverse⟩).components = _
      rw [hlast, ← List.append_assoc] at hcomponents
      have hnot : p.components ≠ [.root] := ?_
      · rw [components_toPath ⟨_, hsegments.symm⟩, if_neg hnot, hcomponents,
          List.dropLast_concat]
      intro hroot
      have hc : c ∈ p.components := by
        rw [hcomponents]
        simp
      rw [hroot, List.mem_singleton] at hc
      rw [hcomponents] at hroot
      cases hrooted : p.cut.rooted with
      | true =>
          rw [hrooted] at hroot
          have hlength := congrArg List.length hroot
          simp at hlength
      | false =>
          refine root_not_mem hrooted ?_
          rw [hcomponents, hc]
          simp

/-! ## Paths that are the same -/

/-- Only the empty path has no components. -/
theorem components_eq_nil {p : Path} : p.components = [] ↔ p.text = "" := by
  constructor
  · intro h
    rcases components_cases p with ⟨rest, -, hcomponents⟩ | ⟨hrelative, hcomponents⟩
    · rw [hcomponents] at h
      exact nomatch h
    · rw [hcomponents] at h
      cases hchars : p.text.toList with
      | nil => exact String.toList_eq_nil_iff.mp hchars
      | cons c chars =>
          rw [hchars] at h hrelative
          have hc : c ≠ '/' := fun hc => hrelative chars (by rw [hc])
          -- the first segment is not empty, and it is no `.` either, so it means something
          have hsplit : ∃ segment segments,
              splitSlash (c :: chars) = (c :: segment) :: segments := by
            unfold splitSlash
            rw [if_neg hc]
            cases splitSlash chars with
            | nil => exact ⟨[], [], rfl⟩
            | cons segment segments => exact ⟨segment, segments, rfl⟩
          obtain ⟨segment, segments, hsplit⟩ := hsplit
          unfold relativeComponents at h
          rw [hsplit] at h
          split at h
          · exact nomatch h
          · rename_i hdot
            have hmeaning : ∃ x, Component.ofSegment? (c :: segment) = some x := by
              unfold Component.ofSegment?
              split
              · rename_i heq
                exact nomatch heq
              · rename_i heq
                exact absurd (by rw [heq]) (hdot segments)
              · exact ⟨_, rfl⟩
              · exact ⟨_, rfl⟩
            obtain ⟨x, hx⟩ := hmeaning
            unfold meanings at h
            rw [List.filterMap_cons_some hx] at h
            exact nomatch h
  · intro h
    have hp : p = ⟨""⟩ := congrArg Path.mk h
    rw [hp]
    rfl

/-- A joined path depends on the base, not on its spelling. -/
theorem join_congr {base base' : Path} (h : base.components = base'.components) (other : Path) :
    (base.join other).components = (base'.join other).components := by
  have hempty : base.text = "" ↔ base'.text = "" := by
    rw [← components_eq_nil, ← components_eq_nil, h]
  rw [components_join, components_join, h]
  simp only [hempty]

/-- The directory of a path does not depend on its spelling. -/
theorem dir_congr {p q : Path} (h : p.components = q.components) :
    p.dir.components = q.dir.components := by
  rw [components_dir, components_dir, h]

/-- What a path is as seen from a directory depends on the directory, not on
    its spelling. -/
theorem absolutize_congr {base base' : Path} (h : base.components = base'.components) (p : Path) :
    absolutize base p = absolutize base' p := by
  unfold absolutize
  by_cases habsolute : p.isAbsolute = true
  · rw [if_pos habsolute, if_pos habsolute]
  · rw [if_neg habsolute, if_neg habsolute]
    unfold normalize
    rw [join_congr h p]

/-! ## Names -/

/-- A name is a segment: it is not empty and holds no slash. -/
theorem mem_meanings_name {segments : List (List Char)}
    (hslash : ∀ segment ∈ segments, '/' ∉ segment) {name : String}
    (h : Component.name name ∈ meanings segments) : '/' ∉ name.toList ∧ name.toList ≠ [] := by
  obtain ⟨segment, hmem, hsegment⟩ := List.mem_filterMap.mp h
  unfold Component.ofSegment? at hsegment
  split at hsegment
  · exact nomatch hsegment
  · exact nomatch hsegment
  · exact nomatch Option.some.inj hsegment
  · rename_i _ hne _ _
    have hname : name = String.ofList segment :=
      (Component.name.inj (Option.some.inj hsegment)).symm
    rw [hname, String.toList_ofList]
    exact ⟨hslash segment hmem, hne⟩

/-- A name among the components is not empty and holds no slash. -/
theorem mem_components_name {p : Path} {name : String} (h : Component.name name ∈ p.components) :
    '/' ∉ name.toList ∧ name.toList ≠ [] := by
  rcases components_cases p with ⟨rest, -, hcomponents⟩ | ⟨-, hcomponents⟩
  · rw [hcomponents] at h
    rcases List.mem_cons.mp h with h | h
    · exact nomatch h
    · exact mem_meanings_name (fun segment hsegment => not_mem_of_mem_splitSlash hsegment) h
  · rw [hcomponents] at h
    have hslash : ∀ segment ∈ splitSlash p.text.toList, '/' ∉ segment :=
      fun segment hsegment => not_mem_of_mem_splitSlash hsegment
    unfold relativeComponents at h
    split at h
    · rename_i rest heq
      rw [heq] at hslash
      rcases List.mem_cons.mp h with h | h
      · exact nomatch h
      · exact mem_meanings_name (fun s hs => hslash s (List.mem_cons_of_mem _ hs)) h
    · exact mem_meanings_name hslash h

/-- The file name is the last component. -/
theorem fileName?_eq_some {p : Path} {name : String} (h : p.fileName? = some name) :
    p.components.getLast? = some (.name name) := by
  unfold fileName? at h
  split at h
  · rename_i text heq
    rw [heq, Option.some.inj h]
  · exact nomatch h

end ProjectBuild.Path
