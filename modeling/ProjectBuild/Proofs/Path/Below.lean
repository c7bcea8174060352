import ProjectBuild.Proofs.Path.Components

/-! # Paths below a directory

    What is left of a path below a directory that contains it has the rest of
    its components (`Path.components_afterDir?`).  So moving it below another
    directory replaces the components in front, and renaming the file replaces
    the last. -/

namespace ProjectBuild.Path

/-! ## The rest of a path -/

/-- An inner segment: its mark is what it stands for behind a slash. -/
def Inner (m : Marked) : Prop :=
  m.2 = Component.ofSegment? m.1 ∧ '/' ∉ m.1

/-- Inner segments are marked as what they stand for. -/
theorem inner_of_mem_markInner {segments : List (List Char)}
    (hslash : ∀ segment ∈ segments, '/' ∉ segment) : ∀ m ∈ markInner segments, Inner m := by
  intro m hm
  obtain ⟨segment, hsegment, rfl⟩ := List.mem_map.mp hm
  exact ⟨rfl, hslash segment hsegment⟩

/-- Segments that are marked so are inner ones. -/
theorem markInner_of_inner {segments : List Marked} (h : ∀ m ∈ segments, Inner m) :
    segments = markInner (segments.map Prod.fst) := by
  unfold markInner
  rw [List.map_map]
  symm
  refine (List.map_congr_left fun m hm => ?_).trans (List.map_id _)
  exact Prod.ext rfl (h m hm).1.symm

/-- All segments are inner ones, but the first of a relative path may be a `.`
    that stands for itself. -/
theorem cut_segments (p : Path) :
    (∀ m ∈ p.cut.segments, Inner m) ∨
      p.cut.rooted = false ∧ ∃ rest, p.cut.segments = (['.'], some .current) :: rest ∧
        ∀ m ∈ rest, Inner m := by
  rcases cut_cases p with ⟨rest, -, hcut⟩ | ⟨-, hcut⟩
  · left
    rw [hcut]
    exact inner_of_mem_markInner fun segment => not_mem_of_mem_splitSlash
  · have hslash : ∀ segment ∈ splitSlash p.text.toList, '/' ∉ segment :=
      fun segment => not_mem_of_mem_splitSlash
    rw [hcut]
    unfold markRelative
    split
    · rename_i rest heq
      rw [heq] at hslash
      exact Or.inr ⟨rfl, _, rfl, inner_of_mem_markInner fun segment hsegment =>
        hslash segment (List.mem_cons_of_mem _ hsegment)⟩
    · exact Or.inl (inner_of_mem_markInner hslash)

/-- Dropping the first components leaves the rest of the segments, and what it
    stands for. -/
theorem dropMeaning_spec (n : Nat) (segments : List Marked) :
    dropMeaning n segments <:+ segments ∧
      (dropMeaning n segments).filterMap Prod.snd = (segments.filterMap Prod.snd).drop n := by
  fun_induction dropMeaning n segments with
  | case1 segments => exact ⟨List.suffix_rfl, rfl⟩
  | case2 n => exact ⟨List.suffix_rfl, rfl⟩
  | case3 n chars rest ih => exact ⟨ih.1.trans (List.suffix_cons _ _), ih.2⟩
  | case4 n chars c rest ih => exact ⟨ih.1.trans (List.suffix_cons _ _), ih.2⟩

/-- Inner segments without blanks around them spell what they stand for. -/
theorem components_trimmed {segments : List Marked} (h : ∀ m ∈ segments, Inner m) :
    (Cut.toPath ⟨false, dropBlankEnd (dropBlank segments)⟩).components
      = segments.filterMap Prod.snd := by
  obtain ⟨blanks, hblanks, hblank⟩ := dropBlank_eq segments
  obtain ⟨blanks', hblanks', hblank'⟩ := dropBlank_eq (dropBlank segments).reverse
  have hend : dropBlank segments = dropBlankEnd (dropBlank segments) ++ blanks'.reverse := by
    unfold dropBlankEnd
    rw [← List.reverse_append, ← hblanks', List.reverse_reverse]
  have hmeaning : (dropBlankEnd (dropBlank segments)).filterMap Prod.snd
      = segments.filterMap Prod.snd := by
    conv_rhs => rw [hblanks, hend, List.filterMap_append, List.filterMap_append,
      List.filterMap_reverse (l := blanks'), hblank, hblank']
    simp
  have hinner : ∀ m ∈ dropBlankEnd (dropBlank segments), Inner m := by
    intro m hm
    refine h m ?_
    rw [hblanks, hend]
    simp [hm]
  rw [← hmeaning]
  cases hleft : dropBlankEnd (dropBlank segments) with
  | nil => rfl
  | cons first rest =>
      rw [hleft] at hinner hend
      -- the first segment that is left stands for a name or for the parent
      obtain ⟨c, hc⟩ := dropBlank_head hend
      have hfirst := hinner first List.mem_cons_self
      have hdot : first.1 ≠ ['.'] := by
        intro hdot
        rw [hfirst.1, hdot] at hc
        exact nomatch hc
      have hempty : first.1 ≠ [] := by
        intro hempty
        rw [hfirst.1, hempty] at hc
        exact nomatch hc
      have hne : (first :: rest).map Prod.fst ≠ [] := List.cons_ne_nil _ _
      have hslash : ∀ segment ∈ (first :: rest).map Prod.fst, '/' ∉ segment := by
        rintro segment hsegment
        obtain ⟨m, hm, rfl⟩ := List.mem_map.mp hsegment
        exact (hinner m hm).2
      have hrelative : ∀ more, joinSlash ((first :: rest).map Prod.fst) ≠ '/' :: more := by
        intro more hmore
        obtain ⟨chars, hchars⟩ := joinSlash_prefix
          (show [first.1] <+: (first :: rest).map Prod.fst from ⟨rest.map Prod.fst, rfl⟩)
        rw [hmore] at hchars
        cases hhead : first.1 with
        | nil => exact hempty hhead
        | cons d chars' =>
            rw [hhead] at hchars
            obtain ⟨rfl, -⟩ := List.cons.inj hchars
            exact hfirst.2 (by rw [hhead]; exact List.mem_cons_self)
      show components ⟨String.ofList (joinSlash ((first :: rest).map Prod.fst))⟩ = _
      rw [components_relative hrelative]
      unfold relativeComponents
      rw [splitSlash_joinSlash hne hslash]
      split
      · rename_i heq
        exact absurd (List.cons.inj heq).1 hdot
      · rw [← filterMap_markInner, ← markInner_of_inner hinner]

/-- A path lies within a directory if its components begin with those of the
    directory. -/
theorem isWithin_iff {dir p : Path} : isWithin dir p = true ↔ dir.components <+: p.components :=
  List.isPrefixOf_iff_prefix

theorem isWithin_self (p : Path) : isWithin p p = true :=
  isWithin_iff.mpr (List.prefix_refl _)

theorem isWithin_trans {top dir p : Path} (htop : isWithin top dir = true)
    (hdir : isWithin dir p = true) : isWithin top p = true :=
  isWithin_iff.mpr ((isWithin_iff.mp htop).trans (isWithin_iff.mp hdir))

/-- **What is left of a path below a directory** has the rest of its components. -/
theorem components_afterDir? {dir p rest : Path} (h : afterDir? dir p = some rest) :
    p.components = dir.components ++ rest.components := by
  unfold afterDir? at h
  by_cases hwithin : isWithin dir p = true
  · rw [if_pos hwithin] at h
    obtain ⟨tail, htail⟩ := isWithin_iff.mp hwithin
    have hdrop : p.components.drop dir.components.length = tail := by
      rw [← htail, List.drop_left]
    rw [← htail]
    refine congrArg (dir.components ++ ·) ?_
    rw [← Option.some.inj h]
    by_cases hzero : dir.components.length = 0
    · -- nothing is dropped but blanks at the end
      rw [hzero, List.drop_zero] at hdrop
      simp only [if_pos hzero]
      obtain ⟨blanks, hblanks, hblank⟩ := dropBlank_eq p.cut.segments.reverse
      have hend : p.cut.segments = dropBlankEnd p.cut.segments ++ blanks.reverse := by
        unfold dropBlankEnd
        rw [← List.reverse_append, ← hblanks, List.reverse_reverse]
      rw [components_toPath ⟨_, hend.symm⟩, ← hdrop, components_eq]
      conv_lhs => rw [hend, List.filterMap_append, List.filterMap_reverse (l := blanks), hblank]
      simp
    · simp only [if_neg hzero]
      have hinner : ∀ m ∈ dropMeaning (if p.cut.rooted then dir.components.length - 1
          else dir.components.length) p.cut.segments, Inner m := by
        rcases cut_segments p with hall | ⟨hrooted, rest', hrest, hall⟩
        · exact fun m hm => hall m ((dropMeaning_spec _ _).1.subset hm)
        · -- a leading `.` is the first component, and is dropped
          obtain ⟨n, hn⟩ := Nat.exists_eq_succ_of_ne_zero hzero
          rw [hrooted, if_neg Bool.false_ne_true, hn, hrest]
          exact fun m hm => hall m ((dropMeaning_spec n rest').1.subset hm)
      rw [components_trimmed hinner, (dropMeaning_spec _ _).2, ← hdrop, components_eq p]
      cases p.cut.rooted with
      | true =>
          obtain ⟨n, hn⟩ := Nat.exists_eq_succ_of_ne_zero hzero
          simp [hn]
      | false => simp
  · rw [if_neg hwithin] at h
    exact nomatch h

/-- Only the first component can be the root or a `.`. -/
theorem mem_tail_components {p : Path} {c : Component} (h : c ∈ p.components.tail) :
    c ≠ .current ∧ c ≠ .root := by
  have hinner : ∀ {segments : List Marked}, (∀ m ∈ segments, Inner m) →
      ∀ d ∈ segments.filterMap Prod.snd, d ≠ .current ∧ d ≠ .root := by
    intro segments hsegments d hd
    rw [markInner_of_inner hsegments, filterMap_markInner] at hd
    exact mem_meanings_ne hd
  rw [components_eq] at h
  rcases cut_segments p with hall | ⟨hrooted, rest, hrest, hall⟩
  · refine hinner hall c ?_
    cases hcut : p.cut.rooted with
    | true => simpa [hcut] using h
    | false =>
        rw [hcut] at h
        exact List.mem_of_mem_tail h
  · refine hinner hall c ?_
    rw [hrooted, hrest] at h
    exact h

/-- What is left of a path below a directory depends on the directory, not on its
    spelling. -/
theorem afterDir?_congr {dir dir' : Path} (h : dir.components = dir'.components) (p : Path) :
    afterDir? dir p = afterDir? dir' p := by
  unfold afterDir? isWithin
  rw [h]

/-- What is left below a directory that is not the empty path is relative. -/
theorem afterDir?_relative {dir p rest : Path} (h : afterDir? dir p = some rest)
    (hdir : dir.components ≠ []) : ∀ c ∈ rest.components, c ≠ .current ∧ c ≠ .root := by
  intro c hc
  refine mem_tail_components (p := p) ?_
  rw [components_afterDir? h, List.tail_append_of_ne_nil hdir]
  exact List.mem_append_right _ hc

/-! ## Joined paths -/

/-- A relative path that is joined to a directory adds its components. -/
theorem components_join_relative {base other : Path}
    (h : ∀ c ∈ other.components, c ≠ .current ∧ c ≠ .root) :
    (base.join other).components = base.components ++ other.components := by
  have hrelative : other.isAbsolute = false := by
    rw [← Bool.not_eq_true]
    intro habsolute
    obtain ⟨rest, hrest⟩ := isAbsolute_iff.mp habsolute
    rcases components_cases other with ⟨_, -, hcomponents⟩ | ⟨hne, -⟩
    · exact (h .root (by rw [hcomponents]; exact List.mem_cons_self)).2 rfl
    · exact hne rest hrest
  have hself : other.components.filter (· ≠ .current) = other.components := by
    rw [List.filter_eq_self]
    exact fun c hc => decide_eq_true (h c hc).1
  rw [components_join, hrelative, if_neg Bool.false_ne_true, hself]
  split
  · rename_i hempty
    rw [components_eq_nil.mpr hempty, List.nil_append]
  · rfl

/-- What is joined to the empty path stands for itself. -/
theorem components_join_nil {base other : Path} (h : base.components = []) :
    (base.join other).components = other.components := by
  rw [components_join, if_pos (components_eq_nil.mp h)]
  exact ite_self _

/-! ## Renamed files -/

/-- A file that is renamed keeps the components in front of its name. -/
theorem components_withFileName {p : Path} {old : String} (hold : p.fileName? = some old)
    {name : String} (hslash : '/' ∉ name.toList) (hlength : 2 < name.toList.length) :
    (p.withFileName name).components = p.components.dropLast ++ [.name name] := by
  have hlast := fileName?_eq_some hold
  have hname := components_long_name hslash hlength
  have hrelative : ∀ c ∈ (Path.mk name).components, c ≠ .current ∧ c ≠ .root := by
    intro c hc
    rw [hname, List.mem_singleton] at hc
    rw [hc]
    exact ⟨fun h => (nomatch h), fun h => (nomatch h)⟩
  have hdir : p.dir.components = p.components.dropLast := by
    rw [components_dir, if_neg]
    intro hroot
    rw [hroot] at hlast
    exact nomatch hlast
  unfold withFileName
  rw [hold]
  show (p.dir.join ⟨name⟩).components = _
  rw [components_join_relative hrelative, hdir, hname]

end ProjectBuild.Path
