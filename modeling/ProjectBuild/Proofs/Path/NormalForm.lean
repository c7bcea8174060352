import ProjectBuild.Proofs.Path.Normal

/-! # Normal forms

    Normalizing a path folds its components into a stack, on which `..` takes the
    name on top away, is absorbed by the root, or piles up.  What comes out is in
    normal form (`Path.InNormalForm`), and normal forms that are the same have the
    same text.  The stack of a joined path is that of the second path, grown on
    that of the first (`Path.stack_join`): so a path may be normalized before
    another is joined to it, or afterwards (`Path.normalize_join`). -/

namespace ProjectBuild

namespace Path

/-- Names behind the root, or behind the `..`s in front of a relative path, with
    single slashes between them. -/
structure InNormalForm (p : Path) : Prop where
  folded : ∃ (ups : Nat) (names : List String), p.components
    = (if p.isAbsolute then [.root] else List.replicate ups .parent) ++ names.map .name
  single : ¬ ['/', '/'] <:+: p.text.toList
  closed : p.text ≠ "/" → p.text.toList.getLast? ≠ some '/'

/-! ## Folding -/

/-- The stack that the components of a path are folded into. -/
def stack (p : Path) : List Component :=
  p.components.foldl fold []

/-- The components of a normal form are those piled up. -/
theorem components_normalize (p : Path) : p.normalize.components = p.stack.reverse :=
  components_ofComponents (plain_foldComponents p)

/-- Paths that pile up alike have one normal form. -/
theorem normalize_of_stack {p q : Path} (h : p.stack = q.stack) : p.normalize = q.normalize := by
  refine (canonical_normalize p).eq_of_components (canonical_normalize q) ?_
  rw [components_normalize, components_normalize, h]

/-- A stack is folded into itself. -/
theorem stack_normalize (p : Path) : p.normalize.stack = p.stack := by
  have hagain := congrArg components (normalize_normalize p)
  rwa [components_normalize, components_normalize, List.reverse_inj] at hagain

/-- Folding passes over `.`. -/
theorem foldl_fold_filter (components seen : List Component) :
    (components.filter (· ≠ .current)).foldl fold seen = components.foldl fold seen := by
  induction components generalizing seen with
  | nil => rfl
  | cons c rest ih =>
      by_cases hc : c = .current
      · subst hc
        rw [List.filter_cons_of_neg (by simp), ih, List.foldl_cons, fold]
      · rw [List.filter_cons_of_pos (by simpa using hc), List.foldl_cons, List.foldl_cons, ih]

/-- A relative path goes on where the path it is joined to has led. -/
theorem foldl_fold_join {q : Path} (hq : q.isAbsolute = false) (p : Path) (seen : List Component) :
    (p.join q).components.foldl fold seen
      = q.components.foldl fold (p.components.foldl fold seen) := by
  rw [components_join, hq, if_neg Bool.false_ne_true]
  split
  · rename_i hempty
    rw [components_eq_nil.mpr hempty, List.foldl_nil]
  · rw [List.foldl_append, foldl_fold_filter]

theorem join_of_isAbsolute {q : Path} (hq : q.isAbsolute = true) (p : Path) : p.join q = q := by
  rw [join, if_pos hq]

/-- **The stack of a joined path**: an absolute path starts anew, and a relative
    one goes on. -/
theorem stack_join (p q : Path) :
    (p.join q).stack = if q.isAbsolute then q.stack else q.components.foldl fold p.stack := by
  cases hq : q.isAbsolute with
  | true => rw [join_of_isAbsolute hq, if_pos rfl]
  | false => exact foldl_fold_join hq p []

/-- **A path may be normalized before another is joined to it.** -/
theorem normalize_join (p q : Path) : (p.join q).normalize = (p.normalize.join q).normalize := by
  apply normalize_of_stack
  rw [stack_join, stack_join, stack_normalize]

/-! ## Paths seen from a base -/

/-- A joined path is absolute if one of its parts is. -/
theorem isAbsolute_join_iff {p q : Path} :
    (p.join q).isAbsolute = true ↔ q.isAbsolute = true ∨ p.isAbsolute = true := by
  constructor
  · intro h
    by_contra hnot
    obtain ⟨hq, hp⟩ := not_or.mp hnot
    obtain ⟨rest, hrest⟩ := isAbsolute_iff_components.mp h
    rw [components_join, if_neg hq] at hrest
    split at hrest
    · exact hq (isAbsolute_iff_components.mpr ⟨rest, hrest⟩)
    · rename_i hne
      -- the first component is that of `p`
      cases hcomponents : p.components with
      | nil => exact hne (components_eq_nil.mp hcomponents)
      | cons c front =>
          rw [hcomponents, List.cons_append] at hrest
          obtain rfl := (List.cons.inj hrest).1
          exact hp (isAbsolute_iff_components.mpr ⟨front, hcomponents⟩)
  · rintro (hq | hp)
    · rwa [join_of_isAbsolute hq]
    · exact isAbsolute_join hp q

/-- What is seen from a directory is the normal form of what is joined to it. -/
theorem absolutize_eq (base p : Path) : absolutize base p = (base.join p).normalize := by
  unfold absolutize
  split
  · rename_i hp
    rw [join_of_isAbsolute hp]
  · rfl

/-- Joining piles up alike from either side. -/
theorem stack_join_join (base p q : Path) :
    ((base.join p).join q).stack = (base.join (p.join q)).stack := by
  cases hq : q.isAbsolute with
  | true => rw [join_of_isAbsolute hq, join_of_isAbsolute hq, join_of_isAbsolute hq]
  | false =>
      rw [stack_join, hq, if_neg Bool.false_ne_true]
      cases hp : p.isAbsolute with
      | true =>
          have hpq : (p.join q).isAbsolute = true := isAbsolute_join_iff.mpr (Or.inr hp)
          rw [join_of_isAbsolute hp, join_of_isAbsolute hpq]
          exact (foldl_fold_join hq p []).symm
      | false =>
          have hpq : (p.join q).isAbsolute = false := by
            rw [← Bool.not_eq_true, isAbsolute_join_iff, hq, hp]
            simp
          rw [stack_join base, stack_join base, hp, hpq, if_neg Bool.false_ne_true,
            if_neg Bool.false_ne_true, foldl_fold_join hq]

/-- **Seen from one base after another**, a path is what it is as seen through
    both. -/
theorem absolutize_absolutize (base p q : Path) :
    absolutize (absolutize base p) q = absolutize base (p.join q) := by
  rw [absolutize_eq, absolutize_eq, absolutize_eq, ← normalize_join]
  exact normalize_of_stack (stack_join_join base p q)

/-! ## What comes out -/

/-- A stack of names on the root, or on the `..`s of a relative path. -/
def Piled (rooted : Bool) (seen : List Component) : Prop :=
  ∃ (ups : Nat) (names : List String),
    seen = names.map .name ++ if rooted then [.root] else List.replicate ups .parent

/-- One more component keeps names on top. -/
theorem Piled.fold {rooted : Bool} {seen : List Component} (h : Piled rooted seen) {c : Component}
    (hc : c ≠ .root) : Piled rooted (fold seen c) := by
  obtain ⟨ups, names, rfl⟩ := h
  cases c with
  | root => exact absurd rfl hc
  | current => exact ⟨ups, names, by rw [Path.fold]⟩
  | name text => exact ⟨ups, text :: names, fold_name _ text⟩
  | parent =>
      cases names with
      | cons name names => exact ⟨ups, names, rfl⟩
      | nil =>
          cases rooted with
          | true => exact ⟨ups, [], rfl⟩
          | false => exact ⟨ups + 1, [], by cases ups <;> rfl⟩

/-- Folding components keeps a pile as it must be. -/
theorem Piled.foldl {rooted : Bool} {components seen : List Component}
    (h : ∀ c ∈ components, c ≠ .root) (hseen : Piled rooted seen) :
    Piled rooted (components.foldl Path.fold seen) := by
  induction components generalizing seen with
  | nil => exact hseen
  | cons c rest ih =>
      obtain ⟨hc, hrest⟩ := List.forall_mem_cons.mp h
      exact ih hrest (hseen.fold hc)

/-- **The components of a path pile up** with `..` at the bottom only. -/
theorem piled_stack (p : Path) : Piled p.isAbsolute p.stack := by
  unfold stack
  cases hp : p.isAbsolute with
  | true =>
      obtain ⟨rest, hrest⟩ := isAbsolute_iff_components.mp hp
      rw [hrest, List.foldl_cons]
      refine Piled.foldl (fun c hc => ?_) ⟨0, [], rfl⟩
      exact (mem_tail_components (p := p) (by rwa [hrest])).2
  | false =>
      refine Piled.foldl (fun c hc hroot => ?_) ⟨0, [], rfl⟩
      exact root_not_mem hp (hroot ▸ hc)

/-- The components of a normal form. -/
theorem folded_normalize (p : Path) : ∃ (ups : Nat) (names : List String), p.normalize.components
    = (if p.isAbsolute then [.root] else List.replicate ups .parent) ++ names.map .name := by
  obtain ⟨ups, names, hstack⟩ := piled_stack p
  refine ⟨ups, names.reverse, ?_⟩
  rw [components_normalize, hstack, List.reverse_append, List.map_reverse]
  cases p.isAbsolute with
  | true => rfl
  | false => exact congrArg (· ++ _) List.reverse_replicate

/-- Only absolute paths have absolute normal forms. -/
theorem isAbsolute_normalize_eq (p : Path) : p.normalize.isAbsolute = p.isAbsolute := by
  cases hp : p.isAbsolute with
  | true => exact isAbsolute_normalize hp
  | false =>
      obtain ⟨ups, names, hcomponents⟩ := folded_normalize p
      rw [← Bool.not_eq_true, isAbsolute_iff_components]
      rintro ⟨rest, hrest⟩
      have hroot : Component.root ∈ p.normalize.components := hrest ▸ List.mem_cons_self
      rw [hcomponents, hp] at hroot
      simp at hroot

/-- No slash follows another in what is written. -/
theorem single_written {components : List Component} (h : ∀ c ∈ components, c.Inner) :
    ¬ ['/', '/'] <:+: written components := by
  rintro ⟨front, back, hinfix⟩
  -- between two slashes there would be an empty segment
  have hempty : [] ∈ splitSlash (written components) := by
    rw [← hinfix, List.append_assoc, List.cons_append, splitSlash_append]
    exact List.mem_append_right _ List.mem_cons_self
  have hne : components ≠ [] := by
    rintro rfl
    simp [written, joinSlash] at hinfix
  rw [splitSlash_written h hne] at hempty
  obtain ⟨c, hc, hspelling⟩ := List.mem_map.mp hempty
  have hsegment := (h c hc).2
  rw [hspelling] at hsegment
  cases hsegment

/-- A canonical path is spelled with single slashes, and only the root ends in one. -/
theorem Canonical.spelled {p : Path} (h : p.Canonical) : ¬ ['/', '/'] <:+: p.text.toList ∧
    (p.text ≠ "/" → p.text.toList.getLast? ≠ some '/') := by
  obtain ⟨components, ⟨body, rfl | rfl, hinner⟩, rfl⟩ := h
  · rw [toList_ofComponents_root]
    constructor
    · rw [List.infix_cons_iff, not_or]
      refine ⟨fun hprefix => ?_, single_written hinner⟩
      obtain ⟨back, hback⟩ := (List.cons_prefix_cons.mp hprefix).2
      exact (relativeComponents_written hinner).1 back hback.symm
    · intro hne
      have hbody : body ≠ [] := by
        rintro rfl
        exact hne rfl
      rw [List.getLast?_cons_of_ne_nil (written_ne_nil hinner hbody)]
      exact getLast?_written hinner
  · rw [toList_ofComponents hinner]
    exact ⟨single_written hinner, fun _ => getLast?_written hinner⟩

/-- A relative path in canonical spelling is written from its components. -/
theorem Canonical.toList_eq {p : Path} (h : p.Canonical) (hrelative : p.isAbsolute = false) :
    (∀ c ∈ p.components, c.Inner) ∧ p.text.toList = written p.components := by
  obtain ⟨components, hplain, rfl⟩ := h
  rw [components_ofComponents hplain]
  obtain ⟨body, rfl | rfl, hinner⟩ := hplain
  · rw [isAbsolute_iff.mpr ⟨_, toList_ofComponents_root body⟩] at hrelative
    cases hrelative
  · exact ⟨hinner, toList_ofComponents hinner⟩

/-- **Below one another**: of two relative paths in canonical spelling, one holds the
    other if its text goes on behind a slash, or is the same. -/
theorem Canonical.isWithin_iff_toList {p q : Path} (hp : p.Canonical) (hq : q.Canonical)
    (hprelative : p.isAbsolute = false) (hqrelative : q.isAbsolute = false) (hne : p.text ≠ "") :
    isWithin p q = true ↔ q = p ∨ ∃ more, q.text.toList = p.text.toList ++ '/' :: more := by
  rw [isWithin_iff]
  constructor
  · rintro ⟨below, hbelow⟩
    cases below with
    | nil => exact Or.inl (hq.eq_of_components hp (by rw [← hbelow, List.append_nil]))
    | cons c below =>
        refine Or.inr ⟨written (c :: below), ?_⟩
        rw [(hp.toList_eq hprelative).2, (hq.toList_eq hqrelative).2, ← hbelow]
        exact written_append (mt components_eq_nil.mp hne) (List.cons_ne_nil _ _)
  · rintro (rfl | ⟨more, hmore⟩)
    · exact List.prefix_refl _
    · have hsplit := components_slash (mt String.toList_eq_nil_iff.mp hne) more
      rw [← hmore, String.ofList_toList, String.ofList_toList] at hsplit
      exact ⟨_, hsplit.symm⟩

/-- **A normal form is in normal form.** -/
theorem inNormalForm_normalize (p : Path) : p.normalize.InNormalForm := by
  obtain ⟨single, closed⟩ := (canonical_normalize p).spelled
  refine ⟨?_, single, closed⟩
  rw [isAbsolute_normalize_eq]
  exact folded_normalize p

/-- **Normalizing gives a canonical form**, absolute or not as the path is: the
    same for paths that are the same only if it is the same text, for itself
    itself, and for what is joined to it what it is for what is joined to the
    path. -/
theorem normalize_canonical (p : Path) :
    p.normalize.InNormalForm ∧ p.normalize.isAbsolute = p.isAbsolute ∧
      (∀ q : Path, p.normalize.same q.normalize = true ↔ p.normalize.text = q.normalize.text) ∧
      p.normalize.normalize = p.normalize ∧
      (∀ q : Path, (p.join q).normalize = (p.normalize.join q).normalize) ∧
      ∀ base q : Path, absolutize (absolutize base p) q = absolutize base (p.join q) := by
  refine ⟨inNormalForm_normalize p, isAbsolute_normalize_eq p, fun q => ?_, normalize_normalize p,
    normalize_join p, fun base q => absolutize_absolutize base p q⟩
  constructor
  · intro hsame
    exact congrArg text ((canonical_normalize p).eq_of_components (canonical_normalize q)
      (same_iff.mp hsame))
  · intro htext
    have hequal : p.normalize = q.normalize := congrArg Path.mk htext
    rw [same_iff, hequal]

end Path

end ProjectBuild
