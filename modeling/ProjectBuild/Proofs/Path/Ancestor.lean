import ProjectBuild.Path.Ancestor
import ProjectBuild.Proofs.Path.Below
import ProjectBuild.Proofs.Path.Canonical
import ProjectBuild.Proofs.Path.Map

/-! # Common directories

    Widening a directory until it holds a path gives the deepest directory that
    holds both (`Path.widen?_spec`): it climbs from parent to parent, and what
    holds the directory and the path is never left out.  A whole list is passed
    in the same way, so the common directory holds all its paths
    (`Path.isWithin_commonAncestor?`), and lies inside every directory that holds
    all their directories (`Path.commonAncestor?_below`).  Absolute paths always
    have one (`Path.exists_commonAncestor?`). -/

/-! ## Absolute paths

    A path is absolute if its components begin with the root.  What is made of
    absolute paths is absolute: normal forms, paths seen from one, and the
    directories that hold it.  Only the root itself has no directory. -/

namespace ProjectBuild

namespace Path

/-- A path is absolute if the root comes first. -/
theorem isAbsolute_iff_components {p : Path} :
    p.isAbsolute = true ↔ ∃ rest, p.components = .root :: rest := by
  constructor
  · intro h
    have hcomponents := components_eq p
    rw [if_pos (show p.cut.rooted = true from h)] at hcomponents
    exact ⟨_, hcomponents⟩
  · rintro ⟨rest, hrest⟩
    by_contra h
    refine root_not_mem (Bool.eq_false_iff.mpr h) ?_
    rw [hrest]
    exact List.mem_cons_self

theorem components_ne_nil {p : Path} (h : p.isAbsolute = true) : p.components ≠ [] := by
  obtain ⟨rest, hrest⟩ := isAbsolute_iff_components.mp h
  rw [hrest]
  exact List.cons_ne_nil _ _

/-- The absolute paths are those that the root holds. -/
theorem isWithin_root_iff {p : Path} : isWithin ⟨"/"⟩ p = true ↔ p.isAbsolute = true := by
  have hroot : (⟨"/"⟩ : Path).components = [.root] := by decide
  rw [isWithin_iff, isAbsolute_iff_components, hroot]
  constructor
  · rintro ⟨rest, hrest⟩
    exact ⟨rest, hrest.symm⟩
  · rintro ⟨rest, hrest⟩
    exact ⟨rest, hrest.symm⟩

/-- Only absolute paths lie below an absolute directory. -/
theorem isAbsolute_of_isWithin {dir p : Path} (hdir : dir.isAbsolute = true)
    (h : isWithin dir p = true) : p.isAbsolute = true := by
  obtain ⟨rest, hrest⟩ := isAbsolute_iff_components.mp hdir
  obtain ⟨more, hmore⟩ := isWithin_iff.mp h
  rw [hrest] at hmore
  exact isAbsolute_iff_components.mpr ⟨_, hmore.symm⟩

/-! ## Normal forms -/

/-- Folding never takes the root away. -/
theorem foldl_fold_root (components seen : List Component) :
    ∃ seen', components.foldl fold (seen ++ [.root]) = seen' ++ [.root] := by
  induction components generalizing seen with
  | nil => exact ⟨seen, rfl⟩
  | cons c rest ih =>
      obtain ⟨seen', hseen⟩ : ∃ seen', fold (seen ++ [.root]) c = seen' ++ [.root] := by
        cases c with
        | current => exact ⟨seen, by rw [fold]⟩
        | root => exact ⟨.root :: seen, by cases seen <;> rfl⟩
        | name text => exact ⟨.name text :: seen, by cases seen <;> rfl⟩
        | parent =>
            cases seen with
            | nil => exact ⟨[], rfl⟩
            | cons first seen =>
                cases first with
                | name text => exact ⟨seen, rfl⟩
                | root => exact ⟨.root :: seen, rfl⟩
                | current => exact ⟨.parent :: .current :: seen, rfl⟩
                | parent => exact ⟨.parent :: .parent :: seen, rfl⟩
      rw [List.foldl_cons, hseen]
      exact ih seen'

/-- Absolute paths have absolute normal forms. -/
theorem isAbsolute_normalize {p : Path} (h : p.isAbsolute = true) :
    p.normalize.isAbsolute = true := by
  obtain ⟨rest, hrest⟩ := isAbsolute_iff_components.mp h
  obtain ⟨seen, hseen⟩ := foldl_fold_root rest []
  refine isAbsolute_iff_components.mpr ⟨seen.reverse, ?_⟩
  unfold normalize
  rw [components_ofComponents (plain_foldComponents p), foldComponents, hrest]
  show (rest.foldl fold ([] ++ [.root])).reverse = _
  rw [hseen, List.reverse_append]
  rfl

/-- What is joined to an absolute path is absolute. -/
theorem isAbsolute_join {base : Path} (h : base.isAbsolute = true) (other : Path) :
    (base.join other).isAbsolute = true := by
  by_cases hother : other.isAbsolute = true
  · unfold join
    rwa [if_pos hother]
  · obtain ⟨rest, hrest⟩ := isAbsolute_iff_components.mp h
    have hne : base.text ≠ "" := fun hempty => components_ne_nil h (components_eq_nil.mpr hempty)
    refine isAbsolute_iff_components.mpr
      ⟨rest ++ other.components.filter (· ≠ .current), ?_⟩
    rw [components_join, if_neg hother, if_neg hne, hrest, List.cons_append]

/-- As seen from an absolute directory, every path is absolute. -/
theorem isAbsolute_absolutize {base : Path} (h : base.isAbsolute = true) (p : Path) :
    (absolutize base p).isAbsolute = true := by
  unfold absolutize
  split
  · rename_i hp
    exact isAbsolute_normalize hp
  · exact isAbsolute_normalize (isAbsolute_join h p)

/-! ## Directories -/

/-- The directory of an absolute path is absolute, unless the path is the root. -/
theorem isAbsolute_dir {p : Path} (h : p.isAbsolute = true) (hroot : p.components ≠ [.root]) :
    p.dir.isAbsolute = true := by
  obtain ⟨rest, hrest⟩ := isAbsolute_iff_components.mp h
  refine isAbsolute_iff_components.mpr ⟨rest.dropLast, ?_⟩
  rw [components_dir, if_neg hroot, hrest]
  cases rest with
  | nil => exact absurd hrest hroot
  | cons c rest => exact List.dropLast_cons_cons

/-- The parent of an absolute path is absolute. -/
theorem isAbsolute_parent? {p q : Path} (h : p.isAbsolute = true) (hq : p.parent? = some q) :
    q.isAbsolute = true := by
  unfold parent? at hq
  simp only at hq
  split at hq
  · exact nomatch hq
  · obtain rfl := Option.some.inj hq
    have hrooted : p.cut.rooted = true := h
    rw [isAbsolute_iff, hrooted]
    exact ⟨_, String.toList_ofList⟩

/-- A directory that holds a path is none that does not. -/
theorem same_eq_false_of_isWithin {dir other p : Path} (h : isWithin dir p = true)
    (hother : isWithin other p = false) : dir.same other = false := by
  rw [← Bool.not_eq_true] at hother ⊢
  exact fun hsame => hother (isWithin_iff.mpr (same_iff.mp hsame ▸ isWithin_iff.mp h))

/-- A parent holds the path. -/
theorem isWithin_parent? {p q : Path} (hq : p.parent? = some q) : isWithin q p = true := by
  have hdir : p.dir = q := by
    unfold dir
    rw [hq]
    rfl
  rw [isWithin_iff, ← hdir, components_dir]
  split
  · exact List.nil_prefix
  · exact List.dropLast_prefix _

/-- A path lies within its ancestors. -/
theorem isWithin_of_mem_ancestors {p q : Path} (hq : q ∈ p.ancestors) : isWithin q p = true := by
  unfold ancestors at hq
  generalize p.depth = n at hq
  induction n generalizing p with
  | zero => exact nomatch hq
  | succ n ih =>
      unfold ancestorsUpTo at hq
      cases hstep : p.parent? with
      | none =>
          rw [hstep] at hq
          exact nomatch hq
      | some parent =>
          rw [hstep] at hq
          rcases List.mem_cons.mp hq with rfl | hq
          · exact isWithin_parent? hstep
          · exact isWithin_trans (ih hq) (isWithin_parent? hstep)

end Path

/-- The configuration that an absolute path names has an absolute path. -/
theorem isAbsolute_of_resolveConfig? {σ : Type} [FileSystem σ] {fs : σ} {candidate p : Path}
    (hcandidate : candidate.isAbsolute = true) (h : resolveConfig? fs candidate = some p) :
    p.isAbsolute = true := by
  unfold resolveConfig? at h
  split at h
  · exact Option.some.inj h ▸ hcandidate
  · simp only at h
    split at h
    · exact Option.some.inj h ▸ Path.isAbsolute_join hcandidate _
    · exact nomatch h

end ProjectBuild

/-! ## Common directories -/

namespace ProjectBuild

namespace Path

/-! ## Inside a directory -/

/-- A path lies strictly inside a directory. -/
def Inside (dir p : Path) : Prop :=
  isWithin dir p = true ∧ p.same dir = false

/-- What is inside of a directory has its components and more. -/
theorem inside_iff {dir p : Path} :
    Inside dir p ↔ dir.components <+: p.components ∧ p.components ≠ dir.components := by
  unfold Inside
  rw [isWithin_iff, same_eq_false_iff]

/-- What is inside of an inner directory is inside of the outer one. -/
theorem Inside.trans {dir p q : Path} (hp : Inside dir p) (hq : Inside p q) : Inside dir q := by
  rw [inside_iff] at hp hq ⊢
  refine ⟨hp.1.trans hq.1, fun heq => hp.2 ?_⟩
  exact (heq ▸ hq.1).eq_of_length_le hp.1.length_le

/-! ## Climbing -/

/-- Only the root and the empty path have no parent. -/
theorem components_of_parent?_none {p : Path} (h : p.parent? = none) :
    p.components = [] ∨ p.components = [.root] := by
  have hmeanings : p.cut.segments.filterMap Prod.snd = [] := by
    unfold parent? dropBlankEnd at h
    simp only [List.reverse_reverse] at h
    cases hblank : dropBlank p.cut.segments.reverse with
    | cons segment rest =>
        rw [hblank] at h
        exact nomatch h
    | nil =>
        obtain ⟨blanks, hblanks, hnone⟩ := dropBlank_eq p.cut.segments.reverse
        rw [hblank, List.append_nil] at hblanks
        rw [← List.reverse_eq_nil_iff, ← List.filterMap_reverse, hblanks, hnone]
  rw [components_eq, hmeanings]
  cases p.cut.rooted with
  | true => exact Or.inr rfl
  | false => exact Or.inl rfl

/-- A parent is the directory of a path that is not the root. -/
theorem dir_of_parent? {p q : Path} (h : p.parent? = some q) :
    p.dir = q ∧ p.components ≠ [.root] ∧ p.components ≠ [] := by
  have hdir : p.dir = q := by
    unfold dir
    rw [h]
    rfl
  refine ⟨hdir, fun hroot => ?_, fun hnil => ?_⟩
  · have hq := isAbsolute_parent? (isAbsolute_iff_components.mpr ⟨[], hroot⟩) h
    have hempty := components_dir p
    rw [hdir, if_pos hroot] at hempty
    exact components_ne_nil hq hempty
  · obtain rfl : p = ⟨""⟩ := congrArg mk (components_eq_nil.mp hnil)
    exact nomatch h

/-- A parent has all components but the last. -/
theorem components_parent? {p q : Path} (h : p.parent? = some q) :
    q.components = p.components.dropLast ∧ p.depth = q.depth + 1 := by
  obtain ⟨rfl, hroot, hne⟩ := dir_of_parent? h
  have hcomponents := components_dir p
  rw [if_neg hroot] at hcomponents
  refine ⟨hcomponents, ?_⟩
  have hpos := List.length_pos_iff.mpr hne
  unfold depth
  rw [hcomponents, List.length_dropLast]
  omega

/-- What holds a path is the path or holds its parent. -/
theorem isWithin_parent?_of_ne {p q top : Path} (hq : p.parent? = some q)
    (hp : isWithin top p = true) (hne : top.components ≠ p.components) :
    isWithin top q = true := by
  obtain ⟨rfl, -, hnil⟩ := dir_of_parent? hq
  rw [isWithin_iff] at hp ⊢
  rw [(components_parent? hq).1]
  rw [← List.dropLast_append_getLast hnil, List.prefix_concat_iff,
    List.dropLast_append_getLast hnil] at hp
  exact hp.resolve_left hne

/-- The ancestors of a path are its parent and the ancestors of that. -/
theorem ancestors_eq (p : Path) : p.ancestors = match p.parent? with
    | none => []
    | some parent => parent :: parent.ancestors := by
  unfold ancestors
  cases hparent : p.parent? with
  | none =>
      cases p.depth with
      | zero => rfl
      | succ n =>
          unfold ancestorsUpTo
          rw [hparent]
  | some parent =>
      rw [(components_parent? hparent).2, ancestorsUpTo, hparent]

/-- A directory that does not hold a path gives way to its parent. -/
theorem widen?_eq (candidate p : Path) : widen? candidate p =
    if isWithin candidate p then some candidate else candidate.parent?.bind (widen? · p) := by
  unfold widen?
  rw [List.find?_cons]
  split
  · rename_i h
    rw [if_pos h]
  · rename_i h
    rw [if_neg (Bool.eq_false_iff.mp h), ancestors_eq]
    cases candidate.parent? with
    | none => rfl
    | some parent => rfl

/-! ## Widening -/

/-- **Widening** gives the deepest directory that holds both. -/
theorem widen?_spec {candidate p dir : Path} (h : widen? candidate p = some dir) :
    isWithin dir candidate = true ∧ isWithin dir p = true ∧
      ∀ top, isWithin top candidate = true → isWithin top p = true → isWithin top dir = true := by
  induction hdepth : candidate.depth generalizing candidate with
  | zero =>
      -- the empty path holds everything that is relative
      have hnil : candidate.components = [] := List.length_eq_zero_iff.mp hdepth
      have hholds : isWithin candidate p = true := by
        rw [isWithin_iff, hnil]
        exact List.nil_prefix
      rw [widen?_eq, if_pos hholds] at h
      obtain rfl := Option.some.inj h
      exact ⟨isWithin_self candidate, hholds, fun top htop _ => htop⟩
  | succ n ih =>
      rw [widen?_eq] at h
      split at h
      · rename_i hholds
        obtain rfl := Option.some.inj h
        exact ⟨isWithin_self candidate, hholds, fun top htop _ => htop⟩
      · rename_i hnot
        obtain ⟨parent, hparent, hdir⟩ := Option.bind_eq_some_iff.mp h
        have hlength := (components_parent? hparent).2
        obtain ⟨hbelow, hholds, hdeepest⟩ := ih hdir (by omega)
        refine ⟨isWithin_trans hbelow (isWithin_parent? hparent), hholds, fun top htop hp => ?_⟩
        refine hdeepest top (isWithin_parent?_of_ne hparent htop fun heq => hnot ?_) hp
        rw [isWithin_iff] at hp ⊢
        rwa [← heq]

/-- What passes from a path to its parent holds of the directory that is found. -/
theorem widen?_induct {P : Path → Prop} (hparent : ∀ {p q}, P p → p.parent? = some q → P q)
    {candidate p dir : Path} (hcandidate : P candidate) (h : widen? candidate p = some dir) :
    P dir := by
  induction hdepth : candidate.depth generalizing candidate with
  | zero =>
      rw [widen?_eq] at h
      split at h
      · exact Option.some.inj h ▸ hcandidate
      · obtain ⟨parent, hstep, -⟩ := Option.bind_eq_some_iff.mp h
        have hlength := (components_parent? hstep).2
        omega
  | succ n ih =>
      rw [widen?_eq] at h
      split at h
      · exact Option.some.inj h ▸ hcandidate
      · obtain ⟨parent, hstep, hdir⟩ := Option.bind_eq_some_iff.mp h
        have hlength := (components_parent? hstep).2
        exact ih (hparent hcandidate hstep) hdir (by omega)

/-- There is such a directory for absolute paths: the root, if no other. -/
theorem exists_widen? {candidate p : Path} (hcandidate : candidate.isAbsolute = true)
    (hp : p.isAbsolute = true) : ∃ dir, widen? candidate p = some dir := by
  induction hdepth : candidate.depth generalizing candidate with
  | zero => exact absurd (List.length_eq_zero_iff.mp hdepth) (components_ne_nil hcandidate)
  | succ n ih =>
      rw [widen?_eq]
      split
      · exact ⟨candidate, rfl⟩
      · rename_i hnot
        cases hparent : candidate.parent? with
        | some parent =>
            have hlength := (components_parent? hparent).2
            exact ih (isAbsolute_parent? hcandidate hparent) (by omega)
        | none =>
            have hroot := (components_of_parent?_none hparent).resolve_left
              (components_ne_nil hcandidate)
            refine absurd ?_ hnot
            rw [← isWithin_root_iff, isWithin_iff] at hp
            rwa [isWithin_iff, hroot]

/-- Widening past a list of paths, one after the other. -/
theorem foldlM_widen?_spec {rest : List Path} {candidate dir : Path}
    (h : rest.foldlM widen? candidate = some dir) :
    isWithin dir candidate = true ∧ (∀ p ∈ rest, isWithin dir p = true) ∧
      ∀ top, isWithin top candidate = true → (∀ p ∈ rest, isWithin top p = true) →
        isWithin top dir = true := by
  induction rest generalizing candidate with
  | nil =>
      obtain rfl := Option.some.inj h
      exact ⟨isWithin_self candidate, List.forall_mem_nil _, fun top htop _ => htop⟩
  | cons p rest ih =>
      obtain ⟨wider, hwider, hrest⟩ := Option.bind_eq_some_iff.mp h
      obtain ⟨hbelow, hholds, hdeepest⟩ := widen?_spec hwider
      obtain ⟨hbelow', hholds', hdeepest'⟩ := ih hrest
      refine ⟨isWithin_trans hbelow' hbelow, List.forall_mem_cons.mpr
        ⟨isWithin_trans hbelow' hholds, hholds'⟩, fun top htop hall => ?_⟩
      obtain ⟨hfirst, hothers⟩ := List.forall_mem_cons.mp hall
      exact hdeepest' top (hdeepest top htop hfirst) hothers

/-- An absolute candidate can be widened until it holds all absolute paths. -/
theorem exists_foldlM_widen? {rest : List Path} {candidate : Path}
    (hcandidate : candidate.isAbsolute = true) (hrest : ∀ p ∈ rest, p.isAbsolute = true) :
    ∃ dir, rest.foldlM widen? candidate = some dir := by
  induction rest generalizing candidate with
  | nil => exact ⟨candidate, rfl⟩
  | cons p rest ih =>
      obtain ⟨hp, hothers⟩ := List.forall_mem_cons.mp hrest
      obtain ⟨wider, hwider⟩ := exists_widen? hcandidate hp
      have habsolute : wider.isAbsolute = true :=
        widen?_induct (P := fun q => q.isAbsolute = true) isAbsolute_parent? hcandidate hwider
      obtain ⟨dir, hdir⟩ := ih habsolute hothers
      exact ⟨dir, by rw [List.foldlM_cons, hwider]; exact hdir⟩

/-! ## The common directory -/

/-- What holds the directory of a path holds the path. -/
theorem isWithin_of_dir {p top : Path} (h : isWithin top p.dir = true) : isWithin top p = true := by
  rw [isWithin_iff, components_dir] at h
  rw [isWithin_iff]
  split at h
  · rw [List.prefix_nil.mp h]
    exact List.nil_prefix
  · exact h.trans (List.dropLast_prefix _)

/-- **The common directory** holds every path. -/
theorem isWithin_commonAncestor? {paths : List Path} {dir : Path}
    (h : commonAncestor? paths = some dir) : ∀ p ∈ paths, isWithin dir p = true := by
  cases paths with
  | nil => exact nomatch h
  | cons first rest =>
      obtain ⟨hbelow, hholds, -⟩ := foldlM_widen?_spec h
      refine List.forall_mem_cons.mpr ⟨?_, hholds⟩
      cases hparent : first.parent? with
      | none =>
          rw [hparent] at hbelow
          exact hbelow
      | some parent =>
          rw [hparent] at hbelow
          exact isWithin_trans hbelow (isWithin_parent? hparent)

/-- It lies inside every directory that holds the directories of all paths. -/
theorem commonAncestor?_below {paths : List Path} {dir top : Path}
    (h : commonAncestor? paths = some dir) (htop : ∀ p ∈ paths, isWithin top p.dir = true) :
    isWithin top dir = true := by
  cases paths with
  | nil => exact nomatch h
  | cons first rest =>
      obtain ⟨hfirst, hrest⟩ := List.forall_mem_cons.mp htop
      refine (foldlM_widen?_spec h).2.2 top ?_ fun p hp => isWithin_of_dir (hrest p hp)
      cases hparent : first.parent? with
      | none => exact isWithin_of_dir hfirst
      | some parent =>
          rw [← (dir_of_parent? hparent).1]
          exact hfirst

/-- **Absolute paths have a common ancestor.** -/
theorem exists_commonAncestor? {paths : List Path} (hne : paths ≠ [])
    (hpaths : ∀ p ∈ paths, p.isAbsolute = true) : ∃ dir, commonAncestor? paths = some dir := by
  cases paths with
  | nil => exact absurd rfl hne
  | cons first rest =>
      obtain ⟨hfirst, hrest⟩ := List.forall_mem_cons.mp hpaths
      refine exists_foldlM_widen? ?_ hrest
      cases hparent : first.parent? with
      | none => exact hfirst
      | some parent => exact isAbsolute_parent? hfirst hparent

/-- What passes from a path to its parent, the common directory has from the paths. -/
theorem commonAncestor?_induct {P : Path → Prop}
    (hparent : ∀ {p q}, P p → p.parent? = some q → P q) {paths : List Path} {dir : Path}
    (hpaths : ∀ p ∈ paths, P p) (h : commonAncestor? paths = some dir) : P dir := by
  have hfold : ∀ (rest : List Path) (candidate : Path), P candidate →
      rest.foldlM widen? candidate = some dir → P dir := by
    intro rest
    induction rest with
    | nil => exact fun candidate hcandidate h => Option.some.inj h ▸ hcandidate
    | cons p rest ih =>
        intro candidate hcandidate h
        obtain ⟨wider, hwider, hrest⟩ := Option.bind_eq_some_iff.mp h
        exact ih wider (widen?_induct hparent hcandidate hwider) hrest
  cases paths with
  | nil => exact nomatch h
  | cons first rest =>
      refine hfold rest _ ?_ h
      have hfirst := hpaths first List.mem_cons_self
      cases hstep : first.parent? with
      | none => exact hfirst
      | some parent => exact hparent hfirst hstep

end Path

end ProjectBuild
