import ProjectBuild.Proofs.Path.Ancestor
import ProjectBuild.Proofs.Project

/-! # Normal paths

    A path that is cut at the slashes of its canonical spelling gives one marked
    segment for each component (`Path.cut_spell`), so what is made of canonical
    paths is canonical: directories, what is left below a directory, and joined
    paths.

    A path is normal if it is canonical and leads from the root over names only
    (`Path.Normal`).  Such a path is its own normal form, and so is an output of
    a normal source below a normal directory (`Project.normal_outputFor?`). -/

namespace ProjectBuild

namespace Path

/-! ## Spelling and cutting -/

/-- The segment that spells a component. -/
def marked (c : Component) : Marked :=
  (c.spelling.toList, some c)

/-- The canonical spelling of components, behind the root or not. -/
def spell (rooted : Bool) (body : List Component) : Path :=
  Cut.toPath ⟨rooted, body.map marked⟩

theorem toList_spell (rooted : Bool) (body : List Component) :
    (spell rooted body).text.toList = if rooted then '/' :: written body else written body := by
  unfold spell Cut.toPath
  rw [String.toList_ofList, List.map_map]
  rfl

/-- Inner components are spelled canonically. -/
theorem spell_eq {body : List Component} (h : ∀ c ∈ body, c.Inner) (rooted : Bool) :
    spell rooted body = ofComponents ((if rooted then [.root] else []) ++ body) := by
  refine eq_of_toList ?_
  rw [toList_spell]
  cases rooted with
  | true => exact (toList_ofComponents_root body).symm
  | false => exact (toList_ofComponents h).symm

/-- What is spelled so is canonical. -/
theorem canonical_spell {body : List Component} (h : ∀ c ∈ body, c.Inner) (rooted : Bool) :
    (spell rooted body).Canonical := by
  refine ⟨_, ⟨body, ?_, h⟩, spell_eq h rooted⟩
  cases rooted with
  | true => exact Or.inl rfl
  | false => exact Or.inr rfl

/-- A canonical path is spelled so. -/
theorem Canonical.eq_spell {p : Path} (h : p.Canonical) :
    ∃ rooted body, (∀ c ∈ body, c.Inner) ∧ p = spell rooted body := by
  obtain ⟨components, ⟨body, rfl | rfl, hinner⟩, rfl⟩ := h
  · exact ⟨true, body, hinner, (spell_eq hinner true).symm⟩
  · exact ⟨false, components, hinner, (spell_eq hinner false).symm⟩

/-- The segments of a spelling are marked with the components that they spell. -/
theorem markInner_written {body : List Component} (h : ∀ c ∈ body, c.Inner) (hne : body ≠ []) :
    markInner (splitSlash (written body)) = body.map marked := by
  rw [splitSlash_written h hne]
  unfold markInner
  rw [List.map_map]
  exact List.map_congr_left fun c hc => congrArg (Prod.mk c.spelling.toList) (h c hc).2

/-- **Cutting finds the segments that were written.** -/
theorem cut_spell {body : List Component} (h : ∀ c ∈ body, c.Inner) (hne : body ≠ [])
    (rooted : Bool) : (spell rooted body).cut = ⟨rooted, body.map marked⟩ := by
  have hlist := toList_spell rooted body
  obtain ⟨hslash, -⟩ := relativeComponents_written h
  cases rooted with
  | true =>
      rcases cut_cases (spell true body) with ⟨rest, hrest, hcut⟩ | ⟨hrelative, -⟩
      · rw [hcut, ← (List.cons.inj (hlist.symm.trans hrest)).2, markInner_written h hne]
      · exact absurd hlist (hrelative _)
  | false =>
      rcases cut_cases (spell false body) with ⟨rest, hrest, -⟩ | ⟨-, hcut⟩
      · exact absurd (hlist.symm.trans hrest) (hslash rest)
      · rw [hcut, hlist, if_neg Bool.false_ne_true, ← markInner_written h hne]
        unfold markRelative
        split
        · -- an inner component is not spelled by a `.`
          rename_i rest heq
          rw [splitSlash_written h hne] at heq
          obtain ⟨c, hc, hdot⟩ := List.mem_map.mp (heq ▸ List.mem_cons_self :
            ['.'] ∈ body.map fun c => c.spelling.toList)
          have hinner := (h c hc).2
          rw [hdot] at hinner
          cases hinner
        · rfl

/-! ## Segments that all mean something -/

/-- No marked segment is blank, so none is dropped in front. -/
theorem dropBlank_marked (body : List Component) :
    dropBlank (body.map marked) = body.map marked := by
  cases body with
  | nil => rfl
  | cons c rest => rfl

/-- No marked segment is blank, so none is dropped at the end. -/
theorem dropBlankEnd_marked (body : List Component) :
    dropBlankEnd (body.map marked) = body.map marked := by
  unfold dropBlankEnd
  rw [← List.map_reverse, dropBlank_marked, List.map_reverse, List.reverse_reverse]

/-- Of marked segments as many are dropped as components. -/
theorem dropMeaning_marked (n : Nat) (body : List Component) :
    dropMeaning n (body.map marked) = (body.drop n).map marked := by
  induction n generalizing body with
  | zero => rw [dropMeaning, List.drop_zero]
  | succ n ih =>
      cases body with
      | nil => rfl
      | cons c rest => exact ih rest

/-! ## What canonical paths are made into -/

/-- The directory of a canonical path is canonical. -/
theorem Canonical.dir {p : Path} (h : p.Canonical) : p.dir.Canonical := by
  obtain ⟨rooted, body, hinner, rfl⟩ := h.eq_spell
  rcases List.eq_nil_or_concat' body with rfl | ⟨front, last, rfl⟩
  · have hdir : (spell rooted []).dir = spell false [] := by cases rooted <;> rfl
    rw [hdir]
    exact canonical_spell (List.forall_mem_nil _) false
  · have hdir : (spell rooted (front ++ [last])).dir = spell rooted front := by
      unfold Path.dir parent?
      rw [cut_spell hinner (by simp)]
      simp only
      rw [dropBlankEnd_marked, ← List.map_reverse, List.reverse_concat, List.map_cons]
      show Cut.toPath ⟨rooted, (dropBlank (front.reverse.map marked)).reverse⟩ = _
      rw [dropBlank_marked, ← List.map_reverse, List.reverse_reverse]
      rfl
    rw [hdir]
    exact canonical_spell (fun c hc => hinner c (List.mem_append_left _ hc)) rooted

/-- A name of some length is an inner component. -/
theorem inner_long_name {name : String} (hslash : '/' ∉ name.toList)
    (hlength : 2 < name.toList.length) : (Component.name name).Inner := by
  refine ⟨hslash, ?_⟩
  show Component.ofSegment? name.toList = some (.name name)
  unfold Component.ofSegment?
  split
  · rename_i hlist
    rw [hlist] at hlength
    exact absurd hlength (by decide)
  · rename_i hlist
    rw [hlist] at hlength
    exact absurd hlength (by decide)
  · rename_i hlist
    rw [hlist] at hlength
    exact absurd hlength (by decide)
  · rw [String.ofList_toList]

/-- What is left of a canonical path is canonical. -/
theorem Canonical.afterDir? {dir p rest : Path} (h : p.Canonical) (hdir : dir.components ≠ [])
    (hrest : Path.afterDir? dir p = some rest) : rest.Canonical := by
  obtain ⟨rooted, body, hinner, rfl⟩ := h.eq_spell
  unfold Path.afterDir? at hrest
  split at hrest
  · have hlength : dir.components.length ≠ 0 := fun h => hdir (List.length_eq_zero_iff.mp h)
    simp only [if_neg hlength, Option.some.injEq] at hrest
    subst hrest
    by_cases hne : body = []
    · subst hne
      have hblank : ∀ n, dropBlankEnd (dropBlank (dropMeaning n [([], none)])) = [] := by
        intro n
        cases n <;> rfl
      have hcut : (spell rooted []).cut = ⟨rooted, [([], none)]⟩ := by cases rooted <;> rfl
      rw [hcut, hblank]
      exact canonical_spell (List.forall_mem_nil _) false
    · rw [cut_spell hinner hne]
      simp only [dropMeaning_marked, dropBlank_marked, dropBlankEnd_marked]
      exact canonical_spell (fun c hc => hinner c (List.mem_of_mem_drop hc)) false
  · exact nomatch hrest

/-- A canonical path with its file name replaced is canonical. -/
theorem Canonical.withFileName {p : Path} {old name : String} (h : p.Canonical)
    (hold : p.fileName? = some old) (hname : (Component.name name).Inner) :
    (p.withFileName name).Canonical := by
  unfold Path.withFileName
  rw [hold]
  exact h.dir.join hname

/-- A canonical relative path, seen from a canonical directory, is canonical. -/
theorem Canonical.join_relative {base other : Path} (h : base.Canonical) (hother : other.Canonical)
    (hrelative : other.isAbsolute = false) (hne : other.components ≠ []) :
    (base.join other).Canonical := by
  obtain ⟨components, ⟨body, rfl | rfl, hinner⟩, rfl⟩ := hother
  · have habsolute : (ofComponents (.root :: body)).isAbsolute = true :=
      isAbsolute_iff.mpr ⟨_, toList_ofComponents_root body⟩
    rw [habsolute] at hrelative
    exact nomatch hrelative
  · rw [components_ofComponents ⟨components, Or.inr rfl, hinner⟩] at hne
    exact h.join_ofComponents hinner hne

/-! ## Normal forms -/

/-- A canonical path from the root over names. -/
def Normal (p : Path) : Prop :=
  p.Canonical ∧ ∃ names : List String, p.components = .root :: names.map .name

theorem Normal.isAbsolute {p : Path} (h : p.Normal) : p.isAbsolute = true := by
  obtain ⟨-, names, hnames⟩ := h
  exact isAbsolute_iff_components.mpr ⟨_, hnames⟩

/-- A name is kept, whatever has been folded before. -/
theorem fold_name (seen : List Component) (name : String) :
    fold seen (.name name) = .name name :: seen := by
  cases seen <;> rfl

/-- Names are folded one by one. -/
theorem foldl_fold_names (names : List String) (seen : List Component) :
    (names.map Component.name).foldl fold seen = (names.map Component.name).reverse ++ seen := by
  induction names generalizing seen with
  | nil => rfl
  | cons name rest ih =>
      rw [List.map_cons, List.foldl_cons, fold_name, ih, List.reverse_cons, List.append_assoc]
      rfl

/-- **A normal path is its own normal form.** -/
theorem Normal.normalize_eq {p : Path} (h : p.Normal) : p.normalize = p := by
  obtain ⟨hcanonical, names, hnames⟩ := h
  refine (canonical_normalize p).eq_of_components hcanonical ?_
  unfold normalize
  rw [components_ofComponents (plain_foldComponents p), hnames, foldComponents, List.foldl_cons,
    show fold [] Component.root = [.root] from rfl, foldl_fold_names, List.reverse_append,
    List.reverse_reverse]
  rfl

/-- Folding names and `..` behind the root leaves names behind the root. -/
theorem foldl_fold_rooted {components : List Component}
    (h : ∀ c ∈ components, c ≠ .current ∧ c ≠ .root) (names : List String) :
    ∃ names' : List String, components.foldl fold (names.map .name ++ [.root])
      = names'.map .name ++ [.root] := by
  induction components generalizing names with
  | nil => exact ⟨names, rfl⟩
  | cons c rest ih =>
      obtain ⟨names', hnames⟩ : ∃ names' : List String,
          fold (names.map .name ++ [.root]) c = names'.map .name ++ [.root] := by
        cases c with
        | current => exact absurd rfl (h _ List.mem_cons_self).1
        | root => exact absurd rfl (h _ List.mem_cons_self).2
        | name text => exact ⟨text :: names, fold_name _ text⟩
        | parent =>
            cases names with
            | nil => exact ⟨[], rfl⟩
            | cons name names => exact ⟨names, rfl⟩
      rw [List.foldl_cons, hnames]
      exact ih (fun d hd => h d (List.mem_cons_of_mem c hd)) names'

/-- The normal form of an absolute path is normal. -/
theorem normal_normalize {p : Path} (h : p.isAbsolute = true) : p.normalize.Normal := by
  refine ⟨canonical_normalize p, ?_⟩
  rcases components_cases p with ⟨rest, -, hcomponents⟩ | ⟨hne, -⟩
  · have hrest : ∀ c ∈ meanings (splitSlash rest), c ≠ .current ∧ c ≠ .root :=
      fun _ hc => mem_meanings_ne hc
    obtain ⟨names, hnames⟩ := foldl_fold_rooted hrest []
    refine ⟨names.reverse, ?_⟩
    unfold normalize
    rw [components_ofComponents (plain_foldComponents p), hcomponents, foldComponents,
      List.foldl_cons]
    have hseen : ([] : List String).map Component.name ++ [.root] = fold [] .root := rfl
    rw [← hseen, hnames, List.reverse_append, List.map_reverse]
    rfl
  · obtain ⟨rest, hrest⟩ := isAbsolute_iff.mp h
    exact absurd hrest (hne rest)

/-- What has been folded stays as it is when it is folded again. -/
theorem fold_settled {seen : List Component} (h : seen.reverse.foldl fold [] = seen)
    (c : Component) : (fold seen c).reverse.foldl fold [] = fold seen c := by
  have hcons : ∀ {d rest}, fold rest d = d :: rest → rest.reverse.foldl fold [] = rest →
      (d :: rest).reverse.foldl fold [] = d :: rest := by
    intro d rest hfold hrest
    rw [List.reverse_cons, List.foldl_append, hrest, List.foldl_cons, List.foldl_nil, hfold]
  -- a `..` that takes a name away leaves what had been folded before the name
  have htail : ∀ {name rest}, (Component.name name :: rest).reverse.foldl fold []
      = .name name :: rest → rest.reverse.foldl fold [] = rest := by
    intro name rest hrest
    rw [List.reverse_cons, List.foldl_append, List.foldl_cons, List.foldl_nil, fold_name] at hrest
    exact (List.cons.inj hrest).2
  cases c with
  | current =>
      rw [fold]
      exact h
  | root => exact hcons (by cases seen <;> rfl) h
  | name text => exact hcons (fold_name seen text) h
  | parent =>
      cases seen with
      | nil => rfl
      | cons first rest =>
          cases first with
          | name text => exact htail h
          | root => exact h
          | current => exact hcons rfl h
          | parent => exact hcons rfl h

/-- **Normal forms are their own normal forms.** -/
theorem normalize_normalize (p : Path) : p.normalize.normalize = p.normalize := by
  have hsettled : ∀ (components seen : List Component), seen.reverse.foldl fold [] = seen →
      (components.foldl fold seen).reverse.foldl fold [] = components.foldl fold seen := by
    intro components
    induction components with
    | nil => exact fun seen h => h
    | cons c rest ih => exact fun seen h => ih _ (fold_settled h c)
  have hcomponents : p.normalize.components = foldComponents p.components :=
    components_ofComponents (plain_foldComponents p)
  refine (canonical_normalize _).eq_of_components (canonical_normalize p) ?_
  unfold normalize at hcomponents ⊢
  rw [components_ofComponents (plain_foldComponents _), hcomponents]
  unfold foldComponents
  rw [hsettled p.components [] rfl]

/-- **As seen from an absolute directory, every path is normal.** -/
theorem normal_absolutize {base : Path} (h : base.isAbsolute = true) (p : Path) :
    (absolutize base p).Normal := by
  unfold absolutize
  split
  · rename_i habsolute
    exact normal_normalize habsolute
  · exact normal_normalize (isAbsolute_join h p)

/-- Only the root itself has no normal directory. -/
theorem Normal.dir {p : Path} (h : p.Normal) (hroot : p.components ≠ [.root]) : p.dir.Normal := by
  obtain ⟨hcanonical, names, hnames⟩ := h
  refine ⟨hcanonical.dir, names.dropLast, ?_⟩
  rw [components_dir, if_neg hroot, hnames, List.map_dropLast]
  cases names with
  | nil => exact absurd hnames hroot
  | cons name rest => rfl

/-- The parent of a normal path is normal. -/
theorem Normal.of_parent? {p q : Path} (h : p.Normal) (hq : p.parent? = some q) : q.Normal := by
  obtain ⟨rfl, hroot, -⟩ := dir_of_parent? hq
  exact h.dir hroot

end Path

/-- The configuration that a normal path names has a normal path. -/
theorem normal_of_resolveConfig? {σ : Type} [FileSystem σ] {fs : σ} {candidate p : Path}
    (hcandidate : candidate.Normal) (h : resolveConfig? fs candidate = some p) : p.Normal := by
  have hcanonical := canonical_of_resolveConfig? hcandidate.1 h
  unfold resolveConfig? at h
  split at h
  · exact Option.some.inj h ▸ hcandidate
  · simp only at h
    split at h
    · obtain rfl := Option.some.inj h
      obtain ⟨-, names, hnames⟩ := hcandidate
      refine ⟨hcanonical, names ++ [configFileName], ?_⟩
      have hname : (⟨configFileName⟩ : Path).components = [.name configFileName] :=
        Path.components_long_name (by decide) (by decide)
      rw [Path.components_join_relative, hname, hnames, List.map_append]
      · rfl
      · intro c hc
        rw [hname, List.mem_singleton] at hc
        rw [hc]
        exact ⟨fun h => (nomatch h), fun h => (nomatch h)⟩
    · exact nomatch h

namespace Project

open ProjectBuild.Path

/-- **An output of a normal source, below a normal output directory, is normal.** -/
theorem normal_outputFor? {p : Project} {extension : String} {input output : Path}
    (h : p.outputFor? extension input = some output) (hslash : '/' ∉ extension.toList)
    (hlength : 2 < extension.toList.length) (hinput : input.Normal)
    (hroot : p.rootDir.components ≠ []) (hout : p.outDir.Normal) : output.Normal := by
  obtain ⟨front, stem, kind, -, -, -, hinput', houtput⟩ := components_outputFor? h hslash hlength
  have houtput := houtput (Or.inl hroot)
  constructor
  · obtain ⟨relative, stem, kind, hrelative, hname, -, -, rfl⟩ := outputFor?_ok h
    have hnoslash := (mem_components_name (List.mem_of_getLast? (fileName?_eq_some hname))).1
    have hslash' : '/' ∉ (stem ++ extension).toList := by
      rw [String.toList_append, List.mem_append, not_or] at hnoslash ⊢
      exact ⟨hnoslash.1, hslash⟩
    have hlength' : 2 < (stem ++ extension).toList.length := by
      rw [String.toList_append, List.length_append]
      omega
    have hrenamed : (relative.withFileName (stem ++ extension)).Canonical :=
      (hinput.1.afterDir? hroot hrelative).withFileName hname (inner_long_name hslash' hlength')
    have hcomponents : (relative.withFileName (stem ++ extension)).components
        = relative.components.dropLast ++ [.name (stem ++ extension)] :=
      components_withFileName hname hslash' hlength'
    refine hout.1.join_relative hrenamed ?_ ?_
    · -- the root is no component of what is left below a directory
      rw [← Bool.not_eq_true, isAbsolute_iff_components, hcomponents]
      rintro ⟨rest, hrest⟩
      have hmem : Component.root ∈ relative.components.dropLast ++ [.name (stem ++ extension)] :=
        hrest ▸ List.mem_cons_self
      rcases List.mem_append.mp hmem with hmem | hmem
      · exact (afterDir?_relative hrelative hroot _ (List.dropLast_subset _ hmem)).2 rfl
      · exact nomatch List.mem_singleton.mp hmem
    · rw [hcomponents]
      exact List.concat_ne_nil _ _
  · -- its components are those of the output directory, then names of the source
    obtain ⟨-, names, hnames⟩ := hinput
    obtain ⟨-, dirs, hdirs⟩ := hout
    obtain ⟨first, rest, hfirst⟩ := List.exists_cons_of_ne_nil hroot
    rw [hinput', hfirst, List.cons_append, List.cons.injEq] at hnames
    obtain ⟨-, below, -, -, hbelow⟩ := List.append_eq_map_iff.mp hnames.2
    obtain ⟨between, -, -, hbetween, -⟩ := List.append_eq_map_iff.mp hbelow.symm
    refine ⟨dirs ++ (between ++ [stem ++ extension]), ?_⟩
    rw [houtput, hdirs, ← hbetween, List.map_append, List.map_append]
    rfl

end Project

end ProjectBuild
