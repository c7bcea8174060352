import ProjectBuild.Config.Reader
import ProjectBuild.Path.Normal
import ProjectBuild.Proofs.Path.Components

/-! # Canonical spellings

    Writing components and reading them again gives the same components
    (`Path.components_ofComponents`), so two paths in canonical spelling that
    are the same have the same text.  Normal forms are spelled in this way, and
    so is the configuration of the conventional name below one
    (`canonical_of_resolveConfig?`): the paths that identify projects. -/

namespace ProjectBuild

/-- A component other than the root and `.`: it is spelled by a segment. -/
def Component.Inner (c : Component) : Prop :=
  '/' ∉ c.spelling.toList ∧ Component.ofSegment? c.spelling.toList = some c

namespace Path

/-! ## Components that can be written -/

/-- What segments stand for are inner components. -/
theorem inner_of_mem_meanings {chars : List Char} {c : Component}
    (h : c ∈ meanings (splitSlash chars)) : c.Inner := by
  obtain ⟨segment, hmem, hsegment⟩ := List.mem_filterMap.mp h
  have hspelling : c.spelling.toList = segment := by
    unfold Component.ofSegment? at hsegment
    split at hsegment
    · exact nomatch hsegment
    · exact nomatch hsegment
    · rw [← Option.some.inj hsegment]
      rfl
    · rw [← Option.some.inj hsegment]
      exact String.toList_ofList
  unfold Component.Inner
  rw [hspelling]
  exact ⟨not_mem_of_mem_splitSlash hmem, hsegment⟩

/-- Inner components, or the root and inner components after it. -/
def Plain (components : List Component) : Prop :=
  ∃ body : List Component, (components = .root :: body ∨ components = body) ∧
    ∀ c ∈ body, c.Inner

/-- One more inner component leaves components plain. -/
theorem Plain.concat {components : List Component} (h : Plain components) {c : Component}
    (hc : c.Inner) : Plain (components ++ [c]) := by
  obtain ⟨body, hbody, hinner⟩ := h
  refine ⟨body ++ [c], hbody.imp (fun h => ?_) fun h => ?_, ?_⟩
  · rw [h, List.cons_append]
  · rw [h]
  · intro d hd
    rcases List.mem_append.mp hd with hd | hd
    · exact hinner d hd
    · exact (List.mem_singleton.mp hd) ▸ hc

/-- Components stay plain without the last one. -/
theorem Plain.dropLast {components : List Component} (h : Plain components) :
    Plain components.dropLast := by
  obtain ⟨body, hbody, hinner⟩ := h
  cases body with
  | nil =>
      refine ⟨[], Or.inr ?_, fun _ h => nomatch h⟩
      rcases hbody with rfl | rfl <;> rfl
  | cons first rest =>
      refine ⟨(first :: rest).dropLast, ?_, fun c hc => hinner c (List.dropLast_subset _ hc)⟩
      exact hbody.imp (fun h => by rw [h, List.dropLast_cons_cons]) fun h => by rw [h]

/-- Folding one more component keeps components plain. -/
theorem plain_fold {seen : List Component} (h : Plain seen.reverse) {c : Component}
    (hc : c.Inner) : Plain (fold seen c).reverse := by
  have hcons : Plain (c :: seen).reverse := by
    rw [List.reverse_cons]
    exact h.concat hc
  unfold fold
  split
  · exact h
  · rename_i name rest
    have hrest := h.dropLast
    rwa [List.reverse_cons, List.dropLast_concat] at hrest
  · exact h
  · exact hcons

/-- Folding inner components keeps what has been seen plain. -/
theorem plain_foldl {components : List Component} (h : ∀ c ∈ components, c.Inner)
    {seen : List Component} (hseen : Plain seen.reverse) :
    Plain (components.foldl fold seen).reverse := by
  induction components generalizing seen with
  | nil => exact hseen
  | cons c rest ih =>
      exact ih (fun d hd => h d (List.mem_cons_of_mem c hd))
        (plain_fold hseen (h c List.mem_cons_self))

/-- **Folded components are plain.** -/
theorem plain_foldComponents (p : Path) : Plain (foldComponents p.components) := by
  have hnil : Plain ([] : List Component).reverse := ⟨[], Or.inr rfl, fun _ h => nomatch h⟩
  have hroot : Plain [Component.root].reverse := ⟨[], Or.inl rfl, fun _ h => nomatch h⟩
  have hinner : ∀ chars : List Char, ∀ c ∈ meanings (splitSlash chars), c.Inner :=
    fun chars c hc => inner_of_mem_meanings hc
  unfold foldComponents
  rcases components_cases p with ⟨rest, -, hcomponents⟩ | ⟨-, hcomponents⟩
  · rw [hcomponents]
    exact plain_foldl (hinner rest) hroot
  · rw [hcomponents]
    unfold relativeComponents
    split
    · rename_i rest heq
      have hrest : ∀ c ∈ meanings rest, c.Inner := by
        intro c hc
        refine hinner p.text.toList c ?_
        rw [heq]
        exact hc
      -- a leading `.` leaves nothing behind
      exact plain_foldl hrest hnil
    · exact plain_foldl (hinner _) hnil

/-! ## Writing and reading -/

/-- Segments are joined with a slash between neighbours. -/
theorem joinSlash_eq (segments : List (List Char)) :
    joinSlash segments = ['/'].intercalate segments := by
  induction segments with
  | nil => rfl
  | cons segment rest ih =>
      cases rest with
      | nil => exact List.intercalate_singleton.symm
      | cons next rest =>
          rw [joinSlash, ih, List.intercalate_cons_cons, List.append_assoc]
          · rfl
          · exact List.cons_ne_nil next rest

/-- The characters of components, with a slash between neighbours. -/
def written (components : List Component) : List Char :=
  joinSlash (components.map fun c => c.spelling.toList)

theorem toList_intercalate (components : List Component) :
    ("/".intercalate (components.map Component.spelling)).toList = written components := by
  unfold written
  rw [String.toList_intercalate, joinSlash_eq, List.map_map]
  rfl

/-- Below the root, the spelling begins with a slash. -/
theorem toList_ofComponents_root (body : List Component) :
    (ofComponents (.root :: body)).text.toList = '/' :: written body := by
  show ("/" ++ "/".intercalate (body.map Component.spelling)).toList = _
  rw [String.toList_append, toList_intercalate]
  rfl

/-- Inner components are spelled with a slash between neighbours. -/
theorem toList_ofComponents {components : List Component} (h : ∀ c ∈ components, c.Inner) :
    (ofComponents components).text.toList = written components := by
  rw [← toList_intercalate]
  unfold ofComponents
  split
  · exact nomatch (h .root List.mem_cons_self).2
  · rfl

/-- Cut at its slashes, a spelling gives back what it spells. -/
theorem splitSlash_written {components : List Component} (h : ∀ c ∈ components, c.Inner)
    (hne : components ≠ []) :
    splitSlash (written components) = components.map fun c => c.spelling.toList := by
  refine splitSlash_joinSlash (fun hnil => hne (List.map_eq_nil_iff.mp hnil)) ?_
  intro segment hsegment
  obtain ⟨c, hc, rfl⟩ := List.mem_map.mp hsegment
  exact (h c hc).1

/-- A spelling stands for the components that it spells. -/
theorem meanings_written {components : List Component} (h : ∀ c ∈ components, c.Inner) :
    meanings (splitSlash (written components)) = components := by
  by_cases hne : components = []
  · rw [hne]
    rfl
  · rw [splitSlash_written h hne]
    unfold meanings
    rw [List.filterMap_map]
    exact (List.filterMap_congr fun c hc => (h c hc).2).trans List.filterMap_some

/-- What is written begins neither with a slash nor with a segment `.`. -/
theorem relativeComponents_written {components : List Component} (h : ∀ c ∈ components, c.Inner) :
    (∀ rest, written components ≠ '/' :: rest) ∧
      relativeComponents (written components) = components := by
  cases components with
  | nil => exact ⟨fun rest => (List.cons_ne_nil '/' rest).symm, rfl⟩
  | cons first rest =>
      have hfirst := (h first List.mem_cons_self).2
      have hsplit := splitSlash_written h (List.cons_ne_nil _ _)
      have hmeanings := meanings_written h
      constructor
      · intro tail htail
        rw [htail, splitSlash, if_pos rfl, List.map_cons] at hsplit
        rw [← (List.cons.inj hsplit).1] at hfirst
        cases hfirst
      · unfold relativeComponents
        split
        · rename_i tail heq
          rw [hsplit, List.map_cons] at heq
          rw [(List.cons.inj heq).1] at hfirst
          cases hfirst
        · exact hmeanings

/-- **Components that are written are read again.** -/
theorem components_ofComponents {components : List Component} (h : Plain components) :
    (ofComponents components).components = components := by
  obtain ⟨body, rfl | rfl, hinner⟩ := h
  · rcases components_cases (ofComponents (.root :: body)) with ⟨rest, hrest, hc⟩ | ⟨hne, -⟩
    · rw [toList_ofComponents_root] at hrest
      rw [hc, ← (List.cons.inj hrest).2, meanings_written hinner]
    · exact absurd (toList_ofComponents_root body) (hne _)
  · obtain ⟨hne, hrelative⟩ := relativeComponents_written hinner
    rcases components_cases (ofComponents components) with ⟨rest, hrest, -⟩ | ⟨-, hc⟩
    · exact absurd (toList_ofComponents hinner ▸ hrest) (hne rest)
    · rw [hc, toList_ofComponents hinner, hrelative]

/-! ## Canonical paths -/

/-- A path that is spelled as its components are written. -/
def Canonical (p : Path) : Prop :=
  ∃ components, Plain components ∧ p = ofComponents components

/-- **Canonical paths that are the same are equal.** -/
theorem Canonical.eq_of_components {p q : Path} (hp : p.Canonical) (hq : q.Canonical)
    (h : p.components = q.components) : p = q := by
  obtain ⟨cs, hcs, rfl⟩ := hp
  obtain ⟨ds, hds, rfl⟩ := hq
  rw [components_ofComponents hcs, components_ofComponents hds] at h
  rw [h]

theorem canonical_normalize (p : Path) : p.normalize.Canonical :=
  ⟨_, plain_foldComponents p, rfl⟩

/-- What is seen from a directory is spelled canonically. -/
theorem canonical_absolutize (base p : Path) : (absolutize base p).Canonical := by
  unfold absolutize
  split
  · exact canonical_normalize p
  · exact canonical_normalize (base.join p)

/-- Components that follow are spelled behind a slash. -/
theorem written_append {front back : List Component} (hfront : front ≠ []) (hback : back ≠ []) :
    written (front ++ back) = written front ++ '/' :: written back := by
  unfold written
  rw [joinSlash_eq, joinSlash_eq, joinSlash_eq, List.map_append]
  have hback' : back.map (fun c => c.spelling.toList) ≠ [] :=
    fun hnil => hback (List.map_eq_nil_iff.mp hnil)
  induction front with
  | nil => exact absurd rfl hfront
  | cons first rest ih =>
      cases rest with
      | nil =>
          show ['/'].intercalate (first.spelling.toList :: back.map _) = _
          rw [List.intercalate_cons_of_ne_nil hback', List.append_assoc]
          exact congrArg (· ++ _) List.intercalate_singleton.symm
      | cons next rest =>
          have hrest := ih (List.cons_ne_nil _ _)
          simp only [List.map_cons, List.cons_append, List.intercalate_cons_cons] at hrest ⊢
          rw [hrest, List.append_assoc, List.append_assoc, List.append_assoc]

/-- One more component is spelled behind a slash. -/
theorem written_concat {components : List Component} (hne : components ≠ []) (c : Component) :
    written (components ++ [c]) = written components ++ '/' :: c.spelling.toList :=
  written_append hne (List.cons_ne_nil c [])

/-- What is written does not end with a slash. -/
theorem getLast?_written {components : List Component} (h : ∀ c ∈ components, c.Inner) :
    (written components).getLast? ≠ some '/' := by
  rcases List.eq_nil_or_concat' components with rfl | ⟨front, c, rfl⟩
  · exact fun h => nomatch h
  · obtain ⟨hslash, hsegment⟩ := h c (List.mem_append_right _ (List.mem_singleton.mpr rfl))
    have hne : c.spelling.toList ≠ [] := by
      intro hnil
      rw [hnil] at hsegment
      exact nomatch hsegment
    have hwritten : ∃ before, written (front ++ [c]) = before ++ c.spelling.toList := by
      by_cases hfront : front = []
      · exact ⟨[], by rw [hfront]; rfl⟩
      · refine ⟨written front ++ ['/'], ?_⟩
        rw [written_concat hfront, List.append_assoc]
        rfl
    obtain ⟨before, hbefore⟩ := hwritten
    rw [hbefore, List.getLast?_append_of_ne_nil _ hne]
    exact fun hlast => hslash (List.mem_of_getLast? hlast)

/-- No spelling of components is empty. -/
theorem written_ne_nil {components : List Component} (h : ∀ c ∈ components, c.Inner)
    (hne : components ≠ []) : written components ≠ [] := by
  intro hnil
  have hmeanings := meanings_written h
  rw [hnil] at hmeanings
  exact hne hmeanings.symm

theorem eq_of_toList {p q : Path} (h : p.text.toList = q.text.toList) : p = q :=
  congrArg Path.mk (String.toList_inj.mp h)

/-- Below a canonical directory, what is spelled canonically is canonical. -/
theorem Canonical.join_ofComponents {base : Path} (h : base.Canonical) {below : List Component}
    (hbelow : ∀ c ∈ below, c.Inner) (hne : below ≠ []) :
    (base.join (ofComponents below)).Canonical := by
  obtain ⟨components, ⟨body, hbody, hinner⟩, rfl⟩ := h
  have hinner' : ∀ c ∈ body ++ below, c.Inner := by
    intro c hc
    rcases List.mem_append.mp hc with hc | hc
    · exact hinner c hc
    · exact hbelow c hc
  have hplain : Plain (components ++ below) :=
    ⟨body ++ below, hbody.imp (fun h => by rw [h, List.cons_append]) (fun h => by rw [h]), hinner'⟩
  refine ⟨components ++ below, hplain, ?_⟩
  -- joining an absolute path would drop the base
  have habsolute : ¬ (ofComponents below).isAbsolute = true := by
    rw [isAbsolute_iff, toList_ofComponents hbelow]
    rintro ⟨rest, hrest⟩
    exact (relativeComponents_written hbelow).1 rest hrest
  unfold Path.join
  rw [if_neg habsolute]
  by_cases hnil : body = []
  · -- the root, or the empty path
    subst hnil
    refine eq_of_toList ?_
    rcases hbody with rfl | rfl
    · have hroot : (ofComponents [.root]).text = "/" := rfl
      rw [hroot, if_neg (by decide), if_pos (by decide), String.toList_append,
        toList_ofComponents hbelow]
      exact (toList_ofComponents_root below).symm
    · rfl
  · -- the spelling does not end in a slash, so joining puts one
    have hlast : (ofComponents components).text.toList.getLast? ≠ some '/' := by
      rcases hbody with rfl | rfl
      · rw [toList_ofComponents_root, List.getLast?_cons_of_ne_nil (written_ne_nil hinner hnil)]
        exact getLast?_written hinner
      · rw [toList_ofComponents hinner]
        exact getLast?_written hinner
    have hempty : ¬ (ofComponents components).text = "" := by
      intro hempty
      rcases hbody with rfl | rfl
      · have := toList_ofComponents_root body
        rw [hempty] at this
        exact nomatch this
      · have := toList_ofComponents hinner
        rw [hempty] at this
        exact written_ne_nil hinner hnil this.symm
    rw [if_neg hempty, if_neg hlast]
    refine eq_of_toList ?_
    rw [String.toList_append, String.toList_append, toList_ofComponents hbelow]
    rcases hbody with rfl | rfl
    · rw [List.cons_append, toList_ofComponents_root, toList_ofComponents_root,
        written_append hnil hne, List.append_assoc]
      rfl
    · rw [toList_ofComponents hinner, toList_ofComponents hinner', written_append hnil hne,
        List.append_assoc]
      rfl

/-- Below a canonical directory, a simple name is canonical. -/
theorem Canonical.join {base : Path} (h : base.Canonical) {name : String}
    (hname : (Component.name name).Inner) : (base.join ⟨name⟩).Canonical := by
  have hspelled : ofComponents [.name name] = ⟨name⟩ :=
    congrArg Path.mk String.intercalate_singleton
  rw [← hspelled]
  refine h.join_ofComponents (fun c hc => ?_) (List.cons_ne_nil _ _)
  rw [List.mem_singleton.mp hc]
  exact hname

/-! ## Configurations -/

theorem inner_configFileName : (Component.name configFileName).Inner := by
  unfold Component.Inner
  decide +kernel

end Path

/-- **The configuration that a normal form names has a canonical path.** -/
theorem canonical_of_resolveConfig? {σ : Type} [FileSystem σ] {fs : σ} {candidate p : Path}
    (hcandidate : candidate.Canonical) (h : resolveConfig? fs candidate = some p) :
    p.Canonical := by
  unfold resolveConfig? at h
  split at h
  · exact Option.some.inj h ▸ hcandidate
  · simp only at h
    split at h
    · exact Option.some.inj h ▸ hcandidate.join Path.inner_configFileName
    · exact nomatch h

end ProjectBuild
