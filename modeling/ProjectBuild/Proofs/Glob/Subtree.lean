import Mathlib.Data.List.DropRight
import ProjectBuild.Glob.Set
import ProjectBuild.Proofs.Glob.Reading
import ProjectBuild.Proofs.Path.NormalForm

/-! # Patterns of directories

    A pattern whose last segment has neither a star nor a dot is taken for the name
    of a directory, and compiled a second time for everything below.  Both readings
    share the tokens of the name (`Glob.parse_subtree`), so the set accepts what
    these denote, and what goes on behind a slash after a text that they denote
    (`GlobSet.Names.accepts_iff`).  For normal forms to go on behind a slash is to
    lie below, whatever the wildcards in the pattern. -/

namespace ProjectBuild

/-- A relative path in normal form, as sources are looked up from the directory of
    their project. -/
structure Path.NormalRelative (p : Path) : Prop where
  normal : p.normalize = p
  relative : p.isAbsolute = false

theorem Path.NormalRelative.canonical {p : Path} (h : p.NormalRelative) : p.Canonical :=
  h.normal ▸ Path.canonical_normalize p

/-- A normal relative path does not end in a slash. -/
theorem Path.NormalRelative.getLast?_ne {p : Path} (h : p.NormalRelative) :
    p.text.toList.getLast? ≠ some '/' := by
  refine h.canonical.spelled.2 fun hroot => ?_
  have habsolute : p.isAbsolute = true := by
    rw [Path.isAbsolute_iff, hroot]
    exact ⟨[], rfl⟩
  rw [h.relative] at habsolute
  cases habsolute

namespace Glob

/-! ## Names of directories -/

/-- A text is what it is without the slashes at its end, and these. -/
theorem dropSlashEnd_eq (text : List Char) : (dropSlashEnd text).getLast? ≠ some '/' ∧
    ∃ count, text = dropSlashEnd text ++ List.replicate count '/' := by
  have hdrop : dropSlashEnd text = text.rdropWhile (· == '/') := rfl
  rw [hdrop]
  constructor
  · intro hlast
    have hne : text.rdropWhile (· == '/') ≠ [] := by
      intro hnil
      rw [hnil] at hlast
      cases hlast
    refine List.rdropWhile_last_not _ _ hne (beq_iff_eq.mpr ?_)
    exact Option.some.inj ((List.getLast?_eq_some_getLast hne).symm.trans hlast)
  · refine ⟨(text.rtakeWhile (· == '/')).length, ?_⟩
    have hslashes : text.rtakeWhile (· == '/') =
        List.replicate (text.rtakeWhile (· == '/')).length '/' :=
      List.eq_replicate_of_mem fun c hc =>
        beq_iff_eq.mp (List.mem_rtakeWhile_imp (p := (· == '/')) hc)
    rw [← hslashes, List.rdropWhile_append_rtakeWhile]

/-- A pattern looks like a directory if its last segment has neither a star nor a
    dot. -/
theorem looksLikeDirectory_iff {text : List Char} : looksLikeDirectory text = true ↔
    ∀ c ∈ (dropSlashEnd text).reverse.takeWhile (· != '/'), c ≠ '*' ∧ c ≠ '.' := by
  unfold looksLikeDirectory
  simp only [Bool.and_eq_true, Bool.not_eq_true', List.contains_eq_mem, decide_eq_false_iff_not]
  constructor
  · rintro ⟨hstar, hdot⟩ c hc
    exact ⟨fun heq => hstar (heq ▸ hc), fun heq => hdot (heq ▸ hc)⟩
  · exact fun h => ⟨fun hstar => (h _ hstar).1 rfl, fun hdot => (h _ hdot).2 rfl⟩

/-- The last character of the name of a directory is no star. -/
theorem getLast?_dropSlashEnd {text : List Char} (h : looksLikeDirectory text = true) :
    (dropSlashEnd text).getLast? ≠ some '*' := by
  intro hlast
  obtain ⟨front, hfront⟩ := List.getLast?_eq_some_iff.mp hlast
  rw [looksLikeDirectory_iff, hfront, List.reverse_concat] at h
  exact (h '*' List.mem_cons_self).1 rfl

/-- Slashes at the end are those of the part behind, and of the one before if
    nothing is left of that. -/
theorem dropSlashEnd_append (front back : List Char) : dropSlashEnd (front ++ back) =
    if dropSlashEnd back = [] then dropSlashEnd front else front ++ dropSlashEnd back := by
  unfold dropSlashEnd
  simp only [List.reverse_append, List.dropWhile_append, List.isEmpty_iff, List.reverse_eq_nil_iff]
  split
  · rfl
  · rw [List.reverse_append, List.reverse_reverse]

/-- A text whose last segment, the slashes at the end left aside, has neither a star
    nor a dot. -/
def NamesDirectory (text : List Char) : Prop :=
  ∃ (front name : List Char) (count : Nat), text = front ++ name ++ List.replicate count '/' ∧
    (front = [] ∨ name ≠ [] ∧ front.getLast? = some '/') ∧
      ∀ c ∈ name, c ≠ '/' ∧ c ≠ '*' ∧ c ≠ '.'

/-- Any number of slashes at the end is dropped. -/
theorem dropSlashEnd_slashes {text : List Char} (h : text.getLast? ≠ some '/') (count : Nat) :
    dropSlashEnd (text ++ List.replicate count '/') = text := by
  have hslashes : dropSlashEnd (List.replicate count '/') = [] := by
    refine List.rdropWhile_eq_nil_iff.mpr fun c hc => ?_
    exact beq_iff_eq.mpr (List.eq_of_mem_replicate hc)
  rw [dropSlashEnd_append, if_pos hslashes]
  refine List.rdropWhile_eq_self_iff.mpr fun hne hlast => h ?_
  rw [List.getLast?_eq_some_getLast hne, beq_iff_eq.mp hlast]

/-- Such texts are taken for names of directories. -/
theorem NamesDirectory.looksLikeDirectory {text : List Char} (h : NamesDirectory text) :
    looksLikeDirectory text = true := by
  obtain ⟨front, name, count, rfl, hfront, hname⟩ := h
  have hlast : (front ++ name).getLast? ≠ some '/' := by
    rcases hfront with rfl | ⟨hne, -⟩
    · exact fun hlast => (hname '/' (List.mem_of_getLast? hlast)).1 rfl
    · rw [List.getLast?_append_of_ne_nil _ hne]
      exact fun hlast => (hname '/' (List.mem_of_getLast? hlast)).1 rfl
  have hstop : front.reverse.takeWhile (· != '/') = [] := by
    rcases hfront with rfl | ⟨-, hslash⟩
    · rfl
    · obtain ⟨before, rfl⟩ := List.getLast?_eq_some_iff.mp hslash
      rw [List.reverse_concat]
      rfl
  rw [looksLikeDirectory_iff, dropSlashEnd_slashes hlast, List.reverse_append,
    List.takeWhile_append_of_pos fun c hc => bne_iff_ne.mpr (hname c (List.mem_reverse.mp hc)).1,
    hstop, List.append_nil]
  exact fun c hc => (hname c (List.mem_reverse.mp hc)).2

/-- A directory goes by the same name without a `./` in front. -/
theorem looksLikeDirectory_of_current {text : List Char}
    (h : looksLikeDirectory ('.' :: '/' :: text) = true) : looksLikeDirectory text = true := by
  have hdrop := dropSlashEnd_append ['.', '/'] text
  rw [List.cons_append, List.cons_append, List.nil_append] at hdrop
  rw [looksLikeDirectory_iff] at h ⊢
  split at hdrop
  · -- a dot alone is the name of no directory
    rw [hdrop] at h
    exact absurd rfl (h '.' List.mem_cons_self).2
  · intro c hc
    refine h c ?_
    rw [hdrop, List.reverse_append, List.takeWhile_append]
    split
    · exact List.mem_append_left _ (List.takeWhile_subset _ hc)
    · exact hc

/-- A leading `./` does not make a pattern look otherwise. -/
theorem looksLikeDirectory_dropCurrent {text : List Char} (h : looksLikeDirectory text = true) :
    looksLikeDirectory (dropCurrent text) = true := by
  induction text using dropCurrent.induct with
  | case1 rest ih =>
      rw [dropCurrent]
      exact ih (looksLikeDirectory_of_current h)
  | case2 text hne =>
      rw [dropCurrent]
      · exact h
      · exact hne

/-- A canonical path has no `./` in front. -/
theorem dropCurrent_of_canonical {p : Path} (h : p.Canonical) :
    dropCurrent p.text.toList = p.text.toList := by
  unfold dropCurrent
  split
  · rename_i rest htext
    have hrelative : p.isAbsolute = false := by
      rw [← Bool.not_eq_true, Path.isAbsolute_iff, htext]
      rintro ⟨_, hrest⟩
      cases hrest
    have hcomponents := Path.components_slash (List.cons_ne_nil '.' []) rest
    rw [List.cons_append, List.nil_append, ← htext, String.ofList_toList] at hcomponents
    have hcurrent : Component.current ∈ p.components := by
      rw [hcomponents]
      exact List.mem_append_left _ List.mem_cons_self
    exact nomatch ((h.toList_eq hrelative).1 _ hcurrent).2
  · rfl

/-! ## What names denote -/

/-- Everything below is what stands behind a slash. -/
theorem denotes_subtree {text : List Char} :
    Denotes subtreeTokens text ↔ ∃ back, text = '/' :: back := by
  unfold subtreeTokens
  rw [denotes_literal]
  exact exists_congr fun back => and_iff_left (denotes_everything back)

/-- A text that the name of a directory denotes together with slashes at its end ends
    in a slash. -/
theorem getLast?_of_denotes_slashes {tokens : List Token} {count : Nat} {text : List Char}
    (h : Denotes (tokens ++ List.replicate (count + 1) (.literal '/')) text) :
    text.getLast? = some '/' := by
  rw [List.replicate_succ', ← List.append_assoc] at h
  obtain ⟨front, back, rfl, -, hback⟩ := denotes_of_append
    (t := .literal '/') ⟨nofun, nofun⟩ List.mem_cons_self h
  obtain ⟨back, rfl, rfl⟩ := denotes_literal.mp hback
  exact List.getLast?_concat

end Glob

namespace GlobSet

open Glob

/-! ## Compiled names -/

/-- A set of one pattern that is taken for the name of a directory: the tokens of the
    name, before the slashes at its end, and before everything below. -/
structure Names (set : GlobSet) (P : String) (tokens : List Token) (count : Nat) : Prop where
  compiled : set = ⟨[tokens ++ List.replicate count (.literal '/'), tokens ++ subtreeTokens]⟩
  read : parse (dropCurrent P.toList) = .ok (tokens ++ List.replicate count (.literal '/'))
  beyond : WellPlaced (tokens ++ subtreeTokens)
  last : ∀ t, tokens.getLast? = some t → t.Single

/-- A pattern that looks like a directory also names all that is inside. -/
theorem exists_names {P : String} {set : GlobSet} (hset : ofPatterns [P] = .ok set)
    (hdir : looksLikeDirectory P.toList = true) : ∃ tokens count, set.Names P tokens count := by
  have hdir := looksLikeDirectory_dropCurrent hdir
  obtain ⟨hslash, count, hcount⟩ := dropSlashEnd_eq (dropCurrent P.toList)
  have hspellings : spellings P =
      [dropCurrent P.toList, dropSlashEnd (dropCurrent P.toList) ++ "/**/*".toList] := by
    unfold spellings
    simp only [hdir, if_true]
  unfold ofPatterns at hset
  rw [List.flatMap_singleton, hspellings] at hset
  cases hread : parse (dropCurrent P.toList) with
  | error e =>
      rw [List.mapM_cons, hread] at hset
      cases hset
  | ok read =>
      have hagain := hread
      rw [hcount] at hagain
      obtain ⟨tokens, rfl, hlast, hbeyond⟩ :=
        parse_subtree (getLast?_dropSlashEnd hdir) hslash hagain
      refine ⟨tokens, count, ?_, hread, wellPlaced_parse hbeyond, hlast⟩
      rw [List.mapM_cons, List.mapM_cons, List.mapM_nil, hread, hbeyond] at hset
      exact (Except.ok.inj hset).symm

/-- **What the set accepts**: what the name denotes, and what goes on behind a slash
    after that. -/
theorem Names.accepts_iff {set : GlobSet} {P : String} {tokens : List Token} {count : Nat}
    (h : set.Names P tokens count) {q : Path} : set.accepts q = true ↔
      Denotes (tokens ++ List.replicate count (.literal '/')) q.text.toList ∨
        ∃ front back, q.text.toList = front ++ '/' :: back ∧ Denotes tokens front := by
  unfold accepts
  rw [h.compiled, List.any_cons, List.any_cons, List.any_nil, Bool.or_false, Bool.or_eq_true,
    matches_iff (wellPlaced_parse h.read), matches_iff h.beyond]
  refine or_congr Iff.rfl ?_
  constructor
  · intro hdenotes
    obtain ⟨front, back, htext, hfront, hback⟩ := denotes_of_append
      (t := .literal '/') ⟨nofun, nofun⟩ List.mem_cons_self hdenotes
    obtain ⟨back, rfl⟩ := denotes_subtree.mp hback
    exact ⟨front, back, htext, hfront⟩
  · rintro ⟨front, back, htext, hfront⟩
    rw [htext]
    exact denotes_append h.last hfront (denotes_subtree.mpr ⟨back, rfl⟩)

/-! ## Containment -/

/-- What lies inside a relative path in normal form goes on behind a slash. -/
theorem exists_of_inside {p q : Path} (hp : p.NormalRelative) (hq : q.NormalRelative)
    (hne : p.text ≠ "") (h : Path.Inside p q) :
    ∃ more, q.text.toList = p.text.toList ++ '/' :: more := by
  rcases (hp.canonical.isWithin_iff_toList hq.canonical hp.relative hq.relative hne).mp h.1 with
    rfl | hmore
  · have hself := Path.same_eq_false_iff.mp h.2
    exact absurd rfl hself
  · exact hmore

/-- **What is inside of an accepted path is accepted**, for such patterns. -/
theorem Names.accepts_inside {set : GlobSet} {P : String} {tokens : List Token} {count : Nat}
    (h : set.Names P tokens count) {p q : Path} (hp : p.NormalRelative) (hq : q.NormalRelative)
    (hne : p.text ≠ "") (hinside : Path.Inside p q) (haccepts : set.accepts p = true) :
    set.accepts q = true := by
  obtain ⟨more, hmore⟩ := exists_of_inside hp hq hne hinside
  rw [h.accepts_iff] at haccepts ⊢
  rcases haccepts with hname | ⟨front, back, htext, hfront⟩
  · cases count with
    | zero =>
        rw [List.replicate_zero, List.append_nil] at hname
        exact Or.inr ⟨p.text.toList, more, hmore, hname⟩
    | succ count => exact absurd (getLast?_of_denotes_slashes hname) hp.getLast?_ne
  · refine Or.inr ⟨front, back ++ '/' :: more, ?_, hfront⟩
    rw [hmore, htext, List.append_assoc, List.cons_append]

section plain

variable {set : GlobSet} {P : String} {tokens : List Token} {count : Nat}
  (h : set.Names P tokens count) (hcanonical : (⟨P⟩ : Path).Canonical)
  (hplain : ∀ c ∈ P.toList, c ≠ '*' ∧ c ≠ '?' ∧ c ≠ '[')
include h hcanonical hplain

/-- A name without wildcards stands for itself. -/
theorem Names.literals :
    tokens ++ List.replicate count (.literal '/') = P.toList.map .literal := by
  have hread := h.read
  rw [dropCurrent_of_canonical hcanonical, parse_literals hplain] at hread
  exact (Except.ok.inj hread).symm

/-- The name of an absolute directory is read from the root on. -/
theorem Names.isAbsolute_of_accepts (habsolute : (⟨P⟩ : Path).isAbsolute = true) {q : Path}
    (haccepts : set.accepts q = true) : q.isAbsolute = true := by
  have hliterals := h.literals hcanonical hplain
  obtain ⟨rest, hrest⟩ := Path.isAbsolute_iff.mp habsolute
  rw [hrest] at hliterals
  rw [Path.isAbsolute_iff]
  rcases h.accepts_iff.mp haccepts with hname | ⟨front, back, htext, hfront⟩
  · rw [hliterals, denotes_literals] at hname
    exact ⟨rest, hname⟩
  · cases tokens with
    | nil =>
        obtain rfl : front = [] := hfront
        exact ⟨back, htext⟩
    | cons t tokens =>
        obtain rfl := (List.cons.inj hliterals).1
        obtain ⟨front, rfl, -⟩ := denotes_literal.mp hfront
        exact ⟨_, htext⟩

/-- **The name of a relative directory** stands for the directory and what is below. -/
theorem Names.accepts_iff_isWithin (hrelative : (⟨P⟩ : Path).NormalRelative) (hne : P ≠ "")
    {q : Path} (hq : q.NormalRelative) :
    set.accepts q = true ↔ Path.isWithin ⟨P⟩ q = true := by
  have hliterals := h.literals hcanonical hplain
  have hcount : count = 0 := by
    cases count with
    | zero => rfl
    | succ count =>
        have hself : Denotes (P.toList.map .literal) P.toList := denotes_literals.mpr rfl
        rw [← hliterals] at hself
        exact absurd (getLast?_of_denotes_slashes hself) hrelative.getLast?_ne
  subst hcount
  have htokens := hliterals
  rw [List.replicate_zero, List.append_nil] at htokens
  rw [h.accepts_iff, hliterals, htokens, denotes_literals,
    hcanonical.isWithin_iff_toList hq.canonical hrelative.relative hq.relative hne]
  simp only [denotes_literals]
  refine or_congr ?_ ?_
  · exact ⟨Path.eq_of_toList, fun heq => heq ▸ rfl⟩
  · constructor
    · rintro ⟨_, back, htext, rfl⟩
      exact ⟨back, htext⟩
    · rintro ⟨back, htext⟩
      exact ⟨P.toList, back, htext, rfl⟩

end plain

/-- **Patterns of directories hold their subtree**: what lies inside a path that such a
    pattern accepts is accepted as well; and if the pattern is itself a path in normal
    form without wildcards, it accepts just what this path holds. -/
theorem accepts_subtree {P : String} {set : GlobSet} (hset : ofPatterns [P] = .ok set)
    (hdir : NamesDirectory P.toList) :
    (∀ p q : Path, p.NormalRelative → q.NormalRelative → p.text ≠ "" → Path.Inside p q →
        set.accepts p = true → set.accepts q = true) ∧
      (P ≠ "" → (⟨P⟩ : Path).normalize = ⟨P⟩ →
        (∀ c ∈ P.toList, c ≠ '*' ∧ c ≠ '?' ∧ c ≠ '[') →
        ∀ q : Path, q.NormalRelative → (set.accepts q = true ↔ Path.isWithin ⟨P⟩ q = true)) := by
  obtain ⟨tokens, count, h⟩ := exists_names hset hdir.looksLikeDirectory
  constructor
  · exact fun p q hp hq hne => h.accepts_inside hp hq hne
  · intro hne hnormal hplain q hq
    have hcanonical : (⟨P⟩ : Path).Canonical := hnormal ▸ Path.canonical_normalize _
    cases habsolute : (⟨P⟩ : Path).isAbsolute with
    | false => exact h.accepts_iff_isWithin hcanonical hplain ⟨hnormal, habsolute⟩ hne hq
    | true =>
        have hrelative := hq.relative
        refine iff_of_false (fun haccepts => ?_) fun hwithin => ?_
        · rw [h.isAbsolute_of_accepts hcanonical hplain habsolute haccepts] at hrelative
          cases hrelative
        · rw [Path.isAbsolute_of_isWithin habsolute hwithin] at hrelative
          cases hrelative

/-- A star in front does no harm, and a name alone stands for the directory. -/
theorem accepts_subtree_lib :
    (∃ set, ofPatterns ["*/lib"] = .ok set ∧ set.accepts ⟨"a/lib/b.ts"⟩ = true) ∧
      ∃ set, ofPatterns ["lib"] = .ok set ∧ ∀ q : Path, q.NormalRelative →
        (set.accepts q = true ↔ Path.isWithin ⟨"lib"⟩ q = true) := by
  have hcompiles : ∀ (P : String) (p : Path),
      (ofPatterns [P]).toOption.any (·.accepts p) = true →
        ∃ set, ofPatterns [P] = .ok set ∧ set.accepts p = true := by
    intro P p hok
    cases hset : ofPatterns [P] with
    | error e =>
        rw [hset] at hok
        cases hok
    | ok set =>
        rw [hset] at hok
        exact ⟨set, rfl, hok⟩
  constructor
  · obtain ⟨set, hset, haccepts⟩ := hcompiles "*/lib" ⟨"a/lib"⟩ (by decide +kernel)
    have hdir : NamesDirectory "*/lib".toList :=
      ⟨['*', '/'], ['l', 'i', 'b'], 0, by simp, Or.inr (by simp), by simp⟩
    refine ⟨set, hset, (accepts_subtree hset hdir).1 ⟨"a/lib"⟩ _ ⟨?_, ?_⟩ ⟨?_, ?_⟩ ?_ ⟨?_, ?_⟩
      haccepts⟩
    all_goals decide +kernel
  · obtain ⟨set, hset, -⟩ := hcompiles "lib" ⟨"lib"⟩ (by decide +kernel)
    have hplain : ∀ c ∈ "lib".toList, c ≠ '*' ∧ c ≠ '?' ∧ c ≠ '[' := by simp
    have hdir : NamesDirectory "lib".toList :=
      ⟨[], ['l', 'i', 'b'], 0, by simp, Or.inl rfl, by simp⟩
    exact ⟨set, hset, (accepts_subtree hset hdir).2 (by decide) (by decide +kernel) hplain⟩

end GlobSet

end ProjectBuild
