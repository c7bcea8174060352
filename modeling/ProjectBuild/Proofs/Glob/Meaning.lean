import Mathlib.Data.List.Chain
import ProjectBuild.Glob.Pattern

/-! # What patterns mean

    A pattern denotes texts (`Glob.Denotes`): each token covers a piece, one
    behind the other.  Matching decides this relation (`Glob.matches_iff`), although
    it gives up at once where the text ends too early.  What it then says is that
    no later start could do better (`Outcome.Says`).  For `**` that is true of
    starts behind a slash alone, so it takes patterns in which `**` stands nowhere
    else (`Glob.WellPlaced`). -/

namespace ProjectBuild.Glob

/-! ## The relation -/

/-- A token that stands for exactly one character. -/
def Token.Single (t : Token) : Prop :=
  t ≠ .anySequence ∧ t ≠ .anySegments

/-- The piece of a text that a token covers, before the rest of it: for `**`, whole
    segments, or all that is left. -/
def Token.Covers (front back : List Char) : Token → Prop
  | .anySequence => '/' ∉ front
  | .anySegments => front = [] ∨ front.getLast? = some '/' ∨ back = []
  | t => ∃ c, front = [c] ∧ t.accepts c = true

/-- Tokens denote a text if they cover it piece by piece. -/
def Denotes : List Token → List Char → Prop
  | [], text => text = []
  | t :: tokens, text => ∃ front back, text = front ++ back ∧ t.Covers front back ∧
      Denotes tokens back

@[simp] theorem denotes_nil (text : List Char) : Denotes [] text ↔ text = [] := Iff.rfl

/-- A pattern denotes what its first token covers, with what the rest denotes behind
    it. -/
theorem denotes_cons (t : Token) (tokens : List Token) (text : List Char) :
    Denotes (t :: tokens) text ↔ ∃ front back, text = front ++ back ∧ t.Covers front back ∧
      Denotes tokens back :=
  Iff.rfl

/-- A single token covers the characters that it accepts. -/
theorem Token.Single.covers_iff {t : Token} (h : t.Single) {front back : List Char} :
    t.Covers front back ↔ ∃ c, front = [c] ∧ t.accepts c = true := by
  cases t with
  | anySequence => exact absurd rfl h.1
  | anySegments => exact absurd rfl h.2
  | literal c => exact Iff.rfl
  | anyChar => exact Iff.rfl
  | charClass negated items => exact Iff.rfl

/-- A pattern that begins with a single token denotes texts that begin so. -/
theorem Token.Single.denotes_iff {t : Token} (h : t.Single) {tokens : List Token}
    {text : List Char} : Denotes (t :: tokens) text ↔
      ∃ c back, text = c :: back ∧ t.accepts c = true ∧ Denotes tokens back := by
  rw [denotes_cons]
  simp only [h.covers_iff]
  constructor
  · rintro ⟨_, back, rfl, ⟨c, rfl, haccepts⟩, hback⟩
    exact ⟨c, back, rfl, haccepts, hback⟩
  · rintro ⟨c, back, rfl, haccepts, hback⟩
    exact ⟨[c], back, rfl, ⟨c, rfl, haccepts⟩, hback⟩

/-- A pattern that begins with a character denotes texts that begin so. -/
theorem denotes_literal {c : Char} {tokens : List Token} {text : List Char} :
    Denotes (.literal c :: tokens) text ↔ ∃ back, text = c :: back ∧ Denotes tokens back := by
  rw [Token.Single.denotes_iff (t := .literal c) ⟨nofun, nofun⟩]
  constructor
  · rintro ⟨d, back, rfl, haccepts, hback⟩
    obtain rfl : d = c := beq_iff_eq.mp haccepts
    exact ⟨back, rfl, hback⟩
  · rintro ⟨back, rfl, hback⟩
    exact ⟨c, back, rfl, beq_iff_eq.mpr rfl, hback⟩

/-! ## What an outcome says -/

/-- A match says yes and a mismatch no; running out of text says `never`. -/
def Outcome.Says (yes never : Prop) : Outcome → Prop
  | .matched => yes
  | .mismatch => ¬ yes
  | .exhausted => never

/-- What an outcome says can be put in other words. -/
theorem Outcome.Says.imp {yes never yes' never' : Prop} {outcome : Outcome}
    (h : outcome.Says yes never) (hyes : yes ↔ yes') (hnever : never → never') :
    outcome.Says yes' never' := by
  cases outcome with
  | matched => exact hyes.mp h
  | mismatch => exact fun hyes' => h (hyes.mpr hyes')
  | exhausted => exact hnever h

/-- What is tried behind a star tells whether a text is denoted; if it runs out of
    text, then no end of the text is. -/
def Decides (D : List Char → Prop) (rest : List Char → Outcome) : Prop :=
  ∀ text, (rest text).Says (D text) (∀ back, back <:+ text → ¬ D back)

section stars

variable {D : List Char → Prop} {rest : List Char → Outcome} (h : Decides D rest)
include h

/-- **A star** takes some of a segment, and running out of text stays final. -/
theorem sequence_tells (text : List Char) : (sequence rest text).Says
    (∃ front back, text = front ++ back ∧ '/' ∉ front ∧ D back)
    (∀ back, back <:+ text → ¬ D back) := by
  -- on the text, of which the star takes one more character in each round
  induction text with
  | nil =>
      refine (h []).imp ?_ id
      constructor
      · exact fun hnil => ⟨[], [], rfl, List.not_mem_nil, hnil⟩
      · rintro ⟨front, back, htext, -, hback⟩
        obtain ⟨-, rfl⟩ := List.append_eq_nil_iff.mp htext.symm
        exact hback
  | cons c text ih =>
      have hhere := h (c :: text)
      unfold sequence
      cases hrest : rest (c :: text) with
      | matched =>
          rw [hrest] at hhere
          exact ⟨[], c :: text, rfl, List.not_mem_nil, hhere⟩
      | exhausted =>
          rw [hrest] at hhere
          exact hhere
      | mismatch =>
          rw [hrest] at hhere
          by_cases hslash : c = '/'
          · -- the segment ends here
            rw [if_pos hslash]
            rintro ⟨front, back, htext, hfront, hback⟩
            cases front with
            | nil => exact hhere (htext ▸ hback)
            | cons d front =>
                obtain ⟨rfl, -⟩ := List.cons.inj htext
                exact hfront (hslash ▸ List.mem_cons_self)
          · rw [if_neg hslash]
            refine ih.imp ?_ fun hnever back hback => ?_
            · constructor
              · rintro ⟨front, back, rfl, hfront, hback⟩
                exact ⟨c :: front, back, rfl,
                  fun hin => (List.mem_cons.mp hin).elim (hslash ·.symm) hfront, hback⟩
              · rintro ⟨front, back, htext, hfront, hback⟩
                cases front with
                | nil => exact absurd (htext ▸ hback) hhere
                | cons d front =>
                    obtain ⟨rfl, rfl⟩ := List.cons.inj htext
                    exact ⟨front, back, rfl, fun hin => hfront (List.mem_cons_of_mem _ hin), hback⟩
            · rcases List.suffix_cons_iff.mp hback with rfl | hback
              · exact hhere
              · exact hnever back hback

/-- Where `**` leaves off: behind a slash, at the end, or, if a segment starts
    here, right away. -/
def Leaves (starts : Bool) (front back : List Char) : Prop :=
  starts = true ∧ front = [] ∨ front.getLast? = some '/' ∨ back = []

omit h in
/-- Behind a character `**` leaves off if it does so from there on. -/
theorem leaves_cons {starts : Bool} {c : Char} {front back : List Char} :
    Leaves starts (c :: front) back ↔ Leaves (c == '/') front back := by
  unfold Leaves
  cases front with
  | nil => simp
  | cons d front => simp [List.getLast?_cons_cons]

omit h in
/-- At the start of a segment `**` leaves off where it covers what is before. -/
theorem leaves_true {front back : List Char} :
    Leaves true front back ↔ Token.anySegments.Covers front back := by
  unfold Leaves Token.Covers
  rw [and_iff_right rfl]

omit h in
/-- `**` leaves off behind a whole segment as it does at the start. -/
theorem leaves_append {front piece back : List Char}
    (hfront : front = [] ∨ front.getLast? = some '/') (h : Leaves true piece back) :
    Leaves true (front ++ piece) back := by
  rcases h with ⟨-, rfl⟩ | hlast | hend
  · rw [List.append_nil]
    exact hfront.imp (⟨rfl, ·⟩) Or.inl
  · refine Or.inr (Or.inl ?_)
    rw [List.getLast?_append, hlast]
    rfl
  · exact Or.inr (Or.inr hend)

/-- **A double star** takes whole segments.  Nothing is known of starts inside a
    segment, where nothing is tried. -/
theorem segmentsThen_tells (starts : Bool) (text : List Char) :
    (segmentsThen rest starts text).Says
      (∃ front back, text = front ++ back ∧ Leaves starts front back ∧ D back)
      (∀ front back, text = front ++ back → Leaves starts front back → ¬ D back) := by
  induction text generalizing starts with
  | nil =>
      refine (h []).imp ?_ fun hnever front back htext _ => ?_
      · constructor
        · exact fun hnil => ⟨[], [], rfl, Or.inr (Or.inr rfl), hnil⟩
        · rintro ⟨front, back, htext, -, hback⟩
          obtain ⟨-, rfl⟩ := List.append_eq_nil_iff.mp htext.symm
          exact hback
      · exact hnever back (htext ▸ List.suffix_append front back)
  | cons c text ih =>
      -- behind the first character the search is that of the rest of the text
      have hlater : (starts = true → ¬ D (c :: text)) →
          (segmentsThen rest (c == '/') text).Says
            (∃ front back, c :: text = front ++ back ∧ Leaves starts front back ∧ D back)
            (∀ front back, c :: text = front ++ back → Leaves starts front back → ¬ D back) := by
        intro hhere
        have hnil : ∀ back, c :: text = [] ++ back → Leaves starts [] back → ¬ D back := by
          rintro _ rfl (⟨hstarts, -⟩ | hlast | hend)
          · exact hhere hstarts
          · cases hlast
          · cases hend
        refine (ih (c == '/')).imp ?_ fun hnever front back htext hleaves => ?_
        · constructor
          · rintro ⟨front, back, rfl, hleaves, hback⟩
            exact ⟨c :: front, back, rfl, leaves_cons.mpr hleaves, hback⟩
          · rintro ⟨front, back, htext, hleaves, hback⟩
            cases front with
            | nil => exact absurd hback (hnil back htext hleaves)
            | cons d front =>
                obtain ⟨rfl, rfl⟩ := List.cons.inj htext
                exact ⟨front, back, rfl, leaves_cons.mp hleaves, hback⟩
        · cases front with
          | nil => exact hnil back htext hleaves
          | cons d front =>
              obtain ⟨rfl, rfl⟩ := List.cons.inj htext
              exact hnever front back rfl (leaves_cons.mp hleaves)
      unfold segmentsThen
      cases starts with
      | false => exact hlater nofun
      | true =>
          have hhere := h (c :: text)
          simp only [if_true]
          cases hrest : rest (c :: text) with
          | matched =>
              rw [hrest] at hhere
              exact ⟨[], c :: text, rfl, Or.inl ⟨rfl, rfl⟩, hhere⟩
          | exhausted =>
              rw [hrest] at hhere
              exact fun front back htext _ =>
                hhere back (htext ▸ List.suffix_append front back)
          | mismatch =>
              rw [hrest] at hhere
              exact hlater fun _ => hhere

end stars

/-! ## Matching -/

/-- A `**` stands at the start of the pattern or right behind a literal slash. -/
def WellPlaced (tokens : List Token) : Prop :=
  tokens.IsChain fun a b => b = .anySegments → a = .literal '/'

/-- Where tokens can start behind `front`: anywhere, but `**` only behind a slash. -/
def Aligned (tokens : List Token) (front : List Char) : Prop :=
  tokens.head? = some .anySegments → front = [] ∨ front.getLast? = some '/'

/-- Matching says whether a text is denoted; if it runs out of text, then no end of
    it is where the tokens can start. -/
def Settled (tokens : List Token) (text : List Char) : Prop :=
  (matchTokens tokens text).Says (Denotes tokens text)
    (∀ front back, text = front ++ back → Aligned tokens front → ¬ Denotes tokens back)

/-- Tokens that do not start with `**` are aligned everywhere. -/
theorem decides_matchTokens {tokens : List Token} (hhead : tokens.head? ≠ some .anySegments)
    (h : ∀ text, Settled tokens text) : Decides (Denotes tokens) (matchTokens tokens) := by
  intro text
  refine (h text).imp Iff.rfl ?_
  rintro hnever back ⟨front, rfl⟩
  exact hnever front back rfl fun hhead' => absurd hhead' hhead

/-- A single token takes one character that it accepts. -/
theorem matchTokens_single {t : Token} (ht : t.Single) (tokens : List Token) (c : Char)
    (text : List Char) : matchTokens (t :: tokens) (c :: text) =
      if t.accepts c then matchTokens tokens text else .mismatch := by
  cases t with
  | anySequence => exact absurd rfl ht.1
  | anySegments => exact absurd rfl ht.2
  | literal c => rfl
  | anyChar => rfl
  | charClass negated items => rfl

/-- A token that stands for a character is left over where the text ends. -/
theorem settled_nil {t : Token} (ht : t.Single) (tokens : List Token) :
    Settled (t :: tokens) [] := by
  have hexhausted : matchTokens (t :: tokens) [] = .exhausted := by
    cases t with
    | anySequence => exact absurd rfl ht.1
    | anySegments => exact absurd rfl ht.2
    | literal c => rfl
    | anyChar => rfl
    | charClass negated items => rfl
  unfold Settled
  rw [hexhausted]
  intro front back htext _ hdenotes
  obtain ⟨d, back, rfl, -, -⟩ := ht.denotes_iff.mp hdenotes
  exact nomatch (List.append_eq_nil_iff.mp htext.symm).2

/-- One character more: what is aligned behind it was aligned before. -/
theorem settled_cons {t : Token} (ht : t.Single) {tokens : List Token}
    (hslash : tokens.head? = some .anySegments → t = .literal '/') (c : Char) {text : List Char}
    (h : Settled tokens text) : Settled (t :: tokens) (c :: text) := by
  unfold Settled
  rw [matchTokens_single ht]
  by_cases haccepts : t.accepts c = true
  · rw [if_pos haccepts]
    refine Outcome.Says.imp h ?_ fun hnever front back htext _ hdenotes => ?_
    · rw [ht.denotes_iff]
      constructor
      · exact fun hback => ⟨c, text, rfl, haccepts, hback⟩
      · rintro ⟨_, _, htext, -, hback⟩
        obtain ⟨-, rfl⟩ := List.cons.inj htext
        exact hback
    · obtain ⟨d, back, rfl, hd, hback⟩ := ht.denotes_iff.mp hdenotes
      cases front with
      | nil =>
          obtain ⟨-, rfl⟩ := List.cons.inj htext
          exact hnever [] text rfl (fun _ => Or.inl rfl) hback
      | cons e front =>
          obtain ⟨-, rfl⟩ := List.cons.inj htext
          refine hnever (front ++ [d]) back (List.append_cons _ _ _) (fun hhead => ?_) hback
          -- `**` stands behind a slash, which `d` is then
          rw [hslash hhead] at hd
          exact Or.inr (beq_iff_eq.mp hd ▸ List.getLast?_concat)
  · rw [if_neg haccepts]
    intro hdenotes
    obtain ⟨d, back, htext, hd, -⟩ := ht.denotes_iff.mp hdenotes
    exact haccepts ((List.cons.inj htext).1 ▸ hd)

/-- **What matching says** of a text and of its ends. -/
theorem settled {tokens : List Token} (h : WellPlaced tokens) (text : List Char) :
    Settled tokens text := by
  -- on the tokens, for all texts, as each of them leaves some end of the text
  induction tokens generalizing text with
  | nil =>
      cases text with
      | nil => exact rfl
      | cons c text => exact nofun
  | cons t tokens ih =>
      obtain ⟨hhead, htail⟩ := List.isChain_cons.mp h
      have hslash : tokens.head? = some .anySegments → t = .literal '/' :=
        fun hsegments => hhead _ hsegments rfl
      have hsingle : t.Single → Settled (t :: tokens) text := by
        intro ht
        cases text with
        | nil => exact settled_nil ht tokens
        | cons c text => exact settled_cons ht hslash c (ih htail text)
      cases t with
      | literal c => exact hsingle ⟨nofun, nofun⟩
      | anyChar => exact hsingle ⟨nofun, nofun⟩
      | charClass negated items => exact hsingle ⟨nofun, nofun⟩
      | anySequence =>
          have hdecides := decides_matchTokens (fun hsegments => nomatch hslash hsegments)
            (ih htail)
          refine (sequence_tells hdecides text).imp Iff.rfl ?_
          rintro hnever front _ rfl - ⟨piece, back, rfl, -, hback⟩
          exact hnever back ⟨front ++ piece, List.append_assoc _ _ _⟩ hback
      | anySegments =>
          have hdecides := decides_matchTokens (fun hsegments => nomatch hslash hsegments)
            (ih htail)
          refine (segmentsThen_tells hdecides true text).imp ?_ ?_
          · exact exists_congr fun front => exists_congr fun back =>
              and_congr_right fun _ => and_congr_left fun _ => leaves_true
          · rintro hnever front _ rfl haligned ⟨piece, back, rfl, hcovers, hback⟩
            exact hnever (front ++ piece) back (List.append_assoc _ _ _).symm
              (leaves_append (haligned rfl) (leaves_true.mpr hcovers)) hback

/-- **Matching decides what a pattern denotes.** -/
theorem matches_iff {tokens : List Token} (h : WellPlaced tokens) {text : List Char} :
    Matches tokens text = true ↔ Denotes tokens text := by
  have htold := settled h text
  unfold Settled at htold
  unfold Matches
  cases houtcome : matchTokens tokens text with
  | matched =>
      rw [houtcome] at htold
      exact iff_of_true rfl htold
  | mismatch =>
      rw [houtcome] at htold
      exact iff_of_false nofun htold
  | exhausted =>
      rw [houtcome] at htold
      exact iff_of_false nofun (htold [] text rfl fun _ => Or.inl rfl)

/-! ## Pieces of patterns -/

/-- A token that stands for a character needs one. -/
theorem not_denotes_nil {tokens : List Token} {t : Token} (ht : t.Single) (hmem : t ∈ tokens) :
    ¬ Denotes tokens [] := by
  induction tokens with
  | nil => exact nomatch hmem
  | cons first tokens ih =>
      rintro ⟨front, back, htext, hcovers, hback⟩
      obtain ⟨rfl, rfl⟩ := List.append_eq_nil_iff.mp htext.symm
      rcases List.mem_cons.mp hmem with rfl | hmem
      · obtain ⟨c, hc, -⟩ := ht.covers_iff.mp hcovers
        cases hc
      · exact ih hmem hback

/-- A token covers the same before more text, unless it is a `**` at the end. -/
theorem Token.Covers.append {t : Token} {front back : List Char} (h : t.Covers front back)
    (hback : t = .anySegments → back ≠ []) (more : List Char) : t.Covers front (back ++ more) := by
  cases t with
  | anySequence => exact h
  | anySegments =>
      rcases h with hnil | hlast | hend
      · exact Or.inl hnil
      · exact Or.inr (Or.inl hlast)
      · exact absurd hend (hback rfl)
  | literal c => exact h
  | anyChar => exact h
  | charClass negated items => exact h

/-- What a token covers before more text it covers before a part of it. -/
theorem Token.Covers.of_append {t : Token} {piece front back : List Char}
    (h : t.Covers piece (front ++ back)) (hback : back ≠ []) : t.Covers piece front := by
  cases t with
  | anySequence => exact h
  | anySegments =>
      rcases h with hnil | hlast | hend
      · exact Or.inl hnil
      · exact Or.inr (Or.inl hlast)
      · exact absurd (List.append_eq_nil_iff.mp hend).2 hback
  | literal c => exact h
  | anyChar => exact h
  | charClass negated items => exact h

/-- **Patterns one behind the other** denote texts one behind the other, if the
    first ends with a token that stands for a character. -/
theorem denotes_append {tokens more : List Token} {front back : List Char}
    (hlast : ∀ t, tokens.getLast? = some t → t.Single) (hfront : Denotes tokens front)
    (hback : Denotes more back) : Denotes (tokens ++ more) (front ++ back) := by
  induction tokens generalizing front with
  | nil =>
      obtain rfl : front = [] := hfront
      exact hback
  | cons t tokens ih =>
      obtain ⟨piece, rest, rfl, hcovers, hrest⟩ := hfront
      refine ⟨piece, rest ++ back, List.append_assoc _ _ _, hcovers.append ?_ back, ?_⟩
      · rintro rfl rfl
        -- the last token is behind the `**`, and needs a character
        cases hlast' : tokens.getLast? with
        | none =>
            obtain rfl := List.getLast?_eq_none_iff.mp hlast'
            exact (hlast _ rfl).2 rfl
        | some last =>
            have hlast := hlast last (by rw [List.getLast?_cons, hlast']; rfl)
            exact not_denotes_nil hlast (List.mem_of_getLast? hlast') hrest
      · refine ih (fun last hlast' => hlast last ?_) hrest
        rw [List.getLast?_cons, hlast']
        rfl

/-- A text that patterns one behind the other denote falls into pieces. -/
theorem denotes_of_append {tokens more : List Token} {text : List Char} {t : Token}
    (ht : t.Single) (hmem : t ∈ more) (h : Denotes (tokens ++ more) text) :
    ∃ front back, text = front ++ back ∧ Denotes tokens front ∧ Denotes more back := by
  induction tokens generalizing text with
  | nil => exact ⟨[], text, rfl, rfl, h⟩
  | cons first tokens ih =>
      obtain ⟨piece, rest, rfl, hcovers, hrest⟩ := h
      obtain ⟨front, back, rfl, hfront, hback⟩ := ih hrest
      have hne : back ≠ [] := by
        rintro rfl
        exact not_denotes_nil ht hmem hback
      exact ⟨piece ++ front, back, (List.append_assoc _ _ _).symm,
        ⟨piece, front, rfl, hcovers.of_append hne, hfront⟩, hback⟩

/-- A pattern of characters denotes these, and no other text. -/
theorem denotes_literals {chars text : List Char} :
    Denotes (chars.map .literal) text ↔ text = chars := by
  induction chars generalizing text with
  | nil => exact Iff.rfl
  | cons c chars ih =>
      rw [List.map_cons, denotes_literal]
      simp only [ih]
      exact exists_eq_right

/-- Every text is some whole segments and a piece of one. -/
theorem denotes_everything (text : List Char) : Denotes [.anySegments, .anySequence] text := by
  obtain ⟨front, back, htext, hfront, hback⟩ : ∃ front back, text = front ++ back ∧
      (front = [] ∨ front.getLast? = some '/') ∧ '/' ∉ back := by
    induction text with
    | nil => exact ⟨[], [], rfl, Or.inl rfl, List.not_mem_nil⟩
    | cons c text ih =>
        obtain ⟨front, back, rfl, hfront, hback⟩ := ih
        rcases hfront with rfl | hlast
        · by_cases hslash : c = '/'
          · exact ⟨[c], back, rfl, Or.inr (hslash ▸ rfl), hback⟩
          · exact ⟨[], c :: back, rfl, Or.inl rfl,
              fun hin => (List.mem_cons.mp hin).elim (hslash ·.symm) hback⟩
        · refine ⟨c :: front, back, rfl, Or.inr ?_, hback⟩
          rw [List.getLast?_cons, hlast]
          rfl
  exact ⟨front, back, htext, hfront.imp id Or.inl, back, [], (List.append_nil _).symm, hback, rfl⟩

/-- The pattern of all files matches every text. -/
theorem matches_everything (text : List Char) :
    Matches [.anySegments, .anySequence] text = true := by
  refine (matches_iff ?_).mpr (denotes_everything text)
  exact List.isChain_pair.mpr nofun

end ProjectBuild.Glob
