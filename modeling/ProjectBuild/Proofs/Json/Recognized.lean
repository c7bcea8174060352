import ProjectBuild.Proofs.Json.Skipped

/-! # What the skipping automaton accepts

    A text that the automaton reads past is the text of a value
    (`Skip.value_written`).  At any time the mode and the open brackets demand
    something of the text that is still unread (`Skip.Ahead`).  One character
    turns what is demanded behind it into what is demanded before it, so a run
    that comes to its end has found all that it demanded. -/

namespace ProjectBuild.Json.Skip

variable {mode : Mode} {stack outer : List Bracket} {c : Char} {rest : List Char}

/-! ## What is demanded -/

/-- What the open brackets demand of the text behind a value: that it closes
    them all, up to `last`. -/
def Closes (last : List Char) : List Bracket → List Char → Prop
  | [], cs => cs = last
  | .list :: stack, cs => ∃ elements closing rest,
    cs = elementsText (Blank.chars closing ++ ']' :: rest) false elements ∧ Closes last stack rest
  | .object :: stack, cs => ∃ members closing rest,
    cs = membersText (Blank.chars closing ++ '}' :: rest) false members ∧ Closes last stack rest

/-- What completes a number of which this part has been read. -/
def NumberPart.Completes (rest : List Char) : NumberPart → List Char → Prop
  | minus, cs => ∃ n : NumberText, n.negative = false ∧ cs = n.text rest
  | zero, cs => ∃ fraction e, cs = fractionText (exponentText rest e) fraction
  | integer, cs => ∃ digits fraction e,
    cs = digitsText (fractionText (exponentText rest e) fraction) digits
  | point, cs => ∃ digits e, cs = Digits.text (exponentText rest e) digits
  | fraction, cs => ∃ digits e, cs = digitsText (exponentText rest e) digits
  | letter, cs => ∃ plus digits, cs = signText (Digits.text rest digits) plus
  | sign, cs => ∃ digits, cs = Digits.text rest digits
  | exponent, cs => ∃ digits, cs = digitsText rest digits

/-- What completes the piece of a literal that is being read. -/
def LiteralPart.Completes (rest : List Char) : LiteralPart → List Char → Prop
  | plain, cs => cs = rest
  | escape, cs => (∃ letter, (Literal.escaped? letter).isSome = true ∧ cs = letter :: rest) ∨
    ∃ a b c d : HexDigit, cs = 'u' :: a.val :: b.val :: c.val :: d.val :: rest
  | unit needed valid, cs => valid = true ∧ ∃ digits : List HexDigit,
    digits.length = max 1 needed ∧ cs = digits.map Subtype.val ++ rest

/-- What stands behind a key: a value, after its colon. -/
def Binds (last : List Char) (stack : List Bracket) (cs : List Char) : Prop :=
  ∃ beforeColon afterColon v rest,
    cs = Blank.chars beforeColon ++ ':' :: (Blank.chars afterColon ++ Value.text rest v) ∧
      Closes last stack rest

/-- What a mode demands of the text, up to `last`. -/
def Ahead (last : List Char) : Mode → List Bracket → List Char → Prop
  | .value, stack, cs => ∃ blank v rest, cs = Blank.chars blank ++ Value.text rest v ∧
    Closes last stack rest
  | .opened, .list :: stack, cs => ∃ elements closing rest,
    cs = elementsText (Blank.chars closing ++ ']' :: rest) true elements ∧ Closes last stack rest
  | .opened, .object :: stack, cs => ∃ members closing rest,
    cs = membersText (Blank.chars closing ++ '}' :: rest) true members ∧ Closes last stack rest
  | .closed, bracket :: stack, cs => Closes last (bracket :: stack) cs
  | .opened, [], cs | .closed, [], cs => ∃ blank, cs = Blank.chars blank ++ last
  | .key, stack, cs => ∃ gap key rest, cs = Blank.chars gap ++ '"' :: literalText rest key ∧
    Binds last stack rest
  | .colon, stack, cs => Binds last stack cs
  | .literal part isKey, stack, cs => ∃ pieces rest,
    part.Completes (literalText rest pieces) cs ∧
      if isKey then Binds last stack rest else Closes last stack rest
  | .number part, stack, cs => ∃ rest, part.Completes rest cs ∧ Closes last stack rest
  | .word [], _, cs => cs = last
  | .word (letter :: letters), stack, cs => ∃ rest, cs = letter :: (letters ++ rest) ∧
    Closes last stack rest

/-! ## White space -/

/-- Blank characters can stand before elements. -/
theorem elements_space (hc : Cursor.isSpace c = true) (first : Bool)
    (elements : List (Element Value)) (closing : Blank) (rest : List Char) :
    ∃ elements' closing', c :: elementsText (closing.chars ++ ']' :: rest) first elements
      = elementsText (Blank.chars closing' ++ ']' :: rest) first elements' := by
  cases elements with
  | nil => exact ⟨[], closing.cons c hc, by rw [elementsText, elementsText]; rfl⟩
  | cons e elements =>
      exact ⟨{ e with lead := e.lead.cons c hc } :: elements, closing,
        by rw [elementsText, elementsText]; rfl⟩

/-- Blank characters can stand before members. -/
theorem members_space (hc : Cursor.isSpace c = true) (first : Bool)
    (members : List (Member Value)) (closing : Blank) (rest : List Char) :
    ∃ members' closing', c :: membersText (closing.chars ++ '}' :: rest) first members
      = membersText (Blank.chars closing' ++ '}' :: rest) first members' := by
  cases members with
  | nil => exact ⟨[], closing.cons c hc, by rw [membersText, membersText]; rfl⟩
  | cons m members =>
      exact ⟨{ m with lead := m.lead.cons c hc } :: members, closing,
        by rw [membersText, membersText]; rfl⟩

/-- Blank characters can stand before what closes a bracket. -/
theorem Closes.space {last : List Char} {bracket : Bracket} (hc : Cursor.isSpace c = true)
    (h : Closes last (bracket :: stack) rest) : Closes last (bracket :: stack) (c :: rest) := by
  cases bracket with
  | list =>
      obtain ⟨elements, closing, rest, rfl, hclosed⟩ := h
      obtain ⟨elements', closing', heq⟩ := elements_space hc false elements closing rest
      exact ⟨elements', closing', rest, heq, hclosed⟩
  | object =>
      obtain ⟨members, closing, rest, rfl, hclosed⟩ := h
      obtain ⟨members', closing', heq⟩ := members_space hc false members closing rest
      exact ⟨members', closing', rest, heq, hclosed⟩

/-- White space may stand in front of anything between two tokens. -/
theorem Ahead.space {last : List Char} (hmode : mode.isOpen = true)
    (hc : Cursor.isSpace c = true) (h : Ahead last mode stack rest) :
    Ahead last mode stack (c :: rest) := by
  cases mode with
  | value =>
      obtain ⟨blank, v, rest, rfl, hclosed⟩ := h
      exact ⟨blank.cons c hc, v, rest, rfl, hclosed⟩
  | opened =>
      match stack, h with
      | [], ⟨blank, heq⟩ => exact ⟨blank.cons c hc, congrArg (c :: ·) heq⟩
      | .list :: stack, ⟨elements, closing, rest, heq, hclosed⟩ =>
          obtain ⟨elements', closing', heq'⟩ := elements_space hc true elements closing rest
          exact ⟨elements', closing', rest, heq ▸ heq', hclosed⟩
      | .object :: stack, ⟨members, closing, rest, heq, hclosed⟩ =>
          obtain ⟨members', closing', heq'⟩ := members_space hc true members closing rest
          exact ⟨members', closing', rest, heq ▸ heq', hclosed⟩
  | closed =>
      match stack, h with
      | [], ⟨blank, heq⟩ => exact ⟨blank.cons c hc, congrArg (c :: ·) heq⟩
      | bracket :: stack, h => exact Closes.space hc h
  | key =>
      obtain ⟨gap, key, rest, rfl, hbinds⟩ := h
      exact ⟨gap.cons c hc, key, rest, rfl, hbinds⟩
  | colon =>
      obtain ⟨beforeColon, afterColon, v, rest, rfl, hclosed⟩ := h
      exact ⟨beforeColon.cons c hc, afterColon, v, rest, rfl, hclosed⟩
  | literal part isKey => exact absurd hmode Bool.false_ne_true
  | number part => exact absurd hmode Bool.false_ne_true
  | word letters => exact absurd hmode Bool.false_ne_true

/-! ## One character

    Each lemma is about the character that was read last, under the assumption
    that the rest of the run gets what it demands. -/

/-- What a move leads to. -/
def follow (c : Char) (rest : List Char) : Move → Option (List Char)
  | .next mode stack => scan mode stack rest
  | .last => some rest
  | .before => some (c :: rest)
  | .fault _ _ => none

/-- A run goes on from one character as it moves. -/
theorem scan_cons (mode : Mode) (stack : List Bracket) (c : Char) (rest : List Char) :
    scan mode stack (c :: rest) = follow c rest (move mode stack c) := by
  rw [scan]
  rfl

/-- A code unit that is complete. -/
theorem four_digits {digits : List HexDigit} (h : digits.length = 4) :
    ∃ a b c d, digits = [a, b, c, d] := by
  match digits, h with
  | [a, b, c, d], _ => exact ⟨a, b, c, d, rfl⟩

section step

variable {last : List Char}
  (ih : ∀ mode stack, scan mode stack rest = some last → Ahead last mode stack rest)

include ih

/-- What completes a value leaves a text that closes the open brackets. -/
theorem follow_complete (h : follow c rest (complete stack) = some last) :
    Closes last stack rest := by
  cases stack with
  | nil => exact Option.some.inj h
  | cons bracket stack => exact ih .closed (bracket :: stack) h

/-- A value begins. -/
theorem follow_beginValue (h : follow c rest (beginValue stack c) = some last) :
    ∃ v rest', c :: rest = Value.text rest' v ∧ Closes last stack rest' := by
  -- one case for each character that can begin a value, in the order they are tried
  unfold beginValue at h
  by_cases hn : c = 'n'
  · rw [if_pos hn] at h
    obtain ⟨rest', rfl, hclosed⟩ := ih _ _ h
    exact ⟨.null, rest', by rw [hn, Value.text]; rfl, hclosed⟩
  rw [if_neg hn] at h
  by_cases ht : c = 't'
  · rw [if_pos ht] at h
    obtain ⟨rest', rfl, hclosed⟩ := ih _ _ h
    exact ⟨.boolean true, rest', by rw [ht, Value.text]; rfl, hclosed⟩
  rw [if_neg ht] at h
  by_cases hf : c = 'f'
  · rw [if_pos hf] at h
    obtain ⟨rest', rfl, hclosed⟩ := ih _ _ h
    exact ⟨.boolean false, rest', by rw [hf, Value.text]; rfl, hclosed⟩
  rw [if_neg hf] at h
  by_cases hminus : c = '-'
  · rw [if_pos hminus] at h
    obtain ⟨rest', ⟨n, hsign, rfl⟩, hclosed⟩ := ih _ _ h
    refine ⟨.number { n with negative := true }, rest', ?_, hclosed⟩
    rw [hminus, Value.text]
    unfold NumberText.text
    rw [hsign]
    rfl
  rw [if_neg hminus] at h
  by_cases hzero : c = '0'
  · rw [if_pos hzero] at h
    obtain ⟨rest', ⟨fraction, e, rfl⟩, hclosed⟩ := ih _ _ h
    refine ⟨.number ⟨false, ⟨⟨'0', rfl⟩, []⟩, fun _ => rfl, fraction, e⟩, rest', ?_, hclosed⟩
    rw [hzero, Value.text]
    rfl
  rw [if_neg hzero] at h
  by_cases hdigit : (Numeral.digit? c).isSome = true
  · rw [if_pos hdigit] at h
    obtain ⟨rest', ⟨digits, fraction, e, rfl⟩, hclosed⟩ := ih _ _ h
    refine ⟨.number ⟨false, ⟨⟨c, hdigit⟩, digits⟩, fun h => absurd h hzero, fraction, e⟩, rest', ?_,
      hclosed⟩
    rw [Value.text]
    rfl
  rw [if_neg hdigit] at h
  by_cases hquote : c = '"'
  · rw [if_pos hquote] at h
    obtain ⟨pieces, rest', rfl, hclosed⟩ := ih _ _ h
    exact ⟨.string pieces, rest', by rw [hquote, Value.text], hclosed⟩
  rw [if_neg hquote] at h
  by_cases hlist : c = '['
  · rw [if_pos hlist] at h
    obtain ⟨elements, closing, rest', rfl, hclosed⟩ := ih _ _ h
    exact ⟨.list elements closing, rest', by rw [hlist, Value.text], hclosed⟩
  rw [if_neg hlist] at h
  by_cases hobject : c = '{'
  · rw [if_pos hobject] at h
    obtain ⟨members, closing, rest', rfl, hclosed⟩ := ih _ _ h
    exact ⟨.object members closing, rest', by rw [hobject, Value.text], hclosed⟩
  · rw [if_neg hobject] at h
    cases h

/-- A key begins. -/
theorem follow_beginKey (h : follow c rest (beginKey stack c) = some last) :
    ∃ key rest', c :: rest = '"' :: literalText rest' key ∧ Binds last stack rest' := by
  unfold beginKey at h
  by_cases hquote : c = '"'
  · rw [if_pos hquote] at h
    obtain ⟨pieces, rest', rfl, hbinds⟩ := ih _ _ h
    exact ⟨pieces, rest', by rw [hquote], hbinds⟩
  · rw [if_neg hquote] at h
    exact nomatch h

/-- What may follow a value closes the innermost bracket, or separates one more
    value. -/
theorem follow_afterValue {bracket : Bracket}
    (h : follow c rest (afterValue (bracket :: stack) c) = some last) :
    Closes last (bracket :: stack) (c :: rest) := by
  cases bracket with
  | list =>
      have h : follow c rest (if c = ',' then .next .value (.list :: stack)
        else if c = ']' then complete stack else .fault 1 .expectedListEnd) = some last := h
      by_cases hcomma : c = ','
      · rw [if_pos hcomma] at h
        -- the comma leads to an element, and behind it to the rest of the list
        obtain ⟨gap, v, rest', rfl, elements, closing, rest, rfl, hclosed⟩ := ih _ _ h
        refine ⟨⟨.none, gap, v⟩ :: elements, closing, rest, ?_, hclosed⟩
        rw [hcomma, elementsText]
        rfl
      rw [if_neg hcomma] at h
      by_cases hlist : c = ']'
      · rw [if_pos hlist] at h
        exact ⟨[], .none, rest, by rw [hlist, elementsText]; rfl, follow_complete ih h⟩
      · rw [if_neg hlist] at h
        cases h
  | object =>
      have h : follow c rest (if c = ',' then .next .key (.object :: stack)
        else if c = '}' then complete stack else .fault 1 .expectedObjectEnd) = some last := h
      by_cases hcomma : c = ','
      · rw [if_pos hcomma] at h
        obtain ⟨gap, key, rest', rfl, beforeColon, afterColon, v, rest, rfl, members, closing, rest,
          rfl, hclosed⟩ := ih _ _ h
        refine ⟨⟨.none, gap, key, beforeColon, afterColon, v⟩ :: members, closing, rest, ?_,
          hclosed⟩
        rw [hcomma, membersText]
        rfl
      rw [if_neg hcomma] at h
      by_cases hobject : c = '}'
      · rw [if_pos hobject] at h
        exact ⟨[], .none, rest, by rw [hobject, membersText]; rfl, follow_complete ih h⟩
      · rw [if_neg hobject] at h
        cases h

/-- What may follow an opening bracket closes it, or begins a first value. -/
theorem follow_afterOpen (h : follow c rest (afterOpen stack c) = some last) :
    Ahead last .opened stack (c :: rest) := by
  match stack, h with
  | [], h => exact ⟨.none, Option.some.inj h⟩
  | .list :: stack, h =>
      have h : follow c rest (if c = ']' then complete stack else beginValue (.list :: stack) c)
        = some last := h
      by_cases hlist : c = ']'
      · rw [if_pos hlist] at h
        exact ⟨[], .none, rest, by rw [hlist, elementsText]; rfl, follow_complete ih h⟩
      · rw [if_neg hlist] at h
        obtain ⟨v, rest', hv, elements, closing, rest, rfl, hclosed⟩ := follow_beginValue ih h
        exact ⟨⟨.none, .none, v⟩ :: elements, closing, rest, by rw [hv, elementsText]; rfl, hclosed⟩
  | .object :: stack, h =>
      have h : follow c rest (if c = '}' then complete stack else beginKey (.object :: stack) c)
        = some last := h
      by_cases hobject : c = '}'
      · rw [if_pos hobject] at h
        exact ⟨[], .none, rest, by rw [hobject, membersText]; rfl, follow_complete ih h⟩
      · rw [if_neg hobject] at h
        obtain ⟨key, rest', hkey, beforeColon, afterColon, v, rest, rfl, members, closing, rest,
          rfl, hclosed⟩ := follow_beginKey ih h
        refine ⟨⟨.none, .none, key, beforeColon, afterColon, v⟩ :: members, closing, rest, ?_,
          hclosed⟩
        rw [hkey, membersText]
        rfl

/-- What may follow a number closes the open brackets. -/
theorem follow_afterNumber (h : follow c rest (afterNumber stack c) = some last) :
    Closes last stack (c :: rest) := by
  cases stack with
  | nil => exact Option.some.inj h
  | cons bracket stack =>
      have h : follow c rest (if Cursor.isSpace c = true then .next .closed (bracket :: stack)
        else afterValue (bracket :: stack) c) = some last := h
      by_cases hspace : Cursor.isSpace c = true
      · rw [if_pos hspace] at h
        exact Closes.space hspace (ih .closed (bracket :: stack) h)
      · rw [if_neg hspace] at h
        exact follow_afterValue ih h

/-- Behind the fraction of a number: an exponent, or what follows the number. -/
theorem follow_afterFraction
    (h : follow c rest (if (c == 'e' || c == 'E') = true then .next (.number .letter) stack
      else afterNumber stack c) = some last) :
    ∃ e rest', c :: rest = exponentText rest' e ∧ Closes last stack rest' := by
  split at h
  · rename_i hletter
    obtain ⟨rest', ⟨plus, digits, rfl⟩, hclosed⟩ := ih _ _ h
    rcases Bool.or_eq_true_iff.mp hletter with hsmall | hcapital
    · exact ⟨some ⟨false, plus, digits⟩, rest', by rw [beq_iff_eq.mp hsmall]; rfl, hclosed⟩
    · exact ⟨some ⟨true, plus, digits⟩, rest', by rw [beq_iff_eq.mp hcapital]; rfl, hclosed⟩
  · exact ⟨none, c :: rest, rfl, follow_afterNumber ih h⟩

/-- Behind the integer part of a number: a fraction, or what follows a fraction. -/
theorem follow_afterInteger
    (h : follow c rest (if c = '.' then .next (.number .point) stack
      else if (c == 'e' || c == 'E') = true then .next (.number .letter) stack
      else afterNumber stack c) = some last) :
    ∃ fraction e rest', c :: rest = fractionText (exponentText rest' e) fraction ∧
      Closes last stack rest' := by
  split at h
  · rename_i hpoint
    obtain ⟨rest', ⟨digits, e, rfl⟩, hclosed⟩ := ih _ _ h
    exact ⟨some digits, e, rest', by rw [hpoint]; rfl, hclosed⟩
  · obtain ⟨e, rest', htext, hclosed⟩ := follow_afterFraction ih h
    exact ⟨none, e, rest', htext, hclosed⟩

/-- What may go on inside a number is a number. -/
theorem follow_insideNumber {part : NumberPart}
    (h : follow c rest (insideNumber part stack c) = some last) :
    Ahead last (.number part) stack (c :: rest) := by
  cases part with
  | minus =>
      simp only [insideNumber] at h
      split at h
      · rename_i hzero
        -- no digit may follow a leading zero
        obtain ⟨rest', ⟨fraction, e, rfl⟩, hclosed⟩ := ih _ _ h
        exact ⟨rest', ⟨⟨false, ⟨⟨'0', rfl⟩, []⟩, fun _ => rfl, fraction, e⟩, rfl,
          by rw [hzero]; rfl⟩, hclosed⟩
      · rename_i hzero
        split at h
        · rename_i hdigit
          obtain ⟨rest', ⟨digits, fraction, e, rfl⟩, hclosed⟩ := ih _ _ h
          exact ⟨rest', ⟨⟨false, ⟨⟨c, hdigit⟩, digits⟩, fun h => absurd h hzero, fraction, e⟩, rfl,
            rfl⟩, hclosed⟩
        · cases h
  | zero =>
      simp only [insideNumber] at h
      split at h
      · cases h
      · obtain ⟨fraction, e, rest', htext, hclosed⟩ := follow_afterInteger ih h
        exact ⟨rest', ⟨fraction, e, htext⟩, hclosed⟩
  | integer =>
      simp only [insideNumber] at h
      split at h
      · rename_i hdigit
        obtain ⟨rest', ⟨digits, fraction, e, rfl⟩, hclosed⟩ := ih _ _ h
        exact ⟨rest', ⟨⟨c, hdigit⟩ :: digits, fraction, e, rfl⟩, hclosed⟩
      · obtain ⟨fraction, e, rest', htext, hclosed⟩ := follow_afterInteger ih h
        exact ⟨rest', ⟨[], fraction, e, htext⟩, hclosed⟩
  | point =>
      simp only [insideNumber] at h
      split at h
      · rename_i hdigit
        obtain ⟨rest', ⟨digits, e, rfl⟩, hclosed⟩ := ih _ _ h
        exact ⟨rest', ⟨⟨⟨c, hdigit⟩, digits⟩, e, rfl⟩, hclosed⟩
      · cases h
  | fraction =>
      simp only [insideNumber] at h
      split at h
      · rename_i hdigit
        obtain ⟨rest', ⟨digits, e, rfl⟩, hclosed⟩ := ih _ _ h
        exact ⟨rest', ⟨⟨c, hdigit⟩ :: digits, e, rfl⟩, hclosed⟩
      · obtain ⟨e, rest', htext, hclosed⟩ := follow_afterFraction ih h
        exact ⟨rest', ⟨[], e, htext⟩, hclosed⟩
  | letter =>
      simp only [insideNumber, Bool.or_eq_true, decide_eq_true_eq] at h
      split at h
      · rename_i hdigit
        obtain ⟨rest', ⟨digits, rfl⟩, hclosed⟩ := ih _ _ h
        exact ⟨rest', ⟨none, ⟨⟨c, hdigit⟩, digits⟩, rfl⟩, hclosed⟩
      split at h
      · rename_i hsign
        obtain ⟨rest', ⟨digits, rfl⟩, hclosed⟩ := ih _ _ h
        rcases hsign with rfl | rfl
        · exact ⟨rest', ⟨some true, digits, rfl⟩, hclosed⟩
        · exact ⟨rest', ⟨some false, digits, rfl⟩, hclosed⟩
      · cases h
  | sign =>
      simp only [insideNumber] at h
      split at h
      · rename_i hdigit
        obtain ⟨rest', ⟨digits, rfl⟩, hclosed⟩ := ih _ _ h
        exact ⟨rest', ⟨⟨⟨c, hdigit⟩, digits⟩, rfl⟩, hclosed⟩
      · cases h
  | exponent =>
      simp only [insideNumber] at h
      split at h
      · rename_i hdigit
        obtain ⟨rest', ⟨digits, rfl⟩, hclosed⟩ := ih _ _ h
        exact ⟨rest', ⟨⟨c, hdigit⟩ :: digits, rfl⟩, hclosed⟩
      · -- the number has ended: `c` belongs to what is around it
        exact ⟨c :: rest, ⟨[], rfl⟩, follow_afterNumber ih h⟩

/-- What may go on inside a literal is a literal. -/
theorem follow_insideLiteral {part : LiteralPart} {isKey : Bool}
    (h : follow c rest (insideLiteral part isKey stack c) = some last) :
    Ahead last (.literal part isKey) stack (c :: rest) := by
  cases part with
  | plain =>
      simp only [insideLiteral] at h
      split at h
      · rename_i hquote
        refine ⟨[], rest, by rw [hquote]; rfl, ?_⟩
        cases isKey with
        | true => exact ih .colon stack h
        | false => exact follow_complete ih h
      rename_i hquote
      split at h
      · rename_i hslash
        obtain ⟨pieces, rest', hpiece, hafter⟩ := ih _ _ h
        rcases hpiece with ⟨letter, hletter, rfl⟩ | ⟨a, b, c, d, rfl⟩
        · exact ⟨.escape letter hletter :: pieces, rest', by rw [hslash]; rfl, hafter⟩
        · exact ⟨.unit a b c d :: pieces, rest', by rw [hslash]; rfl, hafter⟩
      rename_i hslash
      split at h
      · cases h
      · rename_i hcontrol
        obtain ⟨pieces, rest', rfl, hafter⟩ := ih _ _ h
        exact ⟨.plain c hquote hslash hcontrol :: pieces, rest', rfl, hafter⟩
  | escape =>
      simp only [insideLiteral] at h
      split at h
      · rename_i hu
        obtain ⟨pieces, rest', ⟨-, digits, hlength, rfl⟩, hafter⟩ := ih _ _ h
        -- the digits are taken one by one, and four of them make the piece
        obtain ⟨a, b, c, d, rfl⟩ := four_digits hlength
        exact ⟨pieces, rest', Or.inr ⟨a, b, c, d, by rw [hu]; rfl⟩, hafter⟩
      split at h
      · rename_i hletter
        obtain ⟨pieces, rest', rfl, hafter⟩ := ih _ _ h
        exact ⟨pieces, rest', Or.inl ⟨c, hletter, rfl⟩, hafter⟩
      · cases h
  | unit needed valid =>
      simp only [insideLiteral, Bool.and_eq_true] at h
      split at h
      · rename_i hneeded
        obtain ⟨pieces, rest', ⟨hvalid, digits, hlength, rfl⟩, hafter⟩ := ih _ _ h
        obtain ⟨hvalid, hdigit⟩ := (Bool.and_eq_true _ _).mp hvalid
        have hsize := hexDigit_size ⟨c, hdigit⟩
        refine ⟨pieces, rest', ⟨hvalid, ⟨c, hdigit⟩ :: digits, ?_, rfl⟩, hafter⟩
        rw [List.length_cons, hlength]
        simp only at hsize
        omega
      split at h
      · rename_i hneeded hvalid
        obtain ⟨pieces, rest', rfl, hafter⟩ := ih _ _ h
        have hsize := hexDigit_size ⟨c, hvalid.2⟩
        refine ⟨pieces, rest', ⟨hvalid.1, [⟨c, hvalid.2⟩], ?_, rfl⟩, hafter⟩
        rw [List.length_singleton]
        simp only at hsize
        omega
      · cases h

/-- What may go on inside a word are the letters that are left of it. -/
theorem follow_word {letters : List Char}
    (h : follow c rest (move (.word letters) stack c) = some last) :
    Ahead last (.word letters) stack (c :: rest) := by
  cases letters with
  | nil => exact Option.some.inj h
  | cons letter letters =>
      simp only [move] at h
      split at h
      · rename_i hletter
        cases letters with
        | nil => exact ⟨rest, by rw [hletter]; rfl, follow_complete ih h⟩
        | cons next letters =>
            obtain ⟨rest', rfl, hclosed⟩ := ih _ _ h
            exact ⟨rest', by rw [hletter]; rfl, hclosed⟩
      · cases h

/-- One character, between two tokens. -/
theorem follow_open (hmode : mode.isOpen = true)
    (h : follow c rest (move mode stack c) = some last) : Ahead last mode stack (c :: rest) := by
  -- white space changes nothing between two tokens
  by_cases hspace : Cursor.isSpace c = true
  · rw [move_space hmode stack hspace] at h
    exact Ahead.space hmode hspace (ih mode stack h)
  cases mode with
  | value =>
      have hmove : move .value stack c = beginValue stack c := if_neg hspace
      rw [hmove] at h
      obtain ⟨v, rest', htext, hclosed⟩ := follow_beginValue ih h
      exact ⟨.none, v, rest', htext, hclosed⟩
  | opened =>
      have hmove : move .opened stack c = afterOpen stack c := if_neg hspace
      rw [hmove] at h
      exact follow_afterOpen ih h
  | closed =>
      have hmove : move .closed stack c = afterValue stack c := if_neg hspace
      rw [hmove] at h
      cases stack with
      | nil => exact ⟨.none, Option.some.inj h⟩
      | cons bracket stack => exact follow_afterValue ih h
  | key =>
      have hmove : move .key stack c = beginKey stack c := if_neg hspace
      rw [hmove] at h
      obtain ⟨key, rest', htext, hbinds⟩ := follow_beginKey ih h
      exact ⟨.none, key, rest', htext, hbinds⟩
  | colon =>
      have hmove : move .colon stack c
          = if c = ':' then .next .value stack else .fault 1 .expectedColon := if_neg hspace
      rw [hmove] at h
      by_cases hcolon : c = ':'
      · rw [if_pos hcolon] at h
        obtain ⟨blank, v, rest', rfl, hclosed⟩ := ih _ _ h
        exact ⟨.none, blank, v, rest', by rw [hcolon]; rfl, hclosed⟩
      · rw [if_neg hcolon] at h
        exact nomatch h
  | literal part isKey => exact absurd hmode Bool.false_ne_true
  | number part => exact absurd hmode Bool.false_ne_true
  | word letters => exact absurd hmode Bool.false_ne_true

end step

/-! ## The run -/

/-- **What the automaton reads past is well-formed**: from every mode, with any
    brackets open. -/
theorem scan_ahead {last cs : List Char} (h : scan mode stack cs = some last) :
    Ahead last mode stack cs := by
  induction cs generalizing mode stack with
  | nil =>
      -- only a number can end here
      rw [scan] at h
      split at h
      · cases h
      obtain rfl := Option.some.inj h
      rename_i hend
      cases mode with
      | number part =>
          cases stack with
          | cons bracket stack => cases part <;> exact absurd rfl hend
          | nil =>
              refine ⟨[], ?_, rfl⟩
              cases part with
              | zero => exact ⟨none, none, rfl⟩
              | integer => exact ⟨[], none, none, rfl⟩
              | fraction => exact ⟨[], none, rfl⟩
              | exponent => exact ⟨[], rfl⟩
              | _ => exact absurd rfl hend
      | _ => exact absurd rfl hend
  | cons c rest ih =>
      rw [scan_cons] at h
      have ih : ∀ mode stack, scan mode stack rest = some last → Ahead last mode stack rest :=
        fun _ _ => ih
      cases mode with
      | literal part isKey => exact follow_insideLiteral ih h
      | number part => exact follow_insideNumber ih h
      | word letters => exact follow_word ih h
      | _ => exact follow_open ih rfl h

/-- The skipped text is the text of a value. -/
theorem value_written {c : Cursor} {rest : List Char} (h : left (Skip.value c) = some rest) :
    ∃ blank v, c.rest = Blank.chars blank ++ Value.text rest v := by
  unfold Skip.value at h
  rw [left_run] at h
  obtain ⟨blank, v, rest', htext, rfl⟩ := scan_ahead h
  exact ⟨blank, v, htext⟩

end ProjectBuild.Json.Skip
