import ProjectBuild.Json.Skip

/-! # JSON as it is written

    A `Value` is a JSON value together with how it is written: the white space
    in it, the escapes in its literals and the digits of its numbers.  Its text
    is well-formed JSON by construction, and every well-formed JSON text is the
    text of one.  Texts are told together with what follows them.  The white
    space in front of a comma goes with the element behind it, so that elements
    can be read one after the other. -/

namespace ProjectBuild.Json

/-! ## White space, literals and numbers -/

structure Blank where
  chars : List Char
  isSpace : ∀ c ∈ chars, Cursor.isSpace c = true

namespace Blank

def none : Blank :=
  ⟨[], nofun⟩

def cons (c : Char) (h : Cursor.isSpace c = true) (blank : Blank) : Blank :=
  ⟨c :: blank.chars, List.forall_mem_cons.mpr ⟨h, blank.isSpace⟩⟩

def append (blank more : Blank) : Blank :=
  ⟨blank.chars ++ more.chars, List.forall_mem_append.mpr ⟨blank.isSpace, more.isSpace⟩⟩

end Blank

/-- A hexadecimal digit of either case. -/
abbrev HexDigit := { c : Char // (Hex.value? c).isSome = true }

abbrev Digit := { c : Char // (Numeral.digit? c).isSome = true }

/-- A part of a string literal. -/
inductive Piece where
  | plain (c : Char) (hquote : c ≠ '"') (hslash : c ≠ '\\') (hcontrol : ¬ c.toNat < 0x20)
  /-- A backslash and a letter. -/
  | escape (letter : Char) (h : (Literal.escaped? letter).isSome = true)
  /-- A code unit, which may be one of a pair. -/
  | unit (a b c d : HexDigit)

def Piece.text (rest : List Char) : Piece → List Char
  | plain c _ _ _ => c :: rest
  | escape letter _ => '\\' :: letter :: rest
  | unit a b c d => '\\' :: 'u' :: a.val :: b.val :: c.val :: d.val :: rest

/-- The characters of a text that can stand for themselves. -/
def Piece.letters (text : String) : List Piece :=
  text.toList.filterMap fun c =>
    if h : c ≠ '"' ∧ c ≠ '\\' ∧ ¬ c.toNat < 0x20 then some (plain c h.1 h.2.1 h.2.2) else none

/-- The inside of a string literal and its closing quote. -/
def literalText (rest : List Char) : List Piece → List Char
  | [] => '"' :: rest
  | piece :: pieces => piece.text (literalText rest pieces)

/-- At least one digit. -/
structure Digits where
  first : Digit
  others : List Digit

def digitsText (rest : List Char) (digits : List Digit) : List Char :=
  digits.map Subtype.val ++ rest

def Digits.text (rest : List Char) (digits : Digits) : List Char :=
  digits.first.val :: digitsText rest digits.others

/-- The exponent of a number. -/
structure ExponentText where
  capital : Bool
  /-- Whether there is a sign, and whether it is a plus. -/
  plus : Option Bool
  digits : Digits

def signText (rest : List Char) : Option Bool → List Char
  | none => rest
  | some true => '+' :: rest
  | some false => '-' :: rest

def exponentText (rest : List Char) : Option ExponentText → List Char
  | none => rest
  | some e => (if e.capital then 'E' else 'e') :: signText (e.digits.text rest) e.plus

def fractionText (rest : List Char) : Option Digits → List Char
  | none => rest
  | some digits => '.' :: digits.text rest

/-- A number, of any size. -/
structure NumberText where
  negative : Bool
  integer : Digits
  minimal : integer.first.val = '0' → integer.others = []
  fraction : Option Digits
  exponent : Option ExponentText

def NumberText.text (rest : List Char) (n : NumberText) : List Char :=
  let unsigned := n.integer.text (fractionText (exponentText rest n.exponent) n.fraction)
  if n.negative then '-' :: unsigned else unsigned

/-! ## Values -/

/-- An element of a list. -/
structure Element (α : Type) where
  /-- White space before the comma, which the first element does not have. -/
  lead : Blank
  gap : Blank
  value : α

/-- A key of an object, and what stands under it. -/
structure Member (α : Type) where
  /-- White space before the comma, which the first member does not have. -/
  lead : Blank
  gap : Blank
  key : List Piece
  beforeColon : Blank
  afterColon : Blank
  value : α

/-- A JSON value as it is written, without the white space around it. -/
inductive Value where
  | null
  | boolean (b : Bool)
  | number (n : NumberText)
  | string (pieces : List Piece)
  | list (elements : List (Element Value)) (closing : Blank)
  | object (members : List (Member Value)) (closing : Blank)

/-- What separates an element from those before it. -/
def comma (rest : List Char) (first : Bool) : List Char :=
  if first then rest else ',' :: rest

mutual

/-- The text of a value, before `rest`. -/
def Value.text (rest : List Char) : Value → List Char
  | .null => 'n' :: 'u' :: 'l' :: 'l' :: rest
  | .boolean true => 't' :: 'r' :: 'u' :: 'e' :: rest
  | .boolean false => 'f' :: 'a' :: 'l' :: 's' :: 'e' :: rest
  | .number n => n.text rest
  | .string pieces => '"' :: literalText rest pieces
  | .list elements closing => '[' :: elementsText (closing.chars ++ ']' :: rest) true elements
  | .object members closing => '{' :: membersText (closing.chars ++ '}' :: rest) true members

def elementsText (rest : List Char) (first : Bool) : List (Element Value) → List Char
  | [] => rest
  | ⟨lead, gap, value⟩ :: elements =>
    lead.chars ++ comma (gap.chars ++ value.text (elementsText rest false elements)) first

def membersText (rest : List Char) (first : Bool) : List (Member Value) → List Char
  | [] => rest
  | ⟨lead, gap, key, beforeColon, afterColon, value⟩ :: members =>
    lead.chars ++ comma (gap.chars ++ '"' :: literalText (beforeColon.chars ++ ':' ::
      (afterColon.chars ++ value.text (membersText rest false members))) key) first

end

/-- The text is the value, with nothing but white space around it. -/
def WrittenAs (text : String) (v : Value) : Prop :=
  ∃ before after, text.toList = Blank.chars before ++ v.text (Blank.chars after)

/-! ## What begins and what ends a value -/

/-- What can stand behind a value. -/
def Delimited : List Char → Prop
  | [] => True
  | c :: _ => Cursor.isSpace c = true ∨ c = ',' ∨ c = ']' ∨ c = '}'

theorem Delimited.blank (blank : Blank) : Delimited blank.chars := by
  obtain ⟨chars, hspace⟩ := blank
  cases chars with
  | nil => exact True.intro
  | cons d chars => exact Or.inl (hspace d List.mem_cons_self)

theorem Delimited.closing (closing : Blank) {c : Char} (h : c = ']' ∨ c = '}')
    (rest : List Char) : Delimited (closing.chars ++ c :: rest) := by
  obtain ⟨chars, hspace⟩ := closing
  cases chars with
  | nil => exact Or.inr (Or.inr h)
  | cons d chars => exact Or.inl (hspace d List.mem_cons_self)

theorem Delimited.separator (lead : Blank) (rest : List Char) :
    Delimited (lead.chars ++ comma rest false) := by
  obtain ⟨chars, hspace⟩ := lead
  cases chars with
  | nil => exact Or.inr (Or.inl rfl)
  | cons d chars => exact Or.inl (hspace d List.mem_cons_self)

/-- A value is delimited by the elements that follow it. -/
theorem Delimited.elements {rest : List Char} (h : Delimited rest)
    (elements : List (Element Value)) : Delimited (elementsText rest false elements) := by
  cases elements with
  | nil => exact h
  | cons e elements => exact Delimited.separator e.lead _

/-- A value is delimited by the members that follow it. -/
theorem Delimited.members {rest : List Char} (h : Delimited rest)
    (members : List (Member Value)) : Delimited (membersText rest false members) := by
  cases members with
  | nil => exact h
  | cons m members => exact Delimited.separator m.lead _

/-- A digit is no other character. -/
theorem Digit.ne (digit : Digit) {c : Char} (h : Numeral.digit? c = none) : digit.val ≠ c := by
  intro heq
  have hdigit := digit.property
  rw [heq, h] at hdigit
  exact nomatch hdigit

/-- The character that a number begins with. -/
def NumberText.opening (n : NumberText) : Char :=
  if n.negative then '-' else n.integer.first.val

/-- A number begins with its opening character. -/
theorem NumberText.text_opening (n : NumberText) (rest : List Char) :
    ∃ more, n.text rest = n.opening :: more := by
  unfold text opening
  cases n.negative with
  | true => exact ⟨_, rfl⟩
  | false => exact ⟨_, rfl⟩

/-- The character that a value begins with. -/
def Value.opening : Value → Char
  | null => 'n'
  | boolean true => 't'
  | boolean false => 'f'
  | number n => n.opening
  | string _ => '"'
  | list _ _ => '['
  | object _ _ => '{'

/-- A value begins with its opening character. -/
theorem Value.text_opening (v : Value) (rest : List Char) :
    ∃ more, v.text rest = v.opening :: more := by
  cases v with
  | boolean b => cases b <;> exact ⟨_, by rw [Value.text]; rfl⟩
  | number n =>
      obtain ⟨more, h⟩ := n.text_opening rest
      exact ⟨more, by rw [Value.text]; exact h⟩
  | _ => exact ⟨_, by rw [Value.text]; rfl⟩

/-- A number begins with its sign or a digit. -/
theorem NumberText.opening_ne (n : NumberText) {c : Char} (hdigit : Numeral.digit? c = none)
    (hminus : c ≠ '-') : n.opening ≠ c := by
  unfold opening
  split
  · exact hminus.symm
  · exact n.integer.first.ne hdigit

/-- No value begins with a character that opens none. -/
theorem Value.opening_ne (v : Value) {c : Char} (hdigit : Numeral.digit? c = none)
    (h : c ∉ ['-', 'n', 't', 'f', '"', '[', '{']) : v.opening ≠ c := by
  simp only [List.mem_cons, List.not_mem_nil, or_false, not_or] at h
  obtain ⟨hminus, hn, ht, hf, hquote, hlist, hobject⟩ := h
  cases v with
  | null => exact Ne.symm hn
  | boolean b =>
      cases b with
      | true => exact Ne.symm ht
      | false => exact Ne.symm hf
  | number n => exact n.opening_ne hdigit hminus
  | string pieces => exact Ne.symm hquote
  | list elements closing => exact Ne.symm hlist
  | object members closing => exact Ne.symm hobject

/-- No value begins with a blank character. -/
theorem Value.opening_not_space (v : Value) : Cursor.isSpace v.opening = false := by
  have hne : ∀ c, Numeral.digit? c = none → c ∉ ['-', 'n', 't', 'f', '"', '[', '{'] →
      (v.opening == c) = false :=
    fun c hdigit h => beq_eq_false_iff_ne.mpr (v.opening_ne hdigit h)
  unfold Cursor.isSpace
  rw [hne ' ' (by decide) (by decide), hne '\n' (by decide) (by decide),
    hne '\t' (by decide) (by decide), hne '\r' (by decide) (by decide)]
  rfl

/-- Induction on the values inside a value. -/
theorem Value.induct {P : Value → Prop} (null : P .null) (boolean : ∀ b, P (.boolean b))
    (number : ∀ n, P (.number n)) (string : ∀ pieces, P (.string pieces))
    (list : ∀ elements closing, (∀ e ∈ elements, P e.value) → P (.list elements closing))
    (object : ∀ members closing, (∀ m ∈ members, P m.value) → P (.object members closing))
    (v : Value) : P v :=
  @Value.rec P (fun elements => ∀ e ∈ elements, P e.value) (fun members => ∀ m ∈ members, P m.value)
    (fun e => P e.value) (fun m => P m.value) null boolean number string
    (fun elements closing => list elements closing) (fun members closing => object members closing)
    nofun (fun _ _ hfirst hrest => List.forall_mem_cons.mpr ⟨hfirst, hrest⟩)
    nofun (fun _ _ hfirst hrest => List.forall_mem_cons.mpr ⟨hfirst, hrest⟩)
    (fun _ _ _ h => h) (fun _ _ _ _ _ _ h => h) v

/-! ## Lengths -/

/-- A literal has at least one character. -/
theorem length_literalText (rest : List Char) (pieces : List Piece) :
    rest.length < (literalText rest pieces).length := by
  induction pieces with
  | nil => exact Nat.lt_succ_self _
  | cons piece pieces ih =>
      cases piece <;> simp only [literalText, Piece.text, List.length_cons] <;> omega

/-- A number has at least one character. -/
theorem NumberText.length_text (n : NumberText) (rest : List Char) :
    rest.length < (n.text rest).length := by
  have hdigits : ∀ (digits : Digits) rest, rest.length < (digits.text rest).length := by
    intro digits rest
    simp only [Digits.text, digitsText, List.length_cons, List.length_append]
    omega
  have hsign : ∀ (plus : Option Bool) rest, List.length rest ≤ (signText rest plus).length := by
    intro plus rest
    rcases plus with _ | plus | plus <;> simp [signText]
  have hexponent : rest.length ≤ (exponentText rest n.exponent).length := by
    cases n.exponent with
    | none => exact Nat.le_refl _
    | some e =>
        have h := hsign e.plus (e.digits.text rest)
        have h' := hdigits e.digits rest
        simp only [exponentText, List.length_cons]
        omega
  have hfraction : (exponentText rest n.exponent).length
      ≤ (fractionText (exponentText rest n.exponent) n.fraction).length := by
    cases n.fraction with
    | none => exact Nat.le_refl _
    | some digits =>
        have h := hdigits digits (exponentText rest n.exponent)
        simp only [fractionText, List.length_cons]
        omega
  have hinteger := hdigits n.integer (fractionText (exponentText rest n.exponent) n.fraction)
  unfold text
  cases n.negative with
  | true =>
      simp only [if_true, List.length_cons]
      omega
  | false =>
      simp only [Bool.false_eq_true, if_false]
      omega

/-- Elements are no longer in number than their text. -/
theorem length_elementsText {elements : List (Element Value)}
    (h : ∀ e ∈ elements, ∀ rest, List.length rest < (e.value.text rest).length) (first : Bool)
    (rest : List Char) :
    elements.length + rest.length ≤ (elementsText rest first elements).length := by
  induction elements generalizing first with
  | nil =>
      rw [elementsText, List.length_nil]
      omega
  | cons e elements ih =>
      have hrest := ih (fun e' he' => h e' (List.mem_cons_of_mem e he')) false
      have hvalue := h e List.mem_cons_self (elementsText rest false elements)
      rw [elementsText]
      cases first <;> simp only [comma, List.length_cons, List.length_append, if_true,
        Bool.false_eq_true, if_false] <;> omega

/-- Members are no longer in number than their text. -/
theorem length_membersText {members : List (Member Value)}
    (h : ∀ m ∈ members, ∀ rest, List.length rest < (m.value.text rest).length) (first : Bool)
    (rest : List Char) :
    members.length + rest.length ≤ (membersText rest first members).length := by
  induction members generalizing first with
  | nil =>
      rw [membersText, List.length_nil]
      omega
  | cons m members ih =>
      have hrest := ih (fun m' hm' => h m' (List.mem_cons_of_mem m hm')) false
      have hvalue := h m List.mem_cons_self (membersText rest false members)
      have hkey := length_literalText (m.beforeColon.chars ++ ':' ::
        (m.afterColon.chars ++ m.value.text (membersText rest false members))) m.key
      rw [membersText]
      cases first <;> simp only [comma, List.length_cons, List.length_append, if_true,
        Bool.false_eq_true, if_false] at hkey ⊢ <;> omega

/-- A value is not empty. -/
theorem Value.length_text (v : Value) (rest : List Char) :
    rest.length < (v.text rest).length := by
  induction v using Value.induct generalizing rest with
  | null =>
      simp only [Value.text, List.length_cons]
      omega
  | boolean b =>
      cases b <;> simp only [Value.text, List.length_cons] <;> omega
  | number n =>
      rw [Value.text]
      exact n.length_text rest
  | string pieces =>
      have h := length_literalText rest pieces
      rw [Value.text, List.length_cons]
      omega
  | list elements closing h =>
      have h := length_elementsText h true (closing.chars ++ ']' :: rest)
      rw [List.length_append, List.length_cons] at h
      rw [Value.text, List.length_cons]
      omega
  | object members closing h =>
      have h := length_membersText h true (closing.chars ++ '}' :: rest)
      rw [List.length_append, List.length_cons] at h
      rw [Value.text, List.length_cons]
      omega

end ProjectBuild.Json
