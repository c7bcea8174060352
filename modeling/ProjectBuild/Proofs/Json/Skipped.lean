import ProjectBuild.Proofs.Json.Written

/-! # Skipping written values

    The skipping automaton comes to the end of every written value, whatever is
    nested in it and whatever brackets are open around it (`Skip.scan_value`).
    Positions do not matter to it, so this is told of `Skip.scan`, which leaves
    them out. -/

namespace ProjectBuild.Json

/-- What is left of the text, wherever it stands. -/
def left : Except Fault Cursor → Option (List Char)
  | .ok c => some c.rest
  | .error _ => none

namespace Skip

/-! ## Running without positions -/

/-- Runs the automaton without keeping track of positions. -/
def scan (mode : Mode) (stack : List Bracket) : List Char → Option (List Char)
  | [] => if (atEnd? mode stack).isSome then none else some []
  | c :: rest =>
    match move mode stack c with
    | .next mode stack => scan mode stack rest
    | .last => some rest
    | .before => some (c :: rest)
    | .fault _ _ => none

/-- A run leaves what the scan of its text leaves. -/
theorem left_run (mode : Mode) (stack : List Bracket) (cs : List Char) (p : Position) :
    left (run mode stack cs p) = scan mode stack cs := by
  induction cs generalizing mode stack p with
  | nil =>
      rw [run, scan]
      cases atEnd? mode stack <;> rfl
  | cons c cs ih =>
      rw [run, scan]
      cases move mode stack c with
      | next mode stack => exact ih mode stack _
      | _ => rfl

/-- The run goes on behind a value. -/
def resume : List Bracket → List Char → Option (List Char)
  | [], rest => some rest
  | bracket :: stack, rest => scan .closed (bracket :: stack) rest

variable {mode : Mode} {stack outer : List Bracket} {c : Char} {rest : List Char}

/-- A scan goes on in the mode that a character leads to. -/
theorem scan_next {mode' : Mode} {stack' : List Bracket}
    (h : move mode stack c = .next mode' stack') :
    scan mode stack (c :: rest) = scan mode' stack' rest := by
  rw [scan, h]

/-- A scan resumes behind a value that a character completes. -/
theorem scan_complete (h : move mode stack c = complete outer) :
    scan mode stack (c :: rest) = resume outer rest := by
  rw [scan, h]
  cases outer <;> rfl

/-- Between two tokens. -/
def Mode.isOpen : Mode → Bool
  | value => true
  | opened => true
  | closed => true
  | key => true
  | colon => true
  | _ => false

/-- Blank characters change nothing between values. -/
theorem move_space (hmode : mode.isOpen = true) (stack : List Bracket)
    (hc : Cursor.isSpace c = true) : move mode stack c = .next mode stack := by
  cases mode <;> first | exact if_pos hc | exact absurd hmode Bool.false_ne_true

/-- White space between two tokens is read past. -/
theorem scan_blank (mode : Mode) (hmode : mode.isOpen = true) (stack : List Bracket)
    (blank : Blank) (rest : List Char) :
    scan mode stack (blank.chars ++ rest) = scan mode stack rest := by
  obtain ⟨chars, hspace⟩ := blank
  induction chars with
  | nil => rfl
  | cons c chars ih =>
      have hc := hspace c List.mem_cons_self
      exact (scan_next (move_space hmode stack hc)).trans
        (ih fun d hd => hspace d (List.mem_cons_of_mem c hd))

/-! ## Literals -/

theorem hexDigit_size (digit : HexDigit) : digit.val.utf8Size = 1 := by
  obtain ⟨c, h⟩ := digit
  refine Char.utf8Size_eq_one_iff.mpr ?_
  unfold Hex.value? at h
  simp only [Char.le_def] at h
  show c.val ≤ 127
  split at h
  · rename_i hc
    exact UInt32.le_trans hc.2 (by decide)
  · split at h
    · rename_i hc
      exact UInt32.le_trans hc.2 (by decide)
    · split at h
      · rename_i hc
        exact UInt32.le_trans hc.2 (by decide)
      · exact nomatch h

/-- One digit of a code unit that is not its last. -/
theorem scan_unit_digit (isKey : Bool) {needed : Nat} (hneeded : 1 < needed) (digit : HexDigit) :
    scan (.literal (.unit needed true) isKey) stack (digit.val :: rest)
      = scan (.literal (.unit (needed - 1) true) isKey) stack rest := by
  refine scan_next ?_
  simp only [move, insideLiteral, hexDigit_size, digit.property, hneeded, if_true, Bool.and_self]

/-- A piece of a literal is passed by. -/
theorem scan_piece (isKey : Bool) (piece : Piece) (rest : List Char) :
    scan (.literal .plain isKey) stack (piece.text rest)
      = scan (.literal .plain isKey) stack rest := by
  have hslash : ∀ rest, scan (.literal .plain isKey) stack ('\\' :: rest)
      = scan (.literal .escape isKey) stack rest := fun _ => scan_next rfl
  cases piece with
  | plain c hquote hslash hcontrol =>
      refine scan_next ?_
      simp only [move, insideLiteral, if_neg hquote, if_neg hslash, if_neg hcontrol]
  | escape letter h =>
      refine (hslash _).trans (scan_next ?_)
      have hletter : letter ≠ 'u' := by
        rintro rfl
        exact nomatch h
      simp only [move, insideLiteral, if_neg hletter, if_pos h]
  | unit a b c d =>
      have hu : ∀ rest, scan (.literal .escape isKey) stack ('u' :: rest)
          = scan (.literal (.unit 4 true) isKey) stack rest := fun _ => scan_next rfl
      show scan _ stack ('\\' :: 'u' :: a.val :: b.val :: c.val :: d.val :: rest) = _
      rw [hslash, hu, scan_unit_digit isKey (by decide), scan_unit_digit isKey (by decide),
        scan_unit_digit isKey (by decide)]
      refine scan_next ?_
      simp only [move, insideLiteral, hexDigit_size, d.property]
      rfl

/-- A literal is passed by, to a colon if it is a key. -/
theorem scan_literal (isKey : Bool) (pieces : List Piece) (rest : List Char) :
    scan (.literal .plain isKey) stack (literalText rest pieces)
      = if isKey then scan .colon stack rest else resume stack rest := by
  induction pieces with
  | nil =>
      cases isKey with
      | true => exact scan_next rfl
      | false => exact scan_complete rfl
  | cons piece pieces ih =>
      rw [literalText, scan_piece]
      exact ih

/-! ## Numbers -/

/-- A number does not go on with what stands behind a value. -/
theorem delimiter_ends (h : Cursor.isSpace c = true ∨ c = ',' ∨ c = ']' ∨ c = '}') :
    Numeral.digit? c = none ∧ c ≠ '.' ∧ (c == 'e' || c == 'E') = false := by
  simp only [Cursor.isSpace, Bool.or_eq_true, beq_iff_eq, or_assoc] at h
  rcases h with rfl | rfl | rfl | rfl | rfl | rfl | rfl <;> exact ⟨rfl, by decide, rfl⟩

/-- A number can end here. -/
def NumberPart.isFinal : NumberPart → Bool
  | zero => true
  | integer => true
  | fraction => true
  | exponent => true
  | _ => false

/-- A number ends where something else begins. -/
theorem scan_number_end {part : NumberPart} (hpart : part.isFinal = true)
    (hrest : Delimited rest) : scan (.number part) stack rest = resume stack rest := by
  cases rest with
  | nil =>
      cases stack <;> cases part <;> first | rfl | exact absurd hpart Bool.false_ne_true
  | cons c rest =>
      obtain ⟨hdigit, hpoint, hletter⟩ := delimiter_ends hrest
      have hmove : move (.number part) stack c = afterNumber stack c := by
        cases part <;> first
          | exact absurd hpart Bool.false_ne_true
          | simp only [move, insideNumber, hdigit, hletter, if_neg hpoint]; rfl
      rw [scan, hmove]
      cases stack with
      | nil => rfl
      | cons bracket stack => rfl

/-- More digits of a part that takes digits. -/
theorem scan_digits {part : NumberPart}
    (hpart : part = .integer ∨ part = .fraction ∨ part = .exponent) (digits : List Digit) :
    scan (.number part) stack (digitsText rest digits) = scan (.number part) stack rest := by
  induction digits with
  | nil => rfl
  | cons digit digits ih =>
      refine (scan_next ?_).trans ih
      rcases hpart with rfl | rfl | rfl
      · simp only [move, insideNumber, digit.property, if_true]
      · simp only [move, insideNumber, digit.property, if_true]
      · simp only [move, insideNumber, digit.property, if_true]

/-- An exponent is passed by. -/
theorem scan_exponent {part : NumberPart}
    (hpart : part = .zero ∨ part = .integer ∨ part = .fraction) (hrest : Delimited rest)
    (e : Option ExponentText) :
    scan (.number part) stack (exponentText rest e) = resume stack rest := by
  cases e with
  | none => exact scan_number_end (by rcases hpart with rfl | rfl | rfl <;> rfl) hrest
  | some e =>
      have hletter : move (.number part) stack (if e.capital then 'E' else 'e')
          = .next (.number .letter) stack := by
        rcases hpart with rfl | rfl | rfl <;> cases e.capital <;> rfl
      have hsign : scan (.number .letter) stack (signText (e.digits.text rest) e.plus)
          = scan (.number .exponent) stack (digitsText rest e.digits.others) := by
        cases e.plus with
        | none =>
            refine scan_next ?_
            simp only [move, insideNumber, e.digits.first.property, if_true]
        | some plus =>
            have hdigit : move (.number .sign) stack e.digits.first.val
                = .next (.number .exponent) stack := by
              simp only [move, insideNumber, e.digits.first.property, if_true]
            cases plus with
            | true => exact (scan_next rfl).trans (scan_next hdigit)
            | false => exact (scan_next rfl).trans (scan_next hdigit)
      refine (scan_next hletter).trans (hsign.trans ?_)
      rw [scan_digits (Or.inr (Or.inr rfl))]
      exact scan_number_end rfl hrest

/-- A fraction and an exponent are passed by. -/
theorem scan_fraction {part : NumberPart} (hpart : part = .zero ∨ part = .integer)
    (hrest : Delimited rest) (fraction : Option Digits) (e : Option ExponentText) :
    scan (.number part) stack (fractionText (exponentText rest e) fraction)
      = resume stack rest := by
  cases fraction with
  | none => exact scan_exponent (hpart.imp_right Or.inl) hrest e
  | some digits =>
      have hpoint : move (.number part) stack '.' = .next (.number .point) stack := by
        rcases hpart with rfl | rfl <;> rfl
      have hdigit : move (.number .point) stack digits.first.val
          = .next (.number .fraction) stack := by
        simp only [move, insideNumber, digits.first.property, if_true]
      refine (scan_next hpoint).trans ((scan_next hdigit).trans ?_)
      rw [scan_digits (Or.inr (Or.inl rfl))]
      exact scan_exponent (Or.inr (Or.inr rfl)) hrest e

/-- An integer is passed by, with what follows it. -/
theorem scan_integer {n : NumberText}
    (hzero : move mode stack '0' = .next (.number .zero) stack)
    (hdigit : ∀ digit : Digit, digit.val ≠ '0' →
      move mode stack digit.val = .next (.number .integer) stack) (hrest : Delimited rest) :
    scan mode stack (n.integer.text (fractionText (exponentText rest n.exponent) n.fraction))
      = resume stack rest := by
  by_cases hfirst : n.integer.first.val = '0'
  · have htext : n.integer.text (fractionText (exponentText rest n.exponent) n.fraction)
        = '0' :: fractionText (exponentText rest n.exponent) n.fraction := by
      unfold Digits.text
      rw [n.minimal hfirst, hfirst]
      rfl
    rw [htext]
    exact (scan_next hzero).trans (scan_fraction (Or.inl rfl) hrest n.fraction n.exponent)
  · refine (scan_next (hdigit n.integer.first hfirst)).trans ?_
    rw [scan_digits (Or.inl rfl)]
    exact scan_fraction (Or.inr rfl) hrest n.fraction n.exponent

/-- A digit begins a number. -/
theorem beginValue_digit (digit : Digit) (hne : digit.val ≠ '0') :
    move .value stack digit.val = .next (.number .integer) stack := by
  have hspace : Cursor.isSpace digit.val = false := by
    simp only [Cursor.isSpace, Bool.or_eq_false_iff, beq_eq_false_iff_ne]
    exact ⟨⟨⟨digit.ne rfl, digit.ne rfl⟩, digit.ne rfl⟩, digit.ne rfl⟩
  simp only [move, hspace, beginValue, if_neg (digit.ne (show Numeral.digit? 'n' = none from rfl)),
    if_neg (digit.ne (show Numeral.digit? 't' = none from rfl)),
    if_neg (digit.ne (show Numeral.digit? 'f' = none from rfl)),
    if_neg (digit.ne (show Numeral.digit? '-' = none from rfl)), if_neg hne, digit.property]
  rfl

/-- **Numbers are passed by.** -/
theorem scan_number (n : NumberText) (hrest : Delimited rest) :
    scan .value stack (n.text rest) = resume stack rest := by
  unfold NumberText.text
  cases n.negative with
  | false => exact scan_integer rfl (fun digit hne => beginValue_digit digit hne) hrest
  | true =>
      refine (scan_next rfl).trans (scan_integer rfl ?_ hrest)
      intro digit hne
      simp only [move, insideNumber, if_neg hne, digit.property, if_true]

/-! ## Values -/

/-- The run comes to the end of a value, wherever the value stands. -/
def Passes (v : Value) : Prop :=
  ∀ stack rest, Delimited rest → scan .value stack (v.text rest) = resume stack rest

/-- The letters of a word. -/
theorem scan_word (letter : Char) (letters rest : List Char) :
    scan (.word (letter :: letters)) stack (letter :: (letters ++ rest)) = resume stack rest := by
  induction letters generalizing letter with
  | nil =>
      refine scan_complete ?_
      simp only [move, if_true, List.isEmpty_nil]
  | cons next letters ih =>
      refine (scan_next ?_).trans (ih next)
      simp only [move, if_true, List.isEmpty_cons, Bool.false_eq_true, if_false]

/-- The elements of a list are passed by, up to its end. -/
theorem scan_elements {elements : List (Element Value)} (h : ∀ e ∈ elements, Passes e.value)
    (closing : Blank) :
    scan .closed (.list :: stack) (elementsText (closing.chars ++ ']' :: rest) false elements)
      = resume stack rest := by
  induction elements with
  | nil => exact (scan_blank .closed rfl _ closing _).trans (scan_complete rfl)
  | cons e elements ih =>
      have hrest := (Delimited.closing closing (Or.inl rfl) rest).elements elements
      have hcomma : ∀ more, scan .closed (.list :: stack) (',' :: more)
          = scan .value (.list :: stack) more := fun _ => scan_next rfl
      rw [elementsText, scan_blank .closed rfl, comma, if_neg Bool.false_ne_true, hcomma,
        scan_blank .value rfl, h e List.mem_cons_self _ _ hrest]
      exact ih fun e' he' => h e' (List.mem_cons_of_mem e he')

/-- The first value of a list is read like any other. -/
theorem scan_opened_value (v : Value) (rest : List Char) :
    scan .opened (.list :: stack) (v.text rest) = scan .value (.list :: stack) (v.text rest) := by
  obtain ⟨more, htext⟩ := v.text_opening rest
  have hmove :
      move .opened (.list :: stack) v.opening = move .value (.list :: stack) v.opening := by
    simp only [move, v.opening_not_space, afterOpen, if_neg (v.opening_ne
      (show Numeral.digit? ']' = none from rfl) (by decide))]
    rfl
  rw [htext, scan, scan, hmove]

/-- Lists are passed by whose elements are. -/
theorem scan_list {elements : List (Element Value)} (h : ∀ e ∈ elements, Passes e.value)
    (closing : Blank) :
    scan .opened (.list :: stack) (elementsText (closing.chars ++ ']' :: rest) true elements)
      = resume stack rest := by
  cases elements with
  | nil => exact (scan_blank .opened rfl _ closing _).trans (scan_complete rfl)
  | cons e elements =>
      have hrest := (Delimited.closing closing (Or.inl rfl) rest).elements elements
      rw [elementsText, scan_blank .opened rfl, comma, if_pos rfl,
        scan_blank .opened rfl, scan_opened_value, h e List.mem_cons_self _ _ hrest]
      exact scan_elements (fun e' he' => h e' (List.mem_cons_of_mem e he')) closing

/-- A key, and the value under it. -/
theorem scan_binding (hquote : move mode stack '"' = .next (.literal .plain true) stack)
    (m : Member Value) (h : Passes m.value) (hrest : Delimited rest) :
    scan mode stack ('"' :: literalText (m.beforeColon.chars ++ ':' ::
      (m.afterColon.chars ++ m.value.text rest)) m.key) = resume stack rest := by
  have hcolon : ∀ more, scan .colon stack (':' :: more) = scan .value stack more :=
    fun _ => scan_next rfl
  rw [scan_next hquote, scan_literal, if_pos rfl, scan_blank .colon rfl, hcolon,
    scan_blank .value rfl]
  exact h stack rest hrest

/-- The members of an object are passed by, up to its end. -/
theorem scan_members {members : List (Member Value)} (h : ∀ m ∈ members, Passes m.value)
    (closing : Blank) :
    scan .closed (.object :: stack) (membersText (closing.chars ++ '}' :: rest) false members)
      = resume stack rest := by
  induction members with
  | nil => exact (scan_blank .closed rfl _ closing _).trans (scan_complete rfl)
  | cons m members ih =>
      have hrest := (Delimited.closing closing (Or.inr rfl) rest).members members
      have hcomma : ∀ more, scan .closed (.object :: stack) (',' :: more)
          = scan .key (.object :: stack) more := fun _ => scan_next rfl
      rw [membersText, scan_blank .closed rfl, comma, if_neg Bool.false_ne_true, hcomma,
        scan_blank .key rfl, scan_binding rfl m (h m List.mem_cons_self) hrest]
      exact ih fun m' hm' => h m' (List.mem_cons_of_mem m hm')

/-- Objects are passed by whose members are. -/
theorem scan_object {members : List (Member Value)} (h : ∀ m ∈ members, Passes m.value)
    (closing : Blank) :
    scan .opened (.object :: stack) (membersText (closing.chars ++ '}' :: rest) true members)
      = resume stack rest := by
  cases members with
  | nil => exact (scan_blank .opened rfl _ closing _).trans (scan_complete rfl)
  | cons m members =>
      have hrest := (Delimited.closing closing (Or.inr rfl) rest).members members
      rw [membersText, scan_blank .opened rfl, comma, if_pos rfl,
        scan_blank .opened rfl, scan_binding rfl m (h m List.mem_cons_self) hrest]
      exact scan_members (fun m' hm' => h m' (List.mem_cons_of_mem m hm')) closing

/-- **The automaton comes to the end of every written value**, with any brackets
    open around it. -/
theorem scan_value (v : Value) : Passes v := by
  -- on the value, where the elements and members come by induction
  induction v using Value.induct with
  | null =>
      intro stack rest _
      rw [Value.text]
      exact scan_word 'u' ['l', 'l'] rest
  | boolean b =>
      intro stack rest _
      cases b with
      | true =>
          rw [Value.text]
          exact scan_word 'r' ['u', 'e'] rest
      | false =>
          rw [Value.text]
          exact scan_word 'a' ['l', 's', 'e'] rest
  | number n =>
      intro stack rest hrest
      rw [Value.text]
      exact scan_number n hrest
  | string pieces =>
      intro stack rest _
      rw [Value.text]
      exact (scan_next rfl).trans (scan_literal false pieces rest)
  | list elements closing h =>
      intro stack rest _
      rw [Value.text]
      exact (scan_next rfl).trans (scan_list h closing)
  | object members closing h =>
      intro stack rest _
      rw [Value.text]
      exact (scan_next rfl).trans (scan_object h closing)

end Skip

end ProjectBuild.Json
