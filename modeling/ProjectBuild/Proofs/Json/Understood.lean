import ProjectBuild.Json.Shape
import ProjectBuild.Proofs.Json.Recognized
import ProjectBuild.Proofs.Json.Scalar

/-! # What typed readers understand

    A typed reader understands a written value if it finds what the value means
    and leaves what stands behind it; it refuses what has no meaning, and what it
    takes is a written value (`Understands`).  So what it finds depends on the
    value alone, and not on where the value stands.  Objects and lists of fields
    mean what their members make of a structure one after the other
    (`Shape.meaning`). -/

namespace ProjectBuild.Json

/-- What is found and what is left of the text, wherever it stands. -/
def found {α : Type} : Except Fault (α × Cursor) → Option (α × List Char)
  | .ok (x, c) => some (x, c.rest)
  | .error _ => none

/-- Something is found if the reader succeeds, at whatever position. -/
theorem found_eq_some {α : Type} {result : Except Fault (α × Cursor)} {x : α}
    {rest : List Char} : found result = some (x, rest) ↔ ∃ p, result = .ok (x, ⟨rest, p⟩) := by
  constructor
  · intro h
    match result, h with
    | .ok (x', c), h =>
        obtain ⟨rfl, rfl⟩ := Prod.mk.inj (Option.some.inj h)
        exact ⟨c.position, rfl⟩
  · rintro ⟨p, rfl⟩
    rfl

/-- Nothing is found if the reader fails. -/
theorem found_eq_none {α : Type} {result : Except Fault (α × Cursor)} :
    found result = none ↔ ∃ fault, result = .error fault := by
  constructor
  · intro h
    match result, h with
    | .error fault, _ => exact ⟨fault, rfl⟩
  · rintro ⟨fault, rfl⟩
    rfl

/-- What a reader in steps finds, it finds in the last step, behind a first one
    that succeeds. -/
theorem exists_of_found_bind {α β : Type} {first : Except Fault β}
    {next : β → Except Fault (α × Cursor)} {x : α} {rest : List Char}
    (h : found (first >>= next) = some (x, rest)) :
    ∃ y, first = .ok y ∧ found (next y) = some (x, rest) := by
  cases first with
  | error fault => cases h
  | ok y => exact ⟨y, rfl, h⟩

/-- The reader finds what written values mean, and refuses everything else. -/
structure Understands {α : Type} (reader : Reader α) (meaning : Value → Option α) : Prop where
  spaced : ∀ c, reader c.skipSpace = reader c
  reads : ∀ v rest p, Delimited rest →
    found (reader ⟨v.text rest, p⟩) = (meaning v).map fun x => (x, rest)
  written : ∀ {cs p x rest}, found (reader ⟨cs, p⟩) = some (x, rest) →
    ∃ blank v, cs = Blank.chars blank ++ Value.text rest v

/-! ## White space -/

/-- Skipping cuts a text behind its blank characters. -/
theorem skipSpace_split (cs : List Char) (p : Position) :
    ∃ blank rest p', cs = Blank.chars blank ++ rest ∧ Cursor.skipSpace ⟨cs, p⟩ = ⟨rest, p'⟩ ∧
      Cursor.skipSpace ⟨rest, p'⟩ = ⟨rest, p'⟩ := by
  induction cs generalizing p with
  | nil => exact ⟨.none, [], p, rfl, rfl, rfl⟩
  | cons c cs ih =>
      by_cases hc : Cursor.isSpace c = true
      · obtain ⟨blank, rest, p', rfl, hskip, hrest⟩ := ih (p.after c 1)
        exact ⟨blank.cons c hc, rest, p', rfl, (if_pos hc).trans hskip, hrest⟩
      · exact ⟨.none, c :: cs, p, rfl, if_neg hc, if_neg hc⟩

/-- Nothing is left to be skipped after skipping. -/
theorem skipSpace_skipSpace (c : Cursor) : c.skipSpace.skipSpace = c.skipSpace := by
  obtain ⟨blank, rest, p', -, hskip, hrest⟩ := skipSpace_split c.rest c.position
  have hc : c.skipSpace = ⟨rest, p'⟩ := hskip
  rw [hc, hrest]

/-- Blank characters before a value are skipped. -/
theorem skipSpace_value (blank : Blank) (v : Value) (rest : List Char) (p : Position) :
    ∃ p', Cursor.skipSpace ⟨blank.chars ++ v.text rest, p⟩ = ⟨v.text rest, p'⟩ := by
  obtain ⟨more, htext⟩ := v.text_opening rest
  rw [htext]
  exact skipSpace_blank v.opening more p blank.isSpace v.opening_not_space

namespace Understands

variable {α β : Type} {reader : Reader α} {meaning : Value → Option α}

/-- Values are understood behind blank characters. -/
theorem reads_blank (h : Understands reader meaning) (blank : Blank) (v : Value)
    {rest : List Char} (hrest : Delimited rest) (p : Position) :
    found (reader ⟨blank.chars ++ v.text rest, p⟩) = (meaning v).map fun x => (x, rest) := by
  obtain ⟨p', hskip⟩ := skipSpace_value blank v rest p
  rw [← h.spaced, hskip]
  exact h.reads v rest p' hrest

/-- What is understood can be put otherwise. -/
theorem map (h : Understands reader meaning) (f : α → β) :
    Understands (fun c => (reader c).map fun (x, c) => (f x, c)) fun v => (meaning v).map f := by
  have hmap : ∀ c, found ((reader c).map fun (x, c) => (f x, c))
      = (found (reader c)).map fun (x, rest) => (f x, rest) := by
    intro c
    cases reader c <;> rfl
  refine ⟨fun c => by simp only [h.spaced], fun v rest p hrest => ?_, fun hfound => ?_⟩
  · rw [hmap, h.reads v rest p hrest]
    cases meaning v <;> rfl
  · rw [hmap] at hfound
    obtain ⟨⟨y, rest'⟩, hy, heq⟩ := Option.map_eq_some_iff.mp hfound
    obtain rfl : rest' = _ := (Prod.mk.inj heq).2
    exact h.written hy

end Understands

/-! ## String literals -/

def HexDigit.value (digit : HexDigit) : Nat :=
  (Hex.value? digit.val).get digit.property

/-- Before the next piece of a literal, behind a leading unit if there is one. -/
def boundary : Option Nat → LiteralMode
  | none => .plain
  | some high => .secondEscape high

/-- The leading unit that waits for its partner. -/
def LiteralMode.pending : LiteralMode → Option Nat
  | secondEscape high => some high
  | _ => none

namespace Piece

/-- The code unit of four digits. -/
def unitOf (a b c d : HexDigit) : Nat :=
  ((a.value * 16 + b.value) * 16 + c.value) * 16 + d.value

/-- The characters that a piece adds, behind a leading unit if there is one, and
    the leading unit that it leaves. -/
def meaning : Option Nat → Piece → Option (Option Nat × List Char)
  | pending, unit a b c d =>
    match Literal.closeUnit pending (unitOf a b c d) with
    | .ok (mode, chars) => some (mode.pending, chars)
    | .error _ => none
  | none, plain c _ _ _ => some (none, [c])
  | none, escape letter _ => (Literal.escaped? letter).map fun c => (none, [c])
  | some _, _ => none

end Piece

/-- The characters that a literal stands for, behind a leading unit if there is one. -/
def spelledFrom : Option Nat → List Piece → Option (List Char)
  | none, [] => some []
  | some _, [] => none
  | pending, piece :: pieces =>
    (piece.meaning pending).bind fun (pending, chars) =>
      (spelledFrom pending pieces).map (chars ++ ·)

/-- The text that a literal stands for, if no code unit is without its partner. -/
def spelled (pieces : List Piece) : Option String :=
  (spelledFrom none pieces).map String.ofList

namespace Literal

/-- Behind a unit a literal goes on at a boundary, with one more character at most. -/
theorem closeUnit_eq_ok {high : Option Nat} {unit : Nat} {mode : LiteralMode} {chars : List Char}
    (h : closeUnit high unit = .ok (mode, chars)) :
    boundary mode.pending = mode ∧ chars.reverse = chars := by
  unfold closeUnit at h
  cases high with
  | none =>
      simp only at h
      split at h
      · exact nomatch h
      split at h
      · obtain ⟨rfl, rfl⟩ := Prod.mk.inj (Except.ok.inj h)
        exact ⟨rfl, rfl⟩
      · obtain ⟨rfl, rfl⟩ := Prod.mk.inj (Except.ok.inj h)
        exact ⟨rfl, rfl⟩
  | some high =>
      simp only at h
      split at h
      · obtain ⟨rfl, rfl⟩ := Prod.mk.inj (Except.ok.inj h)
        exact ⟨rfl, rfl⟩
      · exact nomatch h

theorem value?_eq (digit : HexDigit) :
    Hex.value? digit.val = some digit.value ∧ digit.val.utf8Size = 1 :=
  ⟨(Option.some_get digit.property).symm, Skip.hexDigit_size digit⟩

/-- A code unit behind its backslash and letter. -/
theorem found_unit (high : Option Nat) (a b c d : HexDigit) (read rest : List Char) (p : Position) :
    ∃ p', found (readFrom (.unit high 4 (some 0)) read
        (a.val :: b.val :: c.val :: d.val :: rest) p)
      = match closeUnit high (Piece.unitOf a b c d) with
        | .ok (mode, chars) => found (readFrom mode (chars ++ read) rest p')
        | .error _ => none := by
  obtain ⟨p1, h1⟩ := readFrom_unit_digit high 0 (by decide : 1 < 4) (value?_eq a) read
    (b.val :: c.val :: d.val :: rest) p
  obtain ⟨p2, h2⟩ := readFrom_unit_digit high (0 * 16 + a.value) (by decide : 1 < 3) (value?_eq b)
    read (c.val :: d.val :: rest) p1
  obtain ⟨p3, h3⟩ := readFrom_unit_digit high ((0 * 16 + a.value) * 16 + b.value)
    (by decide : 1 < 2) (value?_eq c) read (d.val :: rest) p2
  have hunit : unitValue (some (((0 * 16 + a.value) * 16 + b.value) * 16 + c.value)) d.val
      = some (Piece.unitOf a b c d) := by
    rw [unitValue_digit _ (value?_eq d).1, Nat.zero_mul, Nat.zero_add]
    rfl
  refine ⟨p3.after d.val 1, ?_⟩
  rw [h1, h2, h3, readFrom]
  simp only [(value?_eq d).2, hunit, Nat.lt_irrefl, if_false]
  cases closeUnit high (Piece.unitOf a b c d) with
  | ok result => rfl
  | error problem => rfl

/-- **A piece of a literal is read** as what it means. -/
theorem found_piece (pending : Option Nat) (piece : Piece) (read rest : List Char) (p : Position) :
    ∃ p', found (readFrom (boundary pending) read (piece.text rest) p)
      = (piece.meaning pending).bind fun (pending, chars) =>
          found (readFrom (boundary pending) (chars.reverse ++ read) rest p') := by
  cases piece with
  | plain c hquote hslash hcontrol =>
      cases pending with
      | none => exact ⟨_, congrArg found (readFrom_plain read rest p hquote hslash hcontrol)⟩
      | some high =>
          refine ⟨p, ?_⟩
          -- a high surrogate waits for its other half, and a character cannot be that
          show found (readFrom (.secondEscape high) read (c :: rest) p) = none
          rw [readFrom]
          simp only [if_neg hslash]
          rfl
  | escape letter h =>
      have hletter : letter ≠ 'u' := by
        rintro rfl
        cases h
      cases pending with
      | none =>
          obtain ⟨c, hc⟩ := Option.isSome_iff_exists.mp h
          obtain ⟨p', hread⟩ := readFrom_escaped read rest p hletter hc
          have hmeaning : (Piece.escape letter h).meaning none = some (none, [c]) := by
            show (escaped? letter).map _ = _
            rw [hc]
            rfl
          refine ⟨p', ?_⟩
          rw [hmeaning]
          exact congrArg found hread
      | some high =>
          refine ⟨p, ?_⟩
          -- nor can an escape that is not a unit
          show found (readFrom (.secondEscape high) read ('\\' :: letter :: rest) p) = none
          rw [readFrom]
          simp only [if_true]
          rw [readFrom]
          simp only [if_neg hletter]
          rfl
  | unit a b c d =>
      have hopen : readFrom (boundary pending) read ((Piece.unit a b c d).text rest) p
          = readFrom (.unit pending 4 (some 0)) read
              (a.val :: b.val :: c.val :: d.val :: rest) ((p.after '\\' 1).after 'u' 1) := by
        cases pending <;> rfl
      obtain ⟨p', hunit⟩ := found_unit pending a b c d read rest ((p.after '\\' 1).after 'u' 1)
      refine ⟨p', ?_⟩
      rw [hopen, hunit]
      have hmeaning : (Piece.unit a b c d).meaning pending
          = match closeUnit pending (Piece.unitOf a b c d) with
            | .ok (mode, chars) => some (mode.pending, chars)
            | .error _ => none := by
        cases pending <;> rfl
      rw [hmeaning]
      cases hclose : closeUnit pending (Piece.unitOf a b c d) with
      | error problem => rfl
      | ok result =>
          obtain ⟨mode, chars⟩ := result
          obtain ⟨hmode, hchars⟩ := closeUnit_eq_ok hclose
          show _ = found (readFrom (boundary mode.pending) (chars.reverse ++ read) rest p')
          rw [hmode, hchars]

/-- A literal is read as what its pieces spell. -/
theorem found_readFrom (pending : Option Nat) (pieces : List Piece) (read rest : List Char)
    (p : Position) :
    found (readFrom (boundary pending) read (literalText rest pieces) p)
      = (spelledFrom pending pieces).map fun chars =>
          (String.ofList (read.reverse ++ chars), rest) := by
  induction pieces generalizing pending read p with
  | nil =>
      cases pending with
      | none =>
          show found (.ok (String.ofList read.reverse, Cursor.past '"' rest p)) = _
          rw [spelledFrom, Option.map_some, List.append_nil]
          rfl
      | some high => rfl
  | cons piece pieces ih =>
      obtain ⟨p', hpiece⟩ := found_piece pending piece read (literalText rest pieces) p
      rw [literalText, hpiece, spelledFrom]
      cases piece.meaning pending with
      | none => rfl
      | some result =>
          obtain ⟨pending', chars⟩ := result
          simp only [Option.bind_some]
          rw [ih, Option.map_map, List.reverse_append, List.reverse_reverse]
          simp only [List.append_assoc]
          rfl

/-- **Literals are read as they are spelled.** -/
theorem found_read (pieces : List Piece) (rest : List Char) (p : Position) :
    found (Literal.read ⟨literalText rest pieces, p⟩)
      = (spelled pieces).map fun text => (text, rest) := by
  have h := found_readFrom none pieces [] rest p
  unfold Literal.read spelled
  rw [Option.map_map]
  exact h

/-- What the skipping automaton would make of the literal. -/
def part : LiteralMode → Skip.LiteralPart
  | .plain => .plain
  | .escape => .escape
  | .unit _ needed value => .unit needed value.isSome
  | .secondEscape _ => .plain
  | .secondUnit _ => .escape

/-- A unit has a value while all its characters are digits. -/
theorem isSome_unitValue (value : Option Nat) (c : Char) :
    (unitValue value c).isSome = (value.isSome && (Hex.value? c).isSome) := by
  unfold unitValue
  cases value with
  | none => rfl
  | some v => cases Hex.value? c <;> rfl

/-- Behind a unit a literal goes on plainly. -/
theorem part_closeUnit {high : Option Nat} {unit : Nat} {mode : LiteralMode} {chars : List Char}
    (h : closeUnit high unit = .ok (mode, chars)) : part mode = .plain := by
  rw [← (closeUnit_eq_ok h).1]
  cases mode.pending <;> rfl

/-- A literal that is read could be skipped as well. -/
theorem scan_of_readFrom {mode : LiteralMode} {read cs rest : List Char} {p : Position}
    {text : String} (h : found (readFrom mode read cs p) = some (text, rest)) :
    Skip.scan (.literal (part mode) false) [] cs = some rest := by
  -- on the characters: both scanners see each of them once, in modes that agree
  induction cs generalizing mode read p with
  | nil => cases mode <;> cases h
  | cons c cs ih =>
      cases mode with
      | plain =>
          rw [readFrom] at h
          split at h
          · rename_i hquote
            obtain rfl : cs = rest := (Prod.mk.inj (Option.some.inj h)).2
            rw [hquote]
            show Skip.scan (.literal .plain false) [] ('"' :: cs) = Skip.resume [] cs
            exact Skip.scan_complete rfl
          rename_i hquote
          split at h
          · rename_i hslash
            rw [hslash]
            exact (Skip.scan_next rfl).trans (ih h)
          rename_i hslash
          split at h
          · cases h
          · rename_i hcontrol
            refine (Skip.scan_next ?_).trans (ih h)
            simp only [part, Skip.move, Skip.insideLiteral, if_neg hquote, if_neg hslash,
              if_neg hcontrol]
      | escape =>
          rw [readFrom] at h
          split at h
          · rename_i hu
            rw [hu]
            exact (Skip.scan_next rfl).trans (ih h)
          · rename_i hu
            cases hletter : escaped? c with
            | none =>
                rw [hletter] at h
                cases h
            | some d =>
                rw [hletter] at h
                refine (Skip.scan_next ?_).trans (ih h)
                simp only [part, Skip.move, Skip.insideLiteral, if_neg hu, hletter,
                  Option.isSome_some, if_true]
      | unit high needed value =>
          rw [readFrom] at h
          split at h
          · rename_i hneeded
            refine (Skip.scan_next ?_).trans (ih h)
            simp only [part, Skip.move, Skip.insideLiteral, if_pos hneeded, isSome_unitValue]
          · rename_i hneeded
            cases hvalue : unitValue value c with
            | none =>
                rw [hvalue] at h
                cases h
            | some unit =>
                rw [hvalue] at h
                simp only at h
                have hvalid := isSome_unitValue value c
                rw [hvalue, Option.isSome_some] at hvalid
                -- the fourth digit: the reader also asks whether the unit fits the one before
                cases hclose : closeUnit high unit with
                | error problem =>
                    rw [hclose] at h
                    cases h
                | ok result =>
                    obtain ⟨mode, chars⟩ := result
                    rw [hclose] at h
                    have hrest := ih h
                    rw [part_closeUnit hclose] at hrest
                    refine (Skip.scan_next ?_).trans hrest
                    simp only [part, Skip.move, Skip.insideLiteral, if_neg hneeded, ← hvalid,
                      if_true]
      | secondEscape high =>
          rw [readFrom] at h
          split at h
          · rename_i hslash
            rw [hslash]
            exact (Skip.scan_next rfl).trans (ih h)
          · cases h
      | secondUnit high =>
          rw [readFrom] at h
          split at h
          · rename_i hu
            rw [hu]
            exact (Skip.scan_next rfl).trans (ih h)
          · cases h

/-- Where a literal was read, it stands. -/
theorem read_written {cs rest : List Char} {p : Position} {text : String}
    (h : found (Literal.read ⟨cs, p⟩) = some (text, rest)) :
    ∃ pieces, cs = literalText rest pieces := by
  obtain ⟨pieces, rest', htext, hrest⟩ := Skip.scan_ahead (scan_of_readFrom h)
  obtain rfl : rest' = rest := hrest
  exact ⟨pieces, htext⟩

end Literal

/-! ## Scalars -/

/-- A word is read where it stands. -/
theorem expectWord_reads (word rest : List Char) (p : Position) :
    ∃ p', Cursor.expectWord word ⟨word ++ rest, p⟩ = .ok ⟨rest, p'⟩ := by
  induction word generalizing p with
  | nil => exact ⟨p, rfl⟩
  | cons letter word ih =>
      obtain ⟨p', h⟩ := ih (p.after letter letter.utf8Size)
      exact ⟨p', (if_pos rfl).trans h⟩

/-- Where a word was read, it stands. -/
theorem expectWord_written {word : List Char} {c c' : Cursor}
    (h : Cursor.expectWord word c = .ok c') : c.rest = word ++ c'.rest := by
  induction word generalizing c with
  | nil =>
      obtain rfl := Except.ok.inj h
      rfl
  | cons letter word ih =>
      obtain ⟨cs, p⟩ := c
      cases cs with
      | nil => exact nomatch h
      | cons next rest =>
          rw [Cursor.expectWord] at h
          simp only at h
          split at h
          · rename_i hletter
            rw [hletter, List.cons_append, ← ih h]
            rfl
          · exact nomatch h

/-- A word is read for what it stands for. -/
theorem found_word {α : Type} {word : List Char} {c : Cursor} {x y : α} {rest : List Char} :
    found ((Cursor.expectWord word c).map (x, ·)) = some (y, rest) ↔
      y = x ∧ c.rest = word ++ rest := by
  constructor
  · intro h
    cases hword : Cursor.expectWord word c with
    | error fault =>
        rw [hword] at h
        exact nomatch h
    | ok c' =>
        rw [hword] at h
        obtain ⟨rfl, rfl⟩ := Prod.mk.inj (Option.some.inj h)
        exact ⟨rfl, expectWord_written hword⟩
  · rintro ⟨rfl, hrest⟩
    obtain ⟨p', hword⟩ := expectWord_reads word rest c.position
    rw [← hrest] at hword
    have hc : Cursor.expectWord word c = .ok ⟨rest, p'⟩ := hword
    rw [hc]
    rfl

namespace Value

/-- The meaning of a value where a boolean is expected. -/
def flag? : Value → Option Bool
  | boolean b => some b
  | _ => none

/-- The meaning of a value where a string is expected. -/
def string? : Value → Option String
  | string pieces => spelled pieces
  | _ => none

/-- The meaning of a value that may be absent. -/
def optional? {α : Type} (meaning : Value → Option α) : Value → Option (Option α)
  | null => some none
  | v => (meaning v).map some

/-- The meaning of a list. -/
def list? {α : Type} (meaning : Value → Option α) : Value → Option (List α)
  | list elements _ => (elements.map Element.value).mapM meaning
  | _ => none

end Value

theorem skipSpace_cons {first : Char} (h : Cursor.isSpace first = false) (more : List Char)
    (p : Position) : Cursor.skipSpace ⟨first :: more, p⟩ = ⟨first :: more, p⟩ :=
  if_neg (Bool.eq_false_iff.mp h)

/-- **Flags are understood.** -/
theorem boolean_understands : Understands Read.boolean Value.flag? := by
  -- any other first character is refused
  have hother : ∀ {first : Char} more p, Cursor.isSpace first = false → first ≠ 't' →
      first ≠ 'f' → found (Read.boolean ⟨first :: more, p⟩) = none := by
    intro first more p hspace ht hf
    unfold Read.boolean
    simp only [skipSpace_cons hspace]
    split
    · rename_i heq
      exact absurd (List.cons.inj heq).1 ht
    · rename_i heq
      exact absurd (List.cons.inj heq).1 hf
    · rfl
  refine ⟨fun c => by unfold Read.boolean; rw [skipSpace_skipSpace], ?_, ?_⟩
  · intro v rest p _
    cases v with
    | boolean b =>
        cases b with
        | true =>
            have hread : Read.boolean ⟨Value.text rest (.boolean true), p⟩ = (Cursor.expectWord
              ['r', 'u', 'e'] (Cursor.past 't' ('r' :: 'u' :: 'e' :: rest) p)).map (true, ·) := rfl
            rw [hread]
            exact found_word.mpr ⟨rfl, rfl⟩
        | false =>
            have hread : Read.boolean ⟨Value.text rest (.boolean false), p⟩ = (Cursor.expectWord
              ['a', 'l', 's', 'e'] (Cursor.past 'f' ('a' :: 'l' :: 's' :: 'e' :: rest) p)).map
                (false, ·) := rfl
            rw [hread]
            exact found_word.mpr ⟨rfl, rfl⟩
    | null => exact hother _ p rfl (by decide) (by decide)
    | number n =>
        obtain ⟨more, htext⟩ := n.text_opening rest
        rw [Value.text, htext]
        exact hother more p (Value.number n).opening_not_space (n.opening_ne rfl (by decide))
          (n.opening_ne rfl (by decide))
    | string pieces => exact hother _ p rfl (by decide) (by decide)
    | list elements closing => exact hother _ p rfl (by decide) (by decide)
    | object members closing => exact hother _ p rfl (by decide) (by decide)
  · intro cs p x rest h
    obtain ⟨blank, cs, p', rfl, hskip, -⟩ := skipSpace_split cs p
    unfold Read.boolean at h
    simp only [hskip] at h
    split at h
    · rename_i more
      obtain ⟨rfl, hmore⟩ := found_word.mp h
      obtain rfl : more = ['r', 'u', 'e'] ++ rest := hmore
      exact ⟨blank, .boolean true, by rw [Value.text]; rfl⟩
    · rename_i more
      obtain ⟨rfl, hmore⟩ := found_word.mp h
      obtain rfl : more = ['a', 'l', 's', 'e'] ++ rest := hmore
      exact ⟨blank, .boolean false, by rw [Value.text]; rfl⟩
    · cases h

/-- **Texts are understood.** -/
theorem text_understands (expected : String) :
    Understands (Read.text expected) Value.string? := by
  -- only a quote begins a text
  have hother : ∀ {first : Char} more p, Cursor.isSpace first = false → first ≠ '"' →
      found (Read.text expected ⟨first :: more, p⟩) = none := by
    intro first more p hspace hquote
    unfold Read.text
    simp only [skipSpace_cons hspace]
    split
    · rename_i heq
      exact absurd (List.cons.inj heq).1 hquote
    · rfl
  refine ⟨fun c => by unfold Read.text; rw [skipSpace_skipSpace], ?_, ?_⟩
  · intro v rest p _
    cases v with
    | string pieces =>
        rw [Value.text]
        exact Literal.found_read pieces rest _
    | null => exact hother _ p rfl (by decide)
    | boolean b => cases b <;> exact hother _ p rfl (by decide)
    | number n =>
        obtain ⟨more, htext⟩ := n.text_opening rest
        rw [Value.text, htext]
        exact hother more p (Value.number n).opening_not_space (n.opening_ne rfl (by decide))
    | list elements closing => exact hother _ p rfl (by decide)
    | object members closing => exact hother _ p rfl (by decide)
  · intro cs p x rest h
    obtain ⟨blank, cs, p', rfl, hskip, -⟩ := skipSpace_split cs p
    unfold Read.text at h
    simp only [hskip] at h
    split at h
    · rename_i more
      obtain ⟨pieces, rfl⟩ := Literal.read_written h
      exact ⟨blank, .string pieces, by rw [Value.text]⟩
    · cases h

section optional

variable {α : Type} {reader : Reader α} {meaning : Value → Option α}

/-- **What is optional is understood** if what may be there is. -/
theorem optional_understands (h : Understands reader meaning) :
    Understands (Read.optional reader) (Value.optional? meaning) := by
  -- what does not begin as `null` does is left to the reader
  have hother : ∀ {first : Char} more p, Cursor.isSpace first = false → first ≠ 'n' →
      Read.optional reader ⟨first :: more, p⟩
        = (reader ⟨first :: more, p⟩).map fun (x, c) => (some x, c) := by
    intro first more p hspace hn
    unfold Read.optional
    simp only [skipSpace_cons hspace]
    split
    · rename_i heq
      exact absurd (List.cons.inj heq).1 hn
    · rfl
  refine ⟨fun c => by unfold Read.optional; rw [skipSpace_skipSpace], ?_, ?_⟩
  · intro v rest p hrest
    by_cases hn : v.opening = 'n'
    · have hnull : v = .null := by
        cases v with
        | null => rfl
        | boolean b => cases b <;> exact absurd hn (by decide)
        | number n => exact absurd hn (n.opening_ne rfl (by decide))
        | string pieces => exact absurd hn (show ('"' : Char) ≠ 'n' from by decide)
        | list elements closing => exact absurd hn (show ('[' : Char) ≠ 'n' from by decide)
        | object members closing => exact absurd hn (show ('{' : Char) ≠ 'n' from by decide)
      rw [hnull]
      have hread : Read.optional reader ⟨Value.text rest .null, p⟩ = (Cursor.expectWord
        ['u', 'l', 'l'] (Cursor.past 'n' ('u' :: 'l' :: 'l' :: rest) p)).map (none, ·) := rfl
      rw [hread]
      exact found_word.mpr ⟨rfl, rfl⟩
    · obtain ⟨more, htext⟩ := v.text_opening rest
      have hmeaning : Value.optional? meaning v = (meaning v).map some := by
        cases v <;> first | rfl | exact absurd rfl hn
      have hread := (h.map some).reads v rest p hrest
      rw [htext] at hread ⊢
      rw [hother more p v.opening_not_space hn, hmeaning]
      exact hread
  · intro cs p x rest h'
    obtain ⟨blank, cs, p', rfl, hskip, hstay⟩ := skipSpace_split cs p
    unfold Read.optional at h'
    simp only [hskip] at h'
    split at h'
    · rename_i more
      obtain ⟨rfl, hmore⟩ := found_word.mp h'
      obtain rfl : more = ['u', 'l', 'l'] ++ rest := hmore
      exact ⟨blank, .null, by rw [Value.text]; rfl⟩
    · obtain ⟨blank', v, rfl⟩ := (h.map some).written h'
      exact ⟨blank.append blank', v, (List.append_assoc _ _ _).symm⟩

end optional

/-! ## Lists -/

/-- A body is read up to what closes it. -/
theorem found_close {α : Type} {body : Except Fault (α × Cursor)} {place : Fault → Fault}
    {close : Cursor → Except Fault Cursor} {x? : Option α} {tail rest : List Char}
    (hclose : ∀ p, ∃ p', close ⟨tail, p⟩ = .ok ⟨rest, p'⟩)
    (h : found body = x?.map fun x => (x, tail)) :
    found (match body with
      | .error fault => .error (place fault)
      | .ok (x, c) => (close c).map (x, ·)) = x?.map fun x => (x, rest) := by
  cases x? with
  | none =>
      obtain ⟨fault, rfl⟩ := found_eq_none.mp h
      rfl
  | some x =>
      obtain ⟨p, rfl⟩ := found_eq_some.mp h
      obtain ⟨p', hend⟩ := hclose p
      simp only [hend]
      rfl

/-- What is found between brackets is found by the body, before the closing one. -/
theorem close_found {α : Type} {body : Except Fault (α × Cursor)} {place : Fault → Fault}
    {close : Cursor → Except Fault Cursor} {x : α} {rest : List Char}
    (h : found (match body with
      | .error fault => .error (place fault)
      | .ok (x, c) => (close c).map (x, ·)) = some (x, rest)) :
    ∃ c c', found body = some (x, Cursor.rest c) ∧ close c = .ok c' ∧ Cursor.rest c' = rest := by
  cases body with
  | error fault => exact nomatch h
  | ok result =>
      cases hend : close result.2 with
      | error fault =>
          simp only [hend] at h
          exact nomatch h
      | ok c' =>
          simp only [hend] at h
          obtain ⟨rfl, rfl⟩ := Prod.mk.inj (Option.some.inj h)
          exact ⟨result.2, c', rfl, hend, rfl⟩

/-- The end of a list is read where it stands. -/
theorem endList_reads (closing : Blank) (rest : List Char) (p : Position) :
    ∃ p', Read.endList ⟨closing.chars ++ ']' :: rest, p⟩ = .ok ⟨rest, p'⟩ := by
  obtain ⟨p', hskip⟩ := skipSpace_blank ']' rest p closing.isSpace rfl
  refine ⟨p'.after ']' (']' : Char).utf8Size, ?_⟩
  unfold Read.endList
  simp only [hskip]
  rfl

/-- Where the end of a list was read, it stands. -/
theorem endList_written {c c' : Cursor} (h : Read.endList c = .ok c') :
    ∃ closing, c.rest = Blank.chars closing ++ ']' :: c'.rest := by
  obtain ⟨cs, p⟩ := c
  obtain ⟨blank, cs, p', rfl, hskip, -⟩ := skipSpace_split cs p
  unfold Read.endList at h
  simp only [hskip] at h
  split at h
  · obtain rfl := Except.ok.inj h
    exact ⟨blank, rfl⟩
  · split at h <;> exact nomatch h
  · exact nomatch h
  · exact nomatch h

/-- What the body of a list finds is found in the list. -/
theorem found_inList {α : Type} {body : Reader α} {c : Cursor} {x? : Option α}
    (closing : Blank) (rest : List Char)
    (h : found (body c) = x?.map fun x => (x, closing.chars ++ ']' :: rest)) :
    found (Read.inList body c) = x?.map fun x => (x, rest) :=
  found_close (endList_reads closing rest) h

/-- What is found in a list is found by its body, before the closing bracket. -/
theorem inList_found {α : Type} {body : Reader α} {c : Cursor} {x : α} {rest : List Char}
    (h : found (Read.inList body c) = some (x, rest)) :
    ∃ closing, found (body c) = some (x, Blank.chars closing ++ ']' :: rest) := by
  obtain ⟨c', c'', hbody, hend, rfl⟩ := close_found h
  obtain ⟨closing, hclosing⟩ := endList_written hend
  exact ⟨closing, hbody.trans (congrArg (fun rest => some (x, rest)) hclosing)⟩

/-- At the end of a list no element comes next. -/
theorem nextElement_end (first : Bool) (closing : Blank) (rest : List Char) (p : Position) :
    Read.nextElement first ⟨closing.chars ++ ']' :: rest, p⟩ = .ok none := by
  obtain ⟨p', hskip⟩ := skipSpace_blank ']' rest p closing.isSpace rfl
  unfold Read.nextElement
  simp only [hskip]

/-- Blank characters before the first element are skipped. -/
theorem skipSpace_first (e : Element Value) (elements : List (Element Value)) (rest : List Char)
    (p : Position) :
    ∃ p', Cursor.skipSpace ⟨elementsText rest true (e :: elements), p⟩
      = ⟨e.value.text (elementsText rest false elements), p'⟩ := by
  have htext : elementsText rest true (e :: elements)
      = (e.lead.append e.gap).chars ++ e.value.text (elementsText rest false elements) := by
    rw [elementsText]
    exact (List.append_assoc _ _ _).symm
  rw [htext]
  exact skipSpace_value _ _ _ p

/-- Blank characters before a comma are skipped. -/
theorem skipSpace_next (e : Element Value) (elements : List (Element Value)) (rest : List Char)
    (p : Position) :
    ∃ p', Cursor.skipSpace ⟨elementsText rest false (e :: elements), p⟩
      = ⟨',' :: (e.gap.chars ++ e.value.text (elementsText rest false elements)), p'⟩ := by
  rw [elementsText]
  exact skipSpace_blank ',' _ p e.lead.isSpace rfl

/-- The next element is found where it stands. -/
theorem nextElement_reads (first : Bool) (e : Element Value) (elements : List (Element Value))
    (rest : List Char) (p : Position) :
    ∃ p', Read.nextElement first ⟨elementsText rest first (e :: elements), p⟩
      = .ok (some ⟨e.value.text (elementsText rest false elements), p'⟩) := by
  obtain ⟨more, htext⟩ := e.value.text_opening (elementsText rest false elements)
  have hclose : e.value.opening ≠ ']' := e.value.opening_ne rfl (by decide)
  cases first with
  | true =>
      obtain ⟨p', hskip⟩ := skipSpace_first e elements rest p
      refine ⟨p', ?_⟩
      unfold Read.nextElement
      simp only [hskip, htext]
      split
      · rename_i heq
        exact nomatch heq
      · rename_i heq
        exact absurd (List.cons.inj heq).1 hclose
      · rfl
      · rfl
  | false =>
      obtain ⟨p1, hcomma⟩ := skipSpace_next e elements rest p
      obtain ⟨p2, hgap⟩ := skipSpace_value e.gap e.value (elementsText rest false elements)
        (p1.after ',' (',' : Char).utf8Size)
      have hpast : Cursor.skipSpace (Cursor.past ','
          (e.gap.chars ++ e.value.text (elementsText rest false elements)) p1)
            = ⟨e.value.text (elementsText rest false elements), p2⟩ := hgap
      rw [htext] at hcomma hpast ⊢
      refine ⟨p2, ?_⟩
      unfold Read.nextElement
      simp only [Bool.false_eq_true, if_false, hcomma, hpast]
      split
      · rename_i heq
        exact nomatch heq
      · rename_i heq
        exact absurd (List.cons.inj heq).1 hclose
      · rfl

/-- Where a next element was found, one begins. -/
theorem nextElement_written {first : Bool} {c c' : Cursor}
    (h : Read.nextElement first c = .ok (some c')) :
    ∃ lead gap, c.rest = Blank.chars lead ++ comma (Blank.chars gap ++ c'.rest) first := by
  obtain ⟨cs, p⟩ := c
  obtain ⟨blank, cs, p', rfl, hskip, -⟩ := skipSpace_split cs p
  unfold Read.nextElement at h
  simp only [hskip] at h
  split at h
  · exact nomatch h
  · exact nomatch h
  · rename_i more
    cases first with
    | true =>
        obtain rfl := Option.some.inj (Except.ok.inj h)
        exact ⟨blank, .none, rfl⟩
    | false =>
        obtain ⟨gap, more, p'', rfl, hgap, -⟩ :=
          skipSpace_split more (p'.after ',' (',' : Char).utf8Size)
        have hpast : Cursor.skipSpace (Cursor.past ',' (gap.chars ++ more) p') = ⟨more, p''⟩ := hgap
        simp only [Bool.false_eq_true, if_false, hpast] at h
        split at h
        · exact nomatch h
        · exact nomatch h
        · obtain rfl := Option.some.inj (Except.ok.inj h)
          exact ⟨blank, gap, rfl⟩
  · cases first with
    | true =>
        obtain rfl := Option.some.inj (Except.ok.inj h)
        exact ⟨blank, .none, rfl⟩
    | false => exact nomatch h

section list

variable {α : Type} {reader : Reader α} {meaning : Value → Option α}

/-- **Elements are read** as they are meant, one by one. -/
theorem elements_reads (h : Understands reader meaning) (closing : Blank) (rest : List Char)
    (elements : List (Element Value)) {rounds : Nat} (hrounds : elements.length < rounds)
    (first : Bool) (read : List α) (p : Position) :
    found (Read.elements reader rounds first read
        ⟨elementsText (closing.chars ++ ']' :: rest) first elements, p⟩)
      = ((elements.map Element.value).mapM meaning).map fun xs =>
          (read.reverse ++ xs, closing.chars ++ ']' :: rest) := by
  -- on the elements, each of which takes one of the rounds
  induction elements generalizing rounds first read p with
  | nil =>
      cases rounds with
      | zero => exact absurd hrounds (Nat.not_lt_zero _)
      | succ rounds =>
          rw [elementsText, Read.elements]
          simp only [nextElement_end, bind, Except.bind, List.map_nil, List.mapM_nil]
          show some (read.reverse, _) = some (read.reverse ++ [], _)
          rw [List.append_nil]
  | cons e elements ih =>
      cases rounds with
      | zero => exact absurd hrounds (Nat.not_lt_zero _)
      | succ rounds =>
          obtain ⟨p1, hnext⟩ := nextElement_reads first e elements (closing.chars ++ ']' :: rest) p
          have hread := h.reads e.value _ p1
            ((Delimited.closing closing (Or.inl rfl) rest).elements elements)
          rw [Read.elements]
          simp only [hnext, bind, Except.bind, List.map_cons, List.mapM_cons]
          cases hmeaning : meaning e.value with
          | none =>
              rw [hmeaning] at hread
              obtain ⟨fault, hfault⟩ := found_eq_none.mp hread
              simp only [hfault]
              rfl
          | some x =>
              rw [hmeaning] at hread
              obtain ⟨p2, hx⟩ := found_eq_some.mp hread
              simp only [hx]
              rw [ih (Nat.lt_of_succ_lt_succ hrounds), List.reverse_cons]
              cases (elements.map Element.value).mapM meaning with
              | none => rfl
              | some xs => simp

/-- An element is read in front of others. -/
theorem element_written {first : Bool} {c c1 c2 : Cursor} {blank : Blank} {v : Value}
    {rest : List Char} (hnext : Read.nextElement first c = .ok (some c1))
    (hvalue : c1.rest = blank.chars ++ v.text c2.rest)
    (hothers : ∃ elements, c2.rest = elementsText rest false elements) :
    ∃ elements, c.rest = elementsText rest first elements := by
  obtain ⟨lead, gap, htext⟩ := nextElement_written hnext
  obtain ⟨elements, helements⟩ := hothers
  refine ⟨⟨lead, gap.append blank, v⟩ :: elements, ?_⟩
  rw [htext, hvalue, helements, elementsText]
  unfold Blank.append
  rw [List.append_assoc]

/-- Where elements were read, they stand. -/
theorem elements_written (h : Understands reader meaning) {rounds : Nat} {first : Bool}
    {read xs : List α} {c : Cursor} {rest : List Char}
    (hfound : found (Read.elements reader rounds first read c) = some (xs, rest)) :
    ∃ elements, c.rest = elementsText rest first elements := by
  induction rounds generalizing first read c with
  | zero => cases hfound
  | succ rounds ih =>
      rw [Read.elements] at hfound
      obtain ⟨next, hnext, hfound⟩ := exists_of_found_bind hfound
      cases next with
      | none =>
          obtain ⟨-, rfl⟩ := Prod.mk.inj (Option.some.inj hfound)
          exact ⟨[], by rw [elementsText]⟩
      | some c1 =>
          obtain ⟨⟨x, c2⟩, hread, hfound⟩ := exists_of_found_bind hfound
          obtain ⟨blank, v, hv⟩ := h.written (congrArg found hread)
          exact element_written hnext hv (ih hfound)

/-- **Lists are understood** if their elements are. -/
theorem list_understands (h : Understands reader meaning) :
    Understands (Read.list reader) (Value.list? meaning) := by
  -- only a bracket begins a list
  have hother : ∀ {first : Char} more p, Cursor.isSpace first = false → first ≠ '[' →
      found (Read.list reader ⟨first :: more, p⟩) = none := by
    intro first more p hspace hlist
    unfold Read.list
    simp only [skipSpace_cons hspace]
    split
    · rename_i heq
      exact absurd (List.cons.inj heq).1 hlist
    · rfl
  refine ⟨fun c => by unfold Read.list; rw [skipSpace_skipSpace], ?_, ?_⟩
  · intro v rest p _
    cases v with
    | list elements closing =>
        have hlength := length_elementsText (fun e (_ : e ∈ elements) => e.value.length_text) true
          (closing.chars ++ ']' :: rest)
        have hbody := elements_reads h closing rest elements
          (Nat.lt_succ_of_le (Nat.le_trans (Nat.le_add_right _ _) hlength)) true []
          (p.after '[' ('[' : Char).utf8Size)
        rw [Value.text]
        exact found_inList closing rest hbody
    | null => exact hother _ p rfl (by decide)
    | boolean b => cases b <;> exact hother _ p rfl (by decide)
    | number n =>
        obtain ⟨more, htext⟩ := n.text_opening rest
        rw [Value.text, htext]
        exact hother more p (Value.number n).opening_not_space (n.opening_ne rfl (by decide))
    | string pieces => exact hother _ p rfl (by decide)
    | object members closing => exact hother _ p rfl (by decide)
  · intro cs p x rest hfound
    obtain ⟨blank, cs, p', rfl, hskip, -⟩ := skipSpace_split cs p
    unfold Read.list at hfound
    simp only [hskip] at hfound
    split at hfound
    · obtain ⟨closing, hbody⟩ := inList_found hfound
      obtain ⟨elements, helements⟩ := elements_written h hbody
      exact ⟨blank, .list elements closing, by rw [Value.text, ← helements]; rfl⟩
    · cases hfound

end list

/-! ## Whole texts -/

section readAll

variable {α : Type} {reader : Reader α} {meaning : Value → Option α}

theorem skipSpace_end (blank : Blank) (p : Position) :
    ∃ p', Cursor.skipSpace ⟨blank.chars, p⟩ = ⟨[], p'⟩ := by
  obtain ⟨chars, hspace⟩ := blank
  induction chars generalizing p with
  | nil => exact ⟨p, rfl⟩
  | cons c chars ih =>
      obtain ⟨p', hskip⟩ := ih (p.after c 1) fun d hd => hspace d (List.mem_cons_of_mem c hd)
      exact ⟨p', (if_pos (hspace c List.mem_cons_self)).trans hskip⟩

/-- **A text that is read has a value**, with nothing but white space around it. -/
theorem readAll_written (h : Understands reader meaning) {text : String} {x : α}
    (hread : readAll reader text = .ok x) :
    ∃ v, WrittenAs text v := by
  unfold readAll at hread
  cases hfound : reader (Cursor.ofString text) with
  | error fault =>
      rw [hfound] at hread
      exact nomatch hread
  | ok result =>
      obtain ⟨y, ⟨cs, p⟩⟩ := result
      obtain ⟨before, v, htext⟩ := h.written (congrArg found hfound)
      obtain ⟨after, rest, p', rfl, hskip, -⟩ := skipSpace_split cs p
      rw [hfound] at hread
      simp only [hskip] at hread
      cases rest with
      | cons c rest => exact nomatch hread
      | nil => exact ⟨v, before, after, by rw [List.append_nil] at htext; exact htext⟩

/-- **A text is read for what its value means.** -/
theorem readAll_eq_ok (h : Understands reader meaning) {text : String} {v : Value}
    (htext : WrittenAs text v) (x : α) : readAll reader text = .ok x ↔ meaning v = some x := by
  obtain ⟨before, after, htext⟩ := htext
  have hread := h.reads_blank before v (Delimited.blank after) {}
  unfold readAll Cursor.ofString
  rw [htext]
  cases hmeaning : meaning v with
  | none =>
      rw [hmeaning] at hread
      obtain ⟨fault, hfault⟩ := found_eq_none.mp hread
      rw [hfault]
      exact ⟨nofun, nofun⟩
  | some y =>
      rw [hmeaning] at hread
      obtain ⟨p, hy⟩ := found_eq_some.mp hread
      obtain ⟨p', hskip⟩ := skipSpace_end after p
      rw [hy]
      simp only [hskip]
      exact ⟨fun hx => congrArg some (Except.ok.inj hx), fun hx => congrArg _ (Option.some.inj hx)⟩

end readAll

end ProjectBuild.Json
