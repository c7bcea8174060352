import Mathlib.Data.Nat.Init
import ProjectBuild.Json.Pretty
import ProjectBuild.Json.Shape

/-! # Reading back scalars

    A written value is read back, whatever white space stands before it and
    whatever follows it, as long as that ends it (`Ends`).  A value that is too
    large for its reader is refused, not misread: `Recovers ok` says that the
    reader finds the value that was written, or refuses it because `ok`
    fails. -/

namespace ProjectBuild.Json

/-- What stands behind a written value: nothing, a comma or a line break. -/
def Ends (rest : List Char) : Prop :=
  rest = [] ∨ ∃ c more, rest = c :: more ∧ (c = ',' ∨ c = '\n')

/-- The reader finds `x` in `text`, or refuses it because `ok` fails. -/
def Recovers {α : Type} (ok : Prop) (reader : Reader α) (text : List Char) (x : α) : Prop :=
  ∀ blank rest p, (∀ c ∈ blank, Cursor.isSpace c = true) → Ends rest →
    (∃ p', reader ⟨blank ++ (text ++ rest), p⟩ = .ok (x, ⟨rest, p'⟩)) ∨
      (¬ ok ∧ ∃ fault, reader ⟨blank ++ (text ++ rest), p⟩ = .error fault)

/-- The condition to recover a text can be made stronger. -/
theorem Recovers.imp {α : Type} {ok ok' : Prop} {reader : Reader α} {text : List Char} {x : α}
    (h : Recovers ok reader text x) (himp : ok' → ok) : Recovers ok' reader text x := by
  intro blank rest p hblank hrest
  rcases h blank rest p hblank hrest with hok | ⟨hbad, herror⟩
  · exact Or.inl hok
  · exact Or.inr ⟨fun h => hbad (himp h), herror⟩

/-- What is recovered can be put otherwise. -/
theorem Recovers.map {α β : Type} {ok : Prop} {reader : Reader α} {text : List Char} {x : α}
    (h : Recovers ok reader text x) (f : α → β) :
    Recovers ok (fun c => (reader c).map fun (y, c) => (f y, c)) text (f x) := by
  intro blank rest p hblank hrest
  rcases h blank rest p hblank hrest with ⟨p', hread⟩ | ⟨hbad, fault, hread⟩
  · refine Or.inl ⟨p', ?_⟩
    simp only [hread]
    rfl
  · refine Or.inr ⟨hbad, fault, ?_⟩
    simp only [hread]
    rfl

/-! ## White space -/

/-- Blank characters are skipped up to the first other one. -/
theorem skipSpaceFrom_blank {blank rest : List Char} {c : Char} (p : Position)
    (hblank : ∀ c ∈ blank, Cursor.isSpace c = true) (hc : Cursor.isSpace c = false) :
    ∃ p', Cursor.skipSpaceFrom (blank ++ c :: rest) p = ⟨c :: rest, p'⟩ := by
  induction blank generalizing p with
  | nil =>
      refine ⟨p, ?_⟩
      show (if Cursor.isSpace c = true then _ else _) = _
      rw [hc]
      rfl
  | cons b blank ih =>
      obtain ⟨p', h⟩ := ih (p.after b 1) fun d hd => hblank d (List.mem_cons_of_mem b hd)
      refine ⟨p', ?_⟩
      show (if Cursor.isSpace b = true then _ else _) = _
      rw [if_pos (hblank b List.mem_cons_self)]
      exact h

theorem skipSpace_blank {blank : List Char} (c : Char) (rest : List Char) (p : Position)
    (hblank : ∀ c ∈ blank, Cursor.isSpace c = true) (hc : Cursor.isSpace c = false) :
    ∃ p', Cursor.skipSpace ⟨blank ++ c :: rest, p⟩ = ⟨c :: rest, p'⟩ :=
  skipSpaceFrom_blank p hblank hc

/-! ## String literals -/

namespace Literal

/-- A plain character of a literal is read as itself. -/
theorem readFrom_plain {c : Char} (read rest : List Char) (p : Position)
    (hquote : c ≠ '"') (hslash : c ≠ '\\') (hcontrol : ¬ c.toNat < 0x20) :
    readFrom .plain read (c :: rest) p
      = readFrom .plain (c :: read) rest (p.after c c.utf8Size) := by
  rw [readFrom]
  simp only [if_neg hquote, if_neg hslash, if_neg hcontrol]

/-- A character behind a backslash is read as what it stands for. -/
theorem readFrom_escaped {letter c : Char} (read rest : List Char) (p : Position)
    (hletter : letter ≠ 'u') (hescaped : escaped? letter = some c) :
    ∃ p', readFrom .plain read ('\\' :: letter :: rest) p
      = readFrom .plain (c :: read) rest p' := by
  refine ⟨(p.after '\\' 1).after letter 1, ?_⟩
  rw [readFrom]
  simp only [show ('\\' : Char) ≠ '"' from by decide, if_false, if_true]
  rw [readFrom]
  simp only [if_neg hletter, hescaped]

/-- Hexadecimal digits are read back. -/
theorem value?_digit : ∀ n < 16, Hex.value? (Hex.digit n) = some n ∧
    (Hex.digit n).utf8Size = 1 := by
  decide

/-- A digit adds one place to a unit. -/
theorem unitValue_digit (v : Nat) {d : Char} {n : Nat} (h : Hex.value? d = some n) :
    unitValue (some v) d = some (v * 16 + n) := by
  show (do return v * 16 + (← Hex.value? d)) = _
  rw [h]
  rfl

/-- A digit inside a unit leaves one less to be read. -/
theorem readFrom_unit_digit (high : Option Nat) {needed : Nat} (v : Nat) {n : Nat} {d : Char}
    (hneeded : 1 < needed) (hd : Hex.value? d = some n ∧ d.utf8Size = 1) (read rest : List Char)
    (p : Position) :
    ∃ p', readFrom (.unit high needed (some v)) read (d :: rest) p
      = readFrom (.unit high (needed - 1) (some (v * 16 + n))) read rest p' := by
  refine ⟨p.after d 1, ?_⟩
  rw [readFrom, hd.2]
  simp only [if_pos hneeded, unitValue_digit v hd.1]

/-- The escaped form of a control character is read back. -/
theorem readFrom_unit {n : Nat} (hn : n < 0x20) (read rest : List Char) (p : Position) :
    ∃ p', readFrom .plain read ('\\' :: 'u' :: Hex.padded 4 n ++ rest) p
      = readFrom .plain (Char.ofNat n :: read) rest p' := by
  have hzero : Hex.value? '0' = some 0 ∧ ('0' : Char).utf8Size = 1 := by decide
  have hhigh := value?_digit (n / 16) (by omega)
  have hlow := value?_digit (n % 16) (by omega)
  have hpadded : Hex.padded 4 n = ['0', '0', Hex.digit (n / 16), Hex.digit (n % 16)] := by
    show (((([] ++ [Hex.digit _]) ++ [Hex.digit _]) ++ [Hex.digit _]) ++ [Hex.digit _]) = _
    rw [show n / 16 / 16 = 0 by omega, show n / 16 % 16 = n / 16 by omega]
    rfl
  have hclose : closeUnit none n = .ok (.plain, [Char.ofNat n]) := by
    unfold closeUnit
    have h1 : ¬ 0xDC00 ≤ n := by omega
    have h2 : ¬ 0xD800 ≤ n := by omega
    simp [h1, h2]
  obtain ⟨p1, h1⟩ := readFrom_unit_digit none 0 (by decide : 1 < 4) hzero
    read ('0' :: Hex.digit (n / 16) :: Hex.digit (n % 16) :: rest)
    ((p.after '\\' 1).after 'u' 1)
  obtain ⟨p2, h2⟩ := readFrom_unit_digit none 0 (by decide : 1 < 3) hzero
    read (Hex.digit (n / 16) :: Hex.digit (n % 16) :: rest) p1
  obtain ⟨p3, h3⟩ := readFrom_unit_digit none 0 (by decide : 1 < 2) hhigh
    read (Hex.digit (n % 16) :: rest) p2
  refine ⟨p3.after (Hex.digit (n % 16)) 1, ?_⟩
  rw [hpadded]
  show readFrom .plain read
    ('\\' :: 'u' :: '0' :: '0' :: Hex.digit (n / 16) :: Hex.digit (n % 16) :: rest) p = _
  rw [readFrom]
  simp only [show ('\\' : Char) ≠ '"' from by decide, if_false, if_true]
  rw [readFrom]
  simp only [if_true]
  rw [h1, h2, h3, readFrom, hlow.2]
  simp only [Nat.lt_irrefl, if_false, Nat.zero_mul, Nat.zero_add]
  rw [unitValue_digit (n / 16) hlow.1, show n / 16 * 16 + n % 16 = n by omega]
  simp only [hclose]
  rfl

/-- One character of a written literal. -/
theorem readFrom_escape (c : Char) (read rest : List Char) (p : Position) :
    ∃ p', readFrom .plain read (Pretty.escape c ++ rest) p
      = readFrom .plain (c :: read) rest p' := by
  -- the cases are those of the printer
  unfold Pretty.escape
  by_cases hquote : c = '"'
  · subst hquote
    exact readFrom_escaped read rest p (by decide) (by decide)
  rw [if_neg hquote]
  by_cases hslash : c = '\\'
  · subst hslash
    exact readFrom_escaped read rest p (by decide) (by decide)
  rw [if_neg hslash]
  by_cases hb : c = Char.ofNat 8
  · subst hb
    exact readFrom_escaped read rest p (by decide) (by decide)
  rw [if_neg hb]
  by_cases hf : c = Char.ofNat 12
  · subst hf
    exact readFrom_escaped read rest p (by decide) (by decide)
  rw [if_neg hf]
  by_cases hn : c = '\n'
  · subst hn
    exact readFrom_escaped read rest p (by decide) (by decide)
  rw [if_neg hn]
  by_cases hr : c = '\r'
  · subst hr
    exact readFrom_escaped read rest p (by decide) (by decide)
  rw [if_neg hr]
  by_cases ht : c = '\t'
  · subst ht
    exact readFrom_escaped read rest p (by decide) (by decide)
  rw [if_neg ht]
  by_cases hcontrol : c.toNat < 0x20
  · rw [if_pos hcontrol]
    obtain ⟨p', h⟩ := readFrom_unit hcontrol read rest p
    rw [Char.ofNat_toNat] at h
    exact ⟨p', h⟩
  · rw [if_neg hcontrol]
    exact ⟨_, readFrom_plain read rest p hquote hslash hcontrol⟩

/-- **A written literal is read back.** -/
theorem read_literal (text : String) (rest : List Char) (p : Position) :
    ∃ p', Literal.read ⟨text.toList.flatMap Pretty.escape ++ '"' :: rest, p⟩
      = .ok (text, ⟨rest, p'⟩) := by
  have hall : ∀ (chars read : List Char) (p : Position),
      ∃ p', readFrom .plain read (chars.flatMap Pretty.escape ++ '"' :: rest) p
        = .ok (String.ofList (read.reverse ++ chars), ⟨rest, p'⟩) := by
    intro chars
    induction chars with
    | nil =>
        intro read p
        refine ⟨p.after '"' ('"' : Char).utf8Size, ?_⟩
        show readFrom .plain read ('"' :: rest) p = _
        rw [readFrom, List.append_nil]
        rfl
    | cons c chars ih =>
        intro read p
        obtain ⟨p1, h1⟩ := readFrom_escape c read (chars.flatMap Pretty.escape ++ '"' :: rest) p
        obtain ⟨p2, h2⟩ := ih (c :: read) p1
        refine ⟨p2, ?_⟩
        rw [List.flatMap_cons, List.append_assoc, h1, h2, List.reverse_cons, List.append_assoc]
        rfl
  obtain ⟨p', h⟩ := hall text.toList [] p
  refine ⟨p', ?_⟩
  show readFrom .plain [] _ p = _
  rw [h, List.reverse_nil, List.nil_append, String.ofList_toList]

end Literal

/-- A literal is written between quotes, with each character escaped. -/
theorem literal_eq (text : String) (rest : List Char) :
    Pretty.literal text ++ rest = '"' :: (text.toList.flatMap Pretty.escape ++ '"' :: rest) := by
  unfold Pretty.literal
  simp

/-- Strings are read back. -/
theorem text_recovers (expected text : String) :
    Recovers True (Read.text expected) (Pretty.literal text) text := by
  intro blank rest p hblank hrest
  rw [literal_eq]
  obtain ⟨p1, hskip⟩ := skipSpace_blank '"'
    (text.toList.flatMap Pretty.escape ++ '"' :: rest) p hblank (by decide)
  obtain ⟨p2, hread⟩ := Literal.read_literal text rest (p1.after '"' ('"' : Char).utf8Size)
  refine Or.inl ⟨p2, ?_⟩
  unfold Read.text
  simp only [hskip]
  exact hread

theorem string_recovers (text : String) :
    Recovers True Read.string (Pretty.literal text) text :=
  text_recovers "a string" text

/-! ## Numbers -/

namespace Numeral

theorem digit?_digitChar : ∀ n < 10, digit? n.digitChar = some n := by
  decide

/-- The digits of a number, most significant first. -/
def digitsOf (n : Nat) : List Nat :=
  if n < 10 then [n] else digitsOf (n / 10) ++ [n % 10]

theorem digitsOf_lt {n d : Nat} (h : d ∈ digitsOf n) : d < 10 := by
  induction n using digitsOf.induct with
  | case1 n hn =>
      rw [digitsOf, if_pos hn] at h
      rw [List.mem_singleton.mp h]
      exact hn
  | case2 n hn ih =>
      rw [digitsOf, if_neg hn] at h
      rcases List.mem_append.mp h with h | h
      · exact ih h
      · rw [List.mem_singleton.mp h]
        omega

theorem digitsOf_ne_nil (n : Nat) : digitsOf n ≠ [] := by
  rw [digitsOf]
  split <;> simp

/-- Numbers are written by their digits. -/
theorem toDigits_eq (n : Nat) : Nat.toDigits 10 n = (digitsOf n).map Nat.digitChar := by
  induction n using digitsOf.induct with
  | case1 n hn =>
      rw [digitsOf, if_pos hn, Nat.toDigits_of_lt_base hn]
      rfl
  | case2 n hn ih =>
      rw [digitsOf, if_neg hn, Nat.toDigits_of_base_le (by decide) (Nat.le_of_not_lt hn), ih,
        List.map_append]
      rfl

/-- Digits give back their number. -/
theorem foldl_digitsOf (n : Nat) : (digitsOf n).foldl (fun v d => v * 10 + d) 0 = n := by
  induction n using digitsOf.induct with
  | case1 n hn =>
      rw [digitsOf, if_pos hn]
      simp
  | case2 n hn ih =>
      rw [digitsOf, if_neg hn, List.foldl_append, ih]
      simp only [List.foldl_cons, List.foldl_nil]
      omega

/-- A number begins with a zero only if it is zero. -/
theorem digitsOf_head {n : Nat} {more : List Nat} (h : digitsOf n = 0 :: more) : n = 0 := by
  induction n using digitsOf.induct generalizing more with
  | case1 n hn =>
      rw [digitsOf, if_pos hn] at h
      exact (List.cons.inj h).1
  | case2 n hn ih =>
      rw [digitsOf, if_neg hn] at h
      cases hrest : digitsOf (n / 10) with
      | nil => exact absurd hrest (digitsOf_ne_nil _)
      | cons d ds =>
          rw [hrest, List.cons_append] at h
          obtain ⟨rfl, -⟩ := List.cons.inj h
          have := ih hrest
          omega

/-- Digits are read up to where they end. -/
theorem digitsFrom_digits (ds : List Nat) (hds : ∀ d ∈ ds, d < 10) {rest : List Char}
    (hrest : Ends rest) (p : Position) :
    ∃ p', digitsFrom (ds.map Nat.digitChar ++ rest) p = (ds, ⟨rest, p'⟩) := by
  induction ds generalizing p with
  | nil =>
      rcases hrest with rfl | ⟨c, more, rfl, hc⟩
      · exact ⟨p, rfl⟩
      refine ⟨p, ?_⟩
      have hdigit : digit? c = none := by
        rcases hc with rfl | rfl
        · decide
        · decide
      show digitsFrom (c :: more) p = _
      rw [digitsFrom, hdigit]
  | cons d ds ih =>
      obtain ⟨p', h⟩ := ih (fun e he => hds e (List.mem_cons_of_mem d he))
        (p.after d.digitChar 1)
      refine ⟨p', ?_⟩
      rw [List.map_cons, List.cons_append, digitsFrom,
        digit?_digitChar d (hds d List.mem_cons_self)]
      simp only [h]

end Numeral

namespace Number

/-- The digits are taken as they are as long as they fit a word, and then all
    of them are. -/
theorem significand_spec (ds : List Nat) (v : Nat) :
    (ds.foldl (fun v d => v * 10 + d) v < Nat.pow 2 64 →
      significand v ds = (ds.foldl (fun v d => v * 10 + d) v, 0)) ∧
    (v < Nat.pow 2 64 → ¬ ds.foldl (fun v d => v * 10 + d) v < Nat.pow 2 64 →
      (significand v ds).2 ≠ 0) := by
  -- further digits do not make the number smaller
  have hle : ∀ (ds : List Nat) (v : Nat), v ≤ ds.foldl (fun v d => v * 10 + d) v := by
    intro ds
    induction ds with
    | nil => exact fun v => Nat.le_refl v
    | cons d ds ih =>
        intro v
        have := ih (v * 10 + d)
        simp only [List.foldl_cons]
        omega
  induction ds generalizing v with
  | nil =>
      refine ⟨fun _ => rfl, fun h h' => absurd h h'⟩
  | cons d ds ih =>
      simp only [List.foldl_cons]
      have hstep := hle ds (v * 10 + d)
      constructor
      · intro h
        rw [significand, if_pos (Nat.lt_of_le_of_lt hstep h)]
        exact (ih (v * 10 + d)).1 h
      · intro hv h
        rw [significand]
        by_cases hfit : v * 10 + d < Nat.pow 2 64
        · rw [if_pos hfit]
          exact (ih (v * 10 + d)).2 hfit h
        · rw [if_neg hfit]
          exact Nat.succ_ne_zero _

end Number

namespace Numeral

/-- A written number is read digit by digit, and comes out as an integer if it
    fits a word. -/
theorem read_digits (n : Nat) {rest : List Char} (hrest : Ends rest) (p : Position) :
    (n < Nat.pow 2 64 →
      ∃ p', read true ⟨Nat.toDigits 10 n ++ rest, p⟩ = .ok (.unsigned n, ⟨rest, p'⟩)) ∧
    (¬ n < Nat.pow 2 64 →
      (∃ x c, read true ⟨Nat.toDigits 10 n ++ rest, p⟩ = .ok (.real x, c)) ∨
      ∃ fault, read true ⟨Nat.toDigits 10 n ++ rest, p⟩ = .error fault) := by
  -- nothing that may end a value continues a number
  have hafter : ∀ (v dropped : Nat) (p' : Position),
      afterInteger true v dropped ⟨rest, p'⟩
        = if dropped = 0 then .ok (.unsigned v, ⟨rest, p'⟩)
          else close true v dropped ⟨rest, p'⟩ := by
    rcases hrest with rfl | ⟨c, more, rfl, rfl | rfl⟩
    · exact fun _ _ _ => rfl
    · exact fun _ _ _ => rfl
    · exact fun _ _ _ => rfl
  obtain ⟨p', hdigits⟩ := digitsFrom_digits (digitsOf n) (fun d hd => digitsOf_lt hd) hrest p
  rw [← toDigits_eq] at hdigits
  have hvalue := Number.significand_spec (digitsOf n) 0
  rw [foldl_digitsOf] at hvalue
  cases hds : digitsOf n with
  | nil => exact absurd hds (digitsOf_ne_nil n)
  | cons d ds =>
      have hd : d < 10 := digitsOf_lt (by rw [hds]; exact List.mem_cons_self)
      have htext : Nat.toDigits 10 n ++ rest
          = d.digitChar :: (ds.map Nat.digitChar ++ rest) := by
        rw [toDigits_eq, hds]
        rfl
      have hread : read true ⟨Nat.toDigits 10 n ++ rest, p⟩
          = if d.digitChar = '0' then
              if (d :: ds).length = 1 then afterInteger true 0 0 ⟨rest, p'⟩
              else .error ((Cursor.past d.digitChar
                ((Nat.toDigits 10 n ++ rest).drop 1) p).faultPeek .invalidNumber)
            else afterInteger true (Number.significand 0 (digitsOf n)).1
              (Number.significand 0 (digitsOf n)).2 ⟨rest, p'⟩ := by
        unfold read digits
        simp only [hdigits, hds]
        rw [htext]
      rw [hread]
      by_cases hzero : d.digitChar = '0'
      · -- a leading zero stands alone, so the number is zero
        have hd0 : d = 0 := by
          have := digit?_digitChar d hd
          rw [hzero] at this
          exact (Option.some.inj this).symm
        subst hd0
        have hn0 := digitsOf_head hds
        subst hn0
        have hds0 : (0 :: ds).length = 1 := by
          rw [← hds, digitsOf, if_pos (by decide)]
          rfl
        rw [if_pos hzero, if_pos hds0, hafter]
        exact ⟨fun _ => ⟨p', rfl⟩, fun h => absurd (by decide) h⟩
      · rw [if_neg hzero, hafter]
        constructor
        · intro hn
          rw [hvalue.1 hn]
          exact ⟨p', rfl⟩
        · intro hn
          rw [if_neg (hvalue.2 (by decide) hn)]
          -- too long for a word: digits are dropped, and a real comes out if anything does
          unfold close
          cases hparts : Number.ofParts? true (Number.significand 0 (digitsOf n)).1
              (Number.significand 0 (digitsOf n)).2 with
          | none => exact Or.inr ⟨_, rfl⟩
          | some number =>
              unfold Number.ofParts? at hparts
              obtain ⟨x, -, rfl⟩ := Option.map_eq_some_iff.mp hparts
              exact Or.inl ⟨_, _, rfl⟩

end Numeral

/-- A word is read as a number that has to fit. -/
theorem word_eq (bits : Nat) (expected : String) {c : Cursor} (c' : Cursor) {first : Char}
    {rest : List Char} {p : Position} (hskip : c.skipSpace = ⟨first :: rest, p⟩)
    (hsign : first ≠ '-') (hdigit : (Numeral.digit? first).isSome = true) :
    (∀ n, Numeral.read true ⟨first :: rest, p⟩ = .ok (.unsigned n, c') →
      n < Nat.pow 2 bits → Read.word bits expected c = .ok (n, c')) ∧
    ((∃ n c', Numeral.read true ⟨first :: rest, p⟩ = .ok (.unsigned n, c') ∧
        ¬ n < Nat.pow 2 bits) ∨
      (∃ x c', Numeral.read true ⟨first :: rest, p⟩ = .ok (.real x, c')) ∨
      (∃ fault, Numeral.read true ⟨first :: rest, p⟩ = .error fault) →
      ∃ fault, Read.word bits expected c = .error fault) := by
  unfold Read.word
  simp only [hskip]
  rw [if_pos hdigit]
  constructor
  · intro n hread hn
    simp only [hread, bind, Except.bind, if_pos hn]
    rfl
  · rintro (⟨n, c', hread, hn⟩ | ⟨x, c', hread⟩ | ⟨fault, hread⟩)
    · simp only [hread, bind, Except.bind, if_neg hn]
      exact ⟨_, rfl⟩
    · simp only [hread, bind, Except.bind]
      exact ⟨_, rfl⟩
    · simp only [hread, bind, Except.bind]
      exact ⟨_, rfl⟩

/-- **A word is read back, and a number that is no word is refused.** -/
theorem word_recovers {bits : Nat} (hbits : Nat.pow 2 bits ≤ Nat.pow 2 64) (expected : String)
    (n : Nat) : Recovers (n < Nat.pow 2 bits) (Read.word bits expected) (toString n).toList n := by
  intro blank rest p hblank hrest
  have htext : (toString n).toList = Nat.toDigits 10 n := Nat.toList_repr
  have hfirst : ∀ d < 10, Cursor.isSpace d.digitChar = false ∧ d.digitChar ≠ '-' := by
    decide
  rw [htext]
  cases hds : Numeral.digitsOf n with
  | nil => exact absurd hds (Numeral.digitsOf_ne_nil n)
  | cons d ds =>
      have hd : d < 10 := Numeral.digitsOf_lt (by rw [hds]; exact List.mem_cons_self)
      have hcons : Nat.toDigits 10 n ++ rest = d.digitChar :: (ds.map Nat.digitChar ++ rest) := by
        rw [Numeral.toDigits_eq, hds]
        rfl
      obtain ⟨p1, hskip⟩ := skipSpace_blank d.digitChar
        (ds.map Nat.digitChar ++ rest) p hblank (hfirst d hd).1
      have hdigit : (Numeral.digit? d.digitChar).isSome = true := by
        rw [Numeral.digit?_digitChar d hd]
        rfl
      have hspec := Numeral.read_digits n hrest p1
      rw [hcons] at hspec ⊢
      by_cases hn : n < Nat.pow 2 bits
      · obtain ⟨p2, hread⟩ := hspec.1 (Nat.lt_of_lt_of_le hn hbits)
        exact Or.inl ⟨p2, (word_eq bits expected _ hskip (hfirst d hd).2 hdigit).1 n hread hn⟩
      · refine Or.inr ⟨hn, ?_⟩
        refine (word_eq bits expected ⟨rest, p1⟩ hskip (hfirst d hd).2 hdigit).2 ?_
        by_cases hword : n < Nat.pow 2 64
        · obtain ⟨p2, hread⟩ := hspec.1 hword
          exact Or.inl ⟨n, _, hread, hn⟩
        · exact Or.inr (hspec.2 hword)

end ProjectBuild.Json
