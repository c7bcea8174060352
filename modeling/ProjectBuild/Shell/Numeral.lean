/-!
# Numerals

How the shell reads whole numbers from texts. Numbers have 64 bits; what is larger counts as the
largest or smallest of them, and is marked as out of range.
-/

namespace ProjectBuild.Shell.Numeral

def largest : Int := Int.pow 2 63 - 1

def smallest : Int := -Int.pow 2 63

/-- The number with 64 bits that agrees with another one as far as bits go. -/
def wrap (n : Int) : Int :=
  Int.bmod n (Nat.pow 2 64)

def isBlank (c : Char) : Bool :=
  c == ' ' || (9 ≤ c.toNat && c.toNat ≤ 13)

/-- The value of a digit in bases up to 36. -/
def digit? (c : Char) : Option Nat :=
  if c.isDigit then some (c.toNat - 48)
  else if c.isAlpha then some (c.toLower.toNat - 87)
  else none

/-- The value of the digits in front, how many there are, and what stands behind them. -/
def digits (base : Nat) (value count : Nat) : List Char → Nat × Nat × List Char
  | [] => (value, count, [])
  | c :: rest =>
    match digit? c with
    | some d => if d < base then digits base (value * base + d) (count + 1) rest
      else (value, count, c :: rest)
    | none => (value, count, c :: rest)

/-- A number at the start of a text, and what stands behind it. -/
structure Reading where
  value : Int
  /-- Whether the number has too many bits. -/
  outOfRange : Bool
  rest : List Char
  deriving Repr, Inhabited

/-- A number without a sign. Without a base, it is octal or hexadecimal if it looks so. -/
def unsigned? (base : Option Nat) (chars : List Char) : Option (Nat × List Char) :=
  let plain (base : Nat) (chars : List Char) : Option (Nat × List Char) :=
    match digits base 0 0 chars with
    | (_, 0, _) => none
    | (value, _, rest) => some (value, rest)
  match base with
  | some base => plain base chars
  | none =>
    match chars with
    | '0' :: x :: rest =>
      if x == 'x' || x == 'X' then (plain 16 rest).or (some (0, x :: rest))
      else plain 8 chars
    | chars => plain 10 chars

/-- The number at the start of a text, behind blanks and a sign. -/
def read? (base : Option Nat) (text : List Char) : Option Reading :=
  let chars := text.dropWhile isBlank
  let (negative, chars) := match chars with
    | '-' :: rest => (true, rest)
    | '+' :: rest => (false, rest)
    | chars => (false, chars)
  (unsigned? base chars).map fun (value, rest) =>
    let exact : Int := if negative then -value else value
    ⟨max smallest (min largest exact), exact < smallest || largest < exact, rest⟩

/-- The number that a text is, but for blanks around it. -/
def ofText? (base : Option Nat) (text : String) : Option Int :=
  match read? base text.toList with
  | some r => if !r.outOfRange && r.rest.all isBlank then some r.value else none
  | none => none

/-- As `ofText?`; a text of blanks is zero. -/
def ofValue? (text : String) : Option Int :=
  if text.toList.all isBlank then some 0 else ofText? none text

/-- The count that a text is. -/
def count? (text : String) : Option Nat :=
  match ofText? (some 10) text with
  | some n => if 0 ≤ n && n < Int.pow 2 31 then some n.toNat else none
  | none => none

end ProjectBuild.Shell.Numeral
