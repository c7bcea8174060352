import ProjectBuild.Text.Invisible

/-!
# Escapes and digits

How characters and numbers are written that would not show, or would not be told apart.
-/

/-!
## Hexadecimal text

Digits are lowercase; `padded` writes a fixed number of them and `plain` as few as the number
needs.
-/

namespace ProjectBuild.Hex

/-- The digit of a value below sixteen. -/
def digit (n : Nat) : Char :=
  if n < 10 then Char.ofNat (48 + n) else Char.ofNat (87 + n)

/-- The last `width` digits of a number. -/
def padded : Nat → Nat → List Char
  | 0, _ => []
  | width + 1, n => padded width (n / 16) ++ [digit (n % 16)]

/-- How many digits a number needs, at most `bound` and at least one. -/
def width : Nat → Nat → Nat
  | 0, _ => 1
  | bound + 1, n => if n < 16 then 1 else width bound (n / 16) + 1

/-- A number below 2^32 in as few digits as it needs. -/
def plain (n : Nat) : List Char :=
  padded (width 8 n) n

/-- Value of a digit, of either case. -/
def value? (c : Char) : Option Nat :=
  if '0' ≤ c ∧ c ≤ '9' then some (c.toNat - 48)
  else if 'a' ≤ c ∧ c ≤ 'f' then some (c.toNat - 87)
  else if 'A' ≤ c ∧ c ≤ 'F' then some (c.toNat - 55)
  else none

end ProjectBuild.Hex

/-!
## Quoted text

A text between double quotes, on one line. The quote and the backslash are escaped by a
backslash, tab, line feed, carriage return and the zero character have letters of their own, and
every other character that does not show is written by its code point.
-/

namespace ProjectBuild.Text

/-- One character of a quoted text. -/
def quoteChar (c : Char) : List Char :=
  if c = '"' then ['\\', '"']
  else if c = '\\' then ['\\', '\\']
  else if c = '\t' then ['\\', 't']
  else if c = '\n' then ['\\', 'n']
  else if c = '\r' then ['\\', 'r']
  else if c = Char.ofNat 0 then ['\\', '0']
  else if isInvisible c then ['\\', 'u', '{'] ++ Hex.plain c.toNat ++ ['}']
  else [c]

/-- A text in quotes. -/
def quote (text : String) : String :=
  String.ofList ('"' :: text.toList.flatMap quoteChar ++ ['"'])

end ProjectBuild.Text
