import ProjectBuild.Decimal.Shortest

/-!
# Number values

A number of a JSON text as a typed reader sees it: an integer if it is written as one and fits a
64-bit word, a binary64 number otherwise. The value of a real number is computed from its first
significant digits, as many as fit a word, by one multiplication or division with a power of ten.
-/

namespace ProjectBuild.Json

inductive Number where
  | unsigned (n : Nat)
  /-- The negative integer `-n`. -/
  | negative (n : Nat)
  | real (x : Float)
  deriving Inhabited

namespace Number

/-- Digits that stand for the value, as far as they fit a word, and how many did not. -/
def significand (sofar : Nat) : List Nat → Nat × Nat
  | [] => (sofar, 0)
  | d :: digits =>
    if sofar * 10 + d < Nat.pow 2 64 then significand (sofar * 10 + d) digits
    else (sofar, digits.length + 1)

/-- The power of ten `10^n`, for `n` up to 308. -/
def powerOfTen (n : Nat) : Float :=
  Float.ofScientific 1 false n

/-- Scales by powers of ten, at most `10^308` at a time; nothing on overflow. Four rounds bring
any number down to zero. -/
def scaleBy : Nat → Float → Int → Option Float
  | 0, x, _ => some x
  | rounds + 1, x, exponent =>
    if exponent.natAbs ≤ 308 then
      if 0 ≤ exponent then
        let y := x * powerOfTen exponent.natAbs
        if y.isInf then none else some y
      else some (x / powerOfTen exponent.natAbs)
    else if x == 0.0 then some x
    else if 0 ≤ exponent then none
    else scaleBy rounds (x / powerOfTen 308) (exponent + 308)

/-- The real number `± digits · 10^exponent`; nothing if it is too large. -/
def ofParts? (positive : Bool) (digits : Nat) (exponent : Int) : Option Number :=
  (scaleBy 4 (UInt64.ofNat digits).toFloat exponent).map fun x => real (if positive then x else -x)

/-- The integer `± digits`. There is no negative zero among the integers, and a negative integer
has to fit a signed word. -/
def ofInteger (positive : Bool) (digits : Nat) : Number :=
  if positive then unsigned digits
  else if 0 < digits ∧ digits ≤ Nat.pow 2 63 then negative digits
  else real (-(UInt64.ofNat digits).toFloat)

/-- How a number is named in a message. -/
def describe : Number → String
  | unsigned n => "integer `" ++ toString n ++ "`"
  | negative n => "integer `-" ++ toString n ++ "`"
  | real x => "floating point `" ++ Decimal.written x ++ "`"

end Number

end ProjectBuild.Json
