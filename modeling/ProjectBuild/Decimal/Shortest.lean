/-!
# Shortest decimal digits

The shortest decimal that reads back as a given binary64 number. A finite positive number is
`m · 2^q`; the reals that round to it form an interval, closed if `m` is even. For one digit, two
digits and so on, the two neighbours of the number on that decimal grid are tested in exact
arithmetic, and the first grid with a hit wins; of two hits the nearer one is taken.
-/

namespace ProjectBuild.Decimal

/-- A decimal `digits · 10^exponent`. -/
structure Scientific where
  digits : Nat
  exponent : Int
  deriving DecidableEq, Repr

/-- A positive binary number `mantissa · 2^exponent`; `narrowBelow` if the next smaller number is
only half as far away as the next larger one. -/
structure Binary where
  mantissa : Nat
  exponent : Int
  narrowBelow : Bool
  deriving DecidableEq, Repr

/-- Decodes the bits of a finite number, without its sign. -/
def Binary.ofBits (bits : Nat) : Binary :=
  let fraction : Nat := bits % Nat.pow 2 52
  let biased : Nat := bits / Nat.pow 2 52 % Nat.pow 2 11
  if biased = 0 then ⟨fraction, -1074, false⟩
  else ⟨fraction + Nat.pow 2 52, (biased : Int) - 1075, decide (fraction = 0 ∧ 1 < biased)⟩

/-- The number and the ends of its interval as fractions over one denominator, so that the
candidate `d · 10^e` is compared as `d · scale`. All are multiplied by four to halve steps. -/
structure Grid where
  value : Nat
  low : Nat
  high : Nat
  /-- What one unit of the last digit is worth. -/
  scale : Nat
  closed : Bool

/-- The grid of multiples of `10^e`. -/
def Binary.grid (b : Binary) (e : Int) : Grid :=
  let two := Nat.pow 2 b.exponent.toNat
  let ten := Nat.pow 10 e.toNat
  let halves := Nat.pow 2 (-b.exponent).toNat
  let tenths := Nat.pow 10 (-e).toNat
  let unit := two * tenths
  { value := 4 * b.mantissa * unit
    low := (4 * b.mantissa - if b.narrowBelow then 1 else 2) * unit
    high := (4 * b.mantissa + 2) * unit
    scale := 4 * ten * halves
    closed := b.mantissa % 2 = 0 }

/-- Whether `d` units lie in the interval. -/
def Grid.holds (g : Grid) (d : Nat) : Bool :=
  let x := d * g.scale
  if g.closed then decide (g.low ≤ x) && decide (x ≤ g.high)
  else decide (g.low < x) && decide (x < g.high)

/-- The neighbour of the number on the grid that lies in the interval and is nearest; of two
equally near ones the even one. -/
def Grid.hit? (g : Grid) : Option Nat :=
  let below := g.value / g.scale
  let above := below + 1
  match g.holds below && below > 0, g.holds above with
  | true, true =>
    let down := g.value - below * g.scale
    let up := above * g.scale - g.value
    some (if down < up then below else if up < down then above
      else if below % 2 = 0 then below else above)
  | true, false => some below
  | false, true => some above
  | false, false => none

/-- The first hit when the grid is refined at most `n` times from `10^e` on. -/
def refine (b : Binary) : Nat → Int → Scientific
  | 0, e => ⟨(b.grid e).hit?.getD 0, e⟩
  | n + 1, e =>
    match (b.grid e).hit? with
    | some digits => ⟨digits, e⟩
    | none => refine b n (e - 1)

/-- Drops zeros at the end of the digits, at most `n` of them. -/
def trim : Nat → Scientific → Scientific
  | 0, s => s
  | n + 1, s =>
    if s.digits ≠ 0 ∧ s.digits % 10 = 0 then trim n ⟨s.digits / 10, s.exponent + 1⟩ else s

/-- A decimal exponent at or above that of the first digit: `2^k` has at most `k·30103/100000`
digits behind the first. -/
def startExponent (b : Binary) : Int :=
  ((Nat.log2 b.mantissa : Int) + b.exponent + 1) * 30103 / 100000 + 1

/-- The shortest decimal of a positive finite number. -/
def shortest (b : Binary) : Scientific :=
  trim 20 (refine b 20 (startExponent b))

end ProjectBuild.Decimal

/-!
## Writing floating point numbers

Numbers are written positionally while that needs at most sixteen places before the point or four
zeros behind it, always with a digit behind the point; others are written with an exponent.
-/

namespace ProjectBuild.Decimal

/-- Digits with the point behind the first `places` of them. -/
def pointed (places : Nat) (digits : String) : String :=
  String.ofList (digits.toList.take places) ++ "." ++ String.ofList (digits.toList.drop places)

/-- The text of a positive decimal. -/
def Scientific.written (s : Scientific) : String :=
  let digits := toString s.digits
  let count := digits.length
  let places := (count : Int) + s.exponent
  let zeros (n : Int) := String.ofList (List.replicate n.toNat '0')
  if 0 ≤ s.exponent ∧ places ≤ 16 then digits ++ zeros s.exponent ++ ".0"
  else if 0 < places ∧ places ≤ 16 then pointed places.toNat digits
  else if -5 < places ∧ places ≤ 0 then "0." ++ zeros (-places) ++ digits
  else
    let head := if count = 1 then digits else pointed 1 digits
    head ++ "e" ++ (if 0 < places then "+" else "") ++ toString (places - 1)

/-- The text of a finite number. -/
def written (x : Float) : String :=
  let bits := x.toBits.toNat
  let sign := if bits / Nat.pow 2 63 = 1 then "-" else ""
  let magnitude := bits % Nat.pow 2 63
  if magnitude = 0 then sign ++ "0.0"
  else sign ++ (shortest (Binary.ofBits magnitude)).written

end ProjectBuild.Decimal
