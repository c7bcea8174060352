import ProjectBuild.Decimal.Shortest
import ProjectBuild.Shell.Numeral

/-!
# Real numbers in print

How the shell reads real numbers, and prints them with a fixed number of digits. Numbers are binary
ones of 64 bits; the digits that are printed are exact, and a half is rounded to the even digit.
-/

namespace ProjectBuild.Shell

/-- A real number that has been read. -/
inductive Real where
  | finite (negative : Bool) (magnitude : Decimal.Binary)
  | infinite (negative : Bool)
  | undefined (negative : Bool)
  deriving Repr, Inhabited

namespace Real

def zero : Real := .finite false ⟨0, 0, false⟩

/-- A number at the start of a text. -/
structure Reading where
  value : Real
  outOfRange : Bool
  rest : List Char
  deriving Inhabited

/-- The real number of a float. -/
def ofFloat (negative : Bool) (x : Float) : Real :=
  if x.isInf then .infinite negative else .finite negative (.ofBits x.toBits.toNat)

/-- A word at the start of some characters, in any case of letters. -/
def cutWord? (word : String) (chars : List Char) : Option (List Char) :=
  if (chars.take word.length).map Char.toLower == word.toList then some (chars.drop word.length)
  else none

/-- The exponent behind a letter, if there is one. -/
def cutExponent (letter : Char) (chars : List Char) : Int × List Char :=
  match chars with
  | e :: rest =>
    if e.toLower == letter then
      let (negative, digits) := match rest with
        | '-' :: digits => (true, digits)
        | '+' :: digits => (false, digits)
        | digits => (false, digits)
      match Numeral.digits 10 0 0 digits with
      | (_, 0, _) => (0, chars)
      | (n, _, after) => (if negative then -n else n, after)
    else (0, chars)
  | [] => (0, chars)

/-- Digits with a point among them: their value, how many stand behind the point, and the rest. -/
def cutPointed (base : Nat) (chars : List Char) : Option (Nat × Nat × List Char) :=
  let (whole, count, rest) := Numeral.digits base 0 0 chars
  match rest with
  | '.' :: after =>
    let (value, places, rest) := Numeral.digits base whole 0 after
    if count + places = 0 then none else some (value, places, rest)
  | rest => if count = 0 then none else some (whole, 0, rest)

/-- Numbers beyond these powers of ten are infinite, or zero. -/
def exponentLimit : Int := 5000

/-- The number that a decimal is nearest to. -/
def ofDecimal (negative : Bool) (digits : Nat) (exponent : Int) : Real :=
  let exponent := max (-exponentLimit) (min exponentLimit exponent)
  ofFloat negative (Float.ofScientific digits (exponent < 0) exponent.natAbs)

/-- Whether a number is not zero. -/
def isNonzero : Real → Bool
  | .finite _ b => b.mantissa != 0
  | _ => true

/-- The number at the start of a text, behind blanks and a sign. -/
def read? (text : List Char) : Option Reading :=
  let chars := text.dropWhile Numeral.isBlank
  let (negative, chars) := match chars with
    | '-' :: rest => (true, rest)
    | '+' :: rest => (false, rest)
    | chars => (false, chars)
  match cutWord? "infinity" chars, cutWord? "inf" chars, cutWord? "nan" chars with
  | some rest, _, _ => some ⟨.infinite negative, false, rest⟩
  | _, some rest, _ => some ⟨.infinite negative, false, rest⟩
  | _, _, some rest => some ⟨.undefined negative, false, rest⟩
  | none, none, none =>
    let hexadecimal : Option Reading :=
      (cutWord? "0x" chars).bind fun rest =>
        -- each hexadecimal place behind the point counts four binary ones
        (cutPointed 16 rest).map fun (value, places, rest) =>
          let (exponent, rest) := cutExponent 'p' rest
          ⟨.finite negative ⟨value, exponent - 4 * places, false⟩, false, rest⟩
    let decimal : Option Reading :=
      (cutPointed 10 chars).map fun (value, places, rest) =>
        let (exponent, rest) := cutExponent 'e' rest
        let x := ofDecimal negative value (exponent - places)
        let overflow := match x with
          | .infinite _ => true
          | x => value != 0 && !x.isNonzero
        ⟨x, overflow, rest⟩
    hexadecimal.or decimal

/-- A quotient, rounded to the nearest whole number; a half goes to the even one. -/
def roundedQuotient (a b : Nat) : Nat :=
  let q := a / b
  let twice := 2 * (a % b)
  if twice < b || (twice == b && q % 2 == 0) then q else q + 1

/-- How many units of `10^-places` a magnitude is nearest to. -/
def units (b : Decimal.Binary) (places : Int) : Nat :=
  roundedQuotient (b.mantissa * Nat.pow 2 b.exponent.toNat * Nat.pow 10 places.toNat)
    (Nat.pow 2 (-b.exponent).toNat * Nat.pow 10 (-places).toNat)

/-- Digits with a point in front of the last `places` of them. -/
def pointed (digits places : Nat) : String :=
  let text := toString digits
  let text := String.ofList (List.replicate (places + 1 - text.length) '0') ++ text
  let whole := text.length - places
  if places = 0 then text
  else String.ofList (text.toList.take whole) ++ "." ++ String.ofList (text.toList.drop whole)

/-- A magnitude with so many digits behind the point. -/
def fixedText (b : Decimal.Binary) (places : Nat) : String :=
  pointed (units b places) places

/-- The exponent of the first digit, when the magnitude is rounded to so many digits. -/
def leadingExponent (b : Decimal.Binary) (count : Nat) : Int :=
  if b.mantissa = 0 then 0
  else
    let exact : Nat := b.mantissa * Nat.pow 2 b.exponent.toNat
    let low : Int := (toString (exact / Nat.pow 2 (-b.exponent).toNat)).length - 1
    let guess : Int := if exact / Nat.pow 2 (-b.exponent).toNat != 0 then low
      else
        -- The magnitude is below one: so many zeros stand behind the point.
        let scaled := exact * Nat.pow 10 400 / Nat.pow 2 (-b.exponent).toNat
        ((toString scaled).length : Int) - 401
    if (toString (units b (count - 1 - guess))).length > count then guess + 1 else guess

def exponentText (letter : Char) (e : Int) : String :=
  let digits := toString e.natAbs
  String.ofList [letter, if e < 0 then '-' else '+'] ++
    (if digits.length < 2 then "0" else "") ++ digits

/-- A magnitude with one digit before the point and so many behind it. -/
def scientificText (letter : Char) (b : Decimal.Binary) (places : Nat) : String :=
  let e := leadingExponent b (places + 1)
  pointed (units b (places - e)) places ++ exponentText letter e

/-- A text without the zeros at its end, and without a point there. -/
def trimZeros (text : String) : String :=
  if text.toList.contains '.' then
    let kept := text.toList.reverse.dropWhile (· == '0')
    String.ofList ((if kept.head? == some '.' then kept.tail else kept).reverse)
  else text

/-- A magnitude with so many digits, in the shorter one of the two forms. -/
def shorterText (letter : Char) (keepsZeros : Bool) (b : Decimal.Binary) (precision : Nat) :
    String :=
  let count := max precision 1
  let e := leadingExponent b count
  let trim (text : String) := if keepsZeros then text else trimZeros text
  if e < -4 || (count : Int) ≤ e then
    trim (pointed (units b (count - 1 - e)) (count - 1)) ++ exponentText letter e
  else trim (fixedText b (count - 1 - e).toNat)

end Real

end ProjectBuild.Shell
