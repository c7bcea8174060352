import ProjectBuild.Shell.Escape
import ProjectBuild.Shell.Real
import ProjectBuild.Shell.State

/-!
# Formatted printing

A format is a text with conversions in it, each of which prints an argument. The format is used
again as long as arguments are left; where there are none any more, they count as empty.
-/

namespace ProjectBuild.Shell.Format

/-- How a conversion prints. -/
structure Conversion where
  /-- The signs in front. -/
  flags : List Char := []
  width : Nat := 0
  precision : Option Nat := none
  letter : Char
  deriving Repr, Inhabited

namespace Conversion

def has (c : Conversion) (flag : Char) : Bool :=
  c.flags.contains flag

/-- Fills a text up to the width. A number can be filled with zeros behind its sign. -/
def fill (c : Conversion) (zeros : Bool) (sign body : List Char) : List Char :=
  let missing := c.width - (sign.length + body.length)
  if c.has '-' then sign ++ body ++ List.replicate missing ' '
  else if zeros && c.has '0' then sign ++ List.replicate missing '0' ++ body
  else List.replicate missing ' ' ++ sign ++ body

/-- The sign of a number. -/
def sign (c : Conversion) (negative : Bool) : List Char :=
  if negative then ['-'] else if c.has '+' then ['+'] else if c.has ' ' then [' '] else []

def text (c : Conversion) (chars : List Char) : List Char :=
  c.fill false [] (match c.precision with
    | some n => chars.take n
    | none => chars)

/-- The digits of a number, at least as many as the precision says. -/
def digits (c : Conversion) (base n : Nat) : List Char :=
  let digits := if n = 0 && c.precision == some 0 then [] else Nat.toDigits base n
  List.replicate (c.precision.getD 1 - digits.length) '0' ++ digits

def signed (c : Conversion) (n : Int) : List Char :=
  c.fill c.precision.isNone (c.sign (n < 0)) (c.digits 10 n.natAbs)

/-- A number without a sign, of 64 bits. -/
def unsigned (c : Conversion) (n : Nat) : List Char :=
  let zeros := c.precision.isNone
  match c.letter with
  | 'o' =>
    let digits := c.digits 8 n
    c.fill zeros [] (if c.has '#' && digits.head? != some '0' then '0' :: digits else digits)
  | 'x' => c.fill zeros (if c.has '#' && n != 0 then ['0', 'x'] else []) (c.digits 16 n)
  | 'X' =>
    c.fill zeros (if c.has '#' && n != 0 then ['0', 'X'] else [])
      ((c.digits 16 n).map Char.toUpper)
  | _ => c.fill zeros [] (c.digits 10 n)

def real (c : Conversion) (x : Real) : List Char :=
  let upper := c.letter.isUpper
  let cased (text : String) : List Char :=
    if upper then text.toList.map Char.toUpper else text.toList
  let precision := c.precision.getD 6
  match x with
  | .infinite negative => c.fill false (c.sign negative) (cased "inf")
  | .undefined negative => c.fill false (c.sign negative) (cased "nan")
  | .finite negative b =>
    let body := match c.letter.toLower with
      | 'f' => Real.fixedText b precision
      | 'e' => Real.scientificText 'e' b precision
      | _ => Real.shorterText 'e' (c.has '#') b precision
    c.fill true (c.sign negative) (cased body)

end Conversion

/-- What is printed so far, and with what. -/
structure Job where
  arguments : List String
  status : Nat := 0

abbrev Printing := StateT Job Act

namespace Printing

def put (chars : List Char) : Printing Unit :=
  (Act.print (String.ofList chars) : Act Unit)

/-- The next argument, if there is one; it is used up. -/
def next? : Printing (Option String) := do
  let job ← get
  match job.arguments with
  | [] => return none
  | argument :: rest =>
    set { job with arguments := rest }
    return some argument

/-- Complains about an argument, and goes on. -/
def doubt (text : String) : Printing Unit := do
  (Act.warn text : Act Unit)
  modify fun job => { job with status := 1 }

/-- Complains about what is left of an argument that has been read as a number. -/
def check (argument : String) (outOfRange : Bool) (rest : Option (List Char)) : Printing Unit :=
  match rest with
  | none => if argument = "" then return else doubt (argument ++ ": expected numeric value")
  | some [] => if outOfRange then doubt (argument ++ ": Numerical result out of range") else return
  | some _ => doubt (argument ++ ": not completely converted")

/-- The character that an argument in quotes stands for. -/
def quoted? (argument : String) : Option Nat :=
  match argument.toList with
  | '"' :: rest => some ((rest.head?.map Char.toNat).getD 0)
  | '\'' :: rest => some ((rest.head?.map Char.toNat).getD 0)
  | _ => none

/-- The next argument as a number with a sign. -/
def signed : Printing Int := do
  match ← next? with
  | none => return 0
  | some argument =>
    match quoted? argument with
    | some n => return n
    | none =>
      let reading := Numeral.read? none argument.toList
      check argument (reading.any Numeral.Reading.outOfRange)
        (reading.map Numeral.Reading.rest)
      return (reading.map Numeral.Reading.value).getD 0

/-- The next argument as a number without a sign; negative ones count from the largest down. -/
def unsigned : Printing Nat := do
  let top := Nat.pow 2 64
  match ← next? with
  | none => return 0
  | some argument =>
    match quoted? argument with
    | some n => return n
    | none =>
      let chars := argument.toList.dropWhile Numeral.isBlank
      let (negative, digits) := match chars with
        | '-' :: rest => (true, rest)
        | '+' :: rest => (false, rest)
        | chars => (false, chars)
      match Numeral.unsigned? none digits with
      | none =>
        check argument false none
        return 0
      | some (n, rest) =>
        check argument (top ≤ n) (some rest)
        if top ≤ n then return top - 1
        else return if negative then (top - n) % top else n

def real : Printing Real := do
  match ← next? with
  | none => return .zero
  | some argument =>
    match quoted? argument with
    | some n => return .finite false ⟨n, 0, false⟩
    | none =>
      let reading := Real.read? argument.toList
      check argument (reading.any Real.Reading.outOfRange) (reading.map Real.Reading.rest)
      return (reading.map Real.Reading.value).getD .zero

end Printing

open Printing

/-- A number in a format, or the next argument in its place. -/
def count (chars : List Char) : Printing (Option Int × List Char) := do
  match chars with
  | '*' :: rest => return (some (← signed), rest)
  | chars =>
    let (n, found, rest) := Numeral.digits 10 0 0 chars
    return (if found = 0 then none else some (n : Int), rest)

/-- The conversion behind a percent sign, and what stands behind it; none, if the format ends. -/
def conversion (chars : List Char) : Printing (Option Conversion × List Char) := do
  let flags := chars.takeWhile "#-+ 0".toList.contains
  let (width, rest) ← count (chars.drop flags.length)
  let flags := if (width.getD 0) < 0 then '-' :: flags else flags
  let (precision, rest) ← match rest with
    | '.' :: rest => do
      let (precision, rest) ← count rest
      pure (some (precision.getD 0), rest)
    | rest => pure (none, rest)
  match rest with
  | [] => return (none, [])
  | letter :: rest =>
    return (some {
      flags := flags
      width := (width.getD 0).natAbs
      precision := precision.bind fun n => if n < 0 then none else some n.toNat
      letter := letter }, rest)

/-- Prints an argument by a conversion; says whether nothing more is to be printed. `written` is how
the format writes the conversion. -/
def convert (c : Conversion) (written : List Char) : Printing Bool := do
  match c.letter with
  | 'b' =>
    let resolved := Escape.resolve ((← next?).getD "")
    put (c.text resolved.chars)
    return resolved.ends
  | 'c' =>
    let argument := ((← next?).getD "").toList
    put (c.fill false [] [argument.head?.getD (Char.ofNat 0)])
    return false
  | 's' =>
    put (c.text ((← next?).getD "").toList)
    return false
  | letter =>
    if letter == 'd' || letter == 'i' then
      put (c.signed (← signed))
      return false
    else if "ouxX".toList.contains letter then
      put (c.unsigned (← unsigned))
      return false
    else if "eEfFgG".toList.contains letter then
      put (c.real (← real))
      return false
    else (Act.fail (String.ofList ('%' :: written) ++ ": invalid directive") : Act Bool)

/-- Goes through a format of at most so many characters once; says whether nothing more is to be
printed. -/
def once : Nat → List Char → Printing Bool
  | 0, _ => return false
  | _, [] => return false
  | n + 1, '\\' :: rest => do
    let (c, after) := Escape.cut rest
    put [c]
    once n after
  | n + 1, '%' :: '%' :: rest => do
    put ['%']
    once n rest
  | n + 1, '%' :: rest => do
    match ← conversion rest with
    | (none, _) => (Act.fail "missing format character" : Act Bool)
    | (some c, after) =>
      let written := rest.take (rest.length - after.length)
      if ← convert c written then return true else once n after
  | n + 1, c :: rest => do
    put [c]
    once n rest

/-- Goes through a format as long as arguments are left. -/
def repeated (format : List Char) : Nat → Printing Unit
  | 0 => return
  | n + 1 => do
    let before := (← get).arguments.length
    if ← once (format.length + 1) format then return
    else
      let left := (← get).arguments.length
      if left = 0 || left = before then return else repeated format n

/-- Prints arguments by a format. -/
def print (format : String) (arguments : List String) : Act Nat := do
  let ((), job) ← (repeated format.toList (arguments.length + 1)).run ⟨arguments, 0⟩
  return job.status

end ProjectBuild.Shell.Format
