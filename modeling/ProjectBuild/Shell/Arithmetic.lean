import ProjectBuild.Shell.Numeral
import ProjectBuild.Shell.State

/-!
# Arithmetic

Expressions with whole numbers of 64 bits. Operators bind in levels, and group to the left within
one; a name stands for the number its variable holds, and can be assigned to. An operand that does
not matter for the value is not evaluated.
-/

namespace ProjectBuild.Shell.Arithmetic

inductive Token where
  | number (value : Int)
  | name (text : String)
  | sign (text : String)
  /-- A character that means nothing. -/
  | unknown
  deriving DecidableEq, Repr, Inhabited

/-- The signs, those that begin with another one first. -/
def signs : List String := [
  "<<=", ">>=", "==", "!=", "<=", ">=", "<<", ">>", "&&", "||", "+=", "-=", "*=", "/=", "%=", "&=",
  "|=", "^=", "=", "<", ">", "|", "&", "!", "(", ")", "*", "/", "%", "+", "-", "~", "^", "?", ":"]

/-- The tokens of at most so many characters. -/
def tokens : Nat → List Char → List Token
  | 0, _ => []
  | _, [] => []
  | n + 1, c :: rest =>
    if c == ' ' || c == '\t' || c == '\n' then tokens n rest
    else if c.isDigit then
      match Numeral.read? none (c :: rest) with
      | some r => .number r.value :: tokens n r.rest
      | none => [.unknown]
    else if isNameStart c then
      let (name, after) := cutName (c :: rest)
      .name (String.ofList name) :: tokens n after
    else match signs.find? fun sign => sign.toList.isPrefixOf (c :: rest) with
      | some sign => .sign sign :: tokens n ((c :: rest).drop sign.length)
      | none => [.unknown]

/-- What is computed with: the expression, and the tokens that are left of it. -/
structure Work where
  expression : String
  rest : List Token

abbrev Calculation := StateT Work Act

namespace Calculation

def fail {α : Type} (problem : String) : Calculation α := do
  let w ← get
  Act.fail ("arithmetic expression: " ++ problem ++ ": \"" ++ w.expression ++ "\"")

def next? : Calculation (Option Token) := do
  return (← get).rest.head?

def advance : Calculation Unit :=
  modify fun w => { w with rest := w.rest.tail }

/-- Reads a sign, if it comes next. -/
def accept (sign : String) : Calculation Bool := do
  if (← next?) == some (.sign sign) then
    advance
    return true
  else return false

end Calculation

open Calculation

/-- The number that a variable holds. -/
def valueOf (name : String) : Calculation Int := do
  let text := ((← getThe State).value? name).getD ""
  match Numeral.ofValue? text with
  | some n => return n
  | none => Act.fail ("Illegal number: " ++ text)

def ofBool (answer : Bool) : Int :=
  if answer then 1 else 0

/-- The level of an operator with two operands; what is lower binds tighter. -/
def level? : String → Option Nat
  | "*" => some 0
  | "/" => some 0
  | "%" => some 0
  | "+" => some 1
  | "-" => some 1
  | "<<" => some 2
  | ">>" => some 2
  | "<" => some 3
  | "<=" => some 3
  | ">" => some 3
  | ">=" => some 3
  | "==" => some 4
  | "!=" => some 4
  | "&" => some 5
  | "^" => some 6
  | "|" => some 7
  | _ => none

/-- Above all levels. -/
def topLevel : Nat := 8

/-- Combines the bits of two numbers. -/
def bitwise (combine : Nat → Nat → Nat) (a b : Int) : Int :=
  let bits (n : Int) : Nat := (n % Int.pow 2 64).toNat
  Numeral.wrap (combine (bits a) (bits b) : Nat)

/-- Bits of a shift that count. -/
def shiftOf (n : Int) : Nat :=
  (n % 64).toNat

def apply (sign : String) (a b : Int) : Calculation Int := do
  match sign with
  | "*" => return Numeral.wrap (a * b)
  | "/" => if b = 0 then fail "division by zero" else return Numeral.wrap (a.tdiv b)
  | "%" => if b = 0 then fail "division by zero" else return a.tmod b
  | "+" => return Numeral.wrap (a + b)
  | "-" => return Numeral.wrap (a - b)
  | "<<" => return Numeral.wrap (a * Int.pow 2 (shiftOf b))
  | ">>" => return a / Int.pow 2 (shiftOf b)
  | "<" => return ofBool (a < b)
  | "<=" => return ofBool (a ≤ b)
  | ">" => return ofBool (b < a)
  | ">=" => return ofBool (b ≤ a)
  | "==" => return ofBool (a = b)
  | "!=" => return ofBool (a ≠ b)
  | "&" => return bitwise Nat.land a b
  | "^" => return bitwise Nat.xor a b
  | "|" => return bitwise Nat.lor a b
  | _ => fail "expecting primary"

/-- The operator that comes next, and its level. -/
def operator? : Calculation (Option (String × Nat)) := do
  match ← next? with
  | some (.sign sign) => return (level? sign).map fun level => (sign, level)
  | _ => return none

/-- The sign of the assignment that comes next. -/
def assignment? : Calculation (Option String) := do
  match ← next? with
  | some (.sign sign) =>
    if sign = "=" then return some ""
    else match sign.toList.reverse with
      | '=' :: operator =>
        let operator := String.ofList operator.reverse
        return if (level? operator).isSome && !(["<", ">", "!", "="].contains operator)
          then some operator else none
      | _ => return none
  | _ => return none

mutual

/-- A number, a name, something in parentheses, or one of these behind a sign. `active` says
whether the value matters. -/
def operand : Nat → Bool → Calculation Int
  | 0, _ => fail "expecting primary"
  | n + 1, active => do
    match ← next? with
    | some (.number value) =>
      advance
      return value
    | some (.name name) =>
      advance
      -- what does not matter is not looked up, so it cannot fail
      if active then valueOf name else return 0
    | some (.sign "(") =>
      advance
      let value ← expression n active
      if ← accept ")" then return value else fail "expecting ')'"
    | some (.sign "+") =>
      advance
      operand n active
    | some (.sign "-") =>
      advance
      return Numeral.wrap (-(← operand n active))
    | some (.sign "!") =>
      advance
      return ofBool ((← operand n active) = 0)
    | some (.sign "~") =>
      advance
      return -(← operand n active) - 1
    | _ => fail "expecting primary"

/-- Goes on behind a left operand, with operators that bind tighter than a level. -/
def operators : Nat → Bool → Nat → Int → Calculation Int
  | 0, _, _, left => return left
  | n + 1, active, level, left => do
    match ← operator? with
    | none => return left
    | some (sign, own) =>
      if level ≤ own then return left
      else
        advance
        let right ← operators n active own (← operand n active)
        operators n active level (← if active then apply sign left right else pure right)

/-- Operands between which both have to hold. -/
def conjunction : Nat → Bool → Calculation Int
  | 0, _ => fail "expecting primary"
  | n + 1, active => do
    let left ← operators n active topLevel (← operand n active)
    if ← accept "&&" then
      let right ← conjunction n (active && left != 0)
      return ofBool (left != 0 && right != 0)
    else return left

/-- Operands between which one has to hold. -/
def disjunction : Nat → Bool → Calculation Int
  | 0, _ => fail "expecting primary"
  | n + 1, active => do
    let left ← conjunction n active
    if ← accept "||" then
      let right ← disjunction n (active && left == 0)
      return ofBool (left != 0 || right != 0)
    else return left

/-- A choice between two values, or just one. -/
def choice : Nat → Bool → Calculation Int
  | 0, _ => fail "expecting primary"
  | n + 1, active => do
    let condition ← disjunction n active
    if ← accept "?" then
      let first ← expression n (active && condition != 0)
      if !(← accept ":") then fail "expecting ':'"
      else
        let second ← choice n (active && condition == 0)
        return if condition != 0 then first else second
    else return condition

/-- An assignment, or an expression without one. -/
def expression : Nat → Bool → Calculation Int
  | 0, _ => fail "expecting primary"
  | n + 1, active => do
    match ← next? with
    | some (.name name) =>
      let before ← get
      advance
      match ← assignment? with
      | none =>
        set before
        choice n active
      | some operator =>
        advance
        let value ← expression n active
        if !active then return value
        else
          let value ← if operator = "" then pure value
            else apply operator (← valueOf name) value
          Act.assign name (toString value)
          return value
    | _ => choice n active

end

/-- Each token opens at most so many nested steps. -/
def stepsPerToken : Nat := 8

/-- The value of an expression. -/
def evaluate (text : String) : Act Int := do
  let found := tokens (text.length + 1) text.toList
  let calculation : Calculation Int := do
    let value ← expression (stepsPerToken * (found.length + 2)) true
    if (← next?).isSome then fail "expecting EOF" else return value
  let (value, _) ← calculation.run ⟨text, found⟩
  return value

end ProjectBuild.Shell.Arithmetic
