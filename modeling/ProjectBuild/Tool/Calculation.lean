import ProjectBuild.Tool.Expression
import ProjectBuild.Tool.Words

/-!
# Calculations on words

A tool that reads its arguments as an expression of words and operators, each of them one argument.
A value is a word; where a number is needed, the word has to spell one.
-/

namespace ProjectBuild.Tool

/-- A calculation on words: a value, and the words that are left. -/
abbrev Evaluation := Tool (String × List String)

namespace Evaluation

/-- Whether a value counts as false. -/
def isNull (value : String) : Bool :=
  value = "" || integer? value == some 0

def compareWords (operator a b : String) : Bool :=
  let result := match integer? a, integer? b with
    | some x, some y => compare x y
    | _, _ => compare a b
  match operator with
  | "=" => result == .eq
  | "==" => result == .eq
  | "!=" => result != .eq
  | "<" => result == .lt
  | "<=" => result != .gt
  | ">" => result == .gt
  | _ => result != .lt

/-- What an expression matches at the start of a text: the first group, or the number of
characters if it has none. -/
def matched (text pattern : String) : Tool String := do
  match Expression.ofText ⟨false, false⟩ pattern with
  | .error problem => fail 2 problem.text
  | .ok e =>
    let hasGroup := 0 < e.groups
    match e.atStart text.toList with
    | none => return if hasGroup then "" else "0"
    | some stop =>
      return if hasGroup then String.ofList ((stop.groups.lookup 1).getD [])
        else toString stop.before.length

def calculate (operator a b : String) : Tool String := do
  match integer? a, integer? b with
  | some x, some y =>
    match operator with
    | "+" => return toString (x + y)
    | "-" => return toString (x - y)
    | "*" => return toString (x * y)
    | "/" => if y = 0 then fail 2 "division by zero" else return toString (x.tdiv y)
    | _ => if y = 0 then fail 2 "division by zero" else return toString (x.tmod y)
  | _, _ => fail 2 "non-integer argument"

/-- Applies an operator to two values. -/
def combine (operator a b : String) : Tool String := do
  match operator with
  | "|" => return if !isNull a then a else if isNull b then "0" else b
  | "&" => return if isNull a || isNull b then "0" else a
  | ":" => matched a b
  | operator =>
    if ["=", "==", "!=", "<", "<=", ">", ">="].contains operator then
      return if compareWords operator a b then "1" else "0"
    else calculate operator a b

/-- Operators of one level each, the loosest first. -/
def levels : List (List String) :=
  [["|"], ["&"], ["=", "==", "!=", "<", "<=", ">", ">="], ["+", "-"], ["*", "/", "%"], [":"]]

/-- The place, counted from one, of the first character that is one of some. -/
def placeOf (text chars : String) : Nat :=
  match text.toList.findIdx? chars.toList.contains with
  | some n => n + 1
  | none => 0

/-- The part of a text from a place on, of so many characters. -/
def part (text place count : String) : String :=
  match integer? place, integer? count with
  | some p, some n =>
    if p ≤ 0 then "" else String.ofList ((text.toList.drop (p.toNat - 1)).take n.toNat)
  | _, _ => ""

/-- Complains that the words end behind this one. -/
def refuseEnd {α : Type} (last : String) : Tool α :=
  fail 2 ("syntax error: missing argument after " ++ quoted last)

mutual

/-- An operation whose operators are of a level or tighter, nested at most so deep. `last` is the
word in front. What is not `needed` is read, but not calculated. -/
def operation : Nat → Bool → List (List String) → String → List String → Evaluation
  | 0, _, _, _, words => return ("", words)
  | n + 1, needed, [], last, words => operand n needed last words
  | n + 1, needed, level :: tighter, last, words => do
    let (value, rest) ← operation n needed tighter last words
    operations n needed level tighter value rest

/-- More operands of a level. -/
def operations : Nat → Bool → List String → List (List String) → String → List String → Evaluation
  | 0, _, _, _, value, words => return (value, words)
  | n + 1, needed, level, tighter, value, words => do
    match words with
    | operator :: rest =>
      if level.contains operator then
        let isDecided := (operator = "|" && !isNull value) || (operator = "&" && isNull value)
        let (other, rest) ← operation n (needed && !isDecided) tighter operator rest
        let value ← if needed then combine operator value other else pure value
        operations n needed level tighter value rest
      else return (value, words)
    | [] => return (value, [])

/-- A word, or something that is calculated from the operands behind it. -/
def operand : Nat → Bool → String → List String → Evaluation
  | 0, _, _, words => return ("", words)
  | n + 1, needed, last, words => do
    match words with
    | [] => refuseEnd last
    -- takes the next word for a word, even if it is an operator
    | "+" :: rest =>
      match rest with
      | [] => refuseEnd "+"
      | word :: rest => return (word, rest)
    | "length" :: rest =>
      let (text, rest) ← operand n needed "length" rest
      return (toString text.length, rest)
    | "match" :: rest =>
      let (text, rest) ← operand n needed "match" rest
      let (pattern, rest) ← operand n needed text rest
      return (← if needed then matched text pattern else pure text, rest)
    | "index" :: rest =>
      let (text, rest) ← operand n needed "index" rest
      let (chars, rest) ← operand n needed text rest
      return (toString (placeOf text chars), rest)
    | "substr" :: rest =>
      let (text, rest) ← operand n needed "substr" rest
      let (place, rest) ← operand n needed text rest
      let (count, rest) ← operand n needed place rest
      return (part text place count, rest)
    | "(" :: rest =>
      let (value, rest) ← operation n needed levels "(" rest
      match rest with
      | ")" :: rest => return (value, rest)
      | [] => fail 2 ("syntax error: expecting ')' after " ++ quoted (words.getLastD ""))
      | word :: _ => fail 2 ("syntax error: expecting ')' instead of " ++ quoted word)
    | ")" :: _ => fail 2 "syntax error: unexpected ')'"
    | word :: rest => return (word, rest)

end

end Evaluation

/-- Prints the value of an expression of words; it tells whether the value counts as true. -/
def evaluate (arguments : List String) : Tool Nat := do
  let words := if arguments.head? == some "--" then arguments.tail else arguments
  if words.isEmpty then usage 2 "missing operand"
  else
    let (value, rest) ←
      Evaluation.operation (16 * words.length + 16) true Evaluation.levels "" words
    match rest with
    | extra :: _ => fail 2 ("syntax error: unexpected argument " ++ quoted extra)
    | [] =>
      printLine value
      return if Evaluation.isNull value then 1 else 0

end ProjectBuild.Tool
