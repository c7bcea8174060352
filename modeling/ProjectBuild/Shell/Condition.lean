import ProjectBuild.Shell.Numeral
import ProjectBuild.Shell.State

/-!
# Conditions

The conditions that `test` and `[` decide: about files, texts and numbers, with negation,
parentheses and two connectives. Whether a word is an operator depends on the words behind it.
-/

namespace ProjectBuild.Shell.Condition

/-- What kind of operator a word can be. -/
inductive Kind where
  | unary
  | binary
  | negation
  | conjunction
  | disjunction
  | opening
  | closing
  deriving DecidableEq, Repr, Inhabited

def unaryLetters : List Char :=
  "rwxefdcbpugkstznhOGLS".toList

def binaryNames : List String := [
  "=", "!=", "<", ">", "-eq", "-ne", "-ge", "-gt", "-le", "-lt", "-nt", "-ot", "-ef"]

def kind? (word : String) : Option Kind :=
  match word with
  | "!" => some .negation
  | "-a" => some .conjunction
  | "-o" => some .disjunction
  | "(" => some .opening
  | ")" => some .closing
  | word =>
    if binaryNames.contains word then some .binary
    else match word.toList with
      | ['-', c] => if unaryLetters.contains c then some .unary else none
      | _ => none

/-! ## Questions -/

/-- A number in a condition. -/
def number (text : String) : Except String Int :=
  match Numeral.ofText? (some 10) text with
  | some n => .ok n
  | none => .error ("Illegal number: " ++ text)

def isLink (s : State) (raw : String) : Bool :=
  match s.world.disk.locateEntry s.directory (State.path raw) with
  | .ok location =>
    match s.world.disk.node? location with
    | some (.link _) => true
    | _ => false
  | .error _ => false

/-- The node that a path leads to. -/
def node? (s : State) (raw : String) : Option DiskNode :=
  (s.node? raw).toOption.map Prod.snd

/-- A question about a file or text, by its letter. -/
def unary (s : State) (letter : Char) (operand : String) : Except String Bool :=
  let node := node? s operand
  match letter with
  | 'z' => .ok (operand = "")
  | 'n' => .ok (operand ≠ "")
  | 't' => (number operand).map fun _ => false
  | 'h' => .ok (isLink s operand)
  | 'L' => .ok (isLink s operand)
  | 'f' => .ok (match node with
    | some (.file _ _ _) => true
    | some .program => true
    | _ => false)
  | 'd' => .ok (match node with
    | some (.directory _) => true
    | _ => false)
  | 'c' => .ok (match node with
    | some .void => true
    | _ => false)
  | 's' => .ok (match node with
    | some (.file content _ _) => content.size != 0
    | some .void => false
    | node => node.isSome)
  | 'x' => .ok (match node with
    | some (.file _ _ executable) => executable
    | some .void => false
    | node => node.isSome)
  | letter => .ok ("erwOG".toList.contains letter && node.isSome)

/-- Whether one file has changed after another; one that is there, after one that is not. -/
def isNewer (s : State) (left right : String) : Bool :=
  match node? s left, node? s right with
  | some a, some b =>
    match Disk.timeOf? a, Disk.timeOf? b with
    | some a, some b => decide (b < a)
    | _, _ => false
  | _, _ => false

def isSame (s : State) (left right : String) : Bool :=
  match s.node? left, s.node? right with
  | .ok (a, _), .ok (b, _) => a == b
  | _, _ => false

def binary (s : State) (operator left right : String) : Except String Bool := do
  let numbers (holds : Int → Int → Bool) : Except String Bool := do
    return holds (← number left) (← number right)
  match operator with
  | "=" => return left = right
  | "!=" => return left ≠ right
  | "<" => return left < right
  | ">" => return right < left
  | "-eq" => numbers fun a b => a == b
  | "-ne" => numbers fun a b => a != b
  | "-ge" => numbers fun a b => decide (b ≤ a)
  | "-gt" => numbers fun a b => decide (b < a)
  | "-le" => numbers fun a b => decide (a ≤ b)
  | "-lt" => numbers fun a b => decide (a < b)
  | "-nt" => return isNewer s left right
  | "-ot" => return isNewer s right left
  | _ => return isSame s left right

/-! ## Recognition -/

/-- A word, and the words behind it. It is no operator if it stands where an operand has to. -/
def operatorAt? (words : List String) : Option Kind :=
  match words with
  | [] => none
  | word :: rest =>
    match kind? word with
    | some .unary => if isOperand rest then none else some .unary
    | some .opening => if rest.isEmpty then none else some .opening
    | kind => kind
where
  /-- Whether what stands in front of some words is an operand. -/
  isOperand : List String → Bool
    | [] => true
    | [_] => false
    | operator :: operand :: _ => kind? operator == some .binary && operand ≠ ")"

/-- An answer, and the words from the last one that was used on. -/
abbrev Answer := Except String (Bool × List String)

mutual

/-- Conditions of which one has to hold. -/
def disjunction (s : State) : Nat → Bool → List String → Answer
  | 0, _, words => .ok (false, words)
  | n + 1, forced, words => do
    let (first, last) ← conjunction s n forced words
    if operatorAt? last.tail == some .disjunction then
      let (others, last) ← disjunction s n false (last.drop 2)
      return (first || others, last)
    else return (first, last)

/-- Conditions that all have to hold. -/
def conjunction (s : State) : Nat → Bool → List String → Answer
  | 0, _, words => .ok (false, words)
  | n + 1, forced, words => do
    let (first, last) ← negation s n forced words
    if operatorAt? last.tail == some .conjunction then
      let (others, last) ← conjunction s n false (last.drop 2)
      return (first && others, last)
    else return (first, last)

def negation (s : State) : Nat → Bool → List String → Answer
  | 0, _, words => .ok (false, words)
  | n + 1, forced, words => do
    if !forced && operatorAt? words == some .negation then
      if words.tail.isEmpty then return (true, words)
      else
        let (answer, last) ← negation s n false words.tail
        return (!answer, last)
    else primary s n forced words

/-- A single condition. `forced` says that the first word is an operand, whatever it looks like. -/
def primary (s : State) : Nat → Bool → List String → Answer
  | 0, _, words => .ok (false, words)
  | n + 1, forced, words => do
    match words with
    | [] => return (false, words)
    | first :: rest =>
      let kind := if forced then none else operatorAt? words
      match kind, rest with
      | some .opening, rest =>
        if operatorAt? rest == some .closing then return (false, rest)
        else
          let (answer, last) ← disjunction s n false rest
          if operatorAt? last.tail == some .closing then return (answer, last.tail)
          else throw "closing paren expected"
      | some .unary, operand :: behind =>
        return (← unary s ((first.toList.getLast?).getD ' ') operand, operand :: behind)
      | some .unary, [] => throw (first ++ ": argument expected")
      | _, operator :: behind =>
        if operatorAt? rest == some .binary then
          match behind with
          | [] => throw (operator ++ ": argument expected")
          | right :: more => return (← binary s operator first right, right :: more)
        else return (first ≠ "", words)
      | _, [] => return (first ≠ "", words)

end

/-- Whether some words are a condition that holds, or the complaint about them. -/
def evaluate (s : State) (words : List String) : Except String Bool := do
  let forced := match words with
    | [_, operator, _] => kind? operator == some .binary
    | _ => false
  let enclosed := !forced && (words.length == 3 || words.length == 4) &&
    words.head? == some "(" && words.getLast? == some ")"
  let words := if enclosed then words.tail.dropLast else words
  if words.isEmpty then return false
  else
    let (answer, last) ← disjunction s (4 * words.length + 8) forced words
    match last with
    | last :: _ :: _ => throw (if last = "" then "unexpected operator"
        else last ++ ": unexpected operator")
    | _ => return answer

end ProjectBuild.Shell.Condition
