import ProjectBuild.Tool.Expression
import ProjectBuild.Tool.Words

/-!
# Scripts that edit text

A script is a list of instructions, each for the lines that its addresses choose. Blocks and jumps
name places in the list. What is wrong with a script is told with the number of characters that had
been read when it was noticed.
-/

namespace ProjectBuild.Tool.Edit

inductive Address where
  | line (n : Nat)
  /-- Every line that comes so many steps behind the first one. -/
  | step (first width : Nat)
  | last
  /-- Lines that an expression matches; if none is given, the last one that was used. -/
  | matching (e : Option Expression)
  deriving Inhabited

/-- Where a range of lines ends. -/
inductive Limit where
  | line (n : Nat)
  | last
  | matching (e : Option Expression)
  /-- So many lines on. -/
  | further (n : Nat)
  /-- At a multiple. -/
  | multiple (n : Nat)
  deriving Inhabited

/-- How the characters of a replacement are changed. -/
inductive Casing where
  | plain
  | upper
  | lower
  deriving DecidableEq, Repr, Inhabited

/-- A part of what a match is replaced by. -/
inductive Part where
  | text (c : Char)
  /-- What a group has matched; zero stands for the whole match. -/
  | group (n : Nat)
  /-- Changes what follows, or the next character of it only. -/
  | casing (kind : Casing) (once : Bool)
  deriving Inhabited

structure Substitution where
  /-- If none is given, the last one that was used. -/
  expression : Option Expression
  parts : List Part
  /-- Whether matches behind the first one that counts are replaced as well. -/
  all : Bool
  /-- Which match is the first one that counts. -/
  nth : Nat
  /-- Whether a line with a replacement is printed. -/
  prints : Bool
  /-- A file that a line with a replacement is added to. -/
  target : Option String
  deriving Inhabited

/-- When a jump is made. -/
inductive JumpKind where
  | always
  /-- If something has been replaced since a line was read, or since such a jump. -/
  | ifReplaced
  | ifNotReplaced
  deriving DecidableEq, Repr, Inhabited

inductive Act where
  | nothing
  /-- Begins a block. -/
  | openBlock
  | closeBlock
  | label (name : String)
  /-- Jumps to a label, or to the end. -/
  | jump (kind : JumpKind) (name : String)
  | substitute (s : Substitution)
  | translate (table : List (Char × Char))
  | append (text : String)
  | insert (text : String)
  | change (text : String)
  | delete
  | deleteFirst
  | print
  | printFirst
  | printVisibly
  | number
  | next
  | joinNext
  | hold
  | holdMore
  | recall
  | recallMore
  | exchange
  | clear
  /-- Ends the run; the line is printed before, or is not. -/
  | quit (status : Nat) (prints : Bool)
  | readFile (name : String)
  | writeFile (name : String)
  deriving Inhabited

structure Instruction where
  first : Option Address := none
  second : Option Limit := none
  negated : Bool := false
  act : Act
  deriving Inhabited

/-- A script that is read. -/
structure Reading where
  rest : List Char
  /-- The number of characters that have been read. -/
  count : Nat := 0
  /-- Blocks that are open. -/
  depth : Nat := 0

/-- What is wrong with a script, and after how many characters. -/
abbrev Reader := StateT Reading (Except (Nat × String))

namespace Reader

def refuse {α : Type} (text : String) : Reader α := do
  throw ((← get).count, text)

/-- The next character, if there is one; it is read. -/
def char? : Reader (Option Char) := do
  match ← get with
  | ⟨c :: rest, count, depth⟩ =>
    set (⟨rest, count + 1, depth⟩ : Reading)
    return some c
  | _ => return none

def peek? : Reader (Option Char) := do
  return (← get).rest.head?

/-- Puts a character back, to be read again. -/
def unread (c : Char) : Reader Unit :=
  modify fun r => { r with rest := c :: r.rest, count := r.count - 1 }

/-- Passes over so many characters. -/
def skip (n : Nat) : Reader Unit :=
  modify fun r => { r with rest := r.rest.drop n, count := r.count + min n r.rest.length }

/-- The characters in front that have a property; they are read. -/
def takeWhile (holds : Char → Bool) : Reader (List Char) := do
  let found := (← get).rest.takeWhile holds
  skip found.length
  return found

def isBlank (c : Char) : Bool :=
  c == ' ' || c == '\t'

def isSpace (c : Char) : Bool :=
  c == ' ' || (9 ≤ c.toNat && c.toNat ≤ 13)

def skipBlanks : Reader Unit := do
  let _ ← takeWhile isBlank

/-- The next character behind blanks. -/
def charBehindBlanks? : Reader (Option Char) := do
  skipBlanks
  char?

/-- The number in front, if there is one. -/
def number? : Reader (Option Nat) := do
  return (String.ofList (← takeWhile Char.isDigit)).toNat?

/-- Reads the end of a command. -/
def endCommand : Reader Unit := do
  match ← charBehindBlanks? with
  | none => return
  | some c =>
    if c == '\n' || c == ';' then return
    else if c == '\x7d' || c == '#' then
      unread c
    else refuse "extra characters after command"

/-! ## Expressions and replacements -/

/-- The characters of a class in brackets, of which the first one is read. -/
def bracketEnd : List Char → Option (List Char)
  | chars =>
    let (negation, chars) := match chars with
      | '^' :: rest => (['^'], rest)
      | chars => ([], chars)
    let (first, chars) := match chars with
      | ']' :: rest => ([']'], rest)
      | chars => ([], chars)
    let inside := chars.takeWhile fun c => c != ']' && c != '\n'
    -- A named class has a bracket of its own.
    match chars.drop inside.length with
    | ']' :: rest =>
      if inside.getLast? == some ':' && inside.contains '[' then
        let more := rest.takeWhile fun c => c != ']' && c != '\n'
        if more.length < rest.length && rest.getD more.length ' ' == ']' then
          some (negation ++ first ++ inside ++ ']' :: more ++ [']'])
        else none
      else some (negation ++ first ++ inside ++ [']'])
    | _ => none

/-- The characters up to a mark that has no backslash in front. In an expression, the mark can stand
in brackets as well. -/
def upTo (mark : Char) (inExpression : Bool) : Nat → Reader (Option (List Char))
  | 0 => return none
  | n + 1 => do
    match ← char? with
    | none => return none
    | some c =>
      if c == mark then return some []
      else if c == '\n' then
        unread c
        return none
      else if c == '[' && inExpression then
        -- brackets that are not closed run to the end of the line
        match bracketEnd (← get).rest with
        | none =>
          let _ ← takeWhile (· != '\n')
          return none
        | some inside =>
          skip inside.length
          return (← upTo mark inExpression n).map fun others => c :: inside ++ others
      else if c == '\\' then
        match ← char? with
        | none => return none
        | some d =>
          -- a backslash before the mark only says that it is no mark
          let kept := if d == 'n' && inExpression && mark != 'n' then ['\n']
            else if d == mark && (inExpression || d != '&') then [d]
            else ['\\', d]
          return (← upTo mark inExpression n).map (kept ++ ·)
      else return (← upTo mark inExpression n).map (c :: ·)

/-- The characters up to a mark. -/
def upToMark (mark : Char) (inExpression : Bool) (complaint : String) : Reader (List Char) := do
  match ← upTo mark inExpression ((← get).rest.length + 1) with
  | some found => return found
  | none => refuse complaint

/-- The expression that a text spells; an empty one stands for the last one that was used. -/
def expression (extended anyCase : Bool) (text : List Char) : Reader (Option Expression) := do
  if text.isEmpty then return none
  else match Expression.ofText ⟨extended, anyCase⟩ (String.ofList text) with
    | .ok e => return some e
    | .error problem => refuse problem.text

/-- The character that a letter behind a backslash stands for. -/
def control? (c : Char) : Option Char :=
  match c with
  | 'a' => some '\x07'
  | 'f' => some '\x0c'
  | 'n' => some '\n'
  | 'r' => some '\x0d'
  | 't' => some '\t'
  | 'v' => some '\x0b'
  | _ => none

/-- The value of two hexadecimal digits in front. -/
def hexByte? : List Char → Option (Char × List Char)
  | a :: b :: rest =>
    match hexValue? a, hexValue? b with
    | some x, some y => some (Char.ofNat (16 * x + y), rest)
    | some x, none => some (Char.ofNat x, b :: rest)
    | none, _ => none
  | [a] => (hexValue? a).map fun x => (Char.ofNat x, [])
  | [] => none

/-- What a replacement is made of. -/
def parts : Nat → List Char → List Part
  | 0, _ => []
  | _, [] => []
  | n + 1, '\\' :: 'x' :: rest =>
    match hexByte? rest with
    | some (c, rest) => .text c :: parts n rest
    | none => .text 'x' :: parts n rest
  | n + 1, '\\' :: c :: rest =>
    let part : Part := match c with
      | 'U' => .casing .upper false
      | 'L' => .casing .lower false
      | 'E' => .casing .plain false
      | 'u' => .casing .upper true
      | 'l' => .casing .lower true
      | c => if c.isDigit then .group (c.toNat - 48) else .text ((control? c).getD c)
    part :: parts n rest
  | n + 1, '&' :: rest => .group 0 :: parts n rest
  | n + 1, c :: rest => .text c :: parts n rest

/-- The greatest number of a group in a replacement. -/
def greatestGroup (all : List Part) : Nat :=
  (all.map fun
    | .group n => n
    | _ => 0).foldl max 0

/-! ## Addresses -/

/-- An expression between two marks, with a letter behind it that says that case does not count. -/
def matchAddress (extended : Bool) (mark : Char) : Reader (Option Expression) := do
  let text ← upToMark mark true "unterminated address regex"
  let letters ← takeWhile fun c => c == 'I' || c == 'M'
  expression extended (letters.contains 'I') text

def address? (extended : Bool) : Reader (Option Address) := do
  match ← peek? with
  | some '$' =>
    skip 1
    return some .last
  | some '/' =>
    skip 1
    return some (.matching (← matchAddress extended '/'))
  | some '\\' =>
    skip 1
    match ← char? with
    | some mark => return some (.matching (← matchAddress extended mark))
    | none => refuse "unterminated address regex"
  | _ =>
    match ← number? with
    | none => return none
    | some n =>
      if (← peek?) == some '~' then
        skip 1
        let width := (← number?).getD 0
        return some (if width = 0 then .line n else .step n width)
      else return some (.line n)

def limit? (extended : Bool) : Reader (Option Limit) := do
  match ← peek? with
  | some '+' =>
    skip 1
    return some (.further ((← number?).getD 0))
  | some '~' =>
    skip 1
    return some (.multiple ((← number?).getD 0))
  | _ =>
    match ← address? extended with
    | none => return none
    | some (.line n) => return some (.line n)
    | some (.step n _) => return some (.line n)
    | some .last => return some .last
    | some (.matching e) => return some (.matching e)

/-! ## Commands -/

/-- A text that is added: the characters up to the end of a line that is not continued. -/
def addedText : Nat → Reader (List Char)
  | 0 => return []
  | n + 1 => do
    match ← char? with
    | none => return ['\n']
    | some '\n' => return ['\n']
    | some '\\' =>
      match ← char? with
      | none => return ['\n']
      | some c => return ((control? c).getD c) :: (← addedText n)
    | some c => return c :: (← addedText n)

/-- The text behind a command that adds lines. -/
def text : Reader String := do
  let n := (← get).rest.length + 1
  match ← charBehindBlanks? with
  | none => refuse "expected \\ after `a', `c' or `i'"
  | some '\\' =>
    match ← peek? with
    | none => return ""
    | some c =>
      if isBlank c then
        let blanks ← takeWhile isBlank
        if (← peek?) == some '\n' then
          skip 1
          return String.ofList (← addedText n)
        else return String.ofList (blanks ++ (← addedText n))
      else
        if c == '\n' then skip 1
        if (← get).rest.isEmpty then return "" else return String.ofList (← addedText n)
  | some c =>
    unread c
    return String.ofList (← addedText n)

/-- The name of a label. -/
def labelName : Reader String := do
  skipBlanks
  return String.ofList (← takeWhile fun c => !isSpace c && c != ';')

/-- The name of a file, up to the end of the line. -/
def fileName : Reader String := do
  skipBlanks
  let found ← takeWhile (· != '\n')
  if found.isEmpty then refuse "missing filename in r/R/w/W commands"
  else
    skip 1
    return String.ofList found

/-- What is asked for behind a substitution. -/
structure Flags where
  all : Bool := false
  prints : Bool := false
  anyCase : Bool := false
  nth : Option Nat := none
  target : Option String := none

def flags : Nat → Flags → Reader Flags
  | 0, found => return found
  | n + 1, found => do
    match ← char? with
    | none => return found
    | some c =>
      match c with
      | 'g' => if found.all then refuse "multiple `g' options to `s' command" else
          flags n { found with all := true }
      | 'p' => if found.prints then refuse "multiple `p' options to `s' command" else
          flags n { found with prints := true }
      | 'i' => flags n { found with anyCase := true }
      | 'I' => flags n { found with anyCase := true }
      | 'm' => flags n found
      | 'M' => flags n found
      | 'w' => return { found with target := some (← fileName) }
      | '\n' => return found
      | ';' => return found
      | '\x7d' =>
        unread c
        return found
      | '#' =>
        unread c
        return found
      | c =>
        if isBlank c then flags n found
        else if c.isDigit then
          if found.nth.isSome then refuse "multiple number options to `s' command"
          else
            unread c
            let nth := (← number?).getD 0
            if nth = 0 then refuse "number option to `s' command may not be zero"
            else flags n { found with nth := some nth }
        else refuse "unknown option to `s'"

def substitution (extended : Bool) : Reader Act := do
  let complaint := "unterminated `s' command"
  match ← char? with
  | none => refuse complaint
  | some mark =>
    let pattern ← upToMark mark true complaint
    let replacement ← upToMark mark false complaint
    let found ← flags ((← get).rest.length + 1) {}
    let e ← expression extended found.anyCase pattern
    let parts := parts (replacement.length + 1) replacement
    let greatest := greatestGroup parts
    if e.any fun e => decide (e.groups < greatest) then
      refuse ("invalid reference \\" ++ toString greatest ++ " on `s' command's RHS")
    else return .substitute ⟨e, parts, found.all, found.nth.getD 1, found.prints, found.target⟩

/-- Characters of a table, without their backslashes. -/
def tableChars (chars : List Char) : List Char :=
  match chars with
  | '\\' :: c :: rest => (if c == '\\' then c else (control? c).getD c) :: tableChars rest
  | c :: rest => c :: tableChars rest
  | [] => []

def table : Reader Act := do
  let complaint := "unterminated `y' command"
  match ← char? with
  | none => refuse complaint
  | some mark =>
    let sources := tableChars (← upToMark mark false complaint)
    let targets := tableChars (← upToMark mark false complaint)
    if sources.length ≠ targets.length then
      refuse "strings for `y' command are different lengths"
    else
      endCommand
      return .translate (sources.zip targets)

/-- Ends a command that is complete. -/
def complete (act : Act) : Reader Act := do
  endCommand
  return act

/-- What a command does, from its letter on. -/
def act (extended : Bool) (i : Instruction) : Reader Act := do
  let hasAddress := i.first.isSome
  match ← charBehindBlanks? with
  | none => refuse "missing command"
  | some c =>
    match c with
    | '\x7b' =>
      modify fun r => { r with depth := r.depth + 1 }
      return .openBlock
    | '\x7d' =>
      if (← get).depth = 0 then refuse "unexpected `\x7d'"
      else if hasAddress then refuse "\x7d doesn't want any addresses"
      else
        modify fun r => { r with depth := r.depth - 1 }
        complete .closeBlock
    | '#' =>
      if hasAddress then refuse "comments don't accept any addresses"
      else
        let _ ← takeWhile (· != '\n')
        return .nothing
    | ':' =>
      if hasAddress then refuse ": doesn't want any addresses"
      else
        let name ← labelName
        if name = "" then refuse "\":\" lacks a label" else return .label name
    | 'b' => return .jump .always (← labelName)
    | 't' => return .jump .ifReplaced (← labelName)
    | 'T' => return .jump .ifNotReplaced (← labelName)
    | 's' => substitution extended
    | 'y' => table
    | 'a' => return .append (← text)
    | 'i' => return .insert (← text)
    | 'c' => return .change (← text)
    | 'd' => complete .delete
    | 'D' => complete .deleteFirst
    | 'p' => complete .print
    | 'P' => complete .printFirst
    | 'l' =>
      skipBlanks
      -- a width of the line is accepted and does nothing
      let _ ← number?
      complete .printVisibly
    | '=' => complete .number
    | 'n' => complete .next
    | 'N' => complete .joinNext
    | 'h' => complete .hold
    | 'H' => complete .holdMore
    | 'g' => complete .recall
    | 'G' => complete .recallMore
    | 'x' => complete .exchange
    | 'z' => complete .clear
    | 'r' => return .readFile (← fileName)
    | 'w' => return .writeFile (← fileName)
    | c =>
      if c == 'q' || c == 'Q' then
        if i.second.isSome then refuse "command only uses one address"
        else
          skipBlanks
          let status := (← number?).getD 0
          complete (.quit status (c == 'q'))
      else refuse ("unknown command: `" ++ String.ofList [c] ++ "'")

/-- The limit behind an address, if a comma follows. -/
def rangeLimit? (extended : Bool) : Reader (Option Limit) := do
  skipBlanks
  if (← peek?) == some ',' then
    skip 1
    skipBlanks
    match ← limit? extended with
    | none => refuse "unexpected `,'"
    | some limit => return some limit
  else return none

/-- Whether a sign follows that negates what the addresses choose. -/
def negation : Reader Bool := do
  skipBlanks
  if (← peek?) == some '!' then
    skip 1
    skipBlanks
    if (← peek?) == some '!' then
      skip 1
      refuse "multiple `!'s"
    else return true
  else return false

/-- An instruction, behind what separates it from the one before. -/
def instruction (extended : Bool) : Reader Instruction := do
  let first ← address? extended
  let second ← if first.isSome then rangeLimit? extended else pure none
  let negated ← negation
  match first, second with
  | some (.line 0), some (.matching _) => pure ()
  | some (.line 0), _ =>
    skip 1
    refuse "invalid usage of line address 0"
  | _, _ => pure ()
  let i : Instruction := { first := first, second := second, negated := negated, act := .nothing }
  return { i with act := ← act extended i }

/-- At most so many instructions. -/
def instructions (extended : Bool) : Nat → Reader (List Instruction)
  | 0 => return []
  | n + 1 => do
    let _ ← takeWhile fun c => isSpace c || c == ';'
    if (← peek?).isNone then
      if (← get).depth = 0 then return []
      else throw (0, "unmatched `\x7b'")
    else
      let first ← instruction extended
      return first :: (← instructions extended n)

end Reader

/-- The instructions of a script. -/
def script (extended : Bool) (text : String) : Except (Nat × String) (List Instruction) :=
  ((Reader.instructions extended (text.length + 2)).run { rest := text.toList }).map Prod.fst

/-- The labels that are jumped to and do not exist. -/
def missingLabels (all : List Instruction) : List String :=
  let known := all.filterMap fun i => match i.act with
    | .label name => some name
    | _ => none
  all.filterMap fun i => match i.act with
    | .jump _ name => if name = "" || known.contains name then none else some name
    | _ => none

end ProjectBuild.Tool.Edit
