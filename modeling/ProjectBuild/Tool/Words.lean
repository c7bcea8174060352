import ProjectBuild.Tool.Text

/-!
# Tools on words

Tools that work on their arguments alone, and tools that call other programs.
-/

namespace ProjectBuild.Tool

/-! ## Printing -/

def hexValue? (c : Char) : Option Nat :=
  let low := c.toLower
  if c.isDigit then some (c.toNat - 48)
  else if 'a' ≤ low && low ≤ 'f' then some (low.toNat - 87)
  else none

def octalValue? (c : Char) : Option Nat :=
  if '0' ≤ c && c ≤ '7' then some (c.toNat - 48) else none

/-- The value of at most so many digits, and what stands behind them. -/
def cutDigits (value? : Char → Option Nat) (base : Nat) : Nat → Nat → List Char → Nat × List Char
  | 0, n, chars => (n, chars)
  | _, n, [] => (n, [])
  | k + 1, n, c :: rest =>
    match value? c with
    | some d => cutDigits value? base k (n * base + d) rest
    | none => (n, c :: rest)

/-- A text with its escapes resolved, at most so many characters; a `c` behind a backslash ends it.
Whether it was ended is told. -/
def unescape : Nat → List Char → List Char × Bool
  | 0, _ => ([], false)
  | _, [] => ([], false)
  | n + 1, '\\' :: c :: rest =>
    let go (meant : List Char) (rest : List Char) : List Char × Bool :=
      let (more, ended) := unescape n rest
      (meant ++ more, ended)
    match c with
    | 'c' => ([], true)
    | 'a' => go ['\x07'] rest
    | 'b' => go ['\x08'] rest
    | 'e' => go ['\x1b'] rest
    | 'f' => go ['\x0c'] rest
    | 'n' => go ['\n'] rest
    | 'r' => go ['\x0d'] rest
    | 't' => go ['\t'] rest
    | 'v' => go ['\x0b'] rest
    | '\\' => go ['\\'] rest
    | 'x' =>
      if (rest.head?.bind hexValue?).isSome then
        let (value, behind) := cutDigits hexValue? 16 2 0 rest
        go [Char.ofNat value] behind
      else go ['\\', 'x'] rest
    | c =>
      if (octalValue? c).isSome then
        -- a leading zero does not count as one of the three digits
        let (value, behind) := cutDigits octalValue? 8 3 0 (if c == '0' then rest else c :: rest)
        go [Char.ofNat (value % 256)] behind
      else go ['\\', c] rest
  | n + 1, c :: rest =>
    let (more, ended) := unescape n rest
    (c :: more, ended)

/-- Whether an argument is made of options that are known here. -/
def isEchoOption (argument : String) : Bool :=
  match argument.toList with
  | '-' :: c :: rest => (c :: rest).all "neE".toList.contains
  | _ => false

/-- Prints arguments as they are, unless an option says otherwise. -/
def printArguments (arguments : List String) : Tool Nat := do
  let letters := (arguments.takeWhile isEchoOption).flatMap String.toList
  let text := " ".intercalate (arguments.dropWhile isEchoOption)
  let escapes := (letters.filter fun c => c == 'e' || c == 'E').getLast? == some 'e'
  let (chars, ended) := if escapes then unescape (text.length + 1) text.toList
    else (text.toList, false)
  print (String.ofList chars)
  if !letters.contains 'n' && !ended then print "\n"
  return 0

/-- Prints arguments over and over. -/
def printForever (arguments : List String) : Tool Nat := do
  let line := (if arguments.isEmpty then "y" else " ".intercalate arguments) ++ "\n"
  let block := String.join (List.replicate (4096 / line.length + 1) line)
  -- Nobody reads more than this; then the tool is killed.
  let rec go : Nat → Tool Nat
    | 0 => return 1
    | n + 1 => do
      print block
      go n
  go 8192

/-! ## Names -/

/-- The last name in a path without an ending; the whole name is no ending. -/
def printBaseName (arguments : List String) : Tool Nat := do
  let g ← given {
    letters := "as:z"
    long := [("multiple", 'a'), ("suffix", 's')]
    permutes := false } arguments
  let cut (file ending : String) : String :=
    let last := (baseName file).toList
    let kept := last.length - ending.length
    if ending.length < last.length && last.drop kept = ending.toList then String.ofList (last.take kept)
    else String.ofList last
  match g.operands with
  | [] => usage 1 "missing operand"
  | operands =>
    if g.has 'a' || g.has 's' then
      operands.forM fun file => printLine (cut file ((g.text? 's').getD ""))
      return 0
    else match operands with
      | [file] =>
        printLine (baseName file)
        return 0
      | [file, ending] =>
        printLine (cut file ending)
        return 0
      | _ => usage 1 ("extra operand " ++ quoted (operands.getD 2 ""))

def printParent (arguments : List String) : Tool Nat := do
  let g ← given { letters := "z" } arguments
  if g.operands.isEmpty then usage 1 "missing operand"
  g.operands.forM fun file => printLine (parentName file)
  return 0

def printDirectory (_ : List String) : Tool Nat := do
  printLine (rawPath (Disk.pathOf (← read).directory))
  return 0

/-- Prints what links hold. -/
def printLinks (arguments : List String) : Tool Nat := do
  let g ← given { letters := "fenqsvmz" } arguments
  if g.operands.isEmpty then usage 1 "missing operand"
  each (fun file => do
    if g.has 'f' || g.has 'e' || g.has 'm' then
      match (← get).disk.locate (← read).directory (path file) with
      | .ok location =>
        printLine (rawPath (Disk.pathOf location))
        return 0
      | .error _ => return 1
    else match ← findEntry file with
      | .ok (_, .link target) =>
        print (rawPath target ++ (if g.has 'n' then "" else "\n"))
        return 0
      | _ => return 1) g.operands

/-! ## Numbers -/

/-- A whole number with a sign. -/
def integer? (text : String) : Option Int :=
  match text.toList with
  | '-' :: digits => (count? (String.ofList digits)).map fun n => -(n : Int)
  | '+' :: digits => (count? (String.ofList digits)).map fun n => (n : Int)
  | _ => (count? text).map fun n => (n : Int)

/-- Whether an argument is a negative number. -/
def isNegative (argument : String) : Bool :=
  match argument.toList with
  | '-' :: c :: _ => c.isDigit || c == '.'
  | _ => false

/-- Arguments with the end of the options marked in front of a negative number. -/
def withNumbersApart : List String → List String
  | [] => []
  | argument :: rest =>
    if isNegative argument then "--" :: argument :: rest
    else if argument.startsWith "-" && argument ≠ "--" then argument :: withNumbersApart rest
    else argument :: rest

/-- A number with so many places behind the point, as a multiple of the last place. -/
structure Decimal where
  value : Int
  places : Nat

/-- A number with places behind a point. -/
def decimal? (text : String) : Option Decimal :=
  let (negative, chars) := match text.toList with
    | '-' :: rest => (true, rest)
    | '+' :: rest => (false, rest)
    | rest => (false, rest)
  let whole := chars.takeWhile Char.isDigit
  let fraction := match chars.drop whole.length with
    | [] => some []
    | '.' :: rest => if rest.all Char.isDigit then some rest else none
    | _ => none
  match fraction with
  | none => none
  | some fraction =>
    if whole.isEmpty && fraction.isEmpty then none
    else
      let digits : Nat := (whole ++ fraction).foldl (fun n c => n * 10 + (c.toNat - 48)) 0
      some ⟨if negative then -(digits : Int) else digits, fraction.length⟩

/-- A number as a multiple of a place; there are not more places in the number. -/
def Decimal.scaled (d : Decimal) (places : Nat) : Int :=
  d.value * Int.pow 10 (places - d.places)

/-- A multiple of a place in digits, and filled up to a width with zeros. -/
def fixed (width places : Nat) (value : Int) : String :=
  let sign := if value < 0 then "-" else ""
  let digits := toString value.natAbs
  let digits := "".pushn '0' (places + 1 - digits.length) ++ digits
  let whole := String.ofList (digits.toList.take (digits.length - places))
  let fraction := String.ofList (digits.toList.drop (digits.length - places))
  let text := if places = 0 then whole else whole ++ "." ++ fraction
  sign ++ "".pushn '0' (width - sign.length - text.length) ++ text

def printSequence (arguments : List String) : Tool Nat := do
  let g ← given {
    letters := "f:s:w"
    long := [("separator", 's'), ("equal-width", 'w')]
    permutes := false } (withNumbersApart arguments)
  let numbers ← g.operands.mapM fun text => do
    match decimal? text with
    | some n => return n
    | none => usage 1 ("invalid floating point argument: " ++ quoted text)
  let one : Decimal := ⟨1, 0⟩
  let (first, step, last) ← match numbers with
    | [last] => pure (one, one, last)
    | [first, last] => pure (first, one, last)
    | [first, step, last] =>
      if step.value = 0 then
        usage 1 ("invalid Zero increment value: " ++ quoted (g.operands.getD 1 ""))
      else pure (first, step, last)
    | [] => usage 1 "missing operand"
    | _ => usage 1 ("extra operand " ++ quoted (g.operands.getD 3 ""))
  let places := max first.places step.places
  -- The last number can have more places; what it has more never makes a difference.
  let common := max places last.places
  let start := first.scaled common
  let stride := step.scaled common
  let count := ((last.scaled common - start) / stride + 1).toNat
  let values := (List.range count).map fun (i : Nat) =>
    (start + stride * (i : Int)) / Int.pow 10 (common - places)
  let width := if g.has 'w' then ((values.map (fixed 0 places)).map String.length).foldl max 0
    else 0
  if !values.isEmpty then
    printLine (((g.text? 's').getD "\n").intercalate (values.map (fixed width places)))
  return 0

/-- The nanoseconds that a text such as `0.5` or `2m` stands for. -/
def duration? (text : String) : Option Nat :=
  let chars := text.toList
  let unit := match chars.getLast? with
    | some 's' => some 1
    | some 'm' => some 60
    | some 'h' => some 3600
    | some 'd' => some 86400
    | _ => none
  let digits := if unit.isSome then chars.dropLast else chars
  let whole := digits.takeWhile Char.isDigit
  let fraction := match digits.drop whole.length with
    | [] => some []
    | '.' :: rest => if rest.all Char.isDigit then some rest else none
    | _ => none
  match fraction with
  | none => none
  | some fraction =>
    if whole.isEmpty && fraction.isEmpty then none
    else
      let nanos := (whole ++ (fraction ++ List.replicate 9 '0').take 9).foldl
        (fun n c => n * 10 + (c.toNat - 48)) 0
      some (nanos * unit.getD 1)

def sleep (arguments : List String) : Tool Nat := do
  if arguments.isEmpty then usage 1 "missing operand"
  let times ← arguments.mapM fun text => do
    match duration? text with
    | some nanos => return nanos
    | none => usage 1 ("invalid time interval " ++ quoted text)
  modify fun w => { w with disk := w.disk.elapse (times.foldl (· + ·) 0) }
  return 0

/-! ## Calling programs -/

/-- Runs a program of a name as a process of its own. -/
def callProgram (execute : Execution) (environment : Environment) (words : List String) :
    Tool (Except SystemFault Exit) := do
  let process := { (← read) with arguments := words, environment := environment }
  let searchPath := (environment.lookup "PATH").getD Execution.defaultPath
  match Execution.fork (← get) process (execute.search searchPath (words.headD "")) with
  | .ok (exit, w) =>
    set w
    return .ok exit
  | .error fault => return .error fault

/-- The status of a tool that could not call another one. -/
def faultStatus (fault : SystemFault) : Nat :=
  if fault == .notFound || fault == .notDirectory then 127 else 126

/-- Runs a program in another environment, or prints that. -/
def inEnvironment (execute : Execution) (arguments : List String) : Tool Nat := do
  let g ← given {
    letters := "iu:0C:S:"
    long := [("ignore-environment", 'i'), ("unset", 'u')]
    failure := 125
    permutes := false } arguments
  let operands := if g.operands.head? == some "-" then g.operands.tail else g.operands
  let around := (← read).environment
  let start : Environment := if g.has 'i' || g.operands.head? == some "-" then [] else around
  let dropped := g.options.filterMap fun option =>
    if option.1 == 'u' then some option.2 else none
  let kept := start.filter fun entry => !dropped.contains entry.1
  let bindings := operands.takeWhile fun word => word.toList.contains '='
  let environment := bindings.foldl (fun (found : Environment) word =>
    let name := String.ofList (word.toList.takeWhile (· != '='))
    let value := String.ofList (word.toList.drop (name.length + 1))
    if (found.lookup name).isSome then
      found.map fun entry => if entry.1 = name then (name, value) else entry
    else found ++ [(name, value)]) kept
  match operands.drop bindings.length with
  -- without a command, the environment is printed
  | [] =>
    environment.forM fun entry => printLine (entry.1 ++ "=" ++ entry.2)
    return 0
  | words =>
    match ← callProgram execute environment words with
    | .ok exit => throw exit
    | .error fault =>
      complain (quoted (words.headD "") ++ ": " ++ fault.phrase)
      return faultStatus fault

def printVariables (arguments : List String) : Tool Nat := do
  let environment := (← read).environment
  match arguments with
  | [] =>
    environment.forM fun entry => printLine (entry.1 ++ "=" ++ entry.2)
    return 0
  | names =>
    each (fun name => do
      match environment.lookup name with
      | some value =>
        printLine value
        return 0
      | none => return 1) names

/-- The words of a text: blanks separate them unless they are quoted. -/
def words (chars : List Char) : List String :=
  let step (state : Array String × Option (List Char) × Option Char) (c : Char) :
      Array String × Option (List Char) × Option Char :=
    let (found, current, quote) := state
    let add : Option (List Char) := some (c :: current.getD [])
    match quote with
    | some '\\' => (found, add, none)
    | some q => if c == q then (found, some (current.getD []), none) else (found, add, quote)
    | none =>
      if c == ' ' || c == '\t' || c == '\n' then
        match current with
        | some word => (found.push (String.ofList word.reverse), none, none)
        | none => (found, none, none)
      else if c == '\'' || c == '"' || c == '\\' then (found, some (current.getD []), some c)
      else (found, add, none)
  let (found, current, _) := chars.foldl step (#[], none, none)
  (match current with
    | some word => found.push (String.ofList word.reverse)
    | none => found).toList

/-- The most bytes of words that a program is called with. -/
def callLimit : Nat := 131072

/-- Words in parts of at most so many words and bytes, with a byte behind each. -/
def inParts (most room : Nat) (all : List String) : List (List String) :=
  let (done, current, _, _) := all.foldl (fun (done, current, count, bytes) word =>
    let size := word.length + 1
    if count < most && bytes + size ≤ room || count = 0 then
      (done, word :: current, count + 1, bytes + size)
    else (current.reverse :: done, [word], 1, size))
    (([], [], 0, 0) : List (List String) × List String × Nat × Nat)
  (if current.isEmpty then done else current.reverse :: done).reverse

/-- Calls a program with each of some lists of words, as long as nothing goes badly wrong. -/
def callEach (execute : Execution) (status : Nat) : List (List String) → Tool Nat
  | [] => return status
  | call :: rest => do
    let name := call.headD ""
    match ← callProgram execute (← read).environment call with
    | .ok (.code 0) => callEach execute status rest
    | .ok (.code 255) =>
      complain (name ++ ": exited with status 255; aborting")
      return 124
    | .ok (.code _) => callEach execute 123 rest
    | .ok (.signal n) =>
      complain (name ++ ": terminated by signal " ++ toString n)
      return 125
    | .error fault =>
      complain (name ++ ": " ++ fault.phrase)
      return faultStatus fault

/-- Calls a program with words from the standard input. -/
def callWithInput (execute : Execution) (arguments : List String) : Tool Nat := do
  let g ← given {
    letters := "0rtd:n:I:L:P:E:s:x"
    long := [("null", '0'), ("no-run-if-empty", 'r'), ("max-args", 'n'), ("replace", 'I')]
    permutes := false } arguments
  let text := match ← readFrom 0 with
    | .ok text => text
    | .error _ => ""
  let separated (mark : String) : List String :=
    let parts := text.splitOn mark
    if parts.getLast? == some "" then parts.dropLast else parts
  let found := if g.has '0' then separated (String.ofList [Char.ofNat 0])
    else match g.text? 'd', g.has 'I' with
      | some mark, _ => separated mark
      | none, true => plainLines text
      | none, false => words text.toList
  let command := if g.operands.isEmpty then ["echo"] else g.operands
  let calls := match g.text? 'I' with
    | some mark => found.map fun word => command.map fun part => word.intercalate (part.splitOn mark)
    | none =>
      let most := ((g.text? 'n').bind count?).getD (max found.length 1)
      let used := command.foldl (fun n word => n + (word.length + 1)) 0
      if found.isEmpty then (if g.has 'r' then [] else [command])
      else (inParts (max most 1) (callLimit - used) found).map fun part => command ++ part
  callEach execute 0 calls

end ProjectBuild.Tool
