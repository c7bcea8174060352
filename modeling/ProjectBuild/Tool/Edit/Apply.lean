import ProjectBuild.Tool.Edit.Script

/-!
# Applying scripts to text

A script runs once for each line, on a pattern space that begins as that line. What is printed ends
with a line end, unless it is the last line of a text without one.
-/

namespace ProjectBuild.Tool.Edit

/-- A line of a text. -/
structure Line where
  text : List Char
  /-- Whether it ends with a line end. -/
  isEnded : Bool := true

/-- How far a range of lines goes on. -/
inductive Extension where
  | none
  /-- Up to a line. -/
  | toLine (n : Nat)
  /-- Up to a line that its limit chooses. -/
  | toLimit
  deriving DecidableEq, Repr, Inhabited

/-- What is printed once a line is done. -/
inductive Appendix where
  | text (text : String)
  | file (name : String)

/-- A run of a script. -/
structure Editor where
  script : Array Instruction
  /-- Whether lines are printed only if a command says so. -/
  quiet : Bool
  /-- The lines that are still to be read. -/
  rest : List Line
  /-- The number of the line that has been read last. -/
  number : Nat := 0
  pattern : List Char := []
  isEnded : Bool := true
  /-- The hold space. -/
  kept : List Char := []
  /-- The ranges that go on, by the places of their instructions. -/
  ranges : List (Nat × Extension) := []
  /-- The last appendix first. -/
  appendices : List Appendix := []
  hasReplaced : Bool := false
  /-- The last expression that was used. -/
  lastUsed : Option Expression := none
  /-- Whether the end of the last line that was printed is still to be printed. -/
  owesEnd : Bool := false

abbrev Editing := StateT Editor Tool

/-- How a run of the script for one line ends. -/
inductive Outcome where
  /-- The line is printed, unless the run is quiet. -/
  | printed
  | dropped
  /-- The script runs again, on what is left of the line. -/
  | again
  | quit (status : Nat) (prints : Bool)

/-! ## Output -/

/-- Prints a text, with the line end that is owed in front of it. -/
def printText (raw : String) : Editing Unit := do
  if (← get).owesEnd then
    modify fun e => { e with owesEnd := false }
    print "\n"
  print raw

def printChars (chars : List Char) (isEnded : Bool) : Editing Unit := do
  printText (String.ofList chars ++ (if isEnded then "\n" else ""))
  if !isEnded then modify fun e => { e with owesEnd := true }

def printPattern : Editing Unit := do
  let e ← get
  printChars e.pattern e.isEnded

/-- Adds a line to a file. -/
def addTo (file : String) (chars : List Char) : Editing Unit := do
  if file = "/dev/stdout" then printChars chars true
  else
    let bytes := Raw.bytes (String.ofList chars ++ "\n")
    let _ ← Tool.change fun disk directory => disk.appendFile directory (path file) bytes

def printAppendices : Editing Unit := do
  let all := (← get).appendices.reverse
  modify fun e => { e with appendices := [] }
  all.forM fun
    | .text text => printText text
    | .file name => do
      match ← contents name with
      | .ok text => if text ≠ "" then printText text
      | .error _ => return

/-- A character as it can be seen; the characters of a line are those in front of its end. -/
def visibleChar (c : Char) : List Char :=
  match c with
  | '\\' => ['\\', '\\']
  | c => if isVisible c || c == ' ' then [c] else
    match c.toNat with
    | 7 => ['\\', 'a']
    | 8 => ['\\', 'b']
    | 9 => ['\\', 't']
    | 10 => ['\\', 'n']
    | 11 => ['\\', 'v']
    | 12 => ['\\', 'f']
    | 13 => ['\\', 'r']
    | n => '\\' :: [64, 8, 1].map fun place => Char.ofNat (48 + n / place % 8)

/-- Breaks visible characters into lines of at most so many, with a backslash behind each but the
last one. -/
def broken (width : Nat) (column : Nat) : List (List Char) → List Char
  | [] => ['$']
  | c :: rest =>
    if width < column + c.length then '\\' :: '\n' :: c ++ broken width c.length rest
    else c ++ broken width (column + c.length) rest

/-! ## Input -/

def isLast : Editing Bool := do
  return (← get).rest.isEmpty

/-- Reads the next line, if there is one, and gives it to a function. -/
def readLine (use : Line → Editor → Editor) : Editing Bool := do
  printAppendices
  let e ← get
  match e.rest with
  | [] => return false
  | line :: rest =>
    set (use line { e with
      rest := rest, number := e.number + 1, isEnded := line.isEnded, hasReplaced := false })
    return true

/-! ## Addresses -/

/-- The expression that is used: the one that is given, or the last one. -/
def used (given : Option Expression) : Editing Expression := do
  match given.or (← get).lastUsed with
  | some e =>
    modify fun editor => { editor with lastUsed := some e }
    return e
  | none => fail 1 "-e expression #1, char 0: no previous regular expression"

def matchesPattern (given : Option Expression) : Editing Bool := do
  let e ← used given
  return e.isMatch (← get).pattern

def Address.holds (a : Address) : Editing Bool := do
  let n := (← get).number
  match a with
  | .line m => return n == m
  | .step first width => return first ≤ n && (n - first) % width == 0
  | .last => isLast
  | .matching e => matchesPattern e

/-- How far a range goes on that begins with this line. -/
def Limit.extension (l : Limit) (n : Nat) (isLast : Bool) : Extension :=
  let upTo (m : Nat) : Extension := if n < m then .toLine m else .none
  match l with
  | .line m => upTo m
  | .further m => upTo (n + m)
  | .multiple m => if m = 0 then .none else upTo ((n + m - 1) / m * m)
  | .last => if isLast then .none else .toLimit
  | .matching _ => .toLimit

/-- Whether a line ends a range whose limit chooses lines. -/
def Limit.endsHere (l : Limit) : Editing Bool :=
  match l with
  | .last => isLast
  | .matching e => matchesPattern e
  | _ => return true

/-- Whether the addresses of the instruction at a place choose the line. -/
def chooses (place : Nat) (i : Instruction) : Editing Bool := do
  match i.first, i.second with
  | none, _ => return true
  | some first, none => first.holds
  | some first, some limit =>
    let e ← get
    let goOn (x : Extension) : Editing Unit :=
      modify fun e => { e with ranges := (place, x) :: e.ranges.filter fun r => r.1 != place }
    match (e.ranges.lookup place).getD .none with
    | .toLine m =>
      if e.number < m then return true
      else
        goOn .none
        return e.number == m
    | .toLimit =>
      if ← limit.endsHere then goOn .none
      return true
    | .none =>
      if ← first.holds then
        goOn (limit.extension e.number e.rest.isEmpty)
        return true
      else return false

/-- Whether the range of the instruction at a place goes on behind the line. -/
def goesOn (place : Nat) : Editing Bool := do
  match ((← get).ranges.lookup place).getD .none with
  | .none => return false
  | _ => return true

/-! ## Substitution -/

/-- Characters in the casing that holds, and the casing for what follows. -/
def cased (held : Casing) (once : Option Casing) : List Char → List Char × Option Casing
  | [] => ([], once)
  | c :: rest =>
    let change (kind : Casing) (c : Char) : Char :=
      match kind with
      | .plain => c
      | .upper => c.toUpper
      | .lower => c.toLower
    (change (once.getD held) c :: rest.map (change held), none)

/-- What a match is replaced by. -/
def fill (whole : List Char) (groups : List (Nat × List Char)) (held : Casing)
    (once : Option Casing) : List Part → List Char
  | [] => []
  | .casing kind true :: rest => fill whole groups held (some kind) rest
  | .casing kind false :: rest => fill whole groups kind none rest
  | part :: rest =>
    let text := match part with
      | .text c => [c]
      | .group 0 => whole
      | .group n => (groups.lookup n).getD []
      | .casing _ _ => []
    let (text, once) := cased held once text
    text ++ fill whole groups held once rest

/-- Replaces the match that counts, and all that follow if that is asked for; whether there was one
is told. An empty match right behind another one does not count. -/
def Substitution.apply (s : Substitution) (e : Expression) :
    Nat → Nat → Bool → List Char → List Char → List Char × Bool
  | 0, _, _, _, after => (after, false)
  | n + 1, nth, afterMatch, before, after =>
    match e.search before after with
    | none => (after, false)
    | some (start, stop) =>
      let kept := after.take (after.length - start.after.length)
      let whole := start.after.take (start.after.length - stop.after.length)
      if whole.isEmpty && afterMatch && kept.isEmpty then
        -- it is passed over, with one character
        match stop.after with
        | c :: rest =>
          let (others, any) := s.apply e n nth false (c :: stop.before) rest
          (c :: others, any)
        | [] => ([], false)
      else
        -- the matches before the one asked for are kept
        let counts := nth ≤ 1
        let text := if counts then fill whole stop.groups .plain none s.parts else whole
        if counts && !s.all then (kept ++ text ++ stop.after, true)
        else
          match whole, stop.after with
          | [], c :: rest =>
            let (others, any) := s.apply e n (nth - 1) false (c :: stop.before) rest
            (kept ++ text ++ c :: others, any || counts)
          | [], [] => (kept ++ text, counts)
          | _, _ =>
            let (others, any) := s.apply e n (nth - 1) true stop.before stop.after
            (kept ++ text ++ others, any || counts)

/-- Replaces matches in the pattern space. -/
def replaceMatches (s : Substitution) : Editing Unit := do
  let e ← used s.expression
  let pattern := (← get).pattern
  let (text, any) := s.apply e (pattern.length + 2) s.nth false [] pattern
  if any then
    modify fun editor => { editor with pattern := text, hasReplaced := true }
    if s.prints then printPattern
    if let some file := s.target then addTo file text

/-! ## Running a script -/

/-- The characters of the pattern space up to its first line end. -/
def firstLine (chars : List Char) : List Char :=
  chars.takeWhile (· != '\n')

/-- The place of a label; without a name, the end. -/
def placeOf (script : Array Instruction) (name : String) : Nat :=
  let isLabel (i : Instruction) : Bool := match i.act with
    | .label found => found == name
    | _ => false
  if name = "" then script.size else (script.findIdx? isLabel).getD script.size

/-- The place behind the block that begins in front of some instructions. -/
def behindBlock (place depth : Nat) : List Instruction → Nat
  | [] => place
  | i :: rest =>
    match i.act, depth with
    | .closeBlock, 0 => place + 1
    | .closeBlock, n + 1 => behindBlock (place + 1) n rest
    | .openBlock, n => behindBlock (place + 1) (n + 1) rest
    | _, n => behindBlock (place + 1) n rest

/-- What a command does that neither jumps nor ends the run. `none` says that the next instruction
follows. -/
def Act.apply (a : Act) (place : Nat) : Editing (Option Outcome) := do
  let e ← get
  match a with
  | .substitute s => replaceMatches s
  | .translate table =>
    set { e with pattern := e.pattern.map fun c => (table.lookup c).getD c }
  | .append text => set { e with appendices := .text text :: e.appendices }
  | .readFile name => set { e with appendices := .file name :: e.appendices }
  | .insert text => printText text
  | .print => printPattern
  | .printFirst => printChars (firstLine e.pattern) true
  | .printVisibly => printChars (broken 69 0 (e.pattern.map visibleChar)) true
  | .number => printText (toString e.number ++ "\n")
  | .hold => set { e with kept := e.pattern }
  | .holdMore => set { e with kept := e.kept ++ '\n' :: e.pattern }
  | .recall => set { e with pattern := e.kept }
  | .recallMore => set { e with pattern := e.pattern ++ '\n' :: e.kept }
  | .exchange => set { e with pattern := e.kept, kept := e.pattern }
  | .clear => set { e with pattern := [] }
  | .writeFile name => addTo name e.pattern
  | .delete => return some .dropped
  | .deleteFirst =>
    let rest := e.pattern.drop (firstLine e.pattern).length
    if rest.isEmpty then return some .dropped
    else
      set { e with pattern := rest.tail }
      return some .again
  | .change text =>
    -- in a range, the text stands once, behind the last line of it
    if !(← goesOn place) then printText text
    return some .dropped
  | .quit status prints => return some (.quit status prints)
  | .next =>
    if e.rest.isEmpty then return some .printed
    else
      if !e.quiet then printPattern
      let _ ← readLine fun line e => { e with pattern := line.text }
  | .joinNext =>
    if e.rest.isEmpty then return some .printed
    else let _ ← readLine fun line e => { e with pattern := e.pattern ++ '\n' :: line.text }
  | _ => pure ()
  return none

/-- Runs the script from a place on, for at most so many steps. -/
def runFrom : Nat → Nat → Editing Outcome
  | 0, _ => fail 4 "couldn't re-allocate memory"
  | n + 1, place => do
    let e ← get
    match e.script[place]? with
    | none => return .printed
    | some i =>
      let chosen := (← chooses place i) != i.negated
      match i.act with
      | .openBlock =>
        if chosen then runFrom n (place + 1)
        else runFrom n (behindBlock (place + 1) 0 (e.script.toList.drop (place + 1)))
      | .jump kind name =>
        if !chosen then runFrom n (place + 1)
        else
          let hasReplaced := (← get).hasReplaced
          -- asking whether there was a replacement forgets about it
          if kind != .always then modify fun e => { e with hasReplaced := false }
          let jumps := match kind with
            | .always => true
            | .ifReplaced => hasReplaced
            | .ifNotReplaced => !hasReplaced
          runFrom n (if jumps then placeOf e.script name else place + 1)
      | act =>
        if !chosen then runFrom n (place + 1)
        else match ← act.apply place with
          | none => runFrom n (place + 1)
          | some outcome => return outcome

/-- Steps that are made for one line at most. -/
def stepLimit : Nat := 100000000

/-- Edits the lines that are left, at most so many times. The status is given by which the script
ends the run, if it does. -/
def editLines : Nat → Bool → Editing (Option Nat)
  | 0, _ => return none
  | n + 1, hasLine => do
    let found ← if hasLine then pure true
      else readLine fun line e => { e with pattern := line.text }
    if !found then return none
    else
      let outcome ← runFrom stepLimit 0
      let shows := match outcome with
        | .printed => true
        | .quit _ prints => prints
        | _ => false
      if shows && !(← get).quiet then printPattern
      printAppendices
      match outcome with
      | .quit status _ => return some status
      | .again => editLines n true
      | _ => editLines n false

end ProjectBuild.Tool.Edit
