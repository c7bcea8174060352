import ProjectBuild.Shell.Builtin.Basic
import ProjectBuild.Shell.Fields

/-!
# Commands on variables

Setting, listing and taking away variables, and reading their values from the standard input.
-/

namespace ProjectBuild.Shell.Builtin

/-! ## Listing -/

/-- A variable as it can be read again. -/
def binding (entry : String × Variable) : String :=
  entry.1 ++ match entry.2.value with
    | some value => "=" ++ quoted value
    | none => ""

/-- Lists the variables of a kind by their names. -/
def listVariables (start : String) (isListed : Variable → Bool) : Act Unit := do
  let found := (← get).vars.filter fun entry => isListed entry.2
  let sorted := found.mergeSort fun a b => decide (a.1 ≤ b.1)
  sorted.forM fun entry => Act.printLine (start ++ binding entry)

/-- Turns options on or off and sets the arguments, or lists all variables. -/
def setArguments : Builtin := fun arguments => do
  if arguments.isEmpty then listVariables "" fun v => v.value.isSome
  else
    let reading ← ShellOption.setAll false (arguments.length + 1) { rest := arguments }
    if reading.replaces then
      modify fun s => { s with arguments := reading.rest, optionIndex := 1, optionPlace := none }
  return 0

/-! ## Properties -/

/-- Gives variables a property, and values where there are some. -/
def declare (name : String) (isListed : Variable → Bool) (change : Variable → Variable) :
    Builtin := fun arguments => do
  let (options, operands) ← Options.readUpTo "p" 1 arguments
  if !options.isEmpty || operands.isEmpty then listVariables (name ++ " ") isListed
  else operands.forM fun word => do
    let (name, value) := cutBinding word
    match value with
    | some value => Act.setVariable name value
    | none =>
      if ((← get).variableOf? name).isNone && !isName name then
        Act.fail (name ++ ": bad variable name")
    modify fun s => s.putVariable name (change ((s.variableOf? name).getD ⟨none, false, false⟩))
  return 0

/-- Lets programs know variables. -/
def exportVariables : Builtin :=
  declare "export" Variable.exported fun v => { v with exported := true }

/-- Keeps variables as they are. -/
def keepVariables : Builtin :=
  declare "readonly" Variable.readOnly fun v => { v with readOnly := true }

/-- Notes what a variable is, to be put back when the command around it ends. The name of the
options is a hyphen. -/
def noteLocal (name : String) : Act Unit :=
  modify fun s =>
    let old := if name = "-" then some ⟨some (String.ofList s.options), false, false⟩
      else s.variableOf? name
    match s.locals with
    | innermost :: others => { s with locals := ((name, old) :: innermost) :: others }
    | [] => s

/-- Makes a variable local. It keeps its value unless it is given one. -/
def makeLocal (exported : Bool) (word : String) : Act Unit := do
  let (name, value) := cutBinding word
  if name = "-" then noteLocal name
  else match value with
    | some value =>
      noteLocal name
      Act.assign name value
      if exported then
        modify fun s => s.putVariable name { value := some value, exported := true }
    | none =>
      if !isName name then Act.fail (name ++ ": bad variable name")
      noteLocal name

/-- Puts back what local variables were. -/
def restoreLocals (noted : List (String × Option Variable)) (s : State) : State :=
  noted.foldl
    (fun s entry =>
      match entry with
      | ("-", old) => { s with options := ((old.bind Variable.value).getD "").toList }
      | (name, some v) => s.putVariable name v
      | (name, none) => s.dropVariable name)
    s

/-- Makes variables local to a function. -/
def localVariables : Builtin := fun arguments => do
  if (← get).locals.isEmpty then Act.fail "not in a function"
  arguments.forM (makeLocal false)
  return 0

/-- Takes variables or functions away. -/
def unsetNames : Builtin := fun arguments => do
  let (options, operands) ← Options.read "vf" arguments
  match options.getLast? with
  | some ('f', _) => modify fun s => { s with
      functions := s.functions.filter fun entry => !operands.contains entry.1 }
  | _ => operands.forM Act.unsetVariable
  return 0

/-! ## Reading -/

/-- A line that is being read. -/
structure Line where
  /-- The pieces of it, the last one first. -/
  pieces : List Piece := []
  /-- The characters since, the last one first. -/
  current : List Char := []
  /-- The bytes that have been read. -/
  count : Nat := 0
  /-- Whether the line has an end. -/
  isComplete : Bool := false

namespace Line

/-- Begins another piece. -/
def close (l : Line) : Line :=
  { l with pieces := .ofValue false l.current.reverse :: l.pieces, current := [] }

def countOne (l : Line) : Line :=
  { l with count := l.count + 1 }

/-- Adds a character that separates nothing. -/
def addQuoted (l : Line) (c : Char) : Line :=
  let l := l.close
  { l with pieces := .fixed true [c] :: l.pieces }

/-- Reads characters up to the end of the line. A backslash quotes the next one, unless it is an
ordinary character. -/
def read (plainBackslash : Bool) (l : Line) : List Char → Line
  | [] => l
  | c :: rest =>
    let l := l.countOne
    if c.toNat = 0 then read plainBackslash l rest
    else if c == '\n' then { l with isComplete := true }
    else if c == '\\' && !plainBackslash then escaped plainBackslash l rest
    else read plainBackslash { l with current := c :: l.current } rest
where
  /-- Reads on behind a backslash. -/
  escaped (plainBackslash : Bool) (l : Line) : List Char → Line
    | [] => l
    | c :: rest =>
      let l := l.countOne
      if c.toNat = 0 then escaped plainBackslash l rest
      else if c == '\n' then read plainBackslash l.close rest
      else read plainBackslash (l.addQuoted c) rest

end Line

/-- Gives variables values; those that are left are given none. -/
def setEach : List String → List String → Act Unit
  | [], _ => return
  | name :: names, values => do
    Act.setVariable name (values.headD "")
    setEach names values.tail

/-- Reads the line that a stream goes on with. So many bytes are looked at, and twice as many as long
as they do not hold the line's end. -/
def Line.ofStream (w : World) (id : Nat) (plainBackslash : Bool) : Nat → Nat → Line
  | 0, _ => {}
  | n + 1, count =>
    match w.unreadUpTo id count with
    | .error _ => {}
    | .ok bytes =>
      let line := Line.read plainBackslash {} (Raw.ofBytes bytes).toList
      if line.isComplete || bytes.size < count then line
      else ofStream w id plainBackslash n (2 * count)

/-- Reads a line into variables. -/
def readLine : Builtin := fun arguments => do
  let (options, names) ← Options.read "p:r" arguments
  if names.isEmpty then Act.fail "arg count"
  let s ← get
  let plainBackslash := options.any fun option => option.1 == 'r'
  let line ← match s.descriptors.lookup 0 with
    | none => pure {}
    | some id =>
      let line := Line.ofStream s.world id plainBackslash 64 128
      set { s with world := s.world.skip id line.count }
      pure line
  let pieces := line.close.pieces.reverse
  let fields := Fields.split s.separators.toList (some names.length) pieces
  setEach names (fields.map fun field => String.ofList ((Piece.marked field).map Prod.fst))
  return if line.isComplete then 0 else 1

/-! ## Options of scripts -/

/-- The options of a script that are looked at one by one. -/
structure OptionScan where
  /-- The options that there are. -/
  accepted : List Char
  /-- The arguments, and which of them is looked at next. -/
  arguments : List String
  index : Nat
  /-- What is left of an argument with several letters. -/
  rest : List Char

namespace OptionScan

/-- Whether a letter is among the options, and whether it takes a text. Behind a letter stands a
colon if it does. -/
def accepts? (c : Char) : List Char → Option Bool
  | [] => none
  | d :: rest =>
    if d == c then some (rest.head? == some ':')
    else match rest with
      | ':' :: rest => accepts? c rest
      | rest => accepts? c rest

/-- What an option is found to be: its letter, its text, and whether there was one. -/
structure Found where
  letter : Char := '?'
  text : Option String := none
  scan : OptionScan
  isEnd : Bool := false

/-- Whether the script complains itself. -/
def isSilent (o : OptionScan) : Bool :=
  o.accepted.head? == some ':'

/-- Looks at a letter. -/
def letter (o : OptionScan) (c : Char) : Act Found := do
  let one := String.ofList [c]
  match accepts? c o.accepted with
  | none =>
    if o.isSilent then return { text := some one, scan := o }
    else
      modify fun s => (s.write 2 ("Illegal option -" ++ one ++ "\n")).2
      return { scan := o }
  | some false => return { letter := c, text := some "", scan := o }
  | some true =>
    if !o.rest.isEmpty then
      return { letter := c, text := some (String.ofList o.rest), scan := { o with rest := [] } }
    else match o.arguments[o.index - 1]? with
      | some text =>
        return { letter := c, text := some text, scan := { o with index := o.index + 1 } }
      | none =>
        if o.isSilent then return { letter := ':', text := some one, scan := o }
        else
          modify fun s => (s.write 2 ("No arg for -" ++ one ++ " option\n")).2
          return { scan := o }

/-- Looks at the next letter. -/
def next (o : OptionScan) : Act Found := do
  match o.rest with
  | c :: rest => letter { o with rest := rest } c
  | [] =>
    match (o.arguments[o.index - 1]?).map String.toList with
    | some ['-', '-'] =>
      return { scan := { o with index := o.index + 1 }, isEnd := true }
    | some ('-' :: c :: rest) => letter { o with index := o.index + 1, rest := rest } c
    | _ => return { scan := o, isEnd := true }

end OptionScan

/-- Reads the next option of a script. -/
def nextOption : Builtin := fun arguments => do
  match arguments with
  | accepted :: name :: others =>
    let s ← get
    let operands := if others.isEmpty then s.arguments else others
    -- fewer operands than before: scanning begins anew
    let isPast := operands.length + 1 < s.optionIndex
    let index := if isPast then 1 else s.optionIndex
    let rest := match if isPast then none else s.optionPlace with
      | some place => if index ≤ 1 then [] else ((operands.getD (index - 2) "").toList.drop place)
      | none => []
    let found ← OptionScan.next ⟨accepted.toList, operands, index, rest⟩
    if !found.isEnd then
      match found.text with
      | some text => Act.assign "OPTARG" text
      | none => Act.unsetVariable "OPTARG"
    let scan := found.scan
    Act.assign "OPTIND" (toString scan.index)
    Act.setVariable name (String.ofList [found.letter])
    let behind := (operands.getD (scan.index - 2) "").length
    modify fun s => { s with
      optionIndex := scan.index
      optionPlace := if scan.rest.isEmpty then none else some (behind - scan.rest.length) }
    return if found.isEnd then 1 else 0
  | _ => Act.fail "Usage: getopts optstring var [arg...]"

end ProjectBuild.Shell.Builtin
