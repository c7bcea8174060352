import ProjectBuild.Process.World
import ProjectBuild.Shell.Numeral
import ProjectBuild.Shell.Syntax

/-!
# The state of a shell

What a shell knows while it runs a script. Some of it is the world that it shares with other
processes; the rest is its own, and a shell that is split off works on a copy of it. What a
command does next, apart from its status, is either to go on or to **stop**.
-/

namespace ProjectBuild.Shell

structure Variable where
  /-- A variable can have properties without being set. -/
  value : Option String
  exported : Bool := false
  readOnly : Bool := false
  deriving DecidableEq, Repr, Inhabited

structure FunctionBody where
  line : Nat
  body : Command
  deriving Inhabited

/-- What is passed over before the script goes on. -/
inductive Skip where
  | nothing
  /-- The rest of so many loops. -/
  | loops (count : Nat)
  /-- The rest of a round, and of that many loops less one. -/
  | rounds (count : Nat)
  /-- The rest of a function or script. -/
  | function
  deriving DecidableEq, Repr, Inhabited

/-- A command that was left running. -/
structure Job (σ : Type) where
  number : Nat
  process : Nat
  /-- The command and the shell that runs it, until that is done. -/
  work : Option (Command × σ)
  /-- How the command ended. -/
  exit : Exit := .code 0
  /-- Whether the shell knows how the command ended. -/
  isNoticed : Bool := false

structure State where
  world : World
  /-- The number of the process that the shell is. -/
  process : Nat := 0
  /-- The number of the process that runs the script as a whole. -/
  rootProcess : Nat := 0
  parentProcess : Nat := 0
  /-- What the script is called in complaints. -/
  name : String := "sh"
  /-- The command that complaints are about. -/
  command : Option String := none
  /-- The line that complaints are about. -/
  line : Nat := 0
  directory : Location
  /-- The path by which the directory was reached. -/
  place : String
  vars : List (String × Variable) := []
  functions : List (String × FunctionBody) := []
  aliases : List (String × String) := []
  /-- The positional parameters. -/
  arguments : List String := []
  /-- The argument that is looked at next for options. -/
  optionIndex : Nat := 1
  /-- How far the options in the argument before that have been looked at. -/
  optionPlace : Option Nat := none
  /-- The letters of the options that are set. -/
  options : List Char := []
  /-- What is run when a signal comes; zero stands for the end of the shell. -/
  traps : List (Nat × String) := []
  descriptors : Descriptors := World.startDescriptors
  /-- The status of the last command. -/
  status : Nat := 0
  /-- The status of the last command whose output was put in place. -/
  outputStatus : Nat := 0
  /-- While a trap is run, the status before it. -/
  trapStatus : Option Nat := none
  skip : Skip := .nothing
  /-- Loops around, inside of the current function. -/
  loops : Nat := 0
  /-- What local variables were before, for each command around that has some. -/
  locals : List (List (String × Option Variable)) := []
  documents : List (Nat × Word) := []
  nextDocument : Nat := 0
  /-- The functions that are being run. -/
  depth : Nat := 0
  /-- The last process that was left running. -/
  lastBackground : Option Nat := none
  /-- Commands that were left running, the last one first. -/
  jobs : List (Job State) := []
  /-- The programs that have been found, with their paths. -/
  remembered : List (String × String) := []
  /-- Who may not do what with a new file. -/
  mask : Nat := 18
  /-- What a command has printed and is still to be written to the standard output. -/
  unwritten : String := ""
  deriving Inhabited

/-- Why a shell does not go on. -/
inductive Stop where
  | exit
  /-- After a complaint. -/
  | fault
  | killed (signal : Nat)
  deriving DecidableEq, Repr, Inhabited

/-! ## Order of names -/

/-- Names are kept in so many groups, and listed group by group. -/
def groupOf (groups : Nat) (name : String) : Nat :=
  let first := ((name.toList.head?).map Char.toNat).getD 0
  (name.toList.foldl (fun sum c => sum + c.toNat) (first * 16)) % 32768 % groups

/-- Entries in the order in which they are listed. -/
def listed {α : Type} (groups : Nat) (entries : List (String × α)) : List (String × α) :=
  entries.mergeSort fun a b => decide (groupOf groups a.1 ≤ groupOf groups b.1)

/-- Something that a shell does. -/
abbrev Act := ExceptT Stop (StateM State)

namespace State

/-! ## Paths -/

/-- The path that a raw text spells. -/
def path (raw : String) : Path :=
  ⟨Raw.text raw⟩

def node? (s : State) (raw : String) : Except SystemFault (Location × DiskNode) :=
  s.world.disk.find s.directory (path raw)

/-! ## Variables -/

/-- Where the shell looks for programs unless it is told otherwise. -/
def defaultPath : String := "/usr/local/sbin:/usr/local/bin:/usr/sbin:/usr/bin:/sbin:/bin"

def defaultSeparators : String := " \t\n"

def variableOf? (s : State) (name : String) : Option Variable :=
  s.vars.lookup name

def value? (s : State) (name : String) : Option String :=
  (s.variableOf? name).bind Variable.value

/-- Sets a variable with its properties. It keeps its place; a new one comes last. -/
def putVariable (s : State) (name : String) (v : Variable) : State :=
  { s with vars :=
    if (s.vars.lookup name).isSome then
      s.vars.map fun entry => if entry.1 = name then (name, v) else entry
    else s.vars ++ [(name, v)] }

def dropVariable (s : State) (name : String) : State :=
  { s with vars := s.vars.filter fun entry => entry.1 != name }

def isReadOnly (s : State) (name : String) : Bool :=
  (s.variableOf? name).any Variable.readOnly

def isSet (s : State) (option : Char) : Bool :=
  s.options.contains option

/-- Gives a variable a value. It keeps its properties. -/
def assign (s : State) (name value : String) : State :=
  let old := (s.variableOf? name).getD ⟨none, false, false⟩
  s.putVariable name { old with value := some value, exported := old.exported || s.isSet 'a' }

/-- The variables that programs are told about. -/
def exported (s : State) : Environment :=
  (listed 39 s.vars).filterMap fun (name, v) =>
    if v.exported then v.value.map fun value => (name, value) else none

/-- The characters between fields. -/
def separators (s : State) : String :=
  (s.value? "IFS").getD defaultSeparators

/-- Where programs are looked for. -/
def searchPath (s : State) : String :=
  (s.value? "PATH").getD ""

/-! ## Streams -/

/-- Writes to a descriptor; why that failed is told. -/
def write (s : State) (descriptor : Nat) (raw : String) : Option SystemFault × State :=
  match s.descriptors.lookup descriptor with
  | none => (if raw = "" then none else some .badDescriptor, s)
  | some id =>
    match s.world.write id (Raw.bytes raw) with
    | .ok world => (none, { s with world := world })
    | .error fault => (some fault, s)

/-- Opens a descriptor, in place of what it was before. -/
def setDescriptor (s : State) (descriptor : Nat) (id : Option Nat) : State :=
  let others := s.descriptors.filter fun entry => entry.1 != descriptor
  { s with descriptors := match id with
    | some id => (descriptor, id) :: others
    | none => others }

/-- What is left to read from the standard input. -/
def input (s : State) : Except SystemFault (Nat × ByteArray) :=
  match s.descriptors.lookup 0 with
  | none => .error .badDescriptor
  | some id => (s.world.unread id).map fun bytes => (id, bytes)

/-! ## Complaints -/

/-- A complaint of the shell, with the command that it is about. -/
def complaint (s : State) (text : String) : String :=
  s.name ++ ": " ++ toString s.line ++ ": " ++
    ((s.command.map fun command => command ++ ": ").getD "") ++ text ++ "\n"

/-- Writes a complaint. -/
def warn (s : State) (text : String) : State :=
  (s.write 2 (s.complaint text)).2

/-- Whether loops are left, or the rest of a function. -/
def isSkipping (s : State) : Bool :=
  s.skip != .nothing

end State

namespace Act

/-- Stops, unless something catches it. -/
def stop {α : Type} (why : Stop) : Act α :=
  throw why

/-- Stops with a complaint. -/
def fail {α : Type} (text : String) : Act α := do
  modify fun s => { s.warn text with status := 2 }
  stop .fault

def warn (text : String) : Act Unit :=
  modify fun s => s.warn text

/-- Prints to the standard output; it is written once the command is done. -/
def print (raw : String) : Act Unit :=
  modify fun s => { s with unwritten := s.unwritten ++ raw }

def printLine (raw : String) : Act Unit :=
  print (raw ++ "\n")

/-- Writes what has been printed; whether that worked is told. A shell whose output nobody reads
is killed. -/
def flush : Act Bool := do
  let s ← get
  let (problem, after) := s.write 1 s.unwritten
  set { after with unwritten := "" }
  match problem with
  | some .brokenPipe => stop (.killed 13)
  | problem => return problem.isNone

/-- Looks for options from the start again. -/
def resetOptions (index : String) : Act Unit := do
  match Numeral.count? index with
  | some n => modify fun s => { s with optionIndex := max n 1, optionPlace := none }
  | none => fail ("Illegal number: " ++ index)

/-- Gives a variable a value, unless it may not be changed. -/
def assign (name value : String) : Act Unit := do
  if (← get).isReadOnly name then fail (name ++ ": is read only")
  else
    modify fun s => s.assign name value
    if name = "OPTIND" then resetOptions value
    if name = "PATH" then modify fun s => { s with remembered := [] }

/-- As `assign`, for a name that may be none. -/
def setVariable (name value : String) : Act Unit := do
  if isName name then assign name value else fail (name ++ ": bad variable name")

/-- Takes a variable away. -/
def unsetVariable (name : String) : Act Unit := do
  let s ← get
  if !isName name then fail (name ++ ": bad variable name")
  else if s.isReadOnly name then fail (name ++ ": is read only")
  else set (s.dropVariable name)

/-- Runs something, and puts something back whatever becomes of it. `restore` is given the state
before and the state after. -/
def guarded {α : Type} (restore : State → State → State) (act : Act α) : Act α := fun s =>
  let (result, after) := act s
  (result, restore s after)

/-- Runs something; whether it went well, and not wrong with a complaint, is told. -/
def succeeds (act : Act Unit) : Act Bool := fun s =>
  match act s with
  | (.ok (), after) => (.ok true, after)
  | (.error .fault, after) => (.ok false, after)
  | (.error why, after) => (.error why, after)

def setStatus (status : Nat) : Act Unit :=
  modify fun s => { s with status := status }

end Act

end ProjectBuild.Shell
