import ProjectBuild.Shell.Evaluate

/-!
# The shell as a program

How a shell starts: the variables it knows from its environment, the options and the script that its
arguments give, and the script it reads from its standard input if they give none.
-/

namespace ProjectBuild.Shell

/-- The path of the directory that a process is in: what the environment says, if that is right. -/
def placeOf (process : Process) (w : World) : String :=
  let physical := Raw.ofText (Disk.pathOf process.directory).text
  match process.environment.lookup "PWD" with
  | some place =>
    match w.disk.locate process.directory (State.path place) with
    | .ok location =>
      if place.toList.head? == some '/' && location == process.directory then place else physical
    | .error _ => physical
  | none => physical

/-- The variables that a shell starts with. -/
def startVariables (process : Process) (place : String) : List (String × Variable) :=
  let plain (name value : String) : String × Variable := (name, { value := some value })
  let fixed := [
    plain "IFS" State.defaultSeparators, plain "OPTIND" "1",
    plain "PPID" (toString process.parent),
    ("PWD", { value := some place, exported := true })]
  let told : List (String × Variable) := process.environment.filterMap fun (name, value) =>
    if isName name && (fixed.lookup name).isNone then
      some (name, { value := some value, exported := true })
    else none
  let usual := [
    plain "PATH" State.defaultPath, plain "PS1" "# ", plain "PS2" "> ", plain "PS4" "+ "]
  fixed ++ told ++ usual.filter fun entry => (told.lookup entry.1).isNone

/-- The shell that a process is. -/
def State.ofProcess (process : Process) (w : World) : State where
  world := w
  process := process.number
  rootProcess := process.number
  parentProcess := process.parent
  name := process.arguments.headD "sh"
  directory := process.directory
  place := placeOf process w
  vars := startVariables process (placeOf process w)
  descriptors := process.descriptors

namespace Runner

/-- Runs what the standard input holds. -/
def standardInput (r : Runner) : Act Unit := do
  match (← get).input with
  | .ok (id, bytes) =>
    modify fun s => { s with world := s.world.skip id bytes.size }
    let _ ← r.script false (Raw.ofBytes bytes)
  | .error _ => return

/-- Runs what the arguments of a shell say. -/
def start (r : Runner) (arguments : List String) : Act Unit := do
  let reading ← ShellOption.setAll true (arguments.length + 1) { rest := arguments }
  let _ ← Act.flush
  match reading.takesScript, reading.rest with
  | true, [] => Act.fail "-c requires an argument"
  | true, text :: rest =>
    modify fun s => { s with name := rest.headD s.name, arguments := rest.tail }
    let _ ← r.script false text
    if (← get).isSet 's' && !(← get).isSkipping then r.standardInput
  | false, [] =>
    modify (ShellOption.set true 's')
    r.standardInput
  | false, path :: rest =>
    let s ← get
    if s.isSet 's' then
      set { s with arguments := path :: rest }
      r.standardInput
    else match Invocation.scriptText s path with
      | .error fault => Act.fail ("cannot open " ++ path ++ ": " ++ Opening.readProblem fault)
      | .ok text =>
        set { s with name := path, arguments := rest }
        let _ ← r.script false text
        return

end Runner

/-- The shell. -/
def program (execute : Execution) : Program := fun process w =>
  let r := Runner.ofExecution execute
  r.whole (r.start process.arguments.tail) (State.ofProcess process w)

end ProjectBuild.Shell
