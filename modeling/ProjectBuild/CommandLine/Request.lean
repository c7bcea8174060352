import ProjectBuild.CommandLine.Scan
import ProjectBuild.Compile.Command
import ProjectBuild.Process.Basic

/-!
# Requests

What a command line asks for. A flag that may stand in front of the verb and behind it counts
where it is given last. Variables of the environment stand in for some flags that are not given,
and are held to the same rules.
-/

namespace ProjectBuild.CommandLine

structure BuildRequest where
  roots : List Path
  force : Bool
  dryRun : Bool
  /-- Remove what builds produce, and build nothing. -/
  clean : Bool
  /-- How many projects may be compiled at a time. -/
  jobs : Option Nat
  compiler : String
  compilerArguments : List String
  verbose : Bool
  quiet : Bool
  deriving Repr, Inhabited

inductive Task where
  | build (request : BuildRequest)
  | graph (roots : List Path)
  | completions (shell : ShellKind)
  deriving Repr, Inhabited

/-- A task, and how its output is to look. -/
structure Request where
  task : Task
  color : String
  logLevel : String
  deriving Repr, Inhabited

namespace Request

def defaultColor : String := "auto"

def defaultLogLevel : String := "warn"

def jobsVariable : String := "TSBUILD_JOBS"

def compilerVariable : String := "TSBUILD_COMPILER"

/-- Flags that exclude one another. -/
def conflicts : List (Flag × Flag) :=
  [(.clean, .force), (.clean, .dryRun), (.quiet, .verbose)]

/-- The value of a flag, or else of a variable. -/
def valueOr (s : Scan) (flag : Flag) (environment : Environment) (name : String) :
    Except Stop (Option String) :=
  match s.value? flag with
  | some value => .ok (some value)
  | none =>
    match environment.lookup name with
    | none => .ok none
    | some value =>
      if flag.accepts value then .ok (some value)
      else .error (.wrong (.invalidVariable name value))

/-- The build that the words behind its verb ask for. -/
def buildTask (environment : Environment) (s : Scan) : Except Stop Task :=
  match valueOr s .jobs environment jobsVariable,
    valueOr s .compiler environment compilerVariable,
    conflicts.find? fun pair => s.has pair.1 && s.has pair.2 with
  -- of several faults the first is reported, in this order
  | .error stop, _, _ => .error stop
  | _, .error stop, _ => .error stop
  | _, _, some (flag, other) => .error (.wrong (.conflict flag other))
  | .ok jobs, .ok compiler, none => .ok (.build {
      roots := s.operands.map fun text => ⟨text⟩
      force := s.has .force
      dryRun := s.has .dryRun
      clean := s.has .clean
      jobs := jobs.bind jobCount?
      compiler := compiler.getD CompileCommand.defaultProgram
      compilerArguments := s.values .compilerArgument
      verbose := s.has .verbose
      quiet := s.has .quiet })

/-- The shell that the words behind a verb name. -/
def shellTask (s : Scan) : Except Stop Task :=
  match s.operands with
  | [] => .error (.wrong .missingShell)
  | name :: _ =>
    match ShellKind.named? name with
    | some shell => .ok (.completions shell)
    | none => .error (.wrong (.unknownShell name))

/-- The task of a verb. -/
def taskOf (environment : Environment) (verb : Verb) (s : Scan) : Except Stop Task :=
  match verb with
  | .build => buildTask environment s
  | .graph => .ok (.graph (s.operands.map fun text => ⟨text⟩))
  | .completions => shellTask s

/-- The value of a flag behind the verb, or else in front of it. -/
def common (front behind : Scan) (flag : Flag) (default : String) : String :=
  ((behind.value? flag).or (front.value? flag)).getD default

/-- What the words behind `help` ask for. -/
def helpOn : List String → Stop
  | [] => .help none
  | [name] =>
    if name = Flag.help.name then .help none
    else match Verb.named? name with
      | some verb => .help (some verb)
      | none => .wrong (.unknownVerb name)
  | _ :: name :: _ => .wrong (.unknownVerb name)

/-- The request of a command line. -/
def ofArguments (environment : Environment) (arguments : List String) : Except Stop Request :=
  match Scan.readFront {} arguments with
  | .error stop => .error stop
  | .ok (_, []) => .error (.wrong .missingVerb)
  | .ok (front, name :: rest) =>
    match Verb.named? name with
    | none =>
      -- a verb of its own, with the verb to be explained behind it
      if name = Flag.help.name then .error (helpOn rest) else .error (.wrong (.unknownVerb name))
    | some verb =>
      match Scan.readAll verb {} rest with
      | .error stop => .error stop
      | .ok behind =>
        match taskOf environment verb behind with
        | .error stop => .error stop
        | .ok task => .ok {
            task := task
            color := common front behind .color defaultColor
            logLevel := common front behind .logLevel defaultLogLevel }

end Request

end ProjectBuild.CommandLine
