/-!
# Flags

The verbs and flags of the command line. A flag has a long name, often a letter, and possibly a
value. Which flags may stand somewhere depends on the verb in front.
-/

namespace ProjectBuild.CommandLine

/-- What the command line can be asked to do. -/
inductive Verb where
  | build
  | graph
  | completions
  deriving DecidableEq, Repr, Inhabited

namespace Verb

def all : List Verb := [build, graph, completions]

def name : Verb → String
  | build => "build"
  | graph => "graph"
  | completions => "completions"

def named? (text : String) : Option Verb :=
  all.find? fun verb => verb.name == text

end Verb

/-- A shell that completion scripts can be written for. -/
inductive ShellKind where
  | bash
  | zsh
  | fish
  | powershell
  | elvish
  deriving DecidableEq, Repr, Inhabited

namespace ShellKind

def all : List ShellKind := [bash, zsh, fish, powershell, elvish]

def name : ShellKind → String
  | bash => "bash"
  | zsh => "zsh"
  | fish => "fish"
  | powershell => "powershell"
  | elvish => "elvish"

def named? (text : String) : Option ShellKind :=
  all.find? fun shell => shell.name == text

end ShellKind

inductive Flag where
  | help
  | version
  | color
  | logLevel
  | force
  | dryRun
  | clean
  | jobs
  | compiler
  | compilerArgument
  | verbose
  | quiet
  deriving DecidableEq, Repr, Inhabited

/-- What stands behind a flag. -/
inductive Arity where
  | nothing
  /-- A word that looks like no flag. -/
  | value
  /-- Any word at all. -/
  | anyValue
  deriving DecidableEq, Repr, Inhabited

/-- The number of jobs in a text: digits, behind a plus sign or not, for a positive number of 64
bits. -/
def jobCount? (text : String) : Option Nat :=
  let digits := match text.toList with
    | '+' :: rest => rest
    | chars => chars
  if digits.isEmpty || !digits.all Char.isDigit then none
  else
    let count := digits.foldl (fun n c => 10 * n + (c.toNat - '0'.toNat)) 0
    if 0 < count && count < Nat.pow 2 64 then some count else none

namespace Flag

def name : Flag → String
  | help => "help"
  | version => "version"
  | color => "color"
  | logLevel => "log-level"
  | force => "force"
  | dryRun => "dry-run"
  | clean => "clean"
  | jobs => "jobs"
  | compiler => "compiler"
  | compilerArgument => "compiler-arg"
  | verbose => "verbose"
  | quiet => "quiet"

/-- The letter that stands for a flag. -/
def letter? : Flag → Option Char
  | help => some 'h'
  | version => some 'V'
  | force => some 'f'
  | dryRun => some 'n'
  | jobs => some 'j'
  | verbose => some 'v'
  | quiet => some 'q'
  | _ => none

def arity : Flag → Arity
  | color => .value
  | logLevel => .value
  | jobs => .value
  | compiler => .value
  | compilerArgument => .anyValue
  | _ => .nothing

/-- Whether a flag may be given more than once behind one verb. -/
def isRepeatable : Flag → Bool
  | compilerArgument => true
  | _ => false

/-- Whether a text can be the value of a flag. -/
def accepts (flag : Flag) (value : String) : Bool :=
  match flag with
  | jobs => (jobCount? value).isSome
  | _ => true

/-- The flags that may stand behind a verb, or in front of all verbs. -/
def allowed : Option Verb → List Flag
  | none => [help, version, color, logLevel]
  | some .build => [help, color, logLevel, force, dryRun, clean, jobs, compiler,
      compilerArgument, verbose, quiet]
  | some _ => [help, color, logLevel]

end Flag

end ProjectBuild.CommandLine
