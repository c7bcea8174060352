import ProjectBuild.Shell.Builtin.Basic
import ProjectBuild.Shell.Builtin.Place
import ProjectBuild.Shell.Builtin.Processes
import ProjectBuild.Shell.Builtin.Variables
import ProjectBuild.Shell.Condition
import ProjectBuild.Shell.Format

/-!
# The built-in commands by name

The table of commands, with those that print and those that decide conditions.
-/

namespace ProjectBuild.Shell.Builtin

/-- Prints escaped texts with spaces between them, up to one that ends the output. -/
def printEscaped (newline : Bool) : List String → Act Unit
  | [] => if newline then Act.print "\n" else return
  | text :: rest => do
    let resolved := Escape.resolve text
    Act.print (String.ofList resolved.chars)
    if resolved.ends then return
    else
      if !rest.isEmpty then Act.print " "
      printEscaped newline rest

/-- Prints its arguments; a first one that says so keeps the line open. -/
def echo : Builtin := fun arguments => do
  match arguments with
  | "-n" :: rest => printEscaped false rest
  | arguments => printEscaped true arguments
  return 0

/-- Prints arguments by a format. -/
def printf : Builtin := fun arguments => do
  let (_, operands) ← Options.read "" arguments
  match operands with
  | [] => Act.fail "usage: printf format [arg ...]"
  | format :: rest => Format.print format rest

/-- Decides a condition. -/
def condition : Builtin := fun arguments => do
  match Condition.evaluate (← get) arguments with
  | .ok holds => return if holds then 0 else 1
  | .error complaint => Act.fail complaint

/-- Decides a condition in brackets. -/
def bracket : Builtin := fun arguments => do
  if arguments.getLast? == some "]" then condition arguments.dropLast
  else Act.fail "missing ]"

/-- Prints the time that the shell and its children have worked. -/
def times : Builtin := fun _ => do
  Act.print "0m0.000000s 0m0.000000s\n0m0.000000s 0m0.000000s\n"
  return 0

/-! ## The table

All but the commands that run commands themselves. -/

/-- The built-in command of a name. -/
def named? (name : String) : Option Builtin :=
  match name with
  | ":" => some succeed
  | "[" => some bracket
  | "alias" => some defineAliases
  | "bg" => some resumeJob
  | "break" => some (leaveLoops .loops)
  | "cd" => some changeDirectory
  | "chdir" => some changeDirectory
  | "command" => some describeCommand
  | "continue" => some (leaveLoops .rounds)
  | "echo" => some echo
  | "exit" => some exit
  | "export" => some exportVariables
  | "false" => some fail
  | "fg" => some resumeJob
  | "getopts" => some nextOption
  | "hash" => some rememberPrograms
  | "jobs" => some listJobs
  | "kill" => some kill
  | "local" => some localVariables
  | "printf" => some printf
  | "pwd" => some printDirectory
  | "read" => some readLine
  | "readonly" => some keepVariables
  | "return" => some leaveFunction
  | "set" => some setArguments
  | "shift" => some shift
  | "test" => some condition
  | "times" => some times
  | "trap" => some trap
  | "true" => some succeed
  | "type" => some describeEach
  | "ulimit" => some limit
  | "umask" => some mask
  | "unalias" => some dropAliases
  | "unset" => some unsetNames
  | _ => none

end ProjectBuild.Shell.Builtin
