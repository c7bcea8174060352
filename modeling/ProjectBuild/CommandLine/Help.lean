import ProjectBuild.CommandLine.Request
import ProjectBuild.Record.Basic

/-!
# Help

The texts that tell how the command line is used, and scripts that complete its words in a shell.
-/

namespace ProjectBuild.CommandLine

def programName : String := "tsbuild"

def versionLine : String := programName ++ " " ++ BuildRecord.programVersion ++ "\n"

namespace Flag

/-- What a value is called in help; empty for a flag without a value. -/
def placeholder : Flag → String
  | color => "WHEN"
  | logLevel => "LEVEL"
  | jobs => "N"
  | compiler => "PROGRAM"
  | compilerArgument => "ARG"
  | _ => ""

def purpose : Flag → String
  | help => "Print help"
  | version => "Print version"
  | color => "Colorize output (always, never, auto)"
  | logLevel => "Set log level (error, warn, info, debug, trace)"
  | force => "Rebuild every project even when it is up to date"
  | dryRun => "Show the build plan without compiling anything"
  | clean => "Remove build outputs and metadata instead of building"
  | jobs => "Maximum number of projects compiled at once"
  | compiler => "Program invoked to compile one project"
  | compilerArgument => "Argument passed to the compiler"
  | verbose => "Show every project and why it was or was not rebuilt"
  | quiet => "Suppress all output except errors"

def long (flag : Flag) : String :=
  "--" ++ flag.name

/-- All spellings of a flag. -/
def spellings (flag : Flag) : String :=
  match flag.letter? with
  | some letter => String.ofList ['-', letter] ++ ", " ++ flag.long
  | none => flag.long

/-- The line about a flag. -/
def helpLine (flag : Flag) : String :=
  "  " ++ flag.spellings ++
    (if flag.arity = .nothing then "" else " <" ++ flag.placeholder ++ ">") ++
    "  " ++ flag.purpose ++ "\n"

end Flag

namespace Verb

def purpose : Verb → String
  | build => "Build the projects reachable from the given roots, in dependency order"
  | graph => "Show the project reference tree and its build levels"
  | completions => "Generate shell completion scripts"

/-- What stands behind a verb. -/
def operands : Verb → String
  | completions => "<SHELL>"
  | _ => "[ROOTS]..."

end Verb

/-- How a command line is put together. -/
def usageLine (verb : Option Verb) : String :=
  "Usage: " ++ programName ++
    (match verb with
      | none => " [OPTIONS] <COMMAND>"
      | some verb => " " ++ verb.name ++ " [OPTIONS] " ++ verb.operands) ++ "\n"

/-- The verbs, one a line. -/
def verbLines : String :=
  String.join (Verb.all.map fun verb => "  " ++ verb.name ++ "  " ++ verb.purpose ++ "\n")

def helpText (verb : Option Verb) : String :=
  (match verb with
    | none => "Build TypeScript project reference graphs"
    | some verb => verb.purpose) ++ "\n\n" ++ usageLine verb ++
    (if verb.isNone then "\nCommands:\n" ++ verbLines else "") ++
    "\nOptions:\n" ++ String.join ((Flag.allowed verb).map Flag.helpLine)

namespace UsageError

def message : UsageError → String
  | unknownFlag word => "unexpected argument '" ++ word ++ "'"
  | unneededValue flag => "'" ++ flag.long ++ "' takes no value"
  | missingValue flag => "a value is required for '" ++ flag.long ++ "'"
  | invalidValue flag value => "invalid value '" ++ value ++ "' for '" ++ flag.long ++ "'"
  | repeated flag => "'" ++ flag.long ++ "' cannot be used multiple times"
  | conflict flag other => "'" ++ flag.long ++ "' cannot be used with '" ++ other.long ++ "'"
  | unexpected operand => "unexpected argument '" ++ operand ++ "'"
  | emptyPath => "a root must not be empty"
  | invalidVariable name value => "invalid value '" ++ value ++ "' for variable " ++ name
  | missingShell => "the shell is missing"
  | unknownShell name => "invalid shell '" ++ name ++ "'"
  | missingVerb => "a subcommand is required"
  | unknownVerb name => "unrecognized subcommand '" ++ name ++ "'"

end UsageError

/-! ## Completion scripts -/

/-- Words that can stand behind the program's name. -/
def completionWords : List String :=
  Verb.all.map Verb.name ++
    ((Flag.allowed none ++ Flag.allowed (some .build)).map Flag.long).eraseDups

/-- A script that teaches a shell the words of the command line. -/
def ShellKind.script (shell : ShellKind) : String :=
  let words := " ".intercalate completionWords
  match shell with
  | .bash => "complete -o default -W '" ++ words ++ "' " ++ programName ++ "\n"
  | .zsh => "#compdef " ++ programName ++ "\ncompadd -- " ++ words ++ "\n_files\n"
  | .fish => "complete -c " ++ programName ++ " -a '" ++ words ++ "'\n"
  | .powershell => "Register-ArgumentCompleter -Native -CommandName " ++ programName ++
      " -ScriptBlock \x7b param($word) -split '" ++ words ++ "' -like \"$word*\" \x7d\n"
  | .elvish => "set edit:completion:arg-completer[" ++ programName ++
      "] = \x7b|@given| put " ++ words ++ " \x7d\n"

end ProjectBuild.CommandLine
