import ProjectBuild.Shell.Option

/-!
# Built-in commands

A built-in command is carried out by the shell itself, so it can change the shell's own state. It
is called by its name with some arguments, and gives a status.
-/

namespace ProjectBuild.Shell

/-- What a command does with its arguments. -/
abbrev Builtin := List String → Act Nat

namespace Builtin

/-- A whole number that cannot be negative. -/
def number (text : String) : Act Nat := do
  match Numeral.count? text with
  | some n => return n
  | none => Act.fail ("Illegal number: " ++ text)

/-- A text in single quotes; those in it are put in double ones. -/
def quoted (text : String) : String :=
  let plain (chars : List Char) : String := "'" ++ String.ofList chars ++ "'"
  let rec go : Nat → List Char → String
    | 0, chars => plain chars
    | n + 1, chars =>
      let head := chars.takeWhile (· != '\'')
      let rest := chars.dropWhile (· != '\'')
      let marks := rest.takeWhile (· == '\'')
      let behind := rest.dropWhile (· == '\'')
      plain head ++ (if marks.isEmpty then "" else
        "\"" ++ String.ofList marks ++ "\"" ++ if behind.isEmpty then "" else go n behind)
  go text.length text.toList

/-- The name and the value, if there is one, in a word with an equals sign. -/
def cutBinding (word : String) : String × Option String :=
  let name := word.toList.takeWhile (· != '=')
  (String.ofList name,
    match word.toList.drop name.length with
    | _ :: value => some (String.ofList value)
    | [] => none)

end Builtin

end ProjectBuild.Shell

/-!
## Commands that say what comes next

Leaving loops, functions and the shell. What is left is not left at once: the shell is told what
to pass over, and passes over it.
-/

namespace ProjectBuild.Shell.Builtin

def succeed : Builtin := fun _ => return 0

def fail : Builtin := fun _ => return 1

/-- Ends the shell. -/
def exit : Builtin := fun arguments => do
  match arguments with
  | text :: _ =>
    let status ← number text
    modify fun s => { s with status := status }
  | [] => modify fun s => { s with status := s.trapStatus.getD s.status }
  Act.stop .exit

/-- Leaves a function or a script. -/
def leaveFunction : Builtin := fun arguments => do
  let status ← match arguments with
    | text :: _ => number text
    | [] => pure (← get).status
  modify fun s => { s with skip := .function }
  return status

/-- Leaves so many loops, or rounds of them. -/
def leaveLoops (skip : Nat → Skip) : Builtin := fun arguments => do
  let count ← match arguments with
    | text :: _ => number text
    | [] => pure 1
  if count = 0 then Act.fail ("Illegal number: " ++ arguments.headD "")
  let depth := (← get).loops
  if depth != 0 then modify fun s => { s with skip := skip (min count depth) }
  return 0

/-- Drops positional parameters in front. -/
def shift : Builtin := fun arguments => do
  let count ← match arguments with
    | text :: _ => number text
    | [] => pure 1
  if (← get).arguments.length < count then Act.fail "can't shift that many"
  modify fun s => { s with
    arguments := s.arguments.drop count, optionIndex := 1, optionPlace := none }
  return 0

end ProjectBuild.Shell.Builtin
