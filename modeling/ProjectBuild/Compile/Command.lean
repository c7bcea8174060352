import ProjectBuild.Compile.Job
import ProjectBuild.Disk.Files
import ProjectBuild.Process.Basic
import ProjectBuild.Project
import ProjectBuild.Resolution
import ProjectBuild.Text.Wordy

/-!
# Compile commands

How a program is called that compiles a project, and what is made of its answer.
-/

/-!
## Programs and arguments

The program that compiles one project, and the arguments it is called with. Wherever an argument
holds the placeholder, it is replaced by the path of the project's configuration.
-/

namespace ProjectBuild

structure CompileCommand where
  program : String
  arguments : List String
  deriving DecidableEq, Repr, Inhabited

namespace CompileCommand

/-- The program that is called unless another one is named. -/
def defaultProgram : String := "tsc"

/-- Stands for the configuration path in an argument. -/
def placeholder : String := "\x7bproject\x7d"

def defaultArguments : List String := ["-p", placeholder]

/-- A command; without arguments it gets the default ones. -/
def of (program : String) (arguments : List String) : CompileCommand :=
  ⟨program, if arguments.isEmpty then defaultArguments else arguments⟩

/-- Replaces every occurrence of the nonempty `mark`, from left to right; the first `skip`
characters belong to the last occurrence that was found. -/
def replaceFrom (mark replacement : List Char) : Nat → List Char → List Char
  | _, [] => []
  | skip + 1, _ :: rest => replaceFrom mark replacement skip rest
  | 0, c :: rest =>
    if mark.isPrefixOf (c :: rest) then
      replacement ++ replaceFrom mark replacement (mark.length - 1) rest
    else c :: replaceFrom mark replacement 0 rest

/-- An argument with the placeholder filled in. -/
def fill (project : Path) (argument : String) : String :=
  String.ofList (replaceFrom placeholder.toList project.text.toList 0 argument.toList)

/-- The arguments for a project. -/
def argumentsFor (c : CompileCommand) (p : Project) : List String :=
  c.arguments.map (fill p.configPath)

end CompileCommand

end ProjectBuild

/-!
## Compiling by calling a program

A project is compiled by calling the compile command in the directory of its configuration. The
lines that the program writes are its messages, those on the standard output first; blank lines
are left out, and a line that is no text ends what is read. The compile succeeds if the program
does.
-/

namespace ProjectBuild

namespace CompileCommand

/-- Bytes cut behind every line end. The lines keep their ends. -/
def cutLines : List UInt8 → List (List UInt8)
  | [] => []
  | b :: rest =>
    if b = 10 then [b] :: cutLines rest
    else match cutLines rest with
      | [] => [[b]]
      | line :: lines => (b :: line) :: lines

/-- A line without its end, which may be two bytes long. -/
def trimEnd (line : List UInt8) : List UInt8 :=
  match line.reverse with
  | 10 :: 13 :: rest => rest.reverse
  | 10 :: rest => rest.reverse
  | _ => line

/-- The texts of lines up to the first that is none. -/
def readLines : List (List UInt8) → List String
  | [] => []
  | line :: lines =>
    match String.fromUTF8? ⟨(trimEnd line).toArray⟩ with
    | some text => text :: readLines lines
    | none => []

/-- The messages on a stream. -/
def messagesOn (bytes : ByteArray) : List String :=
  (readLines (cutLines bytes.toList)).filter fun line => !Text.allBlank line

/-- What a compile came to, from how the program ended. -/
def verdict (p : Project) (result : ProcessResult) : Except Error (List String) :=
  let messages := messagesOn result.output ++ messagesOn result.errors
  if result.exit.isSuccess then .ok messages else .error (.compile p.configPath messages)

/-- The call that compiles a project. -/
def callFor (c : CompileCommand) (environment : Environment) (p : Project)
    (directory : Location) : Call :=
  ⟨c.program, c.argumentsFor p, directory, environment⟩

/-- Calls the program for a project. -/
def perform (c : CompileCommand) (launch : Launcher) (environment : Environment) (p : Project)
    (disk : Disk) : Except Error (List String) × Disk :=
  let failed (fault : SystemFault) : Error := .io ⟨⟨c.program⟩, .system fault⟩
  match disk.locate [] p.configDir with
  | .error fault => (.error (failed fault), disk)
  | .ok directory =>
    match launch (c.callFor environment p directory) disk with
    | (.error fault, disk) => (.error (failed fault), disk)
    | (.ok result, disk) => (verdict p result, disk)

/-- The compiler that calls the command's program. -/
def compiler (c : CompileCommand) (launch : Launcher) (environment : Environment) :
    Compiler Disk := fun g i =>
  Job.look fun s =>
    if s.cancelled then .done (.error .cancelled)
    else match Resolution.verifyReferences s.files g i with
      | .error e => .done (.error e)
      -- only now is the program called
      | .ok () =>
        let p := g.node i
        Job.ofAction fun s =>
          let s := s.note [.log (.compiling c.program (c.argumentsFor p))]
          let (result, disk) := c.perform launch environment p s.files
          (result, { s with files := disk })

end CompileCommand

end ProjectBuild
