import ProjectBuild.CommandLine.Help
import ProjectBuild.Compile.Command
import ProjectBuild.Console.Log
import ProjectBuild.Console.Report
import ProjectBuild.Disk.Files
import ProjectBuild.Error.ExitCode
import ProjectBuild.Error.Hints
import ProjectBuild.Path.Normal
import ProjectBuild.Run.Build
import ProjectBuild.Run.Clean

/-!
# The command line

One call of the command line, from its arguments to what it prints. Roots are looked up first; one
that names no project ends the call before anything is read. Results go to the standard output.
Log lines and errors, and the messages about projects, go to the standard error output.
-/

namespace ProjectBuild.CommandLine

/-- Where a call is made. -/
structure Setting where
  directory : Location
  environment : Environment
  /-- How compilers are called. -/
  launch : Launcher

/-- What a call prints, and the code it ends with. -/
structure Response where
  code : ExitCode
  output : String := ""
  errors : String := ""
  deriving Repr, Inhabited

/-- How log messages are shown. -/
structure Logging where
  filter : LogFilter
  style : LogStyle

namespace Logging

def filterVariable : String := "RUST_LOG"

/-- The logging for a level, and warnings. The environment decides before the level does. -/
def ofEnvironment (environment : Environment) (level : String) : Logging × List String :=
  let (filter, warnings) := LogFilter.ofText ((environment.lookup filterVariable).getD level)
  (⟨filter, .ofEnvironment environment⟩, warnings)

/-- The lines of the messages that are shown. -/
def lines (logging : Logging) (notes : List Note) : String :=
  String.join
    (((Note.notices notes).filter logging.filter.shows).map logging.style.line)

end Logging

def warningLine (warning : String) : String :=
  "warning: " ++ warning ++ ", ignoring it\n"

def errorLine (message : String) : String :=
  "error: " ++ message ++ "\n"

/-- The paths that are looked at for roots. -/
def candidates (directory : Path) (roots : List Path) : List Path :=
  if roots.isEmpty then [directory.join ⟨configFileName⟩]
  else roots.map (Path.absolutize directory)

/-- The configuration files of some candidates, or the first candidate that has none. -/
def resolveEach (disk : Disk) : List Path → Except Path (List Path)
  | [] => .ok []
  | candidate :: rest =>
    match resolveConfig? disk candidate with
    | none => .error candidate
    | some config => (resolveEach disk rest).map (config :: ·)

/-- The answer to a call that an error ended. -/
def failure (logging : Logging) (notes : List Note) (e : Error) : Response where
  code := e.exitCode
  errors := logging.lines notes ++ errorLine e.explained

/-- Removes what builds of the roots produce. -/
def runClean (palette : Palette) (logging : Logging) (request : BuildRequest) (roots : List Path)
    (disk : Disk) : Response × Disk :=
  let cleaned := ProjectBuild.clean disk roots
  match cleaned.value with
  | (.error e, disk) => (failure logging cleaned.notes e, disk)
  | (.ok removed, disk) =>
    ({ code := .success
       output := if request.quiet then "" else palette.removal removed
       errors := logging.lines cleaned.notes }, disk)

/-- The nanoseconds between two states of a disk. -/
def nanosBetween (earlier later : Disk) : Nat :=
  (later.now.nanos - earlier.now.nanos).toNat

/-- Builds the roots. -/
def runBuild (setting : Setting) (palette : Palette) (logging : Logging)
    (request : BuildRequest) (roots : List Path) (disk : Disk) : Response × Disk :=
  let command := CompileCommand.of request.compiler request.compilerArguments
  let options : BuildOptions := ⟨request.force, request.dryRun⟩
  let compiler := command.compiler setting.launch setting.environment
  match ProjectBuild.build options compiler [] roots { files := disk } with
  | (.error e, run) => (failure logging run.site.notes e, run.site.files)
  | (.ok (_, report), run) =>
    let duration := durationLine (nanosBetween disk run.site.files)
    ({ code := report.exitCode
       output := if request.quiet then "" else palette.report request.verbose report ++ duration
       errors := logging.lines run.site.notes ++
        String.join (report.diagnostics.map fun d => d.line ++ "\n") }, run.site.files)

/-- Shows the graph of the roots. -/
def runGraph (palette : Palette) (logging : Logging) (roots : List Path) (disk : Disk) :
    Response :=
  let loaded := loadGraph disk roots
  match loaded.value with
  | .error e => failure logging loaded.notes e
  | .ok g => {
      code := .success
      output := g.display palette
      errors := logging.lines loaded.notes }

/-- Looks up the roots of a task, and goes on with them. -/
def withRoots (setting : Setting) (roots : List Path) (disk : Disk)
    (act : List Path → Response × Disk) : Response × Disk :=
  match resolveEach disk (candidates (Disk.pathOf setting.directory) roots) with
  | .error missing =>
    ({ code := .generalError, errors := errorLine (projectNotFound missing) }, disk)
  | .ok configs => act configs

/-- Carries out a task. -/
def runTask (setting : Setting) (palette : Palette) (logging : Logging) (task : Task)
    (disk : Disk) : Response × Disk :=
  match task with
  | .completions shell => ({ code := .success, output := shell.script }, disk)
  | .graph roots =>
    withRoots setting roots disk fun roots => (runGraph palette logging roots disk, disk)
  | .build request =>
    withRoots setting request.roots disk fun roots =>
      if request.clean then runClean palette logging request roots disk
      else runBuild setting palette logging request roots disk

/-- The answer where a command line asks for no task. -/
def stopped : Stop → Response
  | .help verb => { code := .success, output := helpText verb }
  | .version => { code := .success, output := versionLine }
  | .wrong error =>
    { code := .usageError, errors := errorLine error.message ++ "\n" ++ usageLine none }

/-- One call of the command line. -/
def run (setting : Setting) (arguments : List String) (disk : Disk) : Response × Disk :=
  match Request.ofArguments setting.environment arguments with
  | .error stop => (stopped stop, disk)
  | .ok request =>
    let (logging, warnings) := Logging.ofEnvironment setting.environment request.logLevel
    let palette := Palette.ofFlag request.color setting.environment
    let (response, disk) := runTask setting palette logging request.task disk
    ({ response with errors := String.join (warnings.map warningLine) ++ response.errors }, disk)

end ProjectBuild.CommandLine
