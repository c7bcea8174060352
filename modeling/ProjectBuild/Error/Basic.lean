import ProjectBuild.Glob.Pattern
import ProjectBuild.Json.Shape
import ProjectBuild.Path.Basic
import ProjectBuild.Text.Utf8

/-!
# Errors

Everything that can go wrong, by cause, and the wording of each. **Structural** errors say that
the projects do not form a graph that can be built; all others concern a single project or file.
-/

namespace ProjectBuild

/-! ## Files -/

/-- What the system says about a call it refuses. -/
inductive SystemFault where
  | notFound
  | permissionDenied
  | alreadyExists
  | notDirectory
  | isDirectory
  | nameTooLong
  | tooManyLinks
  | notEmpty
  /-- A program is in no format that can be run. -/
  | notRunnable
  /-- A name holds the character that ends names. -/
  | containsNul
  /-- Nothing is open there, or not in the way that is asked for. -/
  | badDescriptor
  | invalidArgument
  /-- Nobody reads what is written. -/
  | brokenPipe
  | noProcess
  | notPermitted
  | crossDevice
  deriving DecidableEq, Repr, Inhabited

namespace SystemFault

/-- What the system calls the fault. -/
def phrase : SystemFault → String
  | notFound => "No such file or directory"
  | permissionDenied => "Permission denied"
  | alreadyExists => "File exists"
  | notDirectory => "Not a directory"
  | isDirectory => "Is a directory"
  | nameTooLong => "File name too long"
  | tooManyLinks => "Too many levels of symbolic links"
  | notEmpty => "Directory not empty"
  | notRunnable => "Exec format error"
  | containsNul => "file name contained an unexpected NUL byte"
  | badDescriptor => "Bad file descriptor"
  | invalidArgument => "Invalid argument"
  | brokenPipe => "Broken pipe"
  | noProcess => "No such process"
  | notPermitted => "Operation not permitted"
  | crossDevice => "Invalid cross-device link"

/-- The system's number for the fault, unless it is found before the system is called. -/
def number? : SystemFault → Option Nat
  | notPermitted => some 1
  | notFound => some 2
  | noProcess => some 3
  | notRunnable => some 8
  | badDescriptor => some 9
  | permissionDenied => some 13
  | alreadyExists => some 17
  | crossDevice => some 18
  | notDirectory => some 20
  | isDirectory => some 21
  | invalidArgument => some 22
  | brokenPipe => some 32
  | nameTooLong => some 36
  | notEmpty => some 39
  | tooManyLinks => some 40
  | containsNul => none

def message (fault : SystemFault) : String :=
  match fault.number? with
  | some number => fault.phrase ++ " (os error " ++ toString number ++ ")"
  | none => fault.phrase

end SystemFault

/-- Why a call on a file failed. -/
inductive IoCause where
  /-- There is no such file. -/
  | absent
  /-- The bytes are no text. -/
  | notText (fault : Utf8.Fault)
  /-- The bytes are no text; nothing is known about where. -/
  | notTextStream
  /-- The call was made to fail. -/
  | injected
  | system (fault : SystemFault)
  /-- Listing a directory failed at a path below it. -/
  | listing (path : Path) (fault : SystemFault)
  /-- A cause given in words. -/
  | stated (text : String)
  deriving Repr, Inhabited

def IoCause.message : IoCause → String
  | absent => "No such file or directory"
  | notText fault => fault.message
  | notTextStream => "stream did not contain valid UTF-8"
  | injected => "injected fault"
  | system fault => fault.message
  | listing path fault => "IO error for operation on " ++ path.text ++ ": " ++ fault.message
  | stated text => text

/-- A failed call on a file. -/
structure IoFailure where
  path : Path
  cause : IoCause
  deriving Repr, Inhabited

def IoFailure.message (f : IoFailure) : String :=
  "I/O error at " ++ f.path.text ++ ": " ++ f.cause.message

/-! ## Projects -/

/-- File name looked up where a root or a reference names a directory. -/
def configFileName : String := "tsconfig.json"

/-- What is wrong with a project's configuration. -/
inductive ConfigProblem where
  /-- A root names neither a configuration nor a directory with one. -/
  | notFound
  | unreadable (failure : IoFailure)
  | malformed (mistake : Json.Mistake)
  | missingReference (target : Path)
  | missingInput (file : Path)
  | outsideRoot (file root : Path)
  | unknownEdgeEnd (index : Nat)
  | unknownRoot (index : Nat)
  /-- A problem given in words. -/
  | stated (text : String)
  deriving Inhabited

def ConfigProblem.message : ConfigProblem → String
  | notFound => "cannot find a " ++ configFileName
  | unreadable failure => "cannot read file: " ++ failure.message
  | malformed mistake => mistake.message
  | missingReference target => "referenced project " ++ target.text ++ " does not exist"
  | missingInput file => "file " ++ file.text ++ " not found"
  | outsideRoot file root => "file " ++ file.text ++ " is not under rootDir " ++ root.text
  | unknownEdgeEnd index => "edge refers to unknown project index " ++ toString index
  | unknownRoot index => "root refers to unknown project index " ++ toString index
  | stated text => text

/-- A restriction that every referenced project has to meet. -/
inductive Restriction where
  /-- Declarations must not be turned off. -/
  | declarationDisabled
  /-- There must be a list of references, if an empty one. -/
  | missingReferences
  /-- A list of files must name every source file; these are missing. -/
  | filesNotExhaustive (missing : List Path)
  deriving DecidableEq, Repr, Inhabited

def Restriction.message : Restriction → String
  | declarationDisabled => "referenced project must have setting \"declaration\": true"
  | missingReferences =>
    "referenced project must declare a \"references\" field (it may be empty)"
  | filesNotExhaustive missing =>
    "referenced project's \"files\" list must include every source file; missing:" ++
      String.join (missing.map fun path => "\n    " ++ path.text)

/-- Why a build record could not be written or removed. -/
inductive RecordProblem where
  | file (failure : IoFailure)
  /-- A time before the epoch has no written form. -/
  | timeBeforeEpoch
  /-- A problem given in words. -/
  | stated (text : String)
  deriving Repr, Inhabited

def RecordProblem.message : RecordProblem → String
  | file failure => failure.message
  | timeBeforeEpoch => "SystemTime must be later than UNIX_EPOCH"
  | stated text => text

inductive Error where
  /-- A configuration is missing, unreadable or malformed. -/
  | config (path : Path) (problem : ConfigProblem)
  /-- A referenced project breaks a restriction. -/
  | restriction (project : Path) (rule : Restriction)
  /-- References form a cycle, which starts and ends at the same project. -/
  | cycle (path : List Path)
  /-- A declaration of a referenced project does not exist yet. -/
  | notBuilt (project : Path)
  /-- The compiler reported a failure. -/
  | compile (project : Path) (diagnostics : List String)
  | io (failure : IoFailure)
  | record (path : Path) (problem : RecordProblem)
  | pattern (error : Glob.PatternError)
  | cancelled
  deriving Inhabited

namespace Error

/-- Lines of a cycle, each but the last pointing to the next. -/
def cycleLines : List Path → String
  | [] => ""
  | [last] => "\n    " ++ last.text
  | path :: rest => "\n    " ++ path.text ++ " ->" ++ cycleLines rest

def diagnosticLines : List String → String
  | [] => ""
  | lines => ":" ++ String.join (lines.map fun line => "\n  " ++ line)

def message : Error → String
  | config path problem =>
    "Invalid project configuration " ++ path.text ++ ": " ++ problem.message
  | restriction project rule =>
    "Constraint violation in " ++ project.text ++ ": " ++ rule.message
  | cycle path =>
    "Project references may not form a circular graph. Cycle detected:" ++ cycleLines path
  | notBuilt project => "Referenced project \"" ++ project.text ++ "\" is not built"
  | compile project diagnostics =>
    "Compilation of " ++ project.text ++ " failed" ++ diagnosticLines diagnostics
  | io failure => failure.message
  | record path problem =>
    "Build metadata error at " ++ path.text ++ ": " ++ problem.message
  | pattern error => "Glob pattern error: " ++ error.message
  | cancelled => "Build cancelled"

/-- Whether the error makes the whole graph invalid. -/
def isStructural : Error → Bool
  | config _ _ => true
  | restriction _ _ => true
  | cycle _ => true
  | _ => false

end Error

end ProjectBuild
