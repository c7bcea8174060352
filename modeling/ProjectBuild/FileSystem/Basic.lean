import ProjectBuild.Error.Basic

/-!
# Notes, times and filesystems

What the rest of the library knows about files.
-/

/-!
## Notes

A query does not change what it looks at, but it may leave notes: that the contents of a file
were read, or a message for the log. `Noted` is a value with the notes made on the way to it, in
order.
-/

namespace ProjectBuild

/-- Log levels, most severe first. -/
inductive LogLevel where
  | error
  | warn
  | info
  | debug
  | trace
  deriving DecidableEq, Repr, Inhabited

namespace LogLevel

def severity : LogLevel → Nat
  | error => 1
  | warn => 2
  | info => 3
  | debug => 4
  | trace => 5

def name : LogLevel → String
  | error => "ERROR"
  | warn => "WARN"
  | info => "INFO"
  | debug => "DEBUG"
  | trace => "TRACE"

end LogLevel

/-- Why a link is not followed while a directory is listed. -/
inductive LinkProblem where
  /-- The link leads back to a directory above it. -/
  | loop (ancestor : Path)
  /-- The link leads nowhere. -/
  | broken (fault : SystemFault)
  deriving Repr, Inhabited

def LinkProblem.message (link : Path) : LinkProblem → String
  | loop ancestor => "File system loop found: " ++ link.text ++ " points to an ancestor " ++
      ancestor.text
  | broken fault => (IoCause.listing link fault).message

/-- A message for the log. -/
inductive Notice where
  | linkSkipped (link : Path) (problem : LinkProblem)
  /-- The configuration builds on another one, which is not followed. -/
  | baseNotFollowed (project : Path) (base : String)
  | recordUnreadable (failure : IoFailure)
  | recordCorrupt (record : Path) (mistake : Json.Mistake)
  | recordOutdated (record : Path) (version : Nat)
  | recordForeign (record project : Path)
  | building (project : Path)
  | compiling (program : String) (arguments : List String)
  /-- A compile failed; without an error its diagnostics tell why. -/
  | buildFailed (project : Path) (error : Option Error)
  | finished (projects compiled : Nat)
  deriving Inhabited

namespace Notice

def level : Notice → LogLevel
  | building _ => .info
  | compiling _ _ => .info
  | finished _ _ => .info
  | _ => .warn

/-- The part of the program that the message comes from. -/
def source : Notice → String
  | linkSkipped _ _ => "tsbuild::filesystem"
  | baseNotFollowed _ _ => "tsbuild::loader"
  | recordUnreadable _ => "tsbuild::metadata"
  | recordCorrupt _ _ => "tsbuild::metadata"
  | recordOutdated _ _ => "tsbuild::metadata"
  | recordForeign _ _ => "tsbuild::metadata"
  | compiling _ _ => "tsbuild::compiler"
  | building _ => "tsbuild::scheduler"
  | buildFailed _ _ => "tsbuild::scheduler"
  | finished _ _ => "tsbuild::scheduler"

def message : Notice → String
  | linkSkipped link problem => "Skipping " ++ link.text ++ ": " ++ problem.message link
  | baseNotFollowed project base => project.text ++ ": \"extends\": \"" ++ base ++
      "\" is not followed; only settings in this file are used"
  | recordUnreadable failure => "ignoring unreadable build metadata: " ++ failure.message
  | recordCorrupt record mistake =>
    "ignoring corrupt build metadata " ++ record.text ++ ": " ++ mistake.message
  | recordOutdated record version =>
    "ignoring build metadata " ++ record.text ++ " with format version " ++ toString version
  | recordForeign record project =>
    "ignoring build metadata " ++ record.text ++ " written for " ++ project.text
  | building project => "building " ++ project.text
  | compiling program arguments => program ++ " " ++ " ".intercalate arguments
  | buildFailed project none => project.text ++ " failed to build"
  | buildFailed project (some error) => project.text ++ " failed to build: " ++ error.message
  | finished projects compiled =>
    toString projects ++ " projects, " ++ toString compiled ++ " compiled"

end Notice

inductive Note where
  /-- The contents of a file were asked for. -/
  | read (path : Path)
  | log (notice : Notice)
  deriving Inhabited

namespace Note

/-- The files whose contents were asked for, in order, with repeats. -/
def reads (notes : List Note) : List Path :=
  notes.filterMap fun
    | read path => some path
    | log _ => none

/-- The log messages, in order. -/
def notices (notes : List Note) : List Notice :=
  notes.filterMap fun
    | read _ => none
    | log notice => some notice

end Note

/-- A value, and the notes made on the way to it. -/
structure Noted (α : Type) where
  value : α
  notes : List Note := []
  deriving Inhabited

end ProjectBuild

/-!
## Times and filesystems

What the rest of the library knows about files, and about when they changed.
-/

/-!
### Times

A time is a count of nanoseconds since the epoch, and negative before it.
-/

namespace ProjectBuild

structure Time where
  nanos : Int
  deriving DecidableEq, Repr, Inhabited

namespace Time

def nanosPerSecond : Nat := 1000000000

/-- The time so many whole seconds and nanoseconds after the epoch. -/
def ofEpoch (seconds nanos : Nat) : Time :=
  ⟨seconds * nanosPerSecond + nanos⟩

instance : LT Time := ⟨fun a b => a.nanos < b.nanos⟩

instance (a b : Time) : Decidable (a < b) :=
  inferInstanceAs (Decidable (a.nanos < b.nanos))

/-- Nanoseconds since the epoch; zero before it. -/
def sinceEpoch (t : Time) : Nat :=
  t.nanos.toNat

/-- Whole seconds since the epoch. -/
def seconds (t : Time) : Nat :=
  t.sinceEpoch / nanosPerSecond

/-- Nanoseconds since the last whole second. -/
def fraction (t : Time) : Nat :=
  t.sinceEpoch % nanosPerSecond

end Time

end ProjectBuild

/-!
### Filesystems

What the rest of the library knows about files. Queries look at a state and leave it alone; they
answer at most with notes. Only writing and removing lead to another state.
-/

namespace ProjectBuild

/-- States of files, of type `σ`. -/
class FileSystem (σ : Type) where
  isFile : σ → Path → Bool
  /-- Time of the last change of a file that exists. -/
  modified? : σ → Path → Option Time
  /-- Contents of a file, as text. -/
  read : σ → Path → Noted (Except IoFailure String)
  /-- Every file below a directory, in path order. A directory that `prune` accepts is not
  entered. -/
  list : σ → Path → (Path → Bool) → Noted (Except IoFailure (List Path))
  /-- Writes a file and the directories it needs. -/
  write : σ → Path → String → Except IoFailure Unit × σ
  /-- Writes a file so that nobody sees a part of it. -/
  replace : σ → Path → String → Except IoFailure Unit × σ
  /-- Removes a file; tells whether it existed. -/
  remove : σ → Path → Except IoFailure Bool × σ
  /-- No more than this many paths, none of them the same as another, name files. -/
  fileBound : σ → Nat

end ProjectBuild
