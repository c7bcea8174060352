import ProjectBuild.Json.Pretty
import ProjectBuild.Json.Shape
import ProjectBuild.Record.Basic

/-!
# Records on file

How records are written, and where they are kept.
-/

/-!
## The written form of a record

Records are kept as JSON, with the fields in a fixed order and maps in path order. Reading a
written record gives the record back.
-/

namespace ProjectBuild

open Json

namespace Time

/-- Whole seconds and nanoseconds, as read. -/
structure Parts where
  seconds : Nat := 0
  nanos : Nat := 0
  deriving Inhabited

/-- Nanoseconds of a second or more are carried into the seconds, which must stay a word. -/
def Parts.problem? (parts : Parts) : Option Problem :=
  if parts.seconds + parts.nanos / nanosPerSecond < Nat.pow 2 64 then none else some .offsetOverflow

def shape : Shape Parts where
  title := "struct SystemTime"
  listTitle := "struct SystemTime"
  closed := true
  blank := {}
  check := Parts.problem?
  fields := [
    ⟨"secs_since_epoch", true, fun parts c =>
      (Read.word 64 "u64" c).map fun (n, c) => ({ parts with seconds := n }, c)⟩,
    ⟨"nanos_since_epoch", true, fun parts c =>
      (Read.word 32 "u32" c).map fun (n, c) => ({ parts with nanos := n }, c)⟩]

/-- Reads a time at most 2^63 - 1 seconds after the epoch. -/
def read : Reader Time := fun c => do
  let (parts, c) ← shape.read c
  let time := ofEpoch parts.seconds parts.nanos
  if time.seconds < Nat.pow 2 63 then return (time, c) else throw (.floating .timeOverflow c)

def printer (t : Time) : Printer :=
  Pretty.object [
    ("secs_since_epoch", Pretty.number t.seconds),
    ("nanos_since_epoch", Pretty.number t.fraction)]

end Time

namespace PathMap

variable {α : Type}

/-- Reads a map; the value of a later binding of a key counts. -/
def read (value : Reader α) : Reader (PathMap α) := fun c =>
  (Read.map value c).map fun (bindings, c) =>
    (insertAll (bindings.map fun (key, x) => (⟨key⟩, x)), c)

def printer (value : α → Printer) (m : PathMap α) : Printer :=
  Pretty.object (m.entries.map fun (key, x) => (key.text, value x))

end PathMap

namespace BuildRecord

def blank : BuildRecord where
  version := 0
  toolVersion := ""
  project := ⟨""⟩
  configFingerprint := ""
  buildStamp := ""
  inputs := {}
  outputs := {}
  references := {}

def shape : Shape BuildRecord where
  title := "struct BuildMetadata"
  listTitle := "struct BuildMetadata with 8 elements"
  closed := false
  blank := blank
  check := fun _ => none
  fields := [
    ⟨"version", true, fun r c =>
      (Read.word 32 "u32" c).map fun (x, c) => ({ r with version := x }, c)⟩,
    ⟨"tool_version", true, fun r c =>
      (Read.string c).map fun (x, c) => ({ r with toolVersion := x }, c)⟩,
    ⟨"project", true, fun r c =>
      (Read.text "path string" c).map fun (x, c) => ({ r with project := ⟨x⟩ }, c)⟩,
    ⟨"config_fingerprint", true, fun r c =>
      (Read.string c).map fun (x, c) => ({ r with configFingerprint := x }, c)⟩,
    ⟨"build_stamp", true, fun r c =>
      (Read.string c).map fun (x, c) => ({ r with buildStamp := x }, c)⟩,
    ⟨"inputs", true, fun r c =>
      (PathMap.read Time.read c).map fun (x, c) => ({ r with inputs := x }, c)⟩,
    ⟨"outputs", true, fun r c =>
      (PathMap.read Time.read c).map fun (x, c) => ({ r with outputs := x }, c)⟩,
    ⟨"references", true, fun r c =>
      (PathMap.read Read.string c).map fun (x, c) => ({ r with references := x }, c)⟩]

/-- The record written in a text. -/
def ofText (text : String) : Except Mistake BuildRecord :=
  readAll shape.read text

def printer (r : BuildRecord) : Printer :=
  Pretty.object [
    ("version", Pretty.number r.version),
    ("tool_version", Pretty.string r.toolVersion),
    ("project", Pretty.string r.project.text),
    ("config_fingerprint", Pretty.string r.configFingerprint),
    ("build_stamp", Pretty.string r.buildStamp),
    ("inputs", PathMap.printer Time.printer r.inputs),
    ("outputs", PathMap.printer Time.printer r.outputs),
    ("references", PathMap.printer Pretty.string r.references)]

/-- Whether all recorded times have a written form. -/
def isWritable (r : BuildRecord) : Bool :=
  (r.inputs.entries ++ r.outputs.entries).all fun entry => decide (0 ≤ entry.2.nanos)

/-- The text of a record. -/
def toText (r : BuildRecord) : Except RecordProblem String :=
  if r.isWritable then .ok r.printer.text else .error .timeBeforeEpoch

end BuildRecord

end ProjectBuild

/-!
## Keeping records

Every project that has been built keeps its record beside its outputs. A record that is missing,
unreadable, of another version or of another project counts as no record: the project then reads
as never built.
-/

namespace ProjectBuild.BuildRecord

variable {σ : Type} [FileSystem σ]

/-- Why the contents of a record file are not the record of a project. -/
def refusal? (p : Project) (r : BuildRecord) : Option Notice :=
  if r.version ≠ currentVersion then some (.recordOutdated p.recordPath r.version)
  else if !r.project.same p.configPath then some (.recordForeign p.recordPath r.project)
  else none

/-- The record that the text of a project's record file holds, or why there is none. -/
def interpret (p : Project) (text : String) : Except Notice BuildRecord :=
  match ofText text with
  | .error mistake => .error (.recordCorrupt p.recordPath mistake)
  | .ok r =>
    match refusal? p r with
    | some notice => .error notice
    | none => .ok r

/-- The usable record of a project, if there is one. -/
def load (fs : σ) (p : Project) : Noted (Option BuildRecord) :=
  if FileSystem.isFile fs p.recordPath then
    let content := FileSystem.read fs p.recordPath
    match content.value with
    | .error failure => ⟨none, content.notes ++ [.log (.recordUnreadable failure)]⟩
    | .ok text =>
      match interpret p text with
      | .error notice => ⟨none, content.notes ++ [.log notice]⟩
      | .ok r => ⟨some r, content.notes⟩
  else ⟨none, []⟩

/-- Writes the record of a project. -/
def save (fs : σ) (p : Project) (r : BuildRecord) : Except Error Unit × σ :=
  match r.toText with
  | .error problem => (.error (.record p.recordPath problem), fs)
  | .ok text =>
    let (result, fs) := FileSystem.replace fs p.recordPath text
    (result.mapError fun failure => .record p.recordPath (.file failure), fs)

/-- Removes the record of a project; tells whether there was one. -/
def invalidate (fs : σ) (p : Project) : Except Error Bool × σ :=
  let (result, fs) := FileSystem.remove fs p.recordPath
  (result.mapError fun failure => .record p.recordPath (.file failure), fs)

end ProjectBuild.BuildRecord
