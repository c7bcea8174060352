import ProjectBuild.FileSystem.Basic
import ProjectBuild.Project

/-!
# Build records

What is remembered of a project's last successful build: the times of its inputs and outputs at
the end of the build, and the stamps of the builds it was based on. The stamp of a build is the
fingerprint of its record's **signature**, one line for each thing recorded; projects that depend
on this one remember the stamp, to notice when it is built again.
-/

namespace ProjectBuild

structure BuildRecord where
  /-- Version of the record's format. -/
  version : Nat
  /-- Version of the program that wrote the record. -/
  toolVersion : String
  /-- Configuration of the project that was built. -/
  project : Path
  configFingerprint : String
  buildStamp : String
  inputs : PathMap Time
  outputs : PathMap Time
  /-- Stamp of each direct reference when this project was built. -/
  references : PathMap String
  deriving DecidableEq, Repr, Inhabited

namespace BuildRecord

/-- Records of another version are ignored. -/
def currentVersion : Nat := 1

def programVersion : String := "0.1.0"

/-- The line of an input or output. -/
def timeLine (entry : Path × Time) : String :=
  "\n" ++ entry.1.text ++ "=" ++ toString entry.2.sinceEpoch

/-- The line of a reference. -/
def stampLine (entry : Path × String) : String :=
  "\n" ++ entry.1.text ++ "@" ++ entry.2

/-- The text whose fingerprint is the stamp. -/
def signature (r : BuildRecord) : String :=
  r.configFingerprint ++ String.join (r.inputs.entries.map timeLine) ++
    String.join (r.outputs.entries.map timeLine) ++
    String.join (r.references.entries.map stampLine)

def stampOf (r : BuildRecord) : String :=
  fingerprint r.signature

variable {σ : Type} [FileSystem σ]

/-- The times of the files that exist. -/
def times (fs : σ) (paths : List Path) : PathMap Time :=
  PathMap.ofList (paths.filterMap fun path =>
    (FileSystem.modified? fs path).map fun time => (path, time))

/-- The record of a build that has just ended, based on the given builds of its references.
Outputs that do not exist are left out. -/
def capture (fs : σ) (p : Project) (references : PathMap String) : BuildRecord :=
  let unstamped : BuildRecord := {
    version := currentVersion
    toolVersion := programVersion
    project := p.configPath
    configFingerprint := p.configFingerprint
    buildStamp := ""
    inputs := times fs p.inputs
    outputs := times fs p.expectedOutputs
    references := references }
  -- the stamp is taken of the other fields
  { unstamped with buildStamp := unstamped.stampOf }

/-- Whether the recorded inputs are exactly these. -/
def hasInputs (r : BuildRecord) (inputs : List Path) : Bool :=
  r.inputs.size == inputs.length && inputs.all r.inputs.contains

end BuildRecord

end ProjectBuild
