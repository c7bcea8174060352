import ProjectBuild.Graph.Basic
import ProjectBuild.Record.Basic
import ProjectBuild.Status.Basic

/-!
# Staleness

Whether a project has to be rebuilt. The decision looks at the project's own record, inputs and
outputs, and at the statuses and records of the projects it references directly; it never looks
at a reference's files. So staleness reaches a project only through its references, upward along
the edges.

The grounds are tried in a fixed order, and the first that holds is the reason.
-/

namespace ProjectBuild.Staleness

/-- The record of each project, by index. -/
abbrev Records := List (Option BuildRecord)

def recordOf? (records : Records) (i : Nat) : Option BuildRecord :=
  (records[i]?).join

/-- The stamp of a project's last build. -/
def stampOf? (records : Records) (i : Nat) : Option String :=
  (recordOf? records i).map BuildRecord.buildStamp

/-- The oldest output with its time. -/
abbrev Oldest := Option (Path × Time)

variable {σ : Type} [FileSystem σ]

/-- The first of the oldest among recorded outputs, unless one is missing. -/
def oldestOutput (fs : σ) (oldest : Oldest) : List Path → Except Reason Oldest
  | [] => .ok oldest
  | output :: rest =>
    match FileSystem.modified? fs output with
    | none => .error (.outputMissing output)
    | some time =>
      match oldest with
      | some (path, least) =>
        oldestOutput fs (if time < least then some (output, time) else some (path, least)) rest
      | none => oldestOutput fs (some (output, time)) rest

/-- Why an input that changed last at `time` calls for a rebuild. -/
def inputReason? (r : BuildRecord) (oldest : Oldest) (input : Path) (time : Time) :
    Option Reason :=
  match oldest with
  | some (output, least) => if least < time then some (.inputNewer input output) else none
  | none => if r.inputs.get? input = some time then none else some (.inputChanged input)

/-- The first ground among the inputs. -/
def inputsReason? (fs : σ) (r : BuildRecord) (oldest : Oldest) : List Path → Option Reason
  | [] => none
  | input :: rest =>
    match FileSystem.modified? fs input with
    | none => some .inputSetChanged
    | some time =>
      match inputReason? r oldest input time with
      | some reason => some reason
      | none => inputsReason? fs r oldest rest

/-- The first ground among the project's own files. -/
def ownReason? (fs : σ) (p : Project) (r : BuildRecord) : Option Reason :=
  if r.configFingerprint ≠ p.configFingerprint then some .configChanged
  else if !r.hasInputs p.inputs then some .inputSetChanged
  else match oldestOutput fs none r.outputs.keys with
    | .error reason => some reason
    | .ok oldest => inputsReason? fs r oldest p.inputs

/-- The first reference that did not build. -/
def blocked? (g : Graph) (statuses : StatusTable) (i : Nat) : Option Nat :=
  (g.dependencies i).find? fun j => (statuses.get j).blocksDependents

/-- The first reference that is rebuilt in this run. -/
def rebuilt? (g : Graph) (statuses : StatusTable) (i : Nat) : Option Nat :=
  (g.dependencies i).find? fun j => (statuses.get j).isRebuild

/-- The first reference whose last build is not the one on record. -/
def changed? (g : Graph) (records : Records) (r : BuildRecord) (i : Nat) : Option Nat :=
  (g.dependencies i).find? fun j =>
    r.references.get? (g.node j).configPath != stampOf? records j

/-- Why a project is or is not to be rebuilt. Its references must have been decided on. -/
def check (fs : σ) (g : Graph) (statuses : StatusTable) (records : Records) (i : Nat) : Reason :=
  match blocked? g statuses i with
  | some j => .upstreamBlocked (g.node j).configPath
  | none =>
    -- what is blocked is not looked at, not even for a record
    match recordOf? records i with
    | none => .noPriorBuild
    | some r =>
      match ownReason? fs (g.node i) r with
      | some reason => reason
      | none =>
        -- references come last: their stamps matter only where the own files fit
        match rebuilt? g statuses i with
        | some j => .upstreamRebuilt (g.node j).configPath
        | none =>
          match changed? g records r i with
          | some j => .upstreamChanged (g.node j).configPath
          | none => .upToDate

end ProjectBuild.Staleness
