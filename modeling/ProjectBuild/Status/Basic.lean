import ProjectBuild.Path.Basic

/-!
# Statuses and reasons

What becomes of a project in a run, and why.
-/

/-!
## Build statuses

The state of a project in one run, and the table that holds the state of every project.
-/

namespace ProjectBuild

inductive Status where
  | unknown
  | upToDate
  | stale
  | building
  | built
  | failed
  | skipped
  deriving DecidableEq, Repr, Inhabited

namespace Status

/-- Terminal statuses never change again in a run. -/
def isTerminal : Status → Bool
  | upToDate => true
  | built => true
  | failed => true
  | skipped => true
  | _ => false

/-- Whether dependents of a project in this state must not be built. -/
def blocksDependents : Status → Bool
  | failed => true
  | skipped => true
  | _ => false

/-- Whether a project in this state is rebuilt in the run. -/
def isRebuild : Status → Bool
  | stale => true
  | building => true
  | built => true
  | _ => false

def label : Status → String
  | unknown => "unknown"
  | upToDate => "up to date"
  | stale => "stale"
  | building => "building"
  | built => "built"
  | failed => "failed"
  | skipped => "skipped"

end Status

/-- The status of every project, by index. -/
structure StatusTable where
  slots : List Status
  deriving DecidableEq, Repr, Inhabited

namespace StatusTable

/-- A table in which nothing is known. -/
def ofSize (size : Nat) : StatusTable :=
  ⟨List.replicate size .unknown⟩

def size (t : StatusTable) : Nat :=
  t.slots.length

def isEmpty (t : StatusTable) : Bool :=
  t.slots.isEmpty

def get (t : StatusTable) (i : Nat) : Status :=
  t.slots.getD i .unknown

/-- Sets the status of a project of the table. -/
def publish (t : StatusTable) (i : Nat) (status : Status) : StatusTable :=
  ⟨t.slots.set i status⟩

/-- As `publish`, but refuses an index outside the table. -/
def publish? (t : StatusTable) (i : Nat) (status : Status) : Option StatusTable :=
  if i < t.size then some (t.publish i status) else none

end StatusTable

end ProjectBuild

/-!
## Reasons

Why a project is or is not rebuilt: the first ground that was found.
-/

namespace ProjectBuild

inductive Reason where
  | upToDate
  /-- There is no usable record: never built, or the last build did not finish. -/
  | noPriorBuild
  | configChanged
  /-- Inputs were added, removed or renamed. -/
  | inputSetChanged
  | outputMissing (output : Path)
  | inputNewer (input output : Path)
  /-- There are no outputs to compare with, and an input's time is not the recorded one. -/
  | inputChanged (input : Path)
  /-- A reference is rebuilt in this run. -/
  | upstreamRebuilt (project : Path)
  /-- A reference was rebuilt since this project was last built. -/
  | upstreamChanged (project : Path)
  /-- A reference failed or was skipped. -/
  | upstreamBlocked (project : Path)
  /-- A rebuild was asked for. -/
  | forced
  /-- The run was cancelled before this project began. -/
  | cancelled
  deriving DecidableEq, Repr, Inhabited

namespace Reason

def isUpToDate : Reason → Bool
  | upToDate => true
  | _ => false

def isBlocked : Reason → Bool
  | upstreamBlocked _ => true
  | _ => false

def message : Reason → String
  | upToDate => "outputs are newer than inputs"
  | noPriorBuild => "no previous build recorded"
  | configChanged => "configuration changed"
  | inputSetChanged => "set of input files changed"
  | outputMissing output => "output " ++ output.text ++ " is missing"
  | inputNewer input output =>
    "input " ++ input.text ++ " is newer than output " ++ output.text
  | inputChanged input => "input " ++ input.text ++ " changed"
  | upstreamRebuilt project => "referenced project " ++ project.text ++ " is rebuilt"
  | upstreamChanged project =>
    "referenced project " ++ project.text ++ " changed since the last build"
  | upstreamBlocked project => "referenced project " ++ project.text ++ " did not build"
  | forced => "rebuild forced"
  | cancelled => "build cancelled"

end Reason

end ProjectBuild
