import ProjectBuild.Error.ExitCode
import ProjectBuild.Status.Basic

/-!
# Reports

What a run came to: the outcome of every project in level order, the diagnostics, and a tally.
-/

namespace ProjectBuild

/-- A message about one project. -/
structure Diagnostic where
  project : Path
  message : String
  deriving DecidableEq, Repr, Inhabited

def Diagnostic.line (d : Diagnostic) : String :=
  d.project.text ++ ": " ++ d.message

/-- The final state of one project. -/
structure Outcome where
  project : Path
  status : Status
  reason : Reason
  /-- Level of the project, from zero. -/
  level : Nat
  deriving DecidableEq, Repr, Inhabited

structure BuildReport where
  /-- Every project, in level order. -/
  projects : List Outcome := []
  /-- Number of levels. -/
  levels : Nat := 0
  diagnostics : List Diagnostic := []
  /-- Number of compiles that were begun. -/
  compiled : Nat := 0
  cancelled : Bool := false
  dryRun : Bool := false
  deriving DecidableEq, Repr, Inhabited

namespace BuildReport

/-- Whether the run was not cancelled and no project failed or was skipped. -/
def isSuccess (r : BuildReport) : Bool :=
  !r.cancelled && r.projects.all fun outcome => !outcome.status.blocksDependents

def exitCode (r : BuildReport) : ExitCode :=
  if r.cancelled then .cancelled
  else if r.isSuccess then .success
  else .buildFailure

def statusOf? (r : BuildReport) (project : Path) : Option Status :=
  (r.projects.find? fun outcome => outcome.project.same project).map Outcome.status

def count (r : BuildReport) (status : Status) : Nat :=
  r.projects.countP fun outcome => outcome.status == status

/-- The tally, on one line. -/
def summary (r : BuildReport) : String :=
  let tally (status : Status) (label : String) := toString (r.count status) ++ label
  toString r.projects.length ++ " projects: " ++ tally .built " built, " ++
    tally .upToDate " up to date, " ++ tally .failed " failed, " ++ tally .skipped " skipped" ++
    (if r.dryRun then ", " ++ tally .stale " would build" else "") ++
    (if r.cancelled then " (cancelled)" else "")

/-- Lines of outcomes, with a heading where a level begins; `level` is the level of the outcome
before. -/
def levelLines (line : Outcome → String) (level : Option Nat) : List Outcome → String
  | [] => ""
  | outcome :: rest =>
    (if level = some outcome.level then "" else "Level " ++ toString (outcome.level + 1) ++ ":\n")
      ++ line outcome ++ levelLines line (some outcome.level) rest

def outcomeLine (outcome : Outcome) : String :=
  "  " ++ outcome.project.text ++ " [" ++ outcome.status.label ++ "] " ++ outcome.reason.message
    ++ "\n"

/-- The whole report: outcomes by level, diagnostics, and the tally. -/
def text (r : BuildReport) : String :=
  levelLines outcomeLine none r.projects ++
    String.join (r.diagnostics.map fun d => d.line ++ "\n") ++ r.summary

end BuildReport

end ProjectBuild
