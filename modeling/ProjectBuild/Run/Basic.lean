import ProjectBuild.Compile.Job
import ProjectBuild.Record.Basic
import ProjectBuild.Status.Report

/-!
# Runs

The state of a run that is under way. All that happens to the projects is written into a
**journal** in the order in which it happens; what an onlooker is told (`events`) and what was
given to the compiler (`handed`) are read off from it.
-/

namespace ProjectBuild

structure BuildOptions where
  /-- Rebuild what is up to date, too. -/
  force : Bool := false
  /-- Decide on every project, but build none. -/
  dryRun : Bool := false
  deriving DecidableEq, Repr, Inhabited

/-- What an onlooker is told of a run. -/
inductive BuildEvent where
  | started (project : Path)
  /-- The project reached a terminal status. -/
  | finished (project : Path) (status : Status)
  deriving DecidableEq, Repr, Inhabited

/-- An entry of the journal, about the project of an index. -/
inductive Entry where
  | published (i : Nat) (status : Status)
  /-- The building of the project was announced. -/
  | started (i : Nat)
  /-- The project's old record was to be removed. -/
  | cleared (i : Nat)
  /-- The project was given to the compiler. -/
  | handed (i : Nat)
  /-- The compile of the project ended, successfully or not. -/
  | returned (i : Nat) (success : Bool)
  /-- The record of the project's build was taken. -/
  | captured (i : Nat) (record : BuildRecord)
  /-- A terminal status was announced. -/
  | finished (i : Nat) (status : Status)
  deriving DecidableEq, Repr, Inhabited

/-- A run over a graph, between two steps. -/
structure Run (σ : Type) where
  site : Site σ
  statuses : StatusTable
  journal : List Entry := []
  diagnostics : List Diagnostic := []

namespace Run

variable {σ : Type}

/-- A run over so many projects in which nothing has happened. -/
def start (site : Site σ) (size : Nat) : Run σ :=
  { site := site, statuses := .ofSize size }

def enter (run : Run σ) (entries : List Entry) : Run σ :=
  { run with journal := run.journal ++ entries }

/-- Adds notes to the log. -/
def note (run : Run σ) (notes : List Note) : Run σ :=
  { run with site := run.site.note notes }

/-- Sets the status of a project. -/
def publish (run : Run σ) (i : Nat) (status : Status) : Run σ :=
  { run.enter [.published i status] with statuses := run.statuses.publish i status }

/-- Sets a status that is final, and announces it. -/
def finish (run : Run σ) (i : Nat) (status : Status) : Run σ :=
  (run.publish i status).enter [.finished i status]

/-- Adds messages about a project. -/
def diagnose (run : Run σ) (project : Path) (messages : List String) : Run σ :=
  { run with diagnostics := run.diagnostics ++ messages.map fun text => ⟨project, text⟩ }

/-- Changes the files. -/
def setFiles (run : Run σ) (files : σ) : Run σ :=
  { run with site := { run.site with files := files } }

def cancel (run : Run σ) : Run σ :=
  { run with site := run.site.cancel }

/-- The indices of the projects that were given to the compiler, in order. -/
def handed (run : Run σ) : List Nat :=
  run.journal.filterMap fun
    | .handed i => some i
    | _ => none

def events (g : Graph) (run : Run σ) : List BuildEvent :=
  run.journal.filterMap fun
    | .started i => some (.started (g.node i).configPath)
    | .finished i status => some (.finished (g.node i).configPath status)
    | _ => none

end Run

end ProjectBuild
