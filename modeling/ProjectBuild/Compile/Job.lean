import ProjectBuild.FileSystem.Basic
import ProjectBuild.Graph.Basic

/-!
# Compiles

A compile is a job that acts on files step by step and ends with messages or an error. Between
two steps of one job, steps of others may take place; a job decides how to go on from the state
it meets.
-/

namespace ProjectBuild

/-- What jobs act on. -/
structure Site (σ : Type) where
  files : σ
  /-- Whether the run has been cancelled; never taken back. -/
  cancelled : Bool := false
  notes : List Note := []

namespace Site

variable {σ : Type}

def cancel (s : Site σ) : Site σ :=
  { s with cancelled := true }

def note (s : Site σ) (notes : List Note) : Site σ :=
  { s with notes := s.notes ++ notes }

end Site

/-- A job on files of type `σ`. -/
inductive Job (σ : Type) where
  | done (result : Except Error (List String))
  /-- Changes the site at once, and goes on as the site before the change says. -/
  | step (effect : Site σ → Site σ) (next : Site σ → Job σ)

namespace Job

variable {σ : Type}

/-- Runs a job to its end without interruption. -/
def run : Job σ → Site σ → Except Error (List String) × Site σ
  | done result, s => (result, s)
  | step effect next, s => (next s).run (effect s)

/-- Looks at the site and goes on. -/
def look (next : Site σ → Job σ) : Job σ :=
  step id next

/-- One uninterrupted action. -/
def ofAction (action : Site σ → Except Error (List String) × Site σ) : Job σ :=
  step (fun s => (action s).2) fun s => done (action s).1

variable [FileSystem σ]

/-- Writes the same text to files, one step each, up to the first failure. -/
def writeEach (text : String) : List Path → Job σ → Job σ
  | [], next => next
  | path :: rest, next =>
    step (fun s => { s with files := (FileSystem.write s.files path text).2 }) fun s =>
      match (FileSystem.write s.files path text).1 with
      | .ok () => writeEach text rest next
      | .error failure => done (.error (.io failure))

end Job

/-- A compiler: the job of compiling one project of a graph. -/
abbrev Compiler (σ : Type) := Graph → Nat → Job σ

end ProjectBuild
