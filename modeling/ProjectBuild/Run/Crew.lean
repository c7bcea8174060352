import ProjectBuild.Record.Store
import ProjectBuild.Run.Basic
import ProjectBuild.Staleness

/-!
# Workers and crews

How one project is built, and how all projects of a level are.
-/

/-!
## Workers

A worker builds one stale project, in **stages**. It removes the project's record before it
compiles, and writes a new one only after the compile has succeeded, so a build that breaks off
anywhere in between leaves none. Between two steps of a worker, steps of others may take place;
`complete` takes the steps that are left without interruption.
-/

namespace ProjectBuild

/-- What the workers of a level share. -/
structure Workplace (σ : Type) where
  graph : Graph
  compiler : Compiler σ
  /-- The records known when the level began. -/
  records : Staleness.Records

/-- How far a worker has come. -/
inductive Stage (σ : Type) where
  | waiting
  /-- The status says that the project is being built; the old record is still there. -/
  | started
  | compiling (job : Job σ)
  /-- The compile has succeeded. -/
  | returned
  /-- The new record is at hand, but not yet on file. -/
  | recorded (record : BuildRecord)
  /-- The outcome is known, but not yet published. -/
  | closing (result : Except Error BuildRecord)
  /-- Finished, with the new record if the project was built. -/
  | finished (record : Option BuildRecord)

/-- The stamps of the records that are known of the direct references of a project. -/
def referenceStamps (g : Graph) (records : Staleness.Records) (i : Nat) : PathMap String :=
  PathMap.ofList ((g.dependencies i).filterMap fun j =>
    (Staleness.stampOf? records j).map fun stamp => ((g.node j).configPath, stamp))

namespace Stage

/-- The status that a result ends in. -/
def verdict : Except Error BuildRecord → Status
  | .ok _ => .built
  | .error .cancelled => .skipped
  | .error _ => .failed

/-- The messages of a compile that failed; there is always one. -/
def failureMessages (diagnostics : List String) : List String :=
  if diagnostics.isEmpty then ["compilation failed"] else diagnostics

variable {σ : Type}

/-- Reports a failure. -/
def explain (p : Project) (run : Run σ) : Except Error BuildRecord → Run σ
  | .ok _ => run
  | .error .cancelled => run
  | .error (.compile project diagnostics) =>
    (run.note [.log (.buildFailed project none)]).diagnose project (failureMessages diagnostics)
  | .error e =>
    (run.note [.log (.buildFailed p.configPath (some e))]).diagnose p.configPath [e.message]

/-- The record that a result comes to. -/
def recordOf? : Except Error BuildRecord → Option BuildRecord
  | .ok record => some record
  | .error _ => none

variable [FileSystem σ]

/-- Begins work on a project, unless the run has been cancelled. -/
def enter (p : Project) (i : Nat) (run : Run σ) : Stage σ × Run σ :=
  if run.site.cancelled then (finished none, run.finish i .skipped)
  else
    (started, ((run.publish i .building).enter [.started i]).note [.log (.building p.configPath)])

/-- Removes the old record and hands the project to the compiler. -/
def handOver (w : Workplace σ) (i : Nat) (run : Run σ) : Stage σ × Run σ :=
  match BuildRecord.invalidate run.site.files (w.graph.node i) with
  | (.error e, files) => (closing (.error e), (run.setFiles files).enter [.cleared i])
  | (.ok _, files) =>
    (compiling (w.compiler w.graph i), (run.setFiles files).enter [.cleared i, .handed i])

/-- One step of a compile. -/
def compile (p : Project) (i : Nat) (run : Run σ) : Job σ → Stage σ × Run σ
  | .step effect next => (compiling (next run.site), { run with site := effect run.site })
  | .done (.ok messages) =>
    (returned, (run.diagnose p.configPath messages).enter [.returned i true])
  | .done (.error e) => (closing (.error e), run.enter [.returned i false])

/-- Takes the record of the build that has just ended. -/
def record (w : Workplace σ) (i : Nat) (run : Run σ) : Stage σ × Run σ :=
  let record := BuildRecord.capture run.site.files (w.graph.node i)
    (referenceStamps w.graph w.records i)
  (recorded record, run.enter [.captured i record])

/-- Writes the new record. -/
def save (p : Project) (run : Run σ) (record : BuildRecord) : Stage σ × Run σ :=
  let (result, files) := BuildRecord.save run.site.files p record
  (closing (result.map fun _ => record), run.setFiles files)

/-- Publishes the outcome. -/
def close (p : Project) (i : Nat) (run : Run σ) (result : Except Error BuildRecord) :
    Stage σ × Run σ :=
  (finished (recordOf? result), (explain p run result).finish i (verdict result))

/-- One step of the worker for project `i`. -/
def step (w : Workplace σ) (i : Nat) (run : Run σ) : Stage σ → Stage σ × Run σ
  | waiting => enter (w.graph.node i) i run
  | started => handOver w i run
  | compiling job => compile (w.graph.node i) i run job
  | returned => record w i run
  | recorded record => save (w.graph.node i) run record
  | closing result => close (w.graph.node i) i run result
  | finished record => (finished record, run)

/-- Takes several steps. -/
def steps (w : Workplace σ) (i : Nat) : Nat → Stage σ → Run σ → Stage σ × Run σ
  | 0, stage, run => (stage, run)
  | n + 1, stage, run =>
    let (stage, run) := stage.step w i run
    steps w i n stage run

/-- Takes all the steps of a compile but the last. -/
def settle (stage : Stage σ) (run : Run σ) : Stage σ × Run σ :=
  match stage with
  | compiling job =>
    let (result, site) := job.run run.site
    (compiling (.done result), { run with site := site })
  | stage => (stage, run)

/-- Takes all the steps that are left: two before a compile and four after it. -/
def complete (w : Workplace σ) (i : Nat) (stage : Stage σ) (run : Run σ) : Stage σ × Run σ :=
  let (stage, run) := steps w i 2 stage run
  let (stage, run) := stage.settle run
  steps w i 4 stage run

end Stage

end ProjectBuild

/-!
## Crews

The workers of one level. They may take their steps in any order, and the run may be cancelled
between any two steps: a list of **turns** says how. Whatever the turns leave undone is then done
by one worker after the other, so every list of turns leads to the end of the level, and the
empty list is the order of a single worker at a time.
-/

namespace ProjectBuild

structure Worker (σ : Type) where
  /-- Index of the project it builds. -/
  index : Nat
  stage : Stage σ := .waiting

/-- What happens next while a crew works. -/
inductive Turn where
  /-- The worker at a place takes a step. -/
  | worker (place : Nat)
  /-- The run is cancelled from outside. -/
  | cancel
  deriving DecidableEq, Repr, Inhabited

abbrev Crew (σ : Type) := List (Worker σ)

namespace Crew

variable {σ : Type} [FileSystem σ]

/-- One step of the worker at a place, if there is one. -/
def advance (w : Workplace σ) (crew : Crew σ) (run : Run σ) : Nat → Crew σ × Run σ :=
  match crew with
  | [] => fun _ => ([], run)
  | worker :: rest => fun
    | 0 =>
      let (stage, run) := worker.stage.step w worker.index run
      ({ worker with stage := stage } :: rest, run)
    | place + 1 =>
      let (rest, run) := advance w rest run place
      (worker :: rest, run)

/-- Takes turns in the given order. -/
def interleave (w : Workplace σ) (crew : Crew σ) (run : Run σ) : List Turn → Crew σ × Run σ
  | [] => (crew, run)
  | .worker place :: turns =>
    let (crew, run) := advance w crew run place
    interleave w crew run turns
  | .cancel :: turns => interleave w crew run.cancel turns

/-- Completes one worker after the other. -/
def complete (w : Workplace σ) (crew : Crew σ) (run : Run σ) : Crew σ × Run σ :=
  match crew with
  | [] => ([], run)
  | worker :: rest =>
    let (stage, run) := worker.stage.complete w worker.index run
    let (rest, run) := complete w rest run
    ({ worker with stage := stage } :: rest, run)

/-- Builds some projects, with the steps of their workers in an order that begins with the given
turns. -/
def work (w : Workplace σ) (stale : List Nat) (turns : List Turn) (run : Run σ) :
    Crew σ × Run σ :=
  let (crew, run) := interleave w (stale.map fun i => { index := i }) run turns
  complete w crew run

end Crew

/-- The new record of a worker that has built its project. -/
def Worker.record? {σ : Type} (worker : Worker σ) : Option BuildRecord :=
  match worker.stage with
  | .finished record => record
  | _ => none

end ProjectBuild
