import ProjectBuild.Run.Crew

/-!
# The levels of a run

A run goes through the levels of the graph, and every level has two phases. First each project of
the level is decided on, in order; a project that need not or cannot be built is final then. After
that a crew builds the rest. The next level begins only when all projects of this one are final,
so nobody sees the half-written outputs of a reference.
-/

namespace ProjectBuild

/-- What a run has come to between two levels. -/
structure Progress (σ : Type) where
  run : Run σ
  /-- The reason behind each project's status, by index. -/
  reasons : List Reason
  records : Staleness.Records

/-- When, during one level, a run is cancelled and workers take steps. The default is an
undisturbed level whose projects are built one after the other. -/
structure LevelSchedule where
  /-- Whether a cancellation comes in just before a project is decided on, in order. -/
  interruptions : List Bool := []
  turns : List Turn := []
  deriving Inhabited

namespace Progress

/-- The status that a project gets before building begins, and the reason that is kept. -/
def ruling (options : BuildOptions) : Reason → Status × Reason
  | .cancelled => (.skipped, .cancelled)
  | .upstreamBlocked project => (.skipped, .upstreamBlocked project)
  | .upToDate => if options.force then (.stale, .forced) else (.upToDate, .upToDate)
  | reason => (.stale, reason)

variable {σ : Type}

def interrupt (s : Progress σ) (cancelled : Bool) : Progress σ :=
  if cancelled then { s with run := s.run.cancel } else s

/-- Takes down what a worker leaves behind: a new record, or that its project was given up. -/
def collect (s : Progress σ) (worker : Worker σ) : Progress σ :=
  let i := worker.index
  -- a worker whose project is skipped now was cancelled before it began
  let s := if s.run.statuses.get i = .skipped
    then { s with reasons := s.reasons.set i .cancelled } else s
  match worker.record? with
  | some record => { s with records := s.records.set i (some record) }
  | none => s

variable [FileSystem σ]

/-- The ground for the decision on a project. -/
def ground (g : Graph) (s : Progress σ) (i : Nat) : Reason :=
  if s.run.site.cancelled then .cancelled
  else Staleness.check s.run.site.files g s.run.statuses s.records i

/-- Decides on a project. -/
def decide (g : Graph) (options : BuildOptions) (s : Progress σ) (i : Nat) : Progress σ :=
  let (status, reason) := ruling options (ground g s i)
  { s with
    run := if status.isTerminal then s.run.finish i status else s.run.publish i status
    reasons := s.reasons.set i reason }

/-- Decides on the projects of a level, in order. -/
def decideEach (g : Graph) (options : BuildOptions) (s : Progress σ) :
    List Bool → List Nat → Progress σ
  | _, [] => s
  | interruptions, i :: level =>
    decideEach g options
      (decide g options (s.interrupt (interruptions.headD false)) i) interruptions.tail level

/-- The projects of a level that are to be built. -/
def stale (s : Progress σ) (level : List Nat) : List Nat :=
  level.filter fun i => s.run.statuses.get i == .stale

/-- Builds what is stale in a level. -/
def build (g : Graph) (compiler : Compiler σ) (turns : List Turn) (s : Progress σ)
    (level : List Nat) : Progress σ :=
  let workplace : Workplace σ := ⟨g, compiler, s.records⟩
  let (crew, run) := Crew.work workplace (s.stale level) turns s.run
  crew.foldl collect { s with run := run }

/-- One level of a run. -/
def level (g : Graph) (options : BuildOptions) (compiler : Compiler σ)
    (schedule : LevelSchedule) (s : Progress σ) (level : List Nat) : Progress σ :=
  let s := decideEach g options s schedule.interruptions level
  -- a dry run ends with its decisions
  if options.dryRun then s else build g compiler schedule.turns s level

/-- Levels in order, each with its schedule; levels beyond the schedules are undisturbed. -/
def levels (g : Graph) (options : BuildOptions) (compiler : Compiler σ) (s : Progress σ) :
    List LevelSchedule → List (List Nat) → Progress σ
  | _, [] => s
  | schedules, first :: rest =>
    levels g options compiler
      (level g options compiler (schedules.headD {}) s first) schedules.tail rest

end Progress

end ProjectBuild
