import ProjectBuild.Closure.Load
import ProjectBuild.Graph.Level
import ProjectBuild.Run.Level

/-!
# Builds

A build loads the graph of its roots and takes it through all levels. An error in the graph ends
it before anything is touched; an error in one project only keeps the projects that depend on it
from being built.
-/

namespace ProjectBuild

variable {σ : Type} [FileSystem σ]

/-- The records on file of all projects, by index. -/
def loadRecords (fs : σ) (g : Graph) : Noted Staleness.Records :=
  let records := g.nodes.map (BuildRecord.load fs)
  ⟨records.map Noted.value, records.flatMap Noted.notes⟩

/-- What a run begins with. -/
def Progress.start (site : Site σ) (g : Graph) : Progress σ :=
  let records := loadRecords site.files g
  { run := (Run.start site g.size).note records.notes
    reasons := List.replicate g.size .noPriorBuild
    records := records.value }

/-- The outcomes of the projects of one level. -/
def Progress.outcomes (g : Graph) (s : Progress σ) (level : Nat) (projects : List Nat) :
    List Outcome :=
  projects.map fun i => {
    project := (g.node i).configPath
    status := s.run.statuses.get i
    reason := s.reasons.getD i .noPriorBuild
    level := level }

def Progress.report (g : Graph) (options : BuildOptions) (s : Progress σ) : BuildReport where
  projects := (g.levels.zipIdx.map fun (projects, level) => s.outcomes g level projects).flatten
  levels := g.levels.length
  diagnostics := s.run.diagnostics
  compiled := s.run.handed.length
  cancelled := s.run.site.cancelled
  dryRun := options.dryRun

/-- Builds a loaded graph. -/
def buildGraph (options : BuildOptions) (compiler : Compiler σ) (schedule : List LevelSchedule)
    (g : Graph) (site : Site σ) : BuildReport × Run σ :=
  let s := Progress.levels g options compiler (Progress.start site g) schedule g.levels
  let report := s.report g options
  (report, s.run.note [.log (.finished report.projects.length report.compiled)])

/-- Loads the graph of some roots and builds it. -/
def build (options : BuildOptions) (compiler : Compiler σ) (schedule : List LevelSchedule)
    (roots : List Path) (site : Site σ) : Except Error (Graph × BuildReport) × Run σ :=
  let loaded := loadGraph site.files roots
  let site := site.note loaded.notes
  match loaded.value with
  | .error e => (.error e, Run.start site 0)
  | .ok g =>
    let (report, run) := buildGraph options compiler schedule g site
    (.ok (g, report), run)

end ProjectBuild
