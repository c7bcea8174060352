import ProjectBuild.Console.Palette
import ProjectBuild.Graph.Level
import ProjectBuild.Status.Report

/-!
# Reports and graphs on the console

What the command line prints about a run, and about a graph.
-/

/-!
## Reports on the console

What the command line prints about a run. A plan shows every project by level; after a build,
projects that were up to date are only shown on request.
-/

namespace ProjectBuild

namespace Palette

/-- The line of a project in a plan. -/
def planLine (p : Palette) (outcome : Outcome) : String :=
  "  " ++ p.statusLabel outcome.status ++ " " ++ outcome.project.text ++ " (" ++
    outcome.reason.message ++ ")\n"

def plan (p : Palette) (report : BuildReport) : String :=
  p.mark "🔎" "[PLAN]" ++ " Build plan\n" ++
    BuildReport.levelLines p.planLine none report.projects

/-- The line of a project after a build. -/
def resultLine (p : Palette) (verbose : Bool) (outcome : Outcome) : String :=
  p.statusLabel outcome.status ++ " " ++ outcome.project.text ++
    (if verbose then " (" ++ outcome.reason.message ++ ")" else "") ++ "\n"

/-- The projects that are shown after a build. -/
def shown (verbose : Bool) (report : BuildReport) : List Outcome :=
  report.projects.filter fun outcome => verbose || outcome.status != .upToDate

def results (p : Palette) (verbose : Bool) (report : BuildReport) : String :=
  String.join ((shown verbose report).map (p.resultLine verbose))

/-- The tally under a mark of success or failure. -/
def tally (p : Palette) (report : BuildReport) : String :=
  (if report.isSuccess then p.mark "✅" "[OK]" else p.mark "❌" "[FAILED]") ++ " " ++
    report.summary ++ "\n"

def report (p : Palette) (verbose : Bool) (report : BuildReport) : String :=
  (if report.dryRun then p.plan report else p.results verbose report) ++ p.tally report

/-- What is printed about files that were removed. -/
def removal (p : Palette) (removed : List Path) : String :=
  String.join (removed.map fun path => "removed " ++ path.text ++ "\n") ++
    p.mark "🧹" "[CLEAN]" ++ " Removed " ++ toString removed.length ++ " files\n"

end Palette

/-- A number in two digits. -/
def twoDigits (n : Nat) : String :=
  (if n < 10 then "0" else "") ++ toString n

/-- The line that tells how long a run took, in seconds and hundredths. -/
def durationLine (nanos : Nat) : String :=
  let hundredths := (nanos + 5000000) / 10000000
  "   finished in " ++ toString (hundredths / 100) ++ "." ++ twoDigits (hundredths % 100) ++ "s\n"

end ProjectBuild

/-!
## Graphs on the console

The tree of references below every root, and the levels. A project appears below every project
that references it.
-/

namespace ProjectBuild

/-- A tree with text at its nodes. -/
inductive Tree where
  | node (label : String) (children : List Tree)
  deriving Inhabited

namespace Tree

mutual

/-- The lines of a tree: the first is the label, and the others carry the branches in front. -/
def lines : Tree → List String
  | node label children => label :: branches children

/-- The lines of several trees below one node. -/
def branches : List Tree → List String
  | [] => []
  | [last] =>
    match lines last with
    | [] => []
    | first :: rest => ("└─ " ++ first) :: rest.map ("   " ++ ·)
  | tree :: trees =>
    (match lines tree with
      | [] => []
      | first :: rest => ("├─ " ++ first) :: rest.map ("│  " ++ ·)) ++ branches trees

end

def text (tree : Tree) : String :=
  String.join (tree.lines.map (· ++ "\n"))

end Tree

namespace Graph

/-- The references below a project, at most so many levels deep. -/
def treeUpTo (g : Graph) : Nat → Nat → Tree
  | 0, i => .node (g.node i).name []
  | depth + 1, i =>
    let p := g.node i
    .node (p.name ++ " (" ++ p.configPath.text ++ ")")
      ((g.dependencies i).map (treeUpTo g depth))

/-- The tree of references below a project; no chain of references is longer than the graph. -/
def tree (g : Graph) (i : Nat) : Tree :=
  g.treeUpTo g.size i

/-- The line of a level, which is counted from one. -/
def levelLine (g : Graph) (level : List Nat × Nat) : String :=
  "  " ++ toString (level.2 + 1) ++ ": " ++
    ", ".intercalate (level.1.map fun i => (g.node i).name) ++ "\n"

/-- Everything that is printed about a graph. -/
def display (p : Palette) (g : Graph) : String :=
  p.mark "🌳" "[GRAPH]" ++ " Project references\n" ++
    String.join (g.roots.map fun i => (g.tree i).text) ++ "\nBuild levels:\n" ++
    String.join (g.levels.zipIdx.map g.levelLine)

end Graph

end ProjectBuild
