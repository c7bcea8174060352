import ProjectBuild.Project

/-!
# Project graphs

Projects are addressed by their index. An edge leads from a project to one that it references;
the projects an index references are its **dependencies**, those that reference it its
**dependents**. Both views keep the order of the edges.
-/

namespace ProjectBuild

/-- A list of projects with reference edges between their indices, and the projects that were
asked for. -/
structure Graph where
  nodes : List Project := []
  /-- Pairs `(referencing, referenced)`, without repeats. -/
  edges : List (Nat × Nat) := []
  /-- The requested projects, in request order, without repeats. -/
  roots : List Nat := []
  deriving Inhabited, Repr

namespace Graph

def size (g : Graph) : Nat :=
  g.nodes.length

def isEmpty (g : Graph) : Bool :=
  g.nodes.isEmpty

def node (g : Graph) (i : Nat) : Project :=
  g.nodes.getD i default

/-- Indices of all projects. -/
def indices (g : Graph) : List Nat :=
  List.range g.size

/-- The projects that `i` references directly. -/
def dependencies (g : Graph) (i : Nat) : List Nat :=
  (g.edges.filter fun edge => edge.1 == i).map Prod.snd

/-- The projects that reference `i` directly. -/
def dependents (g : Graph) (i : Nat) : List Nat :=
  (g.edges.filter fun edge => edge.2 == i).map Prod.fst

/-- The last index of a project with this configuration path. -/
def indexOf? (g : Graph) (configPath : Path) : Option Nat :=
  g.indices.reverse.find? fun i => (g.node i).configPath.same configPath

end Graph

/-- A list without the later repeats of an element. -/
def distinct {α : Type} [BEq α] (xs : List α) : List α :=
  xs.foldl (fun seen x => if seen.contains x then seen else seen ++ [x]) []

end ProjectBuild
