import ProjectBuild.Graph.Build

/-!
# Levels

The partition of a graph by which it is built. A project lies one level before the earliest of
its dependents, so all its references lie in strictly earlier levels, and the last level holds
what nothing depends on.
-/

namespace ProjectBuild.Graph

/-- The height of a project, from the heights of its dependents: one more than the largest, or
zero for a project nothing depends on. -/
def heightAbove (g : Graph) (heights : List Nat) (i : Nat) : Nat :=
  ((g.dependents i).map fun dependent => heights.getD dependent 0 + 1).foldl max 0

/-- Length of the longest chain of dependents above each project. -/
def heights (g : Graph) : List Nat :=
  g.topologicalOrder.reverse.foldl (fun heights i => heights.set i (g.heightAbove heights i))
    (List.replicate g.size 0)

/-- The levels, earliest first; indices within a level ascend. -/
def levels (g : Graph) : List (List Nat) :=
  if g.isEmpty then []
  else
    let heights := g.heights
    let top := heights.foldl max 0
    (List.range (top + 1)).map fun level =>
      g.indices.filter fun i => heights.getD i 0 + level == top

end ProjectBuild.Graph
