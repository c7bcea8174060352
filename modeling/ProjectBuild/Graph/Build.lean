import ProjectBuild.Error.Basic
import ProjectBuild.Graph.Basic

/-!
# Ordering and building

A graph is built if its projects can be put in order, and otherwise refused with a cycle.
-/

/-!
## Topological order

Every project stands behind all projects it references. Among the projects that could come next,
the one with the smallest index does, so the order is determined by the graph.

Each project counts the references that are still to be placed; placing a project lowers the
count of every dependent, and a project whose count reaches zero is ready.
-/

namespace ProjectBuild.Graph

/-- The state of the ordering. -/
structure Placement where
  /-- For each project, how many of its references are not placed yet. -/
  remaining : List Nat
  /-- Projects that may come next, ascending. -/
  ready : List Nat
  /-- Projects placed so far. -/
  placed : List Nat
  deriving Repr, DecidableEq

/-- Puts an index into an ascending list. -/
def insertAscending (i : Nat) : List Nat → List Nat
  | [] => [i]
  | j :: rest =>
    if i < j then i :: j :: rest else if i = j then j :: rest else j :: insertAscending i rest

/-- One reference of `dependent` has been placed. -/
def Placement.release (s : Placement) (dependent : Nat) : Placement :=
  let left := s.remaining.getD dependent 0 - 1
  { s with
    remaining := s.remaining.set dependent left
    ready := if left = 0 then insertAscending dependent s.ready else s.ready }

/-- The state before any project is placed. -/
def start (g : Graph) : Placement where
  remaining := g.indices.map fun i => (g.dependencies i).length
  ready := g.indices.filter fun i => (g.dependencies i).isEmpty
  placed := []

/-- Places the first ready project, if there is one. -/
def place? (g : Graph) (s : Placement) : Option Placement :=
  match s.ready with
  | [] => none
  | i :: rest =>
    some ((g.dependents i).foldl Placement.release
      { s with ready := rest, placed := s.placed ++ [i] })

/-- Places at most `n` projects. -/
def placeUpTo (g : Graph) : Nat → Placement → Placement
  | 0, s => s
  | n + 1, s =>
    match g.place? s with
    | none => s
    | some s => placeUpTo g n s

/-- The projects in dependency order. Those on a cycle, and those that depend on one, are
missing. -/
def topologicalOrder (g : Graph) : List Nat :=
  (g.placeUpTo g.size g.start).placed

end ProjectBuild.Graph

/-!
## Cycles

A depth-first search for a cycle. It keeps the path from where it started and the projects that
are finished; a reference back into the path closes a cycle.
-/

namespace ProjectBuild.Graph

/-- Result of a search: a closed path, or the projects known to reach no cycle. -/
inductive Search where
  | cycle (path : List Nat)
  | done (finished : List Nat)
  deriving Repr, DecidableEq

/-- The closed path along `path`, from the entry `i` to its end and back to `i`. -/
def closePath (path : List Nat) (i : Nat) : List Nat :=
  path.dropWhile (· != i) ++ [i]

/-- Searches from each of `targets` in turn, until a cycle is found. -/
def searchEach (visit : List Nat → Nat → Search) (path : List Nat) :
    List Nat → List Nat → Search
  | finished, [] => .done finished
  | finished, i :: rest =>
    if path.contains i then .cycle (closePath path i)
    else if finished.contains i then searchEach visit path finished rest
    else match visit finished i with
      | .cycle found => .cycle found
      | .done finished => searchEach visit path finished rest

/-- Searches from `i`, which is at the end of a path of at most `depth` projects. -/
def search (g : Graph) : Nat → List Nat → List Nat → Nat → Search
  | 0, _, finished, _ => .done finished
  | depth + 1, path, finished, i =>
    match searchEach (g.search depth (path ++ [i])) (path ++ [i]) finished (g.dependencies i) with
    | .cycle found => .cycle found
    | .done finished => .done (i :: finished)

/-- A cycle of the graph, as a path that starts and ends at the same project. -/
def cycle? (g : Graph) : Option (List Nat) :=
  match searchEach (g.search g.size []) [] [] g.indices with
  | .cycle found => some found
  | .done _ => none

end ProjectBuild.Graph

/-!
## Building a graph

A graph is built from its projects, edges and roots if all indices are in range and the edges
form no cycle. Repeated edges and roots are collapsed into their first occurrence.
-/

namespace ProjectBuild.Graph

/-- The first end of an edge that is out of range. -/
def unknownEnd? (size : Nat) (edges : List (Nat × Nat)) : Option Nat :=
  (edges.flatMap fun edge => [edge.1, edge.2]).find? fun i => decide (size ≤ i)

/-- Builds a graph, refusing indices out of range and cycles. -/
def ofEdges (nodes : List Project) (edges : List (Nat × Nat)) (roots : List Nat) :
    Except Error Graph :=
  match unknownEnd? nodes.length edges with
  | some i => .error (.config ⟨""⟩ (.unknownEdgeEnd i))
  | none =>
    match roots.find? fun i => decide (nodes.length ≤ i) with
    | some i => .error (.config ⟨""⟩ (.unknownRoot i))
    | none =>
      -- an order that leaves out nobody exists just where there is no cycle
      let g : Graph := ⟨nodes, distinct edges, distinct roots⟩
      if g.topologicalOrder.length = g.size then .ok g
      else .error (.cycle ((g.cycle?.getD []).map fun i => (g.node i).configPath))

end ProjectBuild.Graph
