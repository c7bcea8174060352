import ProjectBuild.Graph.Basic

/-!
# Reachability

The projects that depend on a project, directly or through others.
-/

namespace ProjectBuild.Graph

/-- Adds the dependents of one project: those not seen before are seen now and wait on the
stack. -/
def meet (seen stack : List Nat) : List Nat → List Nat × List Nat
  | [] => (seen, stack)
  | i :: rest =>
    if seen.contains i then meet seen stack rest else meet (i :: seen) (i :: stack) rest

/-- Follows dependents from the stack, for at most so many projects. -/
def follow (g : Graph) : Nat → List Nat → List Nat → List Nat
  | 0, seen, _ => seen
  | _ + 1, seen, [] => seen
  | n + 1, seen, i :: stack =>
    let (seen, stack) := meet seen stack (g.dependents i)
    follow g n seen stack

/-- Every project that depends on `i`, ascending. -/
def transitiveDependents (g : Graph) (i : Nat) : List Nat :=
  let seen := g.follow (g.size + 1) [] [i]
  g.indices.filter seen.contains

end ProjectBuild.Graph
