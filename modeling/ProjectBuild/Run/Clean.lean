import ProjectBuild.Closure.Load
import ProjectBuild.Graph.Build

/-!
# Cleaning

Removing what builds produce: the expected outputs and the record of every project reachable from
the roots. The first file that cannot be removed ends it.
-/

namespace ProjectBuild

/-- The files that building a project produces, in the order in which they are removed. -/
def Project.products (p : Project) : List Path :=
  p.expectedOutputs ++ [p.recordPath]

variable {σ : Type} [FileSystem σ]

/-- Removes files; lists those that existed, behind the ones `removed` before. -/
def removeEach (fs : σ) (removed : List Path) : List Path → Except Error (List Path) × σ
  | [] => (.ok removed, fs)
  | path :: rest =>
    match FileSystem.remove fs path with
    | (.error failure, fs) => (.error (.io failure), fs)
    | (.ok existed, fs) => removeEach fs (if existed then removed ++ [path] else removed) rest

/-- Removes the products of all projects of a graph; lists what was removed, in path order. -/
def cleanGraph (g : Graph) (fs : σ) : Except Error (List Path) × σ :=
  let (removed, fs) :=
    removeEach fs [] (g.topologicalOrder.flatMap fun i => (g.node i).products)
  (removed.map Path.sort, fs)

/-- Removes the products of everything reachable from the roots. -/
def clean (fs : σ) (roots : List Path) : Noted (Except Error (List Path) × σ) :=
  let loaded := loadGraph fs roots
  match loaded.value with
  | .error e => ⟨(.error e, fs), loaded.notes⟩
  | .ok g => ⟨cleanGraph g fs, loaded.notes⟩

end ProjectBuild
