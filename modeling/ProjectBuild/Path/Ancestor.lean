import ProjectBuild.Path.Basic

/-!
# Common directory

The deepest directory that contains every path of a list, found by widening the directory of the
first path until it contains the next one.
-/

namespace ProjectBuild

namespace Path

/-- The nearest of `candidate` and its ancestors that contains `p`. -/
def widen? (candidate p : Path) : Option Path :=
  (candidate :: candidate.ancestors).find? (isWithin · p)

/-- Deepest directory containing every path. There is none for no paths, or when a relative
directory would have to contain an absolute path. -/
def commonAncestor? : List Path → Option Path
  | [] => none
  | first :: rest => rest.foldlM widen? (first.parent?.getD first)

end Path

end ProjectBuild
