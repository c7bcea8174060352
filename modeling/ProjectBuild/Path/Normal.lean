import ProjectBuild.Path.Basic

/-!
# Lexical normal form

`normalize` removes every `.` and folds every `..` into the name before it, without asking any
filesystem. A `..` above the root stays at the root; a relative path keeps the `..` that have no
name to fold into, in front. Normal paths are what identifies a project.
-/

namespace ProjectBuild

namespace Path

/-- One more component on a folded path, held in reverse. -/
def fold : List Component → Component → List Component
  | seen, .current => seen
  | .name _ :: seen, .parent => seen
  | .root :: seen, .parent => .root :: seen
  | seen, component => component :: seen

/-- The folded form of components. -/
def foldComponents (components : List Component) : List Component :=
  (components.foldl fold []).reverse

/-- The canonical spelling of a path with `.` removed and `..` folded. -/
def normalize (p : Path) : Path :=
  ofComponents (foldComponents p.components)

/-- The normal form of `p` as seen from `base`. -/
def absolutize (base p : Path) : Path :=
  if p.isAbsolute then p.normalize else (base.join p).normalize

end Path

end ProjectBuild
