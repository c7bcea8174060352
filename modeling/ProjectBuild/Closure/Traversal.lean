import ProjectBuild.Closure.Inputs

/-!
# Loading the reference closure

Projects are loaded depth-first. The paths of the projects in progress form a stack; meeting one
of them again closes a cycle. A project is numbered once all its references are, so every edge
leads from a larger index to a smaller one, and each configuration is read at most once.

The depth of the traversal is bounded by the number of files: the projects on the stack are all
different and all exist.
-/

namespace ProjectBuild.Closure

/-- What has been loaded so far. -/
structure Progress where
  /-- Finished projects, by index. -/
  nodes : List Project := []
  edges : List (Nat × Nat) := []
  notes : List Note := []
  deriving Inhabited

namespace Progress

/-- The index of a finished project. -/
def indexOf? (s : Progress) (configPath : Path) : Option Nat :=
  s.nodes.findIdx? fun node => node.configPath.same configPath

def note (s : Progress) (notes : List Note) : Progress :=
  { s with notes := s.notes ++ notes }

/-- Numbers a project, with edges to its references. -/
def push (s : Progress) (node : Project) (children : List Nat) : Progress :=
  { s with
    nodes := s.nodes ++ [node]
    edges := s.edges ++ children.map fun child => (s.nodes.length, child) }

end Progress

/-- Result of a step that fails or succeeds, with the progress made either way. -/
abbrev Step (α : Type) := Except Error α × Progress

/-- The cycle closed by meeting `path` on the stack. -/
def closeCycle (stack : List Path) (path : Path) : List Path :=
  stack.dropWhile (!path.same ·) ++ [path]

variable {σ : Type} [FileSystem σ]

/-- The configurations that the references name, each once, in order of first mention. -/
def resolveReferences (fs : σ) (loaded : LoadedConfig) : Except Error (List Path) :=
  (loaded.config.references.getD []).foldlM
    (fun targets reference =>
      let candidate := Path.absolutize loaded.path.dir ⟨reference.path⟩
      match resolveConfig? fs candidate with
      | none => .error (.config loaded.path (.missingReference candidate))
      | some target =>
        .ok (if targets.any target.same then targets else targets ++ [target]))
    []

/-- Visits paths in order, up to the first failure. -/
def visitEach (visit : Path → Progress → Step Nat) : List Path → Progress → Step (List Nat)
  | [], s => (.ok [], s)
  | path :: rest, s =>
    match visit path s with
    | (.error e, s) => (.error e, s)
    | (.ok i, s) =>
      match visitEach visit rest s with
      | (.error e, s) => (.error e, s)
      | (.ok indices, s) => (.ok (i :: indices), s)

/-- Messages about a configuration that was read. -/
def configNotes (loaded : LoadedConfig) : List Note :=
  match loaded.config.base with
  | some base => [.log (.baseNotFollowed loaded.path base)]
  | none => []

/-- Loads a project that is neither finished nor in progress; `descend` loads its references. -/
def enter (fs : σ) (descend : Path → Progress → Step Nat) (configPath : Path) (s : Progress) :
    Step Nat :=
  let content := LoadedConfig.read fs configPath
  let s := s.note content.notes
  match content.value with
  | .error e => (.error e, s)
  | .ok loaded =>
    let s := s.note (configNotes loaded)
    match resolveReferences fs loaded with
    | .error e => (.error e, s)
    | .ok targets =>
      match visitEach descend targets s with
      | (.error e, s) => (.error e, s)
      | (.ok children, s) =>
        let built := project fs loaded targets
        let s := s.note built.notes
        match built.value with
        | .error e => (.error e, s)
        | .ok node => (.ok s.nodes.length, s.push node children)

/-- Loads a project and everything it references, below a stack of at most so many projects. A
stack longer than that would repeat one, which is a cycle. -/
def visit (fs : σ) : Nat → List Path → Path → Progress → Step Nat
  | depth, stack, configPath, s =>
    match s.indexOf? configPath with
    | some i => (.ok i, s)
    | none =>
      if stack.any configPath.same then (.error (.cycle (closeCycle stack configPath)), s)
      else match depth with
        | 0 => (.error (.cycle (stack ++ [configPath])), s)
        | depth + 1 => enter fs (visit fs depth (stack ++ [configPath])) configPath s

/-- The configuration that a root names. -/
def resolveRoot (fs : σ) (root : Path) : Except Error Path :=
  let candidate := root.normalize
  match resolveConfig? fs candidate with
  | some configPath => .ok configPath
  | none => .error (.config candidate .notFound)

/-- Loads roots in order, each with everything it references. -/
def visitRoots (fs : σ) : List Path → Progress → Step (List Nat) :=
  visitEach fun root s =>
    match resolveRoot fs root with
    | .error e => (.error e, s)
    | .ok configPath => visit fs (FileSystem.fileBound fs) [] configPath s

end ProjectBuild.Closure
