import ProjectBuild.Closure.Traversal
import ProjectBuild.Graph.Build

/-!
# Loading

A graph is loaded by a traversal, and refused if a project in it may not be referenced.
-/

/-!
## Restrictions on referenced projects

A project that another one references must not turn declarations off, must have a list of
references, and, if it lists its files, must list every source file below its root directory.
Such a project then emits declarations whether it says so or not.
-/

namespace ProjectBuild.Closure

/-- What counts when a project's list of files is checked for being complete. -/
structure CoverageRule where
  project : Project
  excluded : GlobSet
  /-- Directories of other projects nested below the root directory. -/
  nested : List Path

namespace CoverageRule

def isExcluded (rule : CoverageRule) (path : Path) : Bool :=
  match Path.afterDir? rule.project.configDir path with
  | some relative => rule.excluded.accepts relative
  | none => false

/-- Whether outputs go to a directory of their own. -/
def hasOwnOutDir (rule : CoverageRule) : Bool :=
  !rule.project.outDir.same rule.project.rootDir

/-- Whether a directory is not looked into. -/
def prunes (rule : CoverageRule) (dir : Path) : Bool :=
  (rule.hasOwnOutDir && dir.same rule.project.outDir) || rule.nested.any dir.same ||
    rule.isExcluded dir

/-- Whether a file that was found should have been listed and is not. -/
def misses (rule : CoverageRule) (file : Path) : Bool :=
  file.isSource && !file.isDeclaration && !rule.project.inputs.any file.same &&
    !(rule.hasOwnOutDir && Path.isWithin rule.project.outDir file) &&
    !rule.nested.any (Path.isWithin · file) && !rule.isExcluded file

end CoverageRule

/-- Directories of other projects below a project's root directory, unless they contain its own
configuration. -/
def nestedDirs (p : Project) (dirs : List Path) : List Path :=
  dirs.filter fun dir =>
    !dir.same p.configDir && Path.isWithin p.rootDir dir && !Path.isWithin dir p.configDir

variable {σ : Type} [FileSystem σ]

/-- The source files that a project should have listed, in path order. -/
def unlisted (fs : σ) (p : Project) (dirs : List Path) : Noted (Except Error (List Path)) :=
  match p.config.excludeSet with
  | .error e => ⟨.error e, []⟩
  | .ok excluded =>
    let rule : CoverageRule := ⟨p, excluded, nestedDirs p dirs⟩
    let found := FileSystem.list fs p.rootDir rule.prunes
    match found.value with
    | .error failure => ⟨.error (.io failure), found.notes⟩
    | .ok files => ⟨.ok (files.filter rule.misses), found.notes⟩

/-- The error of a referenced project that breaks a restriction, if it breaks one. -/
def violation? (fs : σ) (p : Project) (dirs : List Path) : Noted (Option Error) :=
  if p.config.declarationDisabled then
    ⟨some (.restriction p.configPath .declarationDisabled), []⟩
  else if p.config.references.isNone then
    ⟨some (.restriction p.configPath .missingReferences), []⟩
  else if p.config.files.isSome then
    let missing := unlisted fs p dirs
    ⟨match missing.value with
      | .error e => some e
      | .ok [] => none
      | .ok paths => some (.restriction p.configPath (.filesNotExhaustive paths)),
      missing.notes⟩
  else ⟨none, []⟩

/-- Whether some edge leads to a project. -/
def isReferenced (edges : List (Nat × Nat)) (i : Nat) : Bool :=
  edges.any fun edge => edge.2 == i

/-- The first violation among the projects from index `i` on. -/
def firstViolation? (fs : σ) (edges : List (Nat × Nat)) (dirs : List Path) :
    Nat → List Project → Noted (Option Error)
  | _, [] => ⟨none, []⟩
  | i, p :: rest =>
    if isReferenced edges i then
      let found := violation? fs p dirs
      match found.value with
      | some e => ⟨some e, found.notes⟩
      | none =>
        let later := firstViolation? fs edges dirs (i + 1) rest
        ⟨later.value, found.notes ++ later.notes⟩
    else firstViolation? fs edges dirs (i + 1) rest

/-- The projects, with declarations turned on where another project references one. -/
def withDeclarations (edges : List (Nat × Nat)) (nodes : List Project) : List Project :=
  nodes.mapIdx fun i p => if isReferenced edges i then { p with declaration := true } else p

end ProjectBuild.Closure

/-!
## Loading a graph

The graph of the projects that are reachable from the given roots. Loading reads configurations
and lists directories; it changes nothing and opens no other file. Any failure ends it.
-/

namespace ProjectBuild

variable {σ : Type} [FileSystem σ]

/-- Loads the graph of everything reachable from `roots`. -/
def loadGraph (fs : σ) (roots : List Path) : Noted (Except Error Graph) :=
  match Closure.visitRoots fs roots {} with
  | (.error e, s) => ⟨.error e, s.notes⟩
  | (.ok indices, s) =>
    let violation := Closure.firstViolation? fs s.edges (s.nodes.map Project.configDir) 0 s.nodes
    let notes := s.notes ++ violation.notes
    match violation.value with
    | some e => ⟨.error e, notes⟩
    | none => ⟨Graph.ofEdges (Closure.withDeclarations s.edges s.nodes) s.edges indices, notes⟩

end ProjectBuild
