import ProjectBuild.Error.Basic
import ProjectBuild.FileSystem.Basic
import ProjectBuild.Graph.Basic
import ProjectBuild.Path.Normal

/-!
# Module resolution across references

A file that a project imports from the root directory of a project it references is found at the
declaration that was emitted for it. Only direct references count, and
of several that contain the file the deepest does, unless the importing project's own root is at
least as deep. A declaration that does not exist yet is the reference's fault.
-/

namespace ProjectBuild

/-- Where an import leads. -/
inductive Resolution where
  | unchanged (path : Path)
  /-- To a declaration that a referenced project emitted. -/
  | declaration (path project : Path)
  deriving DecidableEq, Repr, Inhabited

namespace Resolution

def path : Resolution → Path
  | unchanged path => path
  | declaration path _ => path

/-- What is tried behind a relative import. -/
def suffixes : List String :=
  [".ts", ".tsx", ".d.ts", "/index.ts", "/index.tsx", "/index.d.ts"]

/-- The last of those with the largest key. -/
def lastMaximal (key : Nat → Nat) : List Nat → Option Nat :=
  List.foldl
    (fun best i =>
      match best with
      | none => some i
      | some j => if key j ≤ key i then some i else some j)
    none

def rootDepth (g : Graph) (i : Nat) : Nat :=
  (g.node i).rootDir.depth

/-- The direct reference of `i` whose root contains the path most closely. -/
def owner? (g : Graph) (i : Nat) (path : Path) : Option Nat :=
  lastMaximal (rootDepth g)
    ((g.dependencies i).filter fun j => Path.isWithin (g.node j).rootDir path)

/-- The reference that a path is redirected to: its owner, unless the project's own root contains
the path as closely. -/
def target? (g : Graph) (i : Nat) (path : Path) : Option Nat := do
  let j ← owner? g i path
  if Path.isWithin (g.node i).rootDir path && decide (rootDepth g j ≤ rootDepth g i) then none
  else return j

variable {σ : Type} [FileSystem σ]

/-- Leads a path into the output of a reference. -/
def redirect (fs : σ) (p : Project) (path : Path) : Except Error Resolution :=
  if path.isDeclaration then .ok (unchanged path)
  else match p.declarationFor? path with
    | none => .ok (unchanged path)
    | some output =>
      if FileSystem.isFile fs output then .ok (declaration output p.configPath)
      else .error (.notBuilt p.configPath)

/-- Where a file that project `i` imports is to be found. -/
def resolve (fs : σ) (g : Graph) (i : Nat) (file : Path) : Except Error Resolution :=
  let path := file.normalize
  match target? g i path with
  | some j => redirect fs (g.node j) path
  | none => .ok (unchanged path)

/-- Whether a specifier is relative to the importing file. -/
def isRelative (specifier : String) : Bool :=
  "./".toList.isPrefixOf specifier.toList || "../".toList.isPrefixOf specifier.toList

/-- The files that a relative import may mean, in order of preference. -/
def candidates (importing : Path) (specifier : String) : List Path :=
  let base := match importing.parent? with
    | some dir => (dir.join ⟨specifier⟩).normalize
    | none => Path.normalize ⟨specifier⟩
  (if base.isSource then [base] else []) ++ suffixes.map fun suffix => ⟨base.text ++ suffix⟩

/-- Where an import leads; nothing for packages and for imports that match no file. -/
def resolveImport (fs : σ) (g : Graph) (i : Nat) (importing : Path) (specifier : String) :
    Except Error (Option Resolution) :=
  if isRelative specifier then
    match (candidates importing specifier).find? (FileSystem.isFile fs) with
    | some found => (resolve fs g i found).map some
    | none => .ok none
  else .ok none

/-- The sources of the direct references of a project. -/
def referencedSources (g : Graph) (i : Nat) : List Path :=
  (g.dependencies i).flatMap fun j => (g.node j).inputs.filter fun file => !file.isDeclaration

/-- Resolves files up to the first failure. -/
def resolveAll (fs : σ) (g : Graph) (i : Nat) : List Path → Except Error Unit
  | [] => .ok ()
  | file :: rest =>
    match resolve fs g i file with
    | .ok _ => resolveAll fs g i rest
    | .error e => .error e

/-- Confirms that the direct references have emitted declarations for their sources. -/
def verifyReferences (fs : σ) (g : Graph) (i : Nat) : Except Error Unit :=
  resolveAll fs g i (referencedSources g i)

end Resolution

end ProjectBuild
