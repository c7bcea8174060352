import ProjectBuild.Config.Basic
import ProjectBuild.FileSystem.Basic
import ProjectBuild.Hash.XXH3
import ProjectBuild.Json.Shape

/-!
# Configurations

From the text of a configuration to its fields, and from a path to the configuration it names.
-/

/-!
## Reading

Configurations are strict JSON. Keys that mean nothing here are skipped, so that a configuration
written for the whole compiler reads as well. Every field may be absent but the path of a
reference.
-/

namespace ProjectBuild

open Json

namespace CompilerOptions

def shape : Shape CompilerOptions where
  title := "struct CompilerOptions"
  listTitle := "struct CompilerOptions with 5 elements"
  closed := false
  blank := {}
  check := fun _ => none
  fields := [
    ⟨"declaration", false, fun options c =>
      (Read.optional Read.boolean c).map fun (x, c) => ({ options with declaration := x }, c)⟩,
    ⟨"composite", false, fun options c =>
      (Read.optional Read.boolean c).map fun (x, c) => ({ options with composite := x }, c)⟩,
    ⟨"emitDeclarationOnly", false, fun options c =>
      (Read.optional Read.boolean c).map fun (x, c) =>
        ({ options with emitDeclarationOnly := x }, c)⟩,
    ⟨"rootDir", false, fun options c =>
      (Read.optional Read.string c).map fun (x, c) => ({ options with rootDir := x }, c)⟩,
    ⟨"outDir", false, fun options c =>
      (Read.optional Read.string c).map fun (x, c) => ({ options with outDir := x }, c)⟩]

end CompilerOptions

namespace ProjectReference

def shape : Shape ProjectReference where
  title := "struct ProjectReference"
  listTitle := "struct ProjectReference with 1 element"
  closed := false
  blank := ⟨""⟩
  check := fun _ => none
  fields := [⟨"path", true, fun _ c => (Read.string c).map fun (x, c) => (⟨x⟩, c)⟩]

end ProjectReference

namespace ProjectConfig

/-- An optional list of strings. -/
def patterns : Reader (Option (List String)) :=
  Read.optional (Read.list Read.string)

def shape : Shape ProjectConfig where
  title := "struct ProjectConfig"
  listTitle := "struct ProjectConfig with 6 elements"
  closed := false
  blank := {}
  check := fun _ => none
  fields := [
    ⟨"compilerOptions", false, fun config c =>
      (CompilerOptions.shape.read c).map fun (x, c) => ({ config with options := x }, c)⟩,
    ⟨"files", false, fun config c =>
      (patterns c).map fun (x, c) => ({ config with files := x }, c)⟩,
    ⟨"include", false, fun config c =>
      (patterns c).map fun (x, c) => ({ config with includes := x }, c)⟩,
    ⟨"exclude", false, fun config c =>
      (patterns c).map fun (x, c) => ({ config with excludes := x }, c)⟩,
    ⟨"references", false, fun config c =>
      (Read.optional (Read.list ProjectReference.shape.read) c).map fun (x, c) =>
        ({ config with references := x }, c)⟩,
    ⟨"extends", false, fun config c =>
      (Read.optional Read.string c).map fun (x, c) => ({ config with base := x }, c)⟩]

/-- The configuration written in a text. -/
def ofText (text : String) : Except Mistake ProjectConfig :=
  readAll shape.read text

end ProjectConfig

end ProjectBuild

/-!
## Configuration files

Finding a project's configuration file and reading it.
-/

namespace ProjectBuild

variable {σ : Type} [FileSystem σ]

/-- The configuration file that a root or reference names: the path itself, or the file of the
conventional name in the directory it names. -/
def resolveConfig? (fs : σ) (candidate : Path) : Option Path :=
  if FileSystem.isFile fs candidate then some candidate
  else
    let conventional := candidate.join ⟨configFileName⟩
    if FileSystem.isFile fs conventional then some conventional else none

/-- A configuration as read from a file. -/
structure LoadedConfig where
  path : Path
  config : ProjectConfig
  /-- Fingerprint of the file's text. -/
  fingerprint : String
  deriving Repr, Inhabited

namespace LoadedConfig

/-- The configuration in a text, for the file at `path`. -/
def ofText (path : Path) (text : String) : Except Error LoadedConfig :=
  match ProjectConfig.ofText text with
  | .ok config => .ok ⟨path, config, ProjectBuild.fingerprint text⟩
  | .error mistake => .error (.config path (.malformed mistake))

/-- Reads the configuration file at `path`. -/
def read (fs : σ) (path : Path) : Noted (Except Error LoadedConfig) :=
  let content := FileSystem.read fs path
  match content.value with
  | .ok text => ⟨ofText path text, content.notes⟩
  | .error failure => ⟨.error (.config path (.unreadable failure)), content.notes⟩

end LoadedConfig

end ProjectBuild
