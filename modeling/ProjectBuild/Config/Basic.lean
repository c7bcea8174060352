import ProjectBuild.Text.Quoted

/-!
# Project configurations

The part of a project's configuration that decides how the project is built: what it emits and
where, which files it takes, and which projects it references. A field that is absent is told
apart from one that is empty.
-/

namespace ProjectBuild

structure CompilerOptions where
  /-- Whether declarations are emitted, if stated. -/
  declaration : Option Bool := none
  /-- Composite projects emit declarations unless told otherwise. -/
  composite : Option Bool := none
  /-- Whether nothing but declarations is emitted. -/
  emitDeclarationOnly : Option Bool := none
  /-- Directory that the inputs' relative names start from. -/
  rootDir : Option String := none
  /-- Directory that outputs are written below. -/
  outDir : Option String := none
  deriving DecidableEq, Repr, Inhabited

/-- An entry of the list of references: a configuration file, or the directory of one. -/
structure ProjectReference where
  path : String
  deriving DecidableEq, Repr, Inhabited

structure ProjectConfig where
  options : CompilerOptions := {}
  /-- Inputs listed one by one. -/
  files : Option (List String) := none
  /-- Patterns of inputs. -/
  includes : Option (List String) := none
  /-- Patterns of what is no input. -/
  excludes : Option (List String) := none
  references : Option (List ProjectReference) := none
  /-- The configuration this one builds on; it is not followed. -/
  base : Option String := none
  deriving DecidableEq, Repr, Inhabited

namespace ProjectConfig

/-- Whether the project emits declarations of its own accord. -/
def emitsDeclarations (config : ProjectConfig) : Bool :=
  match config.options.declaration with
  | some stated => stated
  | none => config.options.composite.getD false

/-- Whether declarations are explicitly turned off. -/
def declarationDisabled (config : ProjectConfig) : Bool :=
  config.options.declaration == some false

end ProjectConfig

/-! ## A text for every configuration -/

namespace ProjectConfig

def optionText {α : Type} (text : α → String) : Option α → String
  | none => "None"
  | some x => "Some(" ++ text x ++ ")"

def listText {α : Type} (text : α → String) (xs : List α) : String :=
  "[" ++ ", ".intercalate (xs.map text) ++ "]"

/-- A structure: its name and its fields in braces. -/
def structureText (name : String) (fields : List (String × String)) : String :=
  name ++ " \x7b " ++ ", ".intercalate (fields.map fun (field, text) => field ++ ": " ++ text)
    ++ " \x7d"

def boolText (b : Bool) : String :=
  if b then "true" else "false"

/-- Writes out every field of a configuration on one line. Two configurations with the same text
are the same, so the text's fingerprint stands for a configuration that was not read from a
file. -/
def describe (config : ProjectConfig) : String :=
  let strings := optionText (listText Text.quote)
  let options := structureText "CompilerOptions" [
    ("declaration", optionText boolText config.options.declaration),
    ("composite", optionText boolText config.options.composite),
    ("emit_declaration_only", optionText boolText config.options.emitDeclarationOnly),
    ("root_dir", optionText Text.quote config.options.rootDir),
    ("out_dir", optionText Text.quote config.options.outDir)]
  let reference (r : ProjectReference) :=
    structureText "ProjectReference" [("path", Text.quote r.path)]
  structureText "ProjectConfig" [
    ("compiler_options", options),
    ("files", strings config.files),
    ("include", strings config.includes),
    ("exclude", strings config.excludes),
    ("references", optionText (listText reference) config.references),
    ("extends", optionText Text.quote config.base)]

end ProjectConfig

end ProjectBuild
