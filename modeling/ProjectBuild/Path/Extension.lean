import ProjectBuild.Path.Basic

/-!
# Source extensions

The file names that count as compiler input, and the renaming of an input to its output. The
longest extension is tried first, so a declaration file is never taken for plain source. The
extension alone is not a source file: something must stand before it.
-/

namespace ProjectBuild

/-- The recognised kinds of source file. -/
inductive SourceKind where
  /-- Ambient declarations, which produce no output. -/
  | declaration
  /-- Source with embedded markup. -/
  | markup
  /-- Plain source. -/
  | plain
  deriving DecidableEq, Repr, Inhabited

namespace SourceKind

/-- Extension that marks the kind. -/
def extension : SourceKind → String
  | declaration => ".d.ts"
  | markup => ".tsx"
  | plain => ".ts"

/-- The kinds, longest extension first. -/
def all : List SourceKind :=
  [declaration, markup, plain]

/-- What stands before `extension` in `name`, if that is at least one character. -/
def stem? (extension : String) (name : String) : Option String :=
  let reversed := name.toList.reverse
  let ending := extension.toList.reverse
  if ending.isPrefixOf reversed then
    match (reversed.drop ending.length).reverse with
    | [] => none
    | stem => some (String.ofList stem)
  else none

/-- A file name cut into its stem and the kind its extension marks. -/
def cut? (name : String) : Option (String × SourceKind) :=
  all.findSome? fun kind => (stem? kind.extension name).map (·, kind)

end SourceKind

namespace Path

/-- Kind of source that the file name marks. -/
def sourceKind? (p : Path) : Option SourceKind := do
  let name ← p.fileName?
  let (_, kind) ← SourceKind.cut? name
  return kind

def isSource (p : Path) : Bool :=
  p.sourceKind?.isSome

def isDeclaration (p : Path) : Bool :=
  p.sourceKind? == some .declaration

/-- The path with its source extension replaced; nothing for a path that is no source file. -/
def replaceExtension? (p : Path) (replacement : String) : Option Path := do
  let name ← p.fileName?
  let (stem, _) ← SourceKind.cut? name
  return p.withFileName (stem ++ replacement)

end Path

end ProjectBuild
