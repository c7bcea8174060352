import ProjectBuild.Error.Basic

/-!
# Hints

What an error message adds about how to mend the cause.
-/

namespace ProjectBuild

/-- Hints for a root that names no project. -/
def locationHints : List String := [
  "hint: Pass a project's tsconfig.json or the directory containing it",
  "hint: Run tsbuild from a directory containing tsconfig.json"]

def Restriction.hints (project : Path) : Restriction → List String
  | declarationDisabled => ["hint: Remove \"declaration\": false from " ++ project.text ++
      " or set \"composite\": true"]
  | missingReferences => ["hint: Add \"references\": [] to " ++ project.text]
  | filesNotExhaustive _ => [
      "hint: Add the missing files to \"files\"",
      "hint: Or replace \"files\" with \"include\" patterns"]

namespace Error

def hints : Error → List String
  | cycle _ => [
      "hint: Remove one of the references listed above to break the cycle",
      "hint: Move code shared by these projects into a separate project they all reference"]
  | restriction project rule => rule.hints project
  | notBuilt project => ["hint: Build it first with 'tsbuild build " ++ project.text ++ "'"]
  | config _ problem =>
    if "cannot find".toList.isPrefixOf problem.message.toList then locationHints
    else ["hint: Project files must be strict JSON (no comments or trailing commas)"]
  | _ => []

/-- The hints as they are appended to a message: behind an empty line, one a line. -/
def hintText (e : Error) : String :=
  match e.hints with
  | [] => ""
  | hints => "\n\n" ++ "\n".intercalate hints

/-- The message with its hints. -/
def explained (e : Error) : String :=
  e.message ++ e.hintText

end Error

/-- The message for a root on the command line that names no project. -/
def projectNotFound (path : Path) : String :=
  "Project not found: " ++ path.text ++ "\n\n" ++ "\n".intercalate locationHints

end ProjectBuild
