import ProjectBuild.Shell.Builtin.Basic
import ProjectBuild.Shell.Search

/-!
# The current directory

A shell knows the path by which it came to its directory, which can lead through links. Unless it
is told otherwise, it takes away steps of that path, and does not ask where they lead.
-/

namespace ProjectBuild.Shell.Builtin

/-- Goes from a path, its last step first, through some steps. -/
def walkSteps : List String → List String → List String
  | path, [] => path
  | path, step :: rest =>
    if step = "" || step = "." then walkSteps path rest
    else if step = ".." then walkSteps path.tail rest
    else walkSteps (step :: path) rest

/-- The path that another path leads to, as far as can be told without the disk. A path can begin
with two slashes, but not with three. -/
def pathFrom (place target : String) : String :=
  let startOf (path : String) : String := match path.toList with
    | '/' :: '/' :: '/' :: _ => "/"
    | '/' :: '/' :: _ => "//"
    | _ => "/"
  let isAbsolute := target.toList.head? == some '/'
  let start := if isAbsolute then startOf target else startOf place
  let above := if isAbsolute then [] else walkSteps [] (place.splitOn "/")
  start ++ "/".intercalate (walkSteps above (target.splitOn "/")).reverse

/-- The path of the current directory that leads through no link. -/
def physicalPlace (s : State) : String :=
  Raw.ofText (Disk.pathOf s.directory).text

/-- Whether links are looked through: the last option says so. -/
def isPhysical (options : List (Char × String)) : Bool :=
  options.getLast?.any fun option => option.1 == 'P'

/-- Goes to a directory, unless there is none. -/
def enter (physical : Bool) (target : String) : Act Bool := do
  let s ← get
  let place := pathFrom s.place target
  match s.node? (if physical then target else place) with
  | .ok (location, .directory _) =>
    let s := { s with directory := location }
    set { s with place := if physical then physicalPlace s else place }
    let tell (name value : String) : Act Unit := do
      Act.assign name value
      modify fun s => s.putVariable name
        { (s.variableOf? name).getD ⟨none, false, false⟩ with exported := true }
    tell "OLDPWD" s.place
    tell "PWD" (← get).place
    return true
  | _ => return false

/-- Whether a path says itself where it begins. -/
def isAnchored (path : String) : Bool :=
  match path.toList with
  | '/' :: _ => true
  | ['.'] => true
  | '.' :: '/' :: _ => true
  | ['.', '.'] => true
  | '.' :: '.' :: '/' :: _ => true
  | _ => false

/-- The directory that a path names, and whether it is to be printed: a directory of the search
path for directories is. -/
def targetOf (s : State) (path : String) : String × Bool :=
  let path := if path = "" then "." else path
  match if isAnchored path then none else s.value? "CDPATH" with
  | none => (path, false)
  | some searchPath =>
    let found := (Search.directories searchPath).findSome? fun dir =>
      let candidate := Search.inDirectory dir path
      match s.node? candidate with
      | .ok (_, .directory _) => some (candidate, !dir.isEmpty)
      | _ => none
    found.getD (path, false)

/-- Goes to another directory. -/
def changeDirectory : Builtin := fun arguments => do
  let (options, operands) ← Options.read "LP" arguments
  let s ← get
  let (path, isBack) := match operands.head? with
    | none => ((s.value? "HOME").getD "", false)
    | some "-" => ((s.value? "OLDPWD").getD "", true)
    | some path => (path, false)
  let (target, isFound) := targetOf s path
  if ← enter (isPhysical options) target then
    if isBack || isFound then Act.printLine (← get).place
    return 0
  else Act.fail ("can't cd to " ++ path)

/-- Prints the current directory. -/
def printDirectory : Builtin := fun arguments => do
  let (options, _) ← Options.read "LP" arguments
  let s ← get
  Act.printLine (if isPhysical options then physicalPlace s else s.place)
  return 0

end ProjectBuild.Shell.Builtin
