import ProjectBuild.FileSystem.Basic

/-!
# Disks

A tree of directories, files and symbolic links. A **location** is a list of names from the root
down, and every node of the tree has exactly one; a path leads to a location through links and
`..`. A path with a slash at its end asks for a directory. A lookup that passes too many links
fails, so links that lead to themselves do no harm.
-/

namespace ProjectBuild

/-- Names from the root down. -/
abbrev Location := List String

/-- The order of paths: a location comes before all that is below it. -/
def Location.notAfter : Location → Location → Bool
  | [], _ => true
  | _ :: _, [] => false
  | name :: rest, other :: others => name < other || (name == other && notAfter rest others)

inductive DiskNode where
  | directory (modified : Time)
  | file (content : ByteArray) (modified : Time) (executable : Bool)
  | link (target : Path)
  /-- Takes anything and holds nothing. -/
  | void
  /-- A program of the system, which goes by the name of the node. -/
  | program
  deriving Inhabited

/-- What is on a disk. -/
structure Disk where
  /-- All nodes below the root; every parent of a node is a directory. -/
  nodes : List (Location × DiskNode) := []
  /-- The time that changes are stamped with. -/
  now : Time := ⟨0⟩
  deriving Inhabited

namespace Disk

/-- Links that one lookup may pass. -/
def linkLimit : Nat := 40

/-- Bytes of the longest name. -/
def nameLimit : Nat := 255

/-- Bytes of the longest path. -/
def pathLimit : Nat := 4095

/-- The node at a location. -/
def node? (d : Disk) (location : Location) : Option DiskNode :=
  (d.nodes.lookup location).or (if location.isEmpty then some (.directory d.now) else none)

def isDirectoryAt (d : Disk) (location : Location) : Bool :=
  match d.node? location with
  | some (.directory _) => true
  | _ => false

/-- The names in a directory, in the order of paths. -/
def namesIn (d : Disk) (location : Location) : List String :=
  (d.nodes.filterMap fun entry =>
    match entry.1.getLast? with
    | some name => if entry.1.dropLast = location then some name else none
    | none => none).mergeSort fun a b => decide (a ≤ b)

/-- The step that a segment between slashes stands for; an empty one is none. -/
def step? : List Char → Option Component
  | [] => none
  | ['.'] => some .current
  | ['.', '.'] => some .parent
  | segment => some (.name (String.ofList segment))

/-- The steps that a path leads through. Behind a slash at the end there is a step to the directory
itself. -/
def steps (path : Path) : List Component :=
  let segments := Path.splitSlash path.text.toList
  let root := if path.text.toList.head? = some '/' then [Component.root] else []
  let last := if segments.getLast? = some [] then [Component.current] else []
  root ++ segments.filterMap step? ++ last

/-- Follows components from a location. A link at the very end is followed only if `final` says
so; what stands at the end need not exist, but everything on the way must. -/
def follow (d : Disk) (final : Bool) (links : Nat) (location : Location)
    (components : List Component) : Except SystemFault Location :=
  match components with
  | [] => .ok location
  | component :: rest =>
    if !d.isDirectoryAt location then .error .notDirectory
    else match component with
      | .root => follow d final links [] rest
      | .current => follow d final links location rest
      | .parent => follow d final links location.dropLast rest
      | .name name =>
        let next := location ++ [name]
        if nameLimit < name.utf8ByteSize then .error .nameTooLong
        else match d.node? next with
          | none => if rest.isEmpty then .ok next else .error .notFound
          | some (.link target) =>
            if rest.isEmpty && !final then .ok next
            else match links with
              | 0 => .error .tooManyLinks
              | links + 1 => follow d final links location (steps target ++ rest)
          | some _ => follow d final links next rest
termination_by (links, components.length)

/-- Follows a path from a directory. -/
def followPath (d : Disk) (final : Bool) (directory : Location) (path : Path) :
    Except SystemFault Location :=
  if path.text.toList.contains (Char.ofNat 0) then .error .containsNul
  else if path.text = "" then .error .notFound
  else if pathLimit < path.text.utf8ByteSize then .error .nameTooLong
  else d.follow final linkLimit directory (steps path)

/-- The location that a path leads to from a directory. -/
def locate (d : Disk) (directory : Location) (path : Path) : Except SystemFault Location :=
  d.followPath true directory path

/-- As `locate`, but for a link itself and not for what it leads to. -/
def locateEntry (d : Disk) (directory : Location) (path : Path) : Except SystemFault Location :=
  d.followPath false directory path

/-- The node that a path leads to, and where it is. -/
def find (d : Disk) (directory : Location) (path : Path) :
    Except SystemFault (Location × DiskNode) :=
  match d.locate directory path with
  | .error fault => .error fault
  | .ok location =>
    match d.node? location with
    | none => .error .notFound
    | some node => .ok (location, node)

/-- The time of the last change of a directory or file; other nodes have none. -/
def timeOf? : DiskNode → Option Time
  | .directory modified => some modified
  | .file _ modified _ => some modified
  | _ => none

def isFile (d : Disk) (directory : Location) (path : Path) : Bool :=
  match d.find directory path with
  | .ok (_, .file _ _ _) => true
  | _ => false

def isDirectory (d : Disk) (directory : Location) (path : Path) : Bool :=
  match d.find directory path with
  | .ok (_, .directory _) => true
  | _ => false

/-- Whether a path leads to anything. -/
def holds (d : Disk) (directory : Location) (path : Path) : Bool :=
  match d.find directory path with
  | .ok _ => true
  | .error _ => false

/-- The bytes of a file. -/
def contents (d : Disk) (directory : Location) (path : Path) : Except SystemFault ByteArray :=
  match d.find directory path with
  | .ok (_, .file content _ _) => .ok content
  | .ok (_, .directory _) => .error .isDirectory
  | .ok _ => .ok ByteArray.empty
  | .error fault => .error fault

/-- The absolute path of a location. -/
def pathOf (location : Location) : Path :=
  .ofComponents (.root :: location.map .name)

end Disk

end ProjectBuild
