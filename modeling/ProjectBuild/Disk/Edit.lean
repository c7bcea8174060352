import ProjectBuild.Disk.Basic

/-!
# Changes to a disk

Creating, writing, moving and removing what is on a disk. A change is stamped with the disk's
time, and so is the directory in which an entry appears or disappears.
-/

namespace ProjectBuild.Disk

/-- An outcome together with the disk it leaves behind. -/
abbrev Change := Except SystemFault Unit × Disk

/-- Puts a node at a location. -/
def put (d : Disk) (location : Location) (node : DiskNode) : Disk :=
  { d with nodes := (d.nodes.filter fun entry => entry.1 != location) ++ [(location, node)] }

/-- Stamps a directory. -/
def stamp (d : Disk) (location : Location) : Disk :=
  if d.isDirectoryAt location && !location.isEmpty then d.put location (.directory d.now) else d

/-- Puts a node at a location where there may be none yet. -/
def create (d : Disk) (location : Location) (node : DiskNode) : Disk :=
  if (d.node? location).isSome then d.put location node
  else (d.put location node).stamp location.dropLast

/-- Takes away a node with everything below it. -/
def erase (d : Disk) (location : Location) : Disk :=
  { d with nodes := d.nodes.filter fun entry => !location.isPrefixOf entry.1 }.stamp
    location.dropLast

/-- A path without the slashes at its end. -/
def withoutEndSlash (path : Path) : Path :=
  match path.text.toList.reverse.dropWhile (· == '/') with
  | [] => path
  | chars => ⟨String.ofList chars.reverse⟩

/-- Writes a file at a location, in a directory that exists. A file that is there keeps its
mode. -/
def writeAt (d : Disk) (location : Location) (content : ByteArray) : Change :=
  match d.node? location with
  | some (.directory _) => (.error .isDirectory, d)
  | some .void => (.ok (), d)
  | some (.file _ _ executable) => (.ok (), d.put location (.file content d.now executable))
  | _ => (.ok (), d.create location (.file content d.now false))

/-- Writes a file, in a directory that exists. A path with a slash at its end names none. -/
def writeFile (d : Disk) (directory : Location) (path : Path) (content : ByteArray) : Change :=
  match d.locate directory path with
  | .error .notFound =>
    match d.locate directory (withoutEndSlash path) with
    | .ok _ => (.error .isDirectory, d)
    | .error _ => (.error .notFound, d)
  | .error fault => (.error fault, d)
  | .ok location => d.writeAt location content

/-- Writes more to the end of a file, which is created if it does not exist. -/
def appendFile (d : Disk) (directory : Location) (path : Path) (more : ByteArray) : Change :=
  match d.contents directory path with
  | .ok content => d.writeFile directory path (content ++ more)
  | .error .notFound => d.writeFile directory path more
  | .error fault => (.error fault, d)

/-- Makes one directory, in a directory that exists. -/
def makeDirectory (d : Disk) (directory : Location) (path : Path) : Change :=
  match d.locateEntry directory (withoutEndSlash path) with
  | .error fault => (.error fault, d)
  | .ok location =>
    if (d.node? location).isSome then (.error .alreadyExists, d)
    else (.ok (), d.create location (.directory d.now))

/-- Makes a directory that may be there already. -/
def ensureDirectory (d : Disk) (directory : Location) (path : Path) : Change :=
  match d.makeDirectory directory path with
  | (.ok (), d) => (.ok (), d)
  | (.error fault, d) =>
    if d.isDirectory directory path then (.ok (), d) else (.error fault, d)

/-- Makes the first of some paths, each of which lies in the next one, and before it those of
the others that it needs. -/
def ensureEach (d : Disk) (directory : Location) : List Path → Change
  | [] => (.ok (), d)
  | path :: above =>
    match d.ensureDirectory directory path with
    | (.error .notFound, d) =>
      match ensureEach d directory above with
      | (.ok (), d) => d.ensureDirectory directory path
      | (.error fault, d) => (.error fault, d)
    | result => result

/-- Makes a directory with all directories above it that are missing. -/
def makeDirectories (d : Disk) (directory : Location) (path : Path) : Change :=
  if path.depth = 0 then (.ok (), d)
  else d.ensureEach directory
    (path :: path.ancestors.filter fun ancestor => ancestor.depth != 0)

/-- Makes a symbolic link. -/
def makeLink (d : Disk) (directory : Location) (path target : Path) : Change :=
  match d.locateEntry directory path with
  | .error fault => (.error fault, d)
  | .ok location =>
    if (d.node? location).isSome then (.error .alreadyExists, d)
    else (.ok (), d.create location (.link target))

/-- Removes a file or link. -/
def removeFile (d : Disk) (directory : Location) (path : Path) : Change :=
  match d.locateEntry directory path with
  | .error fault => (.error fault, d)
  | .ok location =>
    match d.node? location with
    | none => (.error .notFound, d)
    | some (.directory _) => (.error .isDirectory, d)
    | some _ => (.ok (), d.erase location)

/-- Removes anything with all that is below it. -/
def removeTree (d : Disk) (directory : Location) (path : Path) : Change :=
  match d.locateEntry directory path with
  | .error fault => (.error fault, d)
  | .ok location =>
    if (d.node? location).isSome then (.ok (), d.erase location) else (.error .notFound, d)

/-- Moves everything below one location below another one. -/
def relocate (d : Disk) (source target : Location) : Disk :=
  let moved := d.nodes.filterMap fun entry =>
    if source.isPrefixOf entry.1 then some (target ++ entry.1.drop source.length, entry.2)
    else none
  let rest := (d.erase source).erase target
  { rest with nodes := rest.nodes ++ moved }.stamp target.dropLast

/-- Gives a node another path, in place of a file that may be there. -/
def rename (d : Disk) (directory : Location) (path target : Path) : Change :=
  match d.locateEntry directory path, d.locateEntry directory target with
  | .error fault, _ => (.error fault, d)
  | _, .error fault => (.error fault, d)
  | .ok source, .ok destination =>
    if (d.node? source).isNone then (.error .notFound, d)
    else if source = destination then (.ok (), d)
    else if d.isDirectoryAt destination then (.error .isDirectory, d)
    else (.ok (), d.relocate source destination)

/-- Sets the time of a file or directory. -/
def setTime (d : Disk) (directory : Location) (path : Path) (time : Time) : Change :=
  match d.find directory path with
  | .error fault => (.error fault, d)
  | .ok (location, .file content _ executable) =>
    (.ok (), d.put location (.file content time executable))
  | .ok (location, .directory _) => (.ok (), d.put location (.directory time))
  | .ok _ => (.ok (), d)

/-- Lets a file be run, or not. -/
def setExecutable (d : Disk) (directory : Location) (path : Path) (executable : Bool) : Change :=
  match d.find directory path with
  | .error fault => (.error fault, d)
  | .ok (location, .file content modified _) =>
    (.ok (), d.put location (.file content modified executable))
  | .ok _ => (.ok (), d)

/-- Lets time pass. -/
def elapse (d : Disk) (nanos : Nat) : Disk :=
  { d with now := ⟨d.now.nanos + nanos⟩ }

end ProjectBuild.Disk
