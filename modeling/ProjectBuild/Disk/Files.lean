import ProjectBuild.Disk.Basic
import ProjectBuild.Disk.Edit
import ProjectBuild.FileSystem.Basic
import ProjectBuild.Path.Map

/-!
# Files on a disk

Walking a disk, and a disk as a filesystem.
-/

/-!
## Walking a directory tree

Every file below a directory, through links. A link that leads back to a directory the walk is
in, or that leads nowhere, is left out with a note; any other failure ends the walk. A directory
that a link leads to can hold one the walk is in already; that is walked again.
-/

namespace ProjectBuild.Disk

/-- A directory that a walk is in: the path it came by, and where that led. -/
structure Visited where
  path : Path
  location : Location

/-- A failure of a walk, and the path at which it happened. -/
abbrev WalkFailure := Path × SystemFault

abbrev Walked := Noted (Except WalkFailure (List Path))

/-- What becomes of a walk at an entry of a directory. -/
inductive Entry where
  | file
  | directory (location : Location)
  /-- Neither a directory nor a file. -/
  | special
  /-- A link that is left out. -/
  | skipped (problem : LinkProblem)
  | failed (fault : SystemFault)

/-- Whether a path names a link. -/
def isLink (d : Disk) (path : Path) : Bool :=
  match d.locateEntry [] path with
  | .ok location =>
    match d.node? location with
    | some (.link _) => true
    | _ => false
  | .error _ => false

/-- The kind of what stands at a path. Links are kept from leading back. -/
def classify (d : Disk) (stack : List Visited) (path : Path) : Entry :=
  match d.find [] path with
  | .error .notFound => .skipped (.broken .notFound)
  | .error fault => .failed fault
  | .ok (location, .directory _) =>
    match stack.find? fun visited => visited.location == location && d.isLink path with
    | some visited => .skipped (.loop visited.path)
    | none => .directory location
  | .ok (_, .void) => .special
  | .ok _ => .file

/-- Walks the entries of a directory one after the other. -/
def walkEach (visit : Path → Walked) : List Path → Walked
  | [] => ⟨.ok [], []⟩
  | path :: rest =>
    let first := visit path
    match first.value with
    | .error failure => ⟨.error failure, first.notes⟩
    | .ok files =>
      let others := walkEach visit rest
      ⟨others.value.map (files ++ ·), first.notes ++ others.notes⟩

/-- Walks the directory on top of the stack, at most so many directories deep. -/
def walkDirectory (d : Disk) (prune : Path → Bool) : Nat → List Visited → Walked
  | 0, _ => ⟨.ok [], []⟩
  | _, [] => ⟨.ok [], []⟩
  | depth + 1, stack@(top :: _) =>
    walkEach (fun path =>
      match d.classify stack path with
      | .file => ⟨.ok [path], []⟩
      | .special => ⟨.ok [], []⟩
      | .directory location =>
        if prune path then ⟨.ok [], []⟩
        else walkDirectory d prune depth (⟨path, location⟩ :: stack)
      | .skipped problem => ⟨.ok [], [.log (.linkSkipped path problem)]⟩
      | .failed fault => ⟨.error (path, fault), []⟩)
      ((d.namesIn top.location).map fun name => top.path.join ⟨name⟩)

/-- The number of directories that a walk can be in at once: between two links that it goes
through it only goes down, and no link leads it to a directory that it is in. -/
def walkDepth (d : Disk) : Nat :=
  (d.nodes.length + 1) * (d.nodes.length + 1)

/-- Every file below a path, in path order. -/
def walk (d : Disk) (path : Path) (prune : Path → Bool) : Walked :=
  match d.find [] path with
  | .error fault => ⟨.error (path, fault), []⟩
  | .ok (location, .directory _) =>
    let walked := walkDirectory d prune d.walkDepth [⟨path, location⟩]
    ⟨walked.value.map Path.sort, walked.notes⟩
  | .ok (_, .void) => ⟨.ok [], []⟩
  | .ok _ => ⟨.ok [path], []⟩

/-- The names that lead from a location to everything below it that is no directory, in path
order. Links are not followed. -/
def leaves (d : Disk) (location : Location) : List Location :=
  (d.nodes.filterMap fun entry =>
    match entry.2 with
    | .directory _ => none
    | _ => if location.isPrefixOf entry.1 then some (entry.1.drop location.length) else none
    ).mergeSort Location.notAfter

end ProjectBuild.Disk

/-!
## A disk as a filesystem

All paths are taken from the root of the disk.
-/

namespace ProjectBuild.Disk

/-- A fault at a path. -/
def failureAt (path : Path) (fault : SystemFault) : IoFailure :=
  ⟨path, .system fault⟩

/-- The text of a file. -/
def readText (d : Disk) (path : Path) : Except IoFailure String :=
  match d.contents [] path with
  | .error fault => .error (failureAt path fault)
  | .ok content =>
    match String.fromUTF8? content with
    | some text => .ok text
    | none => .error ⟨path, .notTextStream⟩

/-- Writes a file with the directories it needs. A failure to make them is told of the file's
directory. -/
def save (d : Disk) (path : Path) (content : ByteArray) : Except IoFailure Unit × Disk :=
  match d.makeDirectories [] path.dir with
  | (.error fault, d) => (.error (failureAt path.dir fault), d)
  | (.ok (), d) =>
    let (result, d) := d.writeFile [] path content
    (result.mapError (failureAt path), d)

/-- Where a file is written before it takes its place. -/
def provisional (path : Path) : Path :=
  path.withFileName (path.fileName?.getD "" ++ ".tmp")

/-- Writes a file beside its place and moves it there. -/
def saveWhole (d : Disk) (path : Path) (content : ByteArray) : Except IoFailure Unit × Disk :=
  match d.save (provisional path) content with
  | (.error failure, d) => (.error failure, d)
  | (.ok (), d) =>
    let (result, d) := d.rename [] (provisional path) path
    (result.mapError (failureAt path), d)

/-- Removes a file, if it exists. -/
def discard (d : Disk) (path : Path) : Except IoFailure Bool × Disk :=
  match d.removeFile [] path with
  | (.ok (), d) => (.ok true, d)
  | (.error .notFound, d) => (.ok false, d)
  | (.error fault, d) => (.error (failureAt path fault), d)

/-- A failed walk as a failed call. -/
def walkFailure (failure : WalkFailure) : IoFailure :=
  ⟨failure.1, .listing failure.1 failure.2⟩

instance : FileSystem Disk where
  isFile d path := d.isFile [] path
  modified? d path := (d.find [] path).toOption.bind fun found => timeOf? found.2
  read d path := ⟨d.readText path, [.read path]⟩
  list d path prune :=
    let walked := d.walk path prune
    ⟨walked.value.mapError walkFailure, walked.notes⟩
  write d path text := d.save path text.toUTF8
  replace d path text := d.saveWhole path text.toUTF8
  remove d path := d.discard path
  -- A path runs at most `linkLimit + 1` times from some node down to another one.
  fileBound d := Nat.pow (d.nodes.length + 1) (linkLimit + 2)

end ProjectBuild.Disk
