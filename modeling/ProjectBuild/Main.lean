import ProjectBuild.CommandLine.Run
import ProjectBuild.Machine

/-!
# The program

A call reads what is below the current directory into a disk, runs the command line on it, and
carries the changes back. What a link leads to is not read. Compilers are the programs that the
library itself knows.
-/

namespace ProjectBuild.Program

/-- The variables that a call looks at. -/
def variableNames : List String := [
  "HOME", "PATH", "CLICOLOR", "CLICOLOR_FORCE", "NO_COLOR", CommandLine.Logging.filterVariable,
  "RUST_LOG_STYLE", CommandLine.Request.jobsVariable, CommandLine.Request.compilerVariable]

def environment : IO Environment :=
  variableNames.filterMapM fun name => return (← IO.getEnv name).map fun value => (name, value)

def timeOf (t : IO.FS.SystemTime) : Time :=
  ⟨t.sec * Time.nanosPerSecond + t.nsec.toNat⟩

/-- Reads entries of a directory with everything below them. -/
partial def nodesOf (parent : Location) (entries : List IO.FS.DirEntry) :
    IO (List (Location × DiskNode)) := do
  let nodes ← entries.mapM fun entry => do
    let location := parent ++ [entry.fileName]
    let found ← entry.path.symlinkMetadata
    match found.type with
    | .dir =>
      let below ← nodesOf location (← entry.path.readDir).toList
      return (location, .directory (timeOf found.modified)) :: below
    | .file =>
      return [(location, .file (← IO.FS.readBinFile entry.path) (timeOf found.modified) false)]
    | _ => return []
  return nodes.flatten

/-- The location of an absolute path. -/
def locationOf (path : Path) : Location :=
  path.components.filterMap fun
    | .name name => some name
    | _ => none

/-- A disk with some nodes in a directory. Its time is later than all of theirs. -/
def diskOf (directory : Location) (nodes : List (Location × DiskNode)) : Disk :=
  let above := (List.range (directory.length + 1)).tail.map fun n =>
    (directory.take n, DiskNode.directory ⟨0⟩)
  let latest := nodes.foldl
    (fun latest entry => max latest (((Disk.timeOf? entry.2).map Time.nanos).getD 0)) 0
  Machine.diskWith (above ++ nodes) ⟨latest + Time.nanosPerSecond⟩

/-- Writes what is new or different on a disk. -/
def writeNode (earlier : Disk) (entry : Location × DiskNode) : IO Unit := do
  let path := (Disk.pathOf entry.1).text
  match entry.2, earlier.node? entry.1 with
  | .directory _, none => IO.FS.createDirAll path
  | .file content _ _, some (.file old _ _) =>
    if content != old then IO.FS.writeBinFile path content
  | .file content _ _, _ => IO.FS.writeBinFile path content
  | _, _ => return

/-- Removes a file that a disk no longer has. -/
def removeNode (later : Disk) (entry : Location × DiskNode) : IO Unit := do
  match entry.2, later.node? entry.1 with
  | .file _ _ _, none => IO.FS.removeFile (Disk.pathOf entry.1).text
  | _, _ => return

end ProjectBuild.Program

open ProjectBuild in
def main (arguments : List String) : IO UInt32 := do
  let current ← IO.currentDir
  let directory := Program.locationOf ⟨current.toString⟩
  let disk := Program.diskOf directory
    (← Program.nodesOf directory (← current.readDir).toList)
  let setting : CommandLine.Setting := {
    directory := directory
    environment := ← Program.environment
    launch := Machine.launch }
  let (response, later) := CommandLine.run setting arguments disk
  -- A directory comes before what is in it.
  (later.nodes.mergeSort fun a b => Location.notAfter a.1 b.1).forM (Program.writeNode disk)
  disk.nodes.forM (Program.removeNode later)
  IO.print response.output
  IO.eprint response.errors
  return response.code.toNat.toUInt32
