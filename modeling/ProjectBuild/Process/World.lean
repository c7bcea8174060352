import ProjectBuild.Disk.Edit
import ProjectBuild.Process.Basic
import ProjectBuild.Text.Utf8

/-!
# Processes at work

What processes share, and how they run program files.
-/

/-!
## What processes share

Processes work on one disk, read and write streams, and send each other signals. A stream that two
processes have open is one: what one of them reads, the other does not. A process knows its streams
by descriptors. Texts are raw, since to a process they are bytes.

One process runs at a time. A program whose output another one reads is run to its end first, and
it may write without an end; so a stream between them can have a limit, and a program that writes
more is killed as if nobody read any more.
-/

namespace ProjectBuild

/-- What can be read and written. -/
inductive Stream where
  /-- Takes anything and holds nothing. -/
  | null
  /-- What is written can be read once, in the same order. What stands before `start` has been
  read. No more is taken once the content is longer than the limit. -/
  | pipe (content : ByteArray) (start : Nat) (limit : Option Nat)
  /-- A place in a file. What is written goes there, or to the end of the file. -/
  | file (location : Location) (offset : Nat) (appends reads writes : Bool)
  | directory
  deriving Inhabited

structure World where
  disk : Disk
  /-- Every stream that has been opened; a stream goes by its place. -/
  streams : Array Stream := #[]
  /-- The number of the last process. -/
  lastProcess : Nat := 4242
  /-- The processes that have not ended. -/
  running : List Nat := []
  /-- Signals that processes have been sent and have not noticed, the first one first. -/
  signals : List (Nat × Nat) := []
  deriving Inhabited

/-- The streams that a process has open, by their descriptors. -/
abbrev Descriptors := List (Nat × Nat)

/-- A program that runs. -/
structure Process where
  number : Nat
  parent : Nat
  /-- What it was called with; the first is what it was called as. -/
  arguments : List String
  environment : Environment
  directory : Location
  descriptors : Descriptors
  deriving Inhabited

/-- What a process does to the world, and how it ends. -/
abbrev Program := Process → World → Exit × World

namespace World

/-! ### Streams -/

/-- Opens a stream. -/
def openStream (w : World) (stream : Stream) : Nat × World :=
  (w.streams.size, { w with streams := w.streams.push stream })

def stream (w : World) (id : Nat) : Stream :=
  w.streams.getD id .null

def setStream (w : World) (id : Nat) (stream : Stream) : World :=
  { w with streams := w.streams.setIfInBounds id stream }

/-- The bytes of a file at a location. -/
def contentAt (w : World) (location : Location) : ByteArray :=
  match w.disk.node? location with
  | some (.file content _ _) => content
  | _ => ByteArray.empty

/-- Bytes with others written over them from an offset on. -/
def overwrite (content more : ByteArray) (offset : Nat) : ByteArray :=
  let gap : ByteArray := ⟨Array.replicate (offset - content.size) 0⟩
  content.extract 0 offset ++ gap ++ more ++ content.extract (offset + more.size) content.size

/-- Opens a stream that holds bytes already. -/
def openPipe (w : World) (limit : Option Nat := none) (content : ByteArray := ByteArray.empty) :
    Nat × World :=
  w.openStream (.pipe content 0 limit)

/-- Writes bytes to a stream. -/
def write (w : World) (id : Nat) (bytes : ByteArray) : Except SystemFault World :=
  match w.stream id with
  | .null => .ok w
  | .directory => .error .badDescriptor
  | .pipe content start limit =>
    if limit.any (· < content.size) then .error .brokenPipe
    -- The stream is given up first, so that its bytes are not copied.
    else .ok ((w.setStream id .null).setStream id (.pipe (content ++ bytes) start limit))
  | .file location offset appends reads writes =>
    if !writes then .error .badDescriptor
    else if bytes.isEmpty then .ok w
    else
      let content := w.contentAt location
      let start := if appends then content.size else offset
      match w.disk.node? location with
      | some (.file _ _ executable) =>
        let node : DiskNode := .file (overwrite content bytes start) w.disk.now executable
        .ok ({ w with disk := w.disk.put location node }.setStream id
          (.file location (start + bytes.size) appends reads writes))
      | _ => .ok w

/-- The bytes that a stream still holds, in front of others that have been read. -/
def remaining (w : World) (id : Nat) : Except SystemFault (ByteArray × Nat) :=
  match w.stream id with
  | .null => .ok (ByteArray.empty, 0)
  | .directory => .error .isDirectory
  | .pipe content start _ => .ok (content, start)
  | .file location offset _ reads _ =>
    if !reads then .error .badDescriptor else .ok (w.contentAt location, offset)

/-- The bytes that a stream still holds. -/
def unread (w : World) (id : Nat) : Except SystemFault ByteArray :=
  (w.remaining id).map fun (content, start) => content.extract start content.size

/-- As `unread`, but no more than so many bytes. -/
def unreadUpTo (w : World) (id count : Nat) : Except SystemFault ByteArray :=
  (w.remaining id).map fun (content, start) => content.extract start (start + count)

/-- Passes over bytes of a stream that have been read. -/
def skip (w : World) (id : Nat) (count : Nat) : World :=
  match w.stream id with
  | .pipe content start limit => w.setStream id (.pipe content (start + count) limit)
  | .file location offset appends reads writes =>
    w.setStream id (.file location (offset + count) appends reads writes)
  | _ => w

/-- The stream that a file is read by. -/
def openToRead (w : World) (directory : Location) (path : Path) : Except SystemFault Stream :=
  match w.disk.find directory path with
  | .error fault => .error fault
  | .ok (location, .file _ _ _) => .ok (.file location 0 false true false)
  | .ok (_, .directory _) => .ok .directory
  | .ok _ => .ok .null

/-- The stream that a file is written by, after a change that has created it. -/
def openToWrite (w : World) (directory : Location) (path : Path) (appends reads : Bool)
    (change : Disk.Change) : Except SystemFault (Stream × World) :=
  match change with
  | (.error fault, _) => .error fault
  | (.ok (), disk) =>
    match disk.find directory path with
    | .ok (location, .file _ _ _) =>
      .ok (.file location 0 appends reads true, { w with disk := disk })
    | .ok _ => .ok (.null, { w with disk := disk })
    | .error fault => .error fault

/-- Passes over bytes that have been used. They are read in blocks; what has been read of a block
and not been used is lost, except in a file. -/
def skipBlocks (w : World) (id used block : Nat) : World :=
  match w.stream id with
  | .pipe content start _ =>
    w.skip id (min ((used + block - 1) / block * block) (content.size - start))
  | _ => w.skip id used

/-- Whether a stream has got more than its limit. -/
def isOverfull (w : World) (id : Nat) : Bool :=
  match w.stream id with
  | .pipe content _ limit => limit.any (· < content.size)
  | _ => false

/-- The streams that a process has open by default: nothing to read, and two to write to. -/
def start (disk : Disk) : World where
  disk := disk
  streams := #[.null, .pipe ByteArray.empty 0 none, .pipe ByteArray.empty 0 none]

/-- The descriptors of those streams. -/
def startDescriptors : Descriptors :=
  [(0, 0), (1, 1), (2, 2)]

/-- What has been written to a stream and not been read. -/
def written (w : World) (id : Nat) : ByteArray :=
  match w.stream id with
  | .pipe content start _ => content.extract start content.size
  | _ => ByteArray.empty

/-! ### Processes -/

/-- Begins a process, which gets a number. -/
def begin (w : World) : Nat × World :=
  let number := w.lastProcess + 1
  (number, { w with lastProcess := number, running := number :: w.running })

/-- A process ends; signals that it did not notice are lost. -/
def finish (w : World) (number : Nat) : World :=
  { w with
    running := w.running.erase number
    signals := w.signals.filter fun entry => entry.1 != number }

/-- Sends a signal to a process. Signal zero is not sent. -/
def send (w : World) (number signal : Nat) : Except SystemFault World :=
  if !w.running.contains number then .error .noProcess
  else if signal = 0 then .ok w
  else .ok { w with signals := w.signals ++ [(number, signal)] }

/-- The first signal that a process has been sent; it is noticed. -/
def notice? (w : World) (number : Nat) : Option (Nat × World) :=
  (w.signals.find? fun entry => entry.1 == number).map fun entry =>
    (entry.2, { w with signals := w.signals.erase entry })

/-- The descriptor that a path names. -/
def descriptorOf? (path : String) : Option Nat :=
  match path with
  | "/dev/stdin" => some 0
  | "/dev/stdout" => some 1
  | "/dev/stderr" => some 2
  | path =>
    match path.splitOn "/" with
    | ["", "dev", "fd", digits] => digits.toNat?
    | ["", "proc", "self", "fd", digits] => digits.toNat?
    | _ => none

end World

end ProjectBuild

/-!
## Running program files

What happens when a file is run: a program of the system runs, a script is handed to the program
that its first line names, and everything else cannot be run. A name without a slash is looked
for in the directories of a search path.
-/

namespace ProjectBuild

/-- Runs what a path leads to in a process, if that can be run. -/
abbrev Execution := String → Process → World → Except SystemFault (Exit × World)

namespace Execution

/-- The most bytes of a first line that count. -/
def firstLineLimit : Nat := 255

def isBlank (c : Char) : Bool :=
  c == ' ' || c == '\t'

/-- The program that the first line of a script names, with the one argument it can give. -/
def interpreter? (content : ByteArray) : Option (List String) :=
  match (Raw.ofBytes (content.extract 0 firstLineLimit)).toList with
  | '#' :: '!' :: rest =>
    let line := (rest.takeWhile (· != '\n')).dropWhile isBlank
    let line := (line.reverse.dropWhile isBlank).reverse
    let program := line.takeWhile fun c => !isBlank c
    let argument := (line.drop program.length).dropWhile isBlank
    if program.isEmpty then none
    else some (String.ofList program ::
      if argument.isEmpty then [] else [String.ofList argument])
  | _ => none

/-- Scripts whose programs are scripts can be nested this deep. -/
def scriptLimit : Nat := 5

/-- Runs files with the programs of a system. -/
def ofProgramsUpTo (program? : String → Option Program) : Nat → Execution
  | 0, _, _, _ => .error .tooManyLinks
  | n + 1, path, process, w =>
    match w.disk.find process.directory ⟨Raw.text path⟩ with
    | .error fault => .error fault
    | .ok (location, .program) =>
      match program? (location.getLastD "") with
      | some program => .ok (program process w)
      | none => .error .notRunnable
    | .ok (_, .file content _ true) =>
      match interpreter? content with
      | none => .error .notRunnable
      | some words =>
        ofProgramsUpTo program? n (words.headD "")
          { process with arguments := words ++ path :: process.arguments.tail } w
    | .ok _ => .error .permissionDenied

def ofPrograms (program? : String → Option Program) : Execution :=
  ofProgramsUpTo program? scriptLimit

/-! ### Searching -/

/-- Where programs are looked for if nothing says where. -/
def defaultPath : String := "/bin:/usr/bin"

/-- Runs the first of some files that can be run. A file that may not be run is remembered as the
cause of a failure. -/
def first (execute : Execution) (process : Process) (w : World) (fault : SystemFault) (denied : Bool) :
    List String → Except SystemFault (Exit × World)
  | [] => .error (if denied then .permissionDenied else fault)
  | path :: rest =>
    match execute path process w with
    | .ok result => .ok result
    | .error .permissionDenied => first execute process w .permissionDenied true rest
    | .error .notFound => first execute process w .notFound denied rest
    | .error .notDirectory => first execute process w .notDirectory denied rest
    | .error fault => .error fault

/-- Runs the program of a name. -/
def search (execute : Execution) (searchPath name : String) (process : Process) (w : World) :
    Except SystemFault (Exit × World) :=
  if name = "" then .error .notFound
  else if name.toList.contains '/' then execute name process w
  else if Disk.nameLimit < name.length then .error .nameTooLong
  else first execute process w .notFound false
    ((searchPath.splitOn ":").map fun dir => if dir = "" then name else dir ++ "/" ++ name)

/-- How a process ends that may have been sent a signal. -/
def settle (number : Nat) (exit : Exit) (w : World) : Exit × World :=
  (match w.signals.lookup number with
    | some signal => .signal signal
    | none => exit,
    w.finish number)

/-- Runs something as a new process. -/
def fork (w : World) (process : Process)
    (run : Process → World → Except SystemFault (Exit × World)) :
    Except SystemFault (Exit × World) :=
  let (number, begun) := w.begin
  (run { process with number := number, parent := process.number } begun).map fun (exit, w) =>
    settle number exit w

end Execution

end ProjectBuild
