import ProjectBuild.Shell.Expand

/-!
# Redirections

Before a command runs, some of its descriptors are opened on files or made copies of others, from
left to right. A redirection that fails keeps the command from running.
-/

namespace ProjectBuild.Shell

/-- A redirection whose words have been expanded. -/
inductive Opening where
  | file (descriptor : Nat) (kind : RedirectKind) (name : String)
  | copy (descriptor : Nat) (source : Option Nat)
  | document (descriptor : Nat) (w : Word)

namespace Opening

/-- Expands the words of a redirection. -/
def ofRedirect (substitute : Substitution) : Redirect → Act Opening
  | .open descriptor kind name => return .file descriptor kind (← Expand.text substitute name)
  | .copy descriptor source => return .copy descriptor source
  | .copyNamed descriptor source => do
    match (← Expand.text substitute source).toList with
    | ['-'] => return .copy descriptor none
    | [c] => if c.isDigit then return .copy descriptor (some (c.toNat - 48)) else bad
    | _ => bad
  | .document descriptor number => do
    return .document descriptor (((← get).documents.lookup number).getD [])
where
  bad : Act Opening := Act.fail "Syntax error: Bad fd number"

/-- Opens a stream and gives it a descriptor. -/
def install (descriptor : Nat) (stream : Stream) : Act Unit :=
  modify fun s =>
    let (id, world) := s.world.openStream stream
    { s with world := world }.setDescriptor descriptor (some id)

/-- Makes a descriptor a copy of another one. -/
def copyTo (descriptor source : Nat) : Act Unit := do
  match (← get).descriptors.lookup source with
  | some id => modify fun s => s.setDescriptor descriptor (some id)
  | none => Act.fail (toString source ++ ": " ++ SystemFault.badDescriptor.phrase)

/-- Why a file cannot be opened. -/
def readProblem : SystemFault → String
  | .notFound => "No such file"
  | .notDirectory => "No such file"
  | fault => fault.phrase

/-- Why a file cannot be written. -/
def writeProblem : SystemFault → String
  | .notFound => "Directory nonexistent"
  | .notDirectory => "Directory nonexistent"
  | fault => fault.phrase

/-- What opening a file for writing does to the disk. -/
def change (s : State) (kind : RedirectKind) (path : Path) : Disk.Change :=
  let disk := s.world.disk
  let isThere := disk.isFile s.directory path
  let empties := kind == .output || kind == .overwrite
  if isThere && kind == .output && s.isSet 'C' then (.error .alreadyExists, disk)
  else if isThere && !empties then (.ok (), disk)
  else disk.writeFile s.directory path ByteArray.empty

/-- Opens a file. -/
def openFile (descriptor : Nat) (kind : RedirectKind) (name : String) : Act Unit := do
  let s ← get
  let path := State.path name
  if kind = .input then
    match s.world.openToRead s.directory path with
    | .ok stream => install descriptor stream
    | .error fault => Act.fail ("cannot open " ++ name ++ ": " ++ readProblem fault)
  else
    match s.world.openToWrite s.directory path (kind = .append) (kind = .both)
      (change s kind path) with
    | .ok (stream, world) =>
      set { s with world := world }
      install descriptor stream
    | .error fault => Act.fail ("cannot create " ++ name ++ ": " ++ writeProblem fault)

/-- Carries out a redirection. -/
def perform (substitute : Substitution) : Opening → Act Unit
  | .file descriptor kind name => do
    match World.descriptorOf? name with
    | some source => copyTo descriptor source
    | none => openFile descriptor kind name
  | .copy descriptor (some source) => copyTo descriptor source
  | .copy descriptor none => modify fun s => s.setDescriptor descriptor none
  | .document descriptor w => do
    let text ← Expand.document substitute w
    install descriptor (.pipe (Raw.bytes text) 0 none)

end Opening

namespace Redirection

/-- Expands redirections and carries them out; whether that worked is told. -/
def perform (substitute : Substitution) (redirects : List Redirect) : Act Bool := do
  let openings ← redirects.mapM (Opening.ofRedirect substitute)
  Act.succeeds (openings.forM (Opening.perform substitute))

/-- The later state with the descriptors of the earlier one. -/
def restore (earlier later : State) : State :=
  { later with descriptors := earlier.descriptors }

end Redirection

end ProjectBuild.Shell
