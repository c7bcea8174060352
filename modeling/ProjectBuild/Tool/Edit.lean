import ProjectBuild.Tool.Edit.Apply

/-!
# Editing streams of text

The tool that applies scripts to files: to all of them as one text, or to each of them in its place.
-/

namespace ProjectBuild.Tool

namespace Edit

/-- The lines of a text. -/
def linesOf (text : String) (separator : Char) : List Line :=
  let isNewline := separator == '\n'
  if isNewline then
    (lines text.toList).map fun line => ⟨trimEnd line, line.getLast? == some '\n'⟩
  else
    let pieces := text.splitOn (String.singleton separator)
    let whole := pieces.dropLast.map fun piece => (⟨piece.toList, true⟩ : Line)
    match pieces.getLast? with
    | some "" => whole
    | some last => whole ++ [⟨last.toList, false⟩]
    | none => whole

/-- How many bytes lines take. -/
def sizeOf (all : List Line) : Nat :=
  all.foldl (fun n line => n + line.text.length + if line.isEnded then 1 else 0) 0

/-- The piece of a script that is told about, and how far it had been read. -/
def placeIn (count : Nat) : Nat → List String → Nat × Nat
  | n, text :: next :: rest =>
    if count ≤ text.length then (n, count)
    else placeIn (count - text.length - 1) (n + 1) (next :: rest)
  | n, _ => (n, count)

/-- The instructions that some texts spell, one behind the other. -/
def readScript (extended : Bool) (texts : List String) : Tool (List Instruction) := do
  match script extended ("\n".intercalate texts) with
  | .error (count, problem) =>
    let (n, count) := if count = 0 then (texts.length, 0) else placeIn count 1 texts
    fail 1 ("-e expression #" ++ toString n ++ ", char " ++ toString count ++ ": " ++ problem)
  | .ok instructions =>
    match missingLabels instructions with
    | name :: _ => fail 4 ("can't find label for jump to `" ++ name ++ "'")
    | [] => return instructions

/-- The files that a script writes to. -/
def targets (instructions : List Instruction) : List String :=
  instructions.filterMap fun i => match i.act with
    | .writeFile name => some name
    | .substitute s => s.target
    | _ => none

/-- A run of a script over some lines. -/
def start (quiet : Bool) (instructions : List Instruction) (rest : List Line) : Editor where
  script := instructions.toArray
  quiet := quiet
  rest := rest
  ranges := instructions.zipIdx.filterMap fun (i, place) =>
    match i.first with
    | some (.line 0) => some (place, .toLimit)
    | _ => none

/-- Runs a script over lines. The lines that have not been read are left. -/
def run (e : Editor) : Tool (Option Nat × Editor) := do
  let room := e.rest.foldl (fun n line => n + line.text.length + 2) 0
  (editLines (room + e.rest.length + 1) false).run e

end Edit

/-- Complains about a file that cannot be read. -/
def refuseFile (file : String) (fault : SystemFault) : Tool Nat := do
  if fault == .isDirectory then
    complain ("couldn't edit " ++ file ++ ": not a regular file")
    return 4
  else
    complain ("can't read " ++ file ++ ": " ++ fault.phrase)
    return 2

/-- Edits each file in its place. -/
def editInPlace (quiet : Bool) (separator : Char) (ending : String)
    (instructions : List Edit.Instruction) (files : List String) : Tool Nat := do
  each (fun file => do
    match ← contents file with
    | .error fault => refuseFile file fault
    | .ok text =>
      -- What is printed goes to a stream of its own, and from there to the file.
      let (id, w) := (← get).openPipe
      set w
      let lines := Edit.linesOf text separator
      let (status, e) ← withReader (fun (p : Process) => { p with
          descriptors := (1, id) :: p.descriptors.filter fun entry => entry.1 != 1 })
        (Edit.run (Edit.start quiet instructions lines))
      let rest := (e.rest.map fun line =>
        String.ofList line.text ++ (if line.isEnded then "\n" else "")).foldl (· ++ ·) ""
      let bytes := (← get).written id ++ Raw.bytes rest
      if ending ≠ "" then
        let _ ← change fun disk directory =>
          disk.writeFile directory (path (file ++ ending)) (Raw.bytes text)
      let _ ← change fun disk directory => disk.writeFile directory (path file) bytes
      return status.getD 0) files

/-- Edits all files as one text. What is not read of the standard input is left to others. -/
def editTogether (quiet : Bool) (separator : Char) (instructions : List Edit.Instruction)
    (files : List String) : Tool Nat := do
  let (failure, all) ← files.foldlM (fun ((failure, found) : Nat × List Edit.Line) file => do
    let text ← if file = "-" then lookAt 0 else contents file
    match text with
    | .ok text => return (failure, found ++ Edit.linesOf text separator)
    | .error .isDirectory =>
      fail 4 ("read error on " ++ file ++ ": " ++ SystemFault.isDirectory.phrase)
    | .error fault => return (max failure (← refuseFile file fault), found)) (0, [])
  let (status, e) ← Edit.run (Edit.start quiet instructions all)
  if files.contains "-" then
    let isAlone := files.length == 1
    passOver 0 4096 (if isAlone then Edit.sizeOf all - Edit.sizeOf e.rest else Edit.sizeOf all)
  return status.getD failure

/-- Edits files or the standard input. -/
def editText (arguments : List String) : Tool Nat := do
  let g ← given {
    letters := "nEre:f:i::l:suz"
    long := [("quiet", 'n'), ("silent", 'n'), ("regexp-extended", 'E'), ("expression", 'e'),
      ("file", 'f'), ("in-place", 'i'), ("separate", 's'), ("null-data", 'z'),
      ("unbuffered", 'u'), ("line-length", 'l')] } arguments
  let stated ← g.options.filterMapM fun (letter, text) => do
    if letter == 'e' then return some text
    else if letter == 'f' then
      match ← contents text with
      | .ok script => return some (String.ofList (trimEnd script.toList))
      | .error fault => fail 1 ("couldn't open file " ++ text ++ ": " ++ fault.phrase)
    else return none
  let (texts, operands) := if stated.isEmpty then (g.operands.take 1, g.operands.drop 1)
    else (stated, g.operands)
  if texts.isEmpty then
    let name ← name
    let _ ← writeTo 2 ("Usage: " ++ name ++ " [OPTION]... \x7bscript-only-if-no-other-script\x7d" ++
      " [input-file]...\n")
    return 1
  else
    let instructions ← Edit.readScript (g.has 'E' || g.has 'r') texts
    -- files that are written to are emptied first, whether or not a line gets there
    (Edit.targets instructions).forM fun name => do
      if name ≠ "/dev/stdout" then
        let _ ← change fun disk directory => disk.writeFile directory (path name) ByteArray.empty
    let isSilent := (texts.headD "").startsWith "#n\n" || texts.headD "" == "#n"
    let quiet := g.has 'n' || isSilent
    let separator := if g.has 'z' then Char.ofNat 0 else '\n'
    let files := inputs operands
    if g.has 'i' then editInPlace quiet separator ((g.text? 'i').getD "") instructions files
    else if g.has 's' then
      each (fun file => editTogether quiet separator instructions [file]) files
    else editTogether quiet separator instructions files

end ProjectBuild.Tool
