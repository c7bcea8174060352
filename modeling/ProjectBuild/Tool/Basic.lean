import ProjectBuild.Process.World

/-!
# Tools

Programs that scripts use besides the shell. A tool reads its arguments and streams, changes the
disk and ends with a status. What it complains about begins with the name it was called by.
-/

namespace ProjectBuild

/-- Something that a tool does. -/
abbrev Tool := ReaderT Process (ExceptT Exit (StateM World))

namespace Tool

/-- Ends with a status. -/
def exit {α : Type} (status : Nat) : Tool α :=
  throw (.code status)

/-- The name that the tool was called by. -/
def name : Tool String := do
  return (← read).arguments.headD ""

/-- The program that a tool is. -/
def program (main : List String → Tool Nat) : Program := fun process w =>
  match (main process.arguments.tail).run process w with
  | (.ok status, w) => (.code status, w)
  | (.error exit, w) => (exit, w)

/-! ## Streams -/

/-- Writes to a descriptor; why that failed is told. A tool whose output nobody reads is killed. -/
def writeTo (descriptor : Nat) (raw : String) : Tool (Option SystemFault) := do
  match (← read).descriptors.lookup descriptor with
  | none => return if raw = "" then none else some .badDescriptor
  | some id =>
    match (← get).write id (Raw.bytes raw) with
    | .ok w =>
      set w
      return none
    | .error .brokenPipe => throw (.signal 13)
    | .error fault => return some fault

/-- Complains on the standard error output. -/
def complain (text : String) : Tool Unit := do
  let _ ← writeTo 2 ((← name) ++ ": " ++ text ++ "\n")

/-- Ends with a complaint. -/
def fail {α : Type} (status : Nat) (text : String) : Tool α := do
  complain text
  exit status

/-- Writes to the standard output. -/
def print (raw : String) : Tool Unit := do
  match ← writeTo 1 raw with
  | none => return
  | some fault => fail 1 ("write error: " ++ fault.phrase)

def printLine (raw : String) : Tool Unit :=
  print (raw ++ "\n")

/-- Ends with a complaint about the arguments, and says where help is to be had. -/
def usage {α : Type} (status : Nat) (text : String) : Tool α := do
  complain text
  let _ ← writeTo 2 ("Try '" ++ (← name) ++ " --help' for more information.\n")
  exit status

/-- All that is left to read from a descriptor. -/
def readFrom (descriptor : Nat) : Tool (Except SystemFault String) := do
  match (← read).descriptors.lookup descriptor with
  | none => return .error .badDescriptor
  | some id =>
    match (← get).unread id with
    | .error fault => return .error fault
    | .ok bytes =>
      modify fun w => w.skip id bytes.size
      return .ok (Raw.ofBytes bytes)

/-- As `readFrom`, but all of it can be read again. -/
def lookAt (descriptor : Nat) : Tool (Except SystemFault String) := do
  match (← read).descriptors.lookup descriptor with
  | none => return .error .badDescriptor
  | some id => return ((← get).unread id).map Raw.ofBytes

/-- Passes over so many bytes, which have been read in blocks of a size. -/
def passOver (descriptor block used : Nat) : Tool Unit := do
  match (← read).descriptors.lookup descriptor with
  | none => return
  | some id => modify fun w => w.skipBlocks id used block

/-! ## Files -/

/-- The path that a raw text spells. -/
def path (raw : String) : Path :=
  ⟨Raw.text raw⟩

/-- The raw text of a path. -/
def rawPath (path : Path) : String :=
  Raw.ofText path.text

/-- The bytes of a file; a hyphen stands for the standard input. -/
def contents (file : String) : Tool (Except SystemFault String) := do
  if file = "-" then readFrom 0
  else match World.descriptorOf? file with
    | some descriptor => readFrom descriptor
    | none => return ((← get).disk.contents (← read).directory (path file)).map Raw.ofBytes

/-- What a path leads to, and where that is. -/
def find (file : String) : Tool (Except SystemFault (Location × DiskNode)) := do
  return (← get).disk.find (← read).directory (path file)

/-- As `find`, but for a link itself. -/
def findEntry (file : String) : Tool (Except SystemFault (Location × DiskNode)) := do
  let disk := (← get).disk
  return match disk.locateEntry (← read).directory (path file) with
    | .error fault => .error fault
    | .ok location =>
      match disk.node? location with
      | some node => .ok (location, node)
      | none => .error .notFound

def isDirectory (file : String) : Tool Bool := do
  return (← get).disk.isDirectory (← read).directory (path file)

/-- Changes the disk; why that failed is told. -/
def change (act : Disk → Location → Disk.Change) : Tool (Option SystemFault) := do
  let directory := (← read).directory
  let w ← get
  match act w.disk directory with
  | (.ok (), disk) =>
    set { w with disk := disk }
    return none
  | (.error fault, _) => return some fault

/-! ## Quoting -/

/-- Characters that are not quoted. -/
def isPlain (c : Char) : Bool :=
  c.isAlphanum || "%+,-./@_]\x7d".toList.contains c

/-- Characters that are not quoted unless they stand alone or in front. -/
def isPlainBehind (c : Char) : Bool :=
  c == '#' || c == '~'

def isVisible (c : Char) : Bool :=
  0x20 ≤ c.toNat && c.toNat < 0x7F

/-- How a byte that cannot be seen is written between quotes. -/
def escaped (c : Char) : List Char :=
  match c.toNat with
  | 7 => ['\\', 'a']
  | 8 => ['\\', 'b']
  | 9 => ['\\', 't']
  | 10 => ['\\', 'n']
  | 11 => ['\\', 'v']
  | 12 => ['\\', 'f']
  | 13 => ['\\', 'r']
  | n => '\\' :: [64, 8, 1].map fun place => Char.ofNat (48 + n / place % 8)

/-- What stands between single quotes; `inEscape` says that the last byte was escaped. -/
def quotedChars (inEscape : Bool) : List Char → List Char
  | [] => []
  | c :: rest =>
    if isVisible c then
      (if inEscape then ['\'', '\''] else []) ++
        (if c == '\'' then ['\'', '\\', '\'', '\''] else [c]) ++ quotedChars false rest
    else (if inEscape then [] else ['\'', '$', '\'']) ++ escaped c ++ quotedChars true rest

/-- A text in quotes. -/
def quoted (raw : String) : String :=
  let chars := raw.toList
  if chars.contains '\'' && chars.all fun c => isPlain c || c == '\'' || c == ' ' || c == ':' then
    "\"" ++ raw ++ "\""
  else "'" ++ String.ofList (quotedChars false chars) ++ "'"

/-- A text in quotes, if it needs them. -/
def quotedIfNeeded (raw : String) : String :=
  match raw.toList with
  | c :: rest =>
    let isPlainStart := isPlain c || (c == '\x7b' && !rest.isEmpty)
    let isLoneBrace := rest.isEmpty && c == '\x7d'
    if isPlainStart && !isLoneBrace &&
      rest.all fun c => isPlain c || isPlainBehind c || c == '\x7b' then raw
    else quoted raw
  | [] => quoted raw

/-! ## Options -/

/-- The options that a tool has: letters, with a colon behind those that take a text, two colons
behind those that take one if it follows at once, and long names for them. -/
structure Accepted where
  letters : String
  long : List (String × Char) := []
  /-- The status of a tool that is called in a wrong way. -/
  failure : Nat := 1
  /-- Whether options can stand behind operands. -/
  permutes : Bool := true

namespace Accepted

/-- Whether an option takes a text. -/
inductive Taking where
  | nothing
  | attached
  | anything

/-- Whether a letter is accepted, and what it takes. -/
def taking? (c : Char) : List Char → Option Taking
  | [] => none
  | d :: rest =>
    if d == c && c != ':' then
      some (match rest with
        | ':' :: ':' :: _ => .attached
        | ':' :: _ => .anything
        | _ => .nothing)
    else taking? c rest

/-- Letters that an argument is made of, with the arguments behind it. -/
def readLetters (a : Accepted) : List Char → List String →
    Tool (List (Char × String) × List String)
  | [], rest => return ([], rest)
  | c :: more, rest => do
    match taking? c a.letters.toList with
    | none => usage a.failure (String.ofList ("invalid option -- '".toList ++ [c, '\'']))
    | some .nothing =>
      let (others, rest) ← a.readLetters more rest
      return ((c, "") :: others, rest)
    | some .attached => return ([(c, String.ofList more)], rest)
    | some .anything =>
      match more, rest with
      | [], [] =>
        usage a.failure (String.ofList ("option requires an argument -- '".toList ++ [c, '\'']))
      | [], text :: rest => return ([(c, text)], rest)
      | more, rest => return ([(c, String.ofList more)], rest)

/-- The option of a long name or of the start of one. -/
def named? (a : Accepted) (name : String) : Option Char :=
  (a.long.lookup name).or
    (match a.long.filter fun entry => name.toList.isPrefixOf entry.1.toList with
      | [(_, c)] => some c
      | _ => none)

/-- An option by its long name, with the arguments behind it. -/
def readLong (a : Accepted) (argument : String) (rest : List String) :
    Tool ((Char × String) × List String) := do
  let name := String.ofList ((argument.toList.drop 2).takeWhile (· != '='))
  let value := argument.toList.drop (name.length + 2)
  match a.named? name with
  | none => usage a.failure ("unrecognized option '" ++ argument ++ "'")
  | some c =>
    match taking? c a.letters.toList, value, rest with
    | some .attached, value, rest => return ((c, String.ofList value.tail), rest)
    | some .anything, _ :: text, rest => return ((c, String.ofList text), rest)
    | some .anything, [], text :: rest => return ((c, text), rest)
    | some .anything, [], [] =>
      usage a.failure ("option '--" ++ name ++ "' requires an argument")
    | _, [], rest => return ((c, ""), rest)
    | _, _, _ => usage a.failure ("option '--" ++ name ++ "' doesn't allow an argument")

/-- Options and operands of at most so many arguments. -/
def readUpTo (a : Accepted) : Nat → List String → Tool (List (Char × String) × List String)
  | 0, arguments => return ([], arguments)
  | n + 1, arguments => do
    match arguments with
    | [] => return ([], [])
    | first :: rest =>
      match first.toList with
      | ['-', '-'] => return ([], rest)
      | '-' :: '-' :: _ =>
        let (found, rest) ← a.readLong first rest
        let (others, operands) ← a.readUpTo n rest
        return (found :: others, operands)
      | '-' :: c :: more =>
        let (found, rest) ← a.readLetters (c :: more) rest
        let (others, operands) ← a.readUpTo n rest
        return (found ++ others, operands)
      | _ =>
        if a.permutes then
          let (others, operands) ← a.readUpTo n rest
          return (others, first :: operands)
        else return ([], arguments)

end Accepted

/-- The options and the operands of a tool. -/
structure Given where
  options : List (Char × String)
  operands : List String

namespace Given

def has (g : Given) (c : Char) : Bool :=
  g.options.any fun option => option.1 == c

/-- The text of an option; the last one counts. -/
def text? (g : Given) (c : Char) : Option String :=
  ((g.options.filter fun option => option.1 == c).getLast?).map Prod.snd

end Given

def given (a : Accepted) (arguments : List String) : Tool Given := do
  let (options, operands) ← a.readUpTo (arguments.length + 1) arguments
  return ⟨options, operands⟩

/-- Does something for each operand, and gives the greatest status. -/
def each {α : Type} (act : α → Tool Nat) (operands : List α) : Tool Nat :=
  operands.foldlM (fun status operand => do return max status (← act operand)) 0

/-- The lines of a text; each but perhaps the last one ends with a line end. -/
def lines (chars : List Char) : List (List Char) :=
  let (found, current) := chars.foldl
    (fun (found, current) c =>
      if c == '\n' then (found.push (c :: current).reverse, []) else (found, c :: current))
    ((#[], []) : Array (List Char) × List Char)
  (if current.isEmpty then found else found.push current.reverse).toList

/-- A line without its end. -/
def trimEnd (line : List Char) : List Char :=
  match line.reverse with
  | '\n' :: rest => rest.reverse
  | _ => line

/-- The lines of a text without their ends. -/
def plainLines (text : String) : List String :=
  (lines text.toList).map fun line => String.ofList (trimEnd line)

end Tool

end ProjectBuild
