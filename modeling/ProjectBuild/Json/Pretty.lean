import ProjectBuild.Text.Quoted

/-!
# Written values

The indented form in which records are kept: two spaces a level, one key a line. A printer of a
value is a function of the level it is written at, so printers of structures are put together
from those of their fields.
-/

namespace ProjectBuild.Json

/-- Text of a value at a level of indentation. -/
abbrev Printer := Nat → List Char

namespace Pretty

/-- One character of a string literal. -/
def escape (c : Char) : List Char :=
  if c = '"' then ['\\', '"']
  else if c = '\\' then ['\\', '\\']
  else if c = Char.ofNat 8 then ['\\', 'b']
  else if c = Char.ofNat 12 then ['\\', 'f']
  else if c = '\n' then ['\\', 'n']
  else if c = '\r' then ['\\', 'r']
  else if c = '\t' then ['\\', 't']
  else if c.toNat < 0x20 then ['\\', 'u'] ++ Hex.padded 4 c.toNat
  else [c]

def literal (text : String) : List Char :=
  '"' :: text.toList.flatMap escape ++ ['"']

def string (text : String) : Printer :=
  fun _ => literal text

def number (n : Nat) : Printer :=
  fun _ => (toString n).toList

def indent (level : Nat) : List Char :=
  List.replicate (2 * level) ' '

/-- The fields of an object: each on a line of its own, with commas between them. -/
def fields (level : Nat) : List (String × Printer) → List Char
  | [] => []
  | [(key, value)] => '\n' :: indent level ++ literal key ++ [':', ' '] ++ value level
  | (key, value) :: rest =>
    '\n' :: indent level ++ literal key ++ [':', ' '] ++ value level ++ ',' :: fields level rest

def object (content : List (String × Printer)) : Printer := fun level =>
  if content.isEmpty then ['{', '}']
  else '{' :: fields (level + 1) content ++ '\n' :: indent level ++ ['}']

end Pretty

/-- The text of a value by itself. -/
def Printer.text (p : Printer) : String :=
  String.ofList (p 0)

end ProjectBuild.Json
