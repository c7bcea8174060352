import ProjectBuild.Shell.Syntax

/-!
# Reading a script

A script is read from left to right, and only as far as it is needed: what a command does can
change how the rest is read. An alias is read in place of its name; while its own value is read,
the name stands for itself.
-/

namespace ProjectBuild.Shell

/-- What goes wrong in a script, and the line it is noticed on. -/
structure Complaint where
  line : Nat
  text : String
  deriving DecidableEq, Repr, Inhabited

/-- A text that is being read. -/
structure Source where
  rest : List Char
  /-- The alias whose value it is. -/
  alias? : Option String := none
  /-- Aliases whose values had just been read when this text was taken up. They count as being read
  until it ends. -/
  held : List String := []
  /-- Whether the value ends in a blank: then the next word can be an alias as well. -/
  passesOn : Bool := false
  deriving Inhabited

inductive Token where
  | endOfText
  | newline
  | operator (sign : String)
  /-- The start of a redirection, up to what it is redirected to. -/
  | redirect (descriptor : Option Nat) (sign : String)
  | word (w : Word) (quoted : Bool)
  | keyword (text : String)
  deriving Inhabited

namespace Token

/-- What a token is called in a complaint. -/
def describe : Token → String
  | endOfText => "end of file"
  | newline => "newline"
  | operator sign => "\"" ++ sign ++ "\""
  | redirect _ _ => "redirection"
  | word _ _ => "word"
  | keyword text => "\"" ++ text ++ "\""

def isOperator (t : Token) (sign : String) : Bool :=
  match t with
  | operator found => found == sign
  | _ => false

def isKeyword (t : Token) (text : String) : Bool :=
  match t with
  | keyword found => found == text
  | _ => false

def isNewline : Token → Bool
  | newline => true
  | _ => false

/-- Whether a token ends the commands in front of it. -/
def closes : Token → Bool
  | endOfText => true
  | operator sign => sign == ")" || sign == ";;"
  | keyword text =>
    ["do", "done", "elif", "else", "esac", "fi", "then", "\x7d"].contains text
  | _ => false

end Token

/-- Words that have a meaning of their own where a command begins. -/
def keywords : List String := [
  "!", "case", "do", "done", "elif", "else", "esac", "fi", "for", "if", "in", "then", "until",
  "while", "\x7b", "\x7d"]

/-- A document that is read once the line it is asked for on ends. -/
structure AwaitedDocument where
  number : Nat
  /-- The line that ends it. -/
  mark : String
  /-- Whether tabs in front of its lines are left out. -/
  stripsTabs : Bool
  /-- Whether it holds nothing to be expanded. -/
  literal : Bool
  deriving Inhabited

structure ReaderState where
  sources : List Source
  /-- There are fewer characters left. -/
  room : Nat
  line : Nat := 1
  aliases : List (String × String) := []
  /-- A token that is read once more. -/
  pushed : Option Token := none
  /-- Whether an alias with a blank at its end has just been read. -/
  passedOn : Bool := false
  /-- The aliases whose values have just been read. -/
  ended : List String := []
  awaited : List AwaitedDocument := []
  /-- The number of the next document. -/
  nextDocument : Nat := 0
  documents : List (Nat × Word) := []
  deriving Inhabited

/-- A text that is to be read. -/
def ReaderState.ofText (text : List Char) : ReaderState where
  sources := [{ rest := text }]
  room := text.length + 8

/-- Reads something, or complains. -/
abbrev Reader := StateT ReaderState (Except Complaint)

namespace Reader

/-- Complains about the text that is read. -/
def refuse {α : Type} (text : String) : Reader α := do
  throw ⟨(← get).line, "Syntax error: " ++ text⟩

/-- The longest complaint about a token. -/
def complaintLength : Nat := 63

/-- Complains about a token that stands where something else is expected. -/
def refuseToken {α : Type} (found : Token) (expected : Option String) : Reader α :=
  let text := found.describe ++ " unexpected" ++
    (expected.map fun what => " (expecting " ++ what ++ ")").getD ""
  refuse (String.ofList (text.toList.take complaintLength))

/-- Leaves the sources that nothing is left of. -/
def dropFinished (passed : Bool) (ended : List String) :
    List Source → List Source × Bool × List String
  | ⟨[], some name, held, passesOn⟩ :: below =>
    dropFinished (passed || passesOn) (name :: held ++ ended) below
  | ⟨[], none, _, _⟩ :: next :: below => dropFinished passed ended (next :: below)
  | sources => (sources, passed, ended)

/-- The next character, if there is one; it is read. -/
def char? : Reader (Option Char) := do
  let s ← get
  let (sources, passed, ended) := dropFinished s.passedOn [] s.sources
  let s := { s with sources := sources, passedOn := passed, ended := ended }
  match sources with
  | source :: below =>
    match source.rest with
    | c :: rest =>
      set { s with sources := { source with rest := rest } :: below }
      return some c
    | [] =>
      set s
      return none
  | [] => return none

/-- Puts a character back, to be read again. -/
def unread (c : Option Char) : Reader Unit :=
  match c with
  | none => return
  | some c => modify fun s =>
    match s.sources with
    | source :: below => { s with sources := { source with rest := c :: source.rest } :: below }
    | [] => { s with sources := [{ rest := [c] }] }

def nextLine : Reader Unit :=
  modify fun s => { s with line := s.line + 1 }

/-- The next character, if there is one; it is not read. -/
def peek? : Reader (Option Char) := do
  return (← get).sources.findSome? fun source => source.rest.head?

/-- As `char?`, behind lines that a backslash continues. -/
def joinedChar? : Nat → Reader (Option Char)
  | 0 => char?
  | n + 1 => do
    match ← char? with
    | some '\\' =>
      match ← char? with
      | some '\n' =>
        nextLine
        joinedChar? n
      | other =>
        unread other
        return some '\\'
    | c => return c

/-- How many lines are continued where a text begins. -/
def continuations : List Char → Nat
  | '\\' :: '\n' :: rest => continuations rest + 1
  | _ => 0

/-- The next character that is not part of a continued line's end. -/
def joined? : Reader (Option Char) := do
  joinedChar? ((← get).sources.foldl (fun n source => n + continuations source.rest + 1) 1)

/-- More than the number of characters that are left. -/
def room : Reader Nat := do
  return (← get).room

/-- Reads the next character if it is this one. -/
def accept (c : Char) : Reader Bool := do
  match ← joined? with
  | some found => if found == c then return true else
      unread (some found)
      return false
  | none => return false

end Reader

end ProjectBuild.Shell
