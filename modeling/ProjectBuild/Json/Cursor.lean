import ProjectBuild.Json.Problem

/-!
# Cursors

A cursor is the unread rest of a text and its position. Lines count from one; a column is the
number of bytes since the line began. A problem is placed either **here**, where the unread text
begins, or at the **peek** position one byte further, which is the end of the text if nothing is
left.

Some problems of a structure have no place of their own. They are placed once the structure
around them has been closed as far as possible, and carry the cursor until then.
-/

namespace ProjectBuild.Json

structure Position where
  line : Nat := 1
  column : Nat := 0
  deriving DecidableEq, Repr, Inhabited

/-- The position behind `bytes` bytes of a character. -/
def Position.after (p : Position) (c : Char) (bytes : Nat) : Position :=
  if c = '\n' then ⟨p.line + 1, 0⟩ else ⟨p.line, p.column + bytes⟩

structure Cursor where
  rest : List Char
  position : Position := {}
  deriving DecidableEq, Repr, Inhabited

/-- A problem that was met while reading. -/
inductive Fault where
  | placed (problem : Problem) (position : Position)
  /-- Still to be placed, when the structure read so far has been closed. -/
  | floating (problem : Problem) (cursor : Cursor)
  deriving Inhabited

namespace Cursor

def ofString (text : String) : Cursor :=
  { rest := text.toList }

/-- The cursor behind the character `c`, before `rest`. -/
def past (c : Char) (rest : List Char) (p : Position) : Cursor :=
  ⟨rest, p.after c c.utf8Size⟩

/-- One byte further, or the end of the text. -/
def peek (c : Cursor) : Position :=
  match c.rest with
  | [] => c.position
  | next :: _ => c.position.after next 1

def faultHere (c : Cursor) (problem : Problem) : Fault :=
  .placed problem c.position

def faultPeek (c : Cursor) (problem : Problem) : Fault :=
  .placed problem c.peek

def isSpace (c : Char) : Bool :=
  c == ' ' || c == '\n' || c == '\t' || c == '\r'

def skipSpaceFrom : List Char → Position → Cursor
  | [], p => ⟨[], p⟩
  | c :: rest, p =>
    if isSpace c then skipSpaceFrom rest (p.after c 1) else ⟨c :: rest, p⟩

/-- The cursor behind any white space. -/
def skipSpace (c : Cursor) : Cursor :=
  skipSpaceFrom c.rest c.position

/-- Reads the letters of a word. A wrong byte is consumed. -/
def expectWord : List Char → Cursor → Except Fault Cursor
  | [], c => .ok c
  | letter :: word, c =>
    match c.rest with
    | [] => .error (c.faultHere .endInValue)
    | next :: rest =>
      if next = letter then expectWord word (past next rest c.position)
      else .error (c.faultPeek .expectedWord)

end Cursor

end ProjectBuild.Json
