import ProjectBuild.Json.Scalar

/-!
# Skipped values

A value under a key that nobody asked for is read past without being kept. The reader is a
pushdown automaton: a mode, and the stack of brackets that are still open. It places no limit on
nesting, on the size of numbers, or on which code units an escape names.
-/

namespace ProjectBuild.Json.Skip

/-- An open bracket. -/
inductive Bracket where
  | list
  | object
  deriving DecidableEq, Repr

/-- Where in a string literal the automaton is. -/
inductive LiteralPart where
  | plain
  | escape
  /-- Inside a code unit of which `needed` bytes are missing. -/
  | unit (needed : Nat) (valid : Bool)
  deriving DecidableEq, Repr

/-- Where in a number the automaton is, named for what has just been read. -/
inductive NumberPart where
  | minus
  | zero
  | integer
  | point
  | fraction
  | letter
  | sign
  | exponent
  deriving DecidableEq, Repr

inductive Mode where
  /-- Before a value. -/
  | value
  /-- Right behind an opening bracket. -/
  | opened
  /-- Behind a value inside a bracket. -/
  | closed
  /-- Before a key. -/
  | key
  /-- Behind a key, before its colon. -/
  | colon
  | literal (part : LiteralPart) (isKey : Bool)
  | number (part : NumberPart)
  /-- Inside a word, before these letters. -/
  | word (letters : List Char)
  deriving DecidableEq, Repr

/-- What one character leads to. -/
inductive Move where
  /-- The character is read. -/
  | next (mode : Mode) (stack : List Bracket)
  /-- The character is read and was the last of the value. -/
  | last
  /-- The value ended before the character. -/
  | before
  /-- A problem placed so many bytes behind the start of the character. -/
  | fault (bytes : Nat) (problem : Problem)

/-- A value is complete behind this character. -/
def complete : List Bracket → Move
  | [] => .last
  | stack => .next .closed stack

/-- A character that begins a value. -/
def beginValue (stack : List Bracket) (c : Char) : Move :=
  if c = 'n' then .next (.word ['u', 'l', 'l']) stack
  else if c = 't' then .next (.word ['r', 'u', 'e']) stack
  else if c = 'f' then .next (.word ['a', 'l', 's', 'e']) stack
  else if c = '-' then .next (.number .minus) stack
  else if c = '0' then .next (.number .zero) stack
  else if (Numeral.digit? c).isSome then .next (.number .integer) stack
  else if c = '"' then .next (.literal .plain false) stack
  else if c = '[' then .next .opened (.list :: stack)
  else if c = '{' then .next .opened (.object :: stack)
  else .fault 1 .expectedValue

/-- A character in front of a key. -/
def beginKey (stack : List Bracket) (c : Char) : Move :=
  if c = '"' then .next (.literal .plain true) stack else .fault 1 .keyNotString

/-- A character behind a value that is not white space. -/
def afterValue (stack : List Bracket) (c : Char) : Move :=
  match stack with
  | [] => .before
  | .list :: outer =>
    if c = ',' then .next .value stack
    else if c = ']' then complete outer
    else .fault 1 .expectedListEnd
  | .object :: outer =>
    if c = ',' then .next .key stack
    else if c = '}' then complete outer
    else .fault 1 .expectedObjectEnd

/-- A character right behind an opening bracket that is not white space. -/
def afterOpen (stack : List Bracket) (c : Char) : Move :=
  match stack with
  | [] => .before
  | .list :: outer => if c = ']' then complete outer else beginValue stack c
  | .object :: outer => if c = '}' then complete outer else beginKey stack c

/-- A character inside a literal. -/
def insideLiteral (part : LiteralPart) (isKey : Bool) (stack : List Bracket) (c : Char) : Move :=
  match part with
  | .plain =>
    if c = '"' then (if isKey then .next .colon stack else complete stack)
    else if c = '\\' then .next (.literal .escape isKey) stack
    else if c.toNat < 0x20 then .fault 0 .controlCharacter
    else .next (.literal .plain isKey) stack
  | .escape =>
    if c = 'u' then .next (.literal (.unit 4 true) isKey) stack
    else if (Literal.escaped? c).isSome then .next (.literal .plain isKey) stack
    else .fault 1 .invalidEscape
  | .unit needed valid =>
    let valid := valid && (Hex.value? c).isSome
    if c.utf8Size < needed then .next (.literal (.unit (needed - c.utf8Size) valid) isKey) stack
    else if valid then .next (.literal .plain isKey) stack
    else .fault needed .invalidEscape

/-- A character behind the last one that a number can take. -/
def afterNumber (stack : List Bracket) (c : Char) : Move :=
  if stack.isEmpty then .before
  else if Cursor.isSpace c then .next .closed stack
  else afterValue stack c

/-- A character inside a number. -/
def insideNumber (part : NumberPart) (stack : List Bracket) (c : Char) : Move :=
  let isDigit := (Numeral.digit? c).isSome
  let isLetter := c == 'e' || c == 'E'
  match part with
  | .minus =>
    if c = '0' then .next (.number .zero) stack
    else if isDigit then .next (.number .integer) stack
    else .fault 1 .invalidNumber
  | .zero =>
    -- no digit may follow a leading zero
    if isDigit then .fault 1 .invalidNumber
    else if c = '.' then .next (.number .point) stack
    else if isLetter then .next (.number .letter) stack
    else afterNumber stack c
  | .integer =>
    if isDigit then .next (.number .integer) stack
    else if c = '.' then .next (.number .point) stack
    else if isLetter then .next (.number .letter) stack
    else afterNumber stack c
  | .point => if isDigit then .next (.number .fraction) stack else .fault 1 .invalidNumber
  | .fraction =>
    if isDigit then .next (.number .fraction) stack
    else if isLetter then .next (.number .letter) stack
    else afterNumber stack c
  | .letter =>
    if isDigit then .next (.number .exponent) stack
    else if c = '+' || c = '-' then .next (.number .sign) stack
    else .fault 1 .invalidNumber
  | .sign => if isDigit then .next (.number .exponent) stack else .fault 1 .invalidNumber
  | .exponent => if isDigit then .next (.number .exponent) stack else afterNumber stack c

/-- One character. -/
def move (mode : Mode) (stack : List Bracket) (c : Char) : Move :=
  match mode with
  | .value => if Cursor.isSpace c then .next .value stack else beginValue stack c
  | .opened => if Cursor.isSpace c then .next .opened stack else afterOpen stack c
  | .closed => if Cursor.isSpace c then .next .closed stack else afterValue stack c
  | .key => if Cursor.isSpace c then .next .key stack else beginKey stack c
  | .colon =>
    if Cursor.isSpace c then .next .colon stack
    else if c = ':' then .next .value stack
    else .fault 1 .expectedColon
  | .literal part isKey => insideLiteral part isKey stack c
  | .number part => insideNumber part stack c
  | .word [] => .before
  | .word (letter :: letters) =>
    if c = letter then (if letters.isEmpty then complete stack else .next (.word letters) stack)
    else .fault 1 .expectedWord

/-- The problem that the end of the text inside brackets is. -/
def endInside : List Bracket → Problem
  | .object :: _ => .endInObject
  | _ => .endInList

/-- The problem that the end of the text is, unless a number outside all brackets ends there. -/
def atEnd? (mode : Mode) (stack : List Bracket) : Option Problem :=
  match mode with
  | .value => some .endInValue
  | .opened | .closed => some (endInside stack)
  | .key | .colon => some .endInObject
  | .literal _ _ => some .endInString
  | .word _ => some .endInValue
  | .number .zero | .number .integer | .number .fraction | .number .exponent =>
    if stack.isEmpty then none else some (endInside stack)
  | .number _ => some .invalidNumber

/-- Runs the automaton. -/
def run (mode : Mode) (stack : List Bracket) : List Char → Position → Except Fault Cursor
  | [], p =>
    match atEnd? mode stack with
    | some problem => .error (.placed problem p)
    | none => .ok ⟨[], p⟩
  | c :: rest, p =>
    match move mode stack c with
    | .next mode stack => run mode stack rest (p.after c c.utf8Size)
    | .last => .ok ⟨rest, p.after c c.utf8Size⟩
    | .before => .ok ⟨c :: rest, p⟩
    | .fault bytes problem => .error (.placed problem (if bytes = 0 then p else p.after c bytes))

/-- The cursor behind the next value. -/
def value (c : Cursor) : Except Fault Cursor :=
  run .value [] c.rest c.position

end ProjectBuild.Json.Skip
