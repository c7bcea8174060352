import ProjectBuild.Regex.Syntax
import ProjectBuild.Text.Wordy

/-!
# Reading patterns

A place in a pattern with what is left of it, and the pieces that are read from there: numbers,
escapes, names of groups and flags. Where the pattern says so, blanks and comments between pieces
are skipped.
-/

namespace ProjectBuild.Regex

structure Cursor where
  rest : List Char
  position : Position := {}
  /-- Whether blanks and comments mean nothing. -/
  ignoresBlank : Bool := false
  /-- The names of groups so far, and where they stand. -/
  names : List (String × Span) := []
  deriving Inhabited

/-- What is read, and where that ends. -/
abbrev Reading (α : Type) := Except Problem (α × Cursor)

namespace Cursor

def atEnd (c : Cursor) : Bool :=
  c.rest.isEmpty

/-- Goes one character on. -/
def next (c : Cursor) : Cursor :=
  match c.rest with
  | [] => c
  | x :: rest => { c with rest := rest, position := c.position.after x }

/-- Skips at most so many characters of blanks and comments. -/
def skipUpTo : Nat → Bool → Cursor → Cursor
  | 0, _, c => c
  | n + 1, inComment, c =>
    match c.rest with
    | [] => c
    | x :: _ =>
      if inComment then skipUpTo n (x != '\n') c.next
      else if Text.isBlank x then skipUpTo n false c.next
      else if x = '#' then skipUpTo n true c.next
      else c

/-- Skips what means nothing. -/
def skip (c : Cursor) : Cursor :=
  if c.ignoresBlank then skipUpTo c.rest.length false c else c

/-- Goes one character on, and past what means nothing. -/
def nextSkip (c : Cursor) : Cursor :=
  c.next.skip

/-- The empty place here. -/
def here (c : Cursor) : Span :=
  ⟨c.position, c.position⟩

/-- The place of the next character. -/
def charSpan (c : Cursor) : Span :=
  ⟨c.position, c.next.position⟩

def spanFrom (c : Cursor) (start : Position) : Span :=
  ⟨start, c.position⟩

def fail {α : Type} (kind : ProblemKind) (span : Span) : Except Problem α :=
  .error ⟨kind, span⟩

/-- Goes past a text, if it is what comes next. -/
def past? (c : Cursor) (text : String) : Option Cursor :=
  if text.toList.isPrefixOf c.rest then some (text.toList.foldl (fun c _ => c.next) c) else none

/-! ## Numbers -/

/-- The digits from here on. -/
def digits : Nat → Cursor → List Char × Cursor
  | 0, c => ([], c)
  | n + 1, c =>
    match c.rest with
    | x :: _ =>
      if x.isDigit then
        let (more, c) := digits n c.nextSkip
        (x :: more, c)
      else ([], c)
    | [] => ([], c)

/-- Past blanks, whether or not they mean something. -/
def skipBlanks : Nat → Cursor → Cursor
  | 0, c => c
  | n + 1, c =>
    match c.rest with
    | x :: _ => if Text.isBlank x then skipBlanks n c.next else c
    | [] => c

/-- A number, or why there is none; the cursor goes on in both cases. -/
def decimal (c : Cursor) : Except Problem Nat × Cursor :=
  let start := skipBlanks c.rest.length c
  let (found, behind) := digits start.rest.length start
  let span := behind.spanFrom start.position
  let behind := skipBlanks behind.rest.length behind
  match (String.ofList found).toNat? with
  | none => (fail .repetitionCountDecimalEmpty span, behind)
  | some n => (if n < Nat.pow 2 32 then .ok n else fail .decimalInvalid span, behind)

/-! ## Escapes -/

def hexValue? (x : Char) : Option Nat :=
  if x.isDigit then some (x.toNat - 48)
  else if 'a' ≤ x && x ≤ 'f' then some (x.toNat - 87)
  else if 'A' ≤ x && x ≤ 'F' then some (x.toNat - 55)
  else none

/-- The character of a number. -/
def charOf? (n : Nat) : Option Char :=
  if n < 0xD800 || (0xDFFF < n && n < 0x110000) then some (Char.ofNat n) else none

/-- A fixed number of hexadecimal digits. -/
def fixedHex (start : Position) : Nat → Nat → Cursor → Reading Char
  | 0, value, c =>
    match charOf? value with
    | some x => .ok (x, c)
    | none => fail .escapeHexInvalid (c.spanFrom start)
  | n + 1, value, c =>
    match c.rest with
    | [] => fail .escapeUnexpectedEnd c.here
    | x :: _ =>
      match hexValue? x with
      | none => fail .escapeHexInvalidDigit c.charSpan
      | some d => fixedHex start n (value * 16 + d) c.nextSkip

/-- Hexadecimal digits up to a closing brace; `found` says whether there has been one. -/
def bracedHex (brace first : Position) : Nat → Bool → Nat → Cursor → Reading Char
  | 0, _, _, c => fail .escapeUnexpectedEnd (c.spanFrom brace)
  | n + 1, found, value, c =>
    match c.rest with
    | [] => fail .escapeUnexpectedEnd (c.spanFrom brace)
    | '\x7d' :: _ =>
      let behind := c.nextSkip
      if !found then fail .escapeHexEmpty (behind.spanFrom brace)
      else match charOf? value with
        | some x => .ok (x, behind)
        | none => fail .escapeHexInvalid (c.spanFrom first)
    | x :: _ =>
      match hexValue? x with
      | none => fail .escapeHexInvalidDigit c.charSpan
      | some d => bracedHex brace first n true (value * 16 + d) c.nextSkip

/-- The character behind `\x`, `\u` or `\U`, which have so many digits. -/
def hex (count : Nat) (c : Cursor) : Reading Char :=
  let c := c.nextSkip
  match c.rest with
  | [] => fail .escapeUnexpectedEnd c.here
  | '\x7b' :: _ => bracedHex c.position c.next.position c.rest.length false 0 c.nextSkip
  | _ => fixedHex c.position count 0 c

/-- What stands before the first occurrence of a text, and what behind it. -/
def cutAt? (mark : List Char) : List Char → Option (List Char × List Char)
  | [] => none
  | x :: rest =>
    if mark.isPrefixOf (x :: rest) then some ([], (x :: rest).drop mark.length)
    else (cutAt? mark rest).map fun (before, behind) => (x :: before, behind)

/-- The property that a text in braces names. -/
def propertyOf (text : List Char) : PropertyName :=
  let named (cut : List Char × List Char) (differs : Bool) :=
    PropertyName.valued (String.ofList cut.1) (String.ofList cut.2) differs
  match cutAt? ['!', '='] text with
  | some cut => named cut true
  | none =>
    match cutAt? [':'] text with
    | some cut => named cut false
    | none =>
      match cutAt? ['='] text with
      | some cut => named cut false
      | none => .plain (String.ofList text)

/-- Characters up to a closing brace. -/
def upToBrace : Nat → Cursor → List Char × Cursor
  | 0, c => ([], c)
  | n + 1, c =>
    match c.rest with
    | [] => ([], c)
    | '\x7d' :: _ => ([], c)
    | x :: _ =>
      let (more, c) := upToBrace n c.nextSkip
      (x :: more, c)

/-- The property behind `\p`. -/
def property (c : Cursor) : Reading PropertyName :=
  let c := c.nextSkip
  match c.rest with
  | [] => fail .escapeUnexpectedEnd c.here
  | '\x7b' :: _ =>
    let (text, behind) := upToBrace c.rest.length c.nextSkip
    if behind.atEnd then fail .escapeUnexpectedEnd behind.here
    else .ok (propertyOf text, behind.next)
  | '\\' :: _ => fail .unicodeClassInvalid c.charSpan
  | x :: _ => .ok (.letter x, c.nextSkip)

/-- Characters that a backslash always quotes. -/
def isMeta (x : Char) : Bool :=
  "\\.+*?()|[]\x7b\x7d^$#&-~".toList.contains x

/-- Characters that a backslash may quote: all of ASCII that could not get a meaning. -/
def isQuotable (x : Char) : Bool :=
  isMeta x || (decide (x.toNat < 0x80) && !x.isAlphanum && x != '<' && x != '>')

/-- A piece of a pattern that stands for itself, inside and outside of brackets. -/
inductive Primitive where
  | literal (x : Char)
  | dot
  | assertion (what : Assertion)
  | letter (negated : Bool) (name : LetterClass)
  | property (negated : Bool) (name : PropertyName)
  deriving DecidableEq, Repr, Inhabited

def isBoundaryChar (x : Char) : Bool :=
  x.isAlpha || x == '-'

/-- The letters of the name of a word boundary. -/
def boundaryName : Nat → Cursor → List Char × Cursor
  | 0, c => ([], c)
  | n + 1, c =>
    match c.rest with
    | x :: _ =>
      if isBoundaryChar x then
        let (more, c) := boundaryName n c.nextSkip
        (x :: more, c)
      else ([], c)
    | [] => ([], c)

def boundary? : String → Option Assertion
  | "start" => some .wordStart
  | "end" => some .wordEnd
  | "start-half" => some .wordStartHalf
  | "end-half" => some .wordEndHalf
  | _ => none

/-- What follows `\b`: the name of a boundary in braces, or nothing that belongs to it. -/
def wordBoundary (start : Position) (c : Cursor) : Reading Assertion :=
  match c.rest with
  | '\x7b' :: _ =>
    let inside := c.nextSkip
    match inside.rest with
    | [] => fail .wordBoundaryUnexpectedEnd (inside.spanFrom start)
    | x :: _ =>
      if !isBoundaryChar x then .ok (.wordBoundary, c)
      else
        let (name, behind) := boundaryName inside.rest.length inside
        if behind.rest.head? != some '\x7d' then
          fail .wordBoundaryUnclosed (behind.spanFrom c.position)
        else match boundary? (String.ofList name) with
          | some what => .ok (what, behind.next)
          | none => fail .wordBoundaryUnrecognized (behind.spanFrom inside.position)
  | _ => .ok (.wordBoundary, c)

/-- The character that a letter behind a backslash stands for. -/
def letterChar? : Char → Option Char
  | 'a' => some '\x07'
  | 'f' => some '\x0c'
  | 't' => some '\t'
  | 'n' => some '\n'
  | 'r' => some '\x0d'
  | 'v' => some '\x0b'
  | _ => none

def letterAssertion? : Char → Option Assertion
  | 'A' => some .startText
  | 'z' => some .endText
  | 'B' => some .notWordBoundary
  | '<' => some .wordStart
  | '>' => some .wordEnd
  | _ => none

def letterClass? (x : Char) : Option LetterClass :=
  match x.toLower with
  | 'd' => some .digit
  | 's' => some .space
  | 'w' => some .word
  | _ => none

/-- The piece behind a backslash, which is the next character. -/
def backslash (c : Cursor) : Reading Primitive :=
  let start := c.position
  let c := c.next
  match c.rest with
  | [] => fail .escapeUnexpectedEnd (c.spanFrom start)
  | x :: _ =>
    let behind := c.next
    let span := behind.spanFrom start
    -- references to groups are not supported
    if x.isDigit then fail .backreference span
    else if x = 'x' then (hex 2 c).map fun (y, c) => (.literal y, c)
    else if x = 'u' then (hex 4 c).map fun (y, c) => (.literal y, c)
    else if x = 'U' then (hex 8 c).map fun (y, c) => (.literal y, c)
    else if x = 'p' || x = 'P' then
      (property c).map fun (name, c) => (.property (x == 'P') name, c)
    else match letterClass? x with
      | some name => .ok (.letter x.isUpper name, behind)
      | none =>
        if isQuotable x then .ok (.literal x, behind)
        else if x = 'b' then
          (wordBoundary start behind).map fun (what, c) => (.assertion what, c)
        else match letterChar? x, letterAssertion? x with
          | some y, _ => .ok (.literal y, behind)
          | none, some what => .ok (.assertion what, behind)
          | none, none => fail .escapeUnrecognized span

/-- A piece outside of brackets, unless it has to do with what is around it. -/
def primitive (c : Cursor) : Reading Primitive :=
  match c.rest with
  | '\\' :: _ => c.backslash
  | '.' :: _ => .ok (.dot, c.next)
  | '^' :: _ => .ok (.assertion .startLine, c.next)
  | '$' :: _ => .ok (.assertion .endLine, c.next)
  | x :: _ => .ok (.literal x, c.next)
  | [] => fail .escapeUnexpectedEnd c.here

/-! ## Groups -/

def isNameChar (first : Bool) (x : Char) : Bool :=
  if first then x == '_' || x.isAlpha || decide (0x80 ≤ x.toNat)
  else x == '_' || x == '.' || x == '[' || x == ']' || x.isAlphanum || decide (0x80 ≤ x.toNat)

/-- The characters of a name, up to its closing bracket. -/
def nameChars : Nat → Bool → Cursor → Except Problem (List Char × Cursor)
  | 0, _, c => .ok ([], c)
  | n + 1, first, c =>
    match c.rest with
    | [] => .ok ([], c)
    | '>' :: _ => .ok ([], c)
    | x :: _ =>
      if isNameChar first x then
        (nameChars n false c.next).map fun (more, c) => (x :: more, c)
      else fail .groupNameInvalid c.charSpan

/-- The name of a group, which is remembered. -/
def groupName (c : Cursor) : Except Problem Cursor :=
  match nameChars c.rest.length true c with
  | .error e => .error e
  | .ok (name, behind) =>
    if behind.atEnd then fail .groupNameUnexpectedEnd behind.here
    else if name.isEmpty then fail .groupNameEmpty c.here
    else
      let span := behind.spanFrom c.position
      let text := String.ofList name
      match c.names.lookup text with
      | some first => fail (.groupNameDuplicate first) span
      | none => .ok { behind.next with names := (text, span) :: c.names }

def flag? : Char → Option Flag
  | 'i' => some .caseInsensitive
  | 'm' => some .multiLine
  | 's' => some .dotMatchesNewLine
  | 'U' => some .swapGreed
  | 'u' => some .unicode
  | 'R' => some .crlf
  | 'x' => some .ignoreBlank
  | _ => none

/-- Flags as they are written: each with its place, and none for the sign that negates. -/
abbrev WrittenFlags := List (Option Flag × Span)

/-- Flags up to the end of their list. -/
def flags : Nat → WrittenFlags → Cursor → Except Problem (WrittenFlags × Cursor)
  | 0, _, c => fail .flagUnexpectedEnd c.here
  | n + 1, found, c =>
    match c.rest with
    | [] => fail .flagUnexpectedEnd c.here
    | x :: _ =>
      if x = ':' || x = ')' then
        match found.getLast? with
        | some (none, span) => fail .flagDanglingNegation span
        | _ => .ok (found, c)
      else
        let item? : Except Problem (Option Flag) :=
          if x = '-' then .ok none
          else match flag? x with
            | some flag => .ok (some flag)
            | none => fail .flagUnrecognized c.charSpan
        match item? with
        | .error e => .error e
        | .ok item =>
          match found.lookup item, item with
          | some first, none => fail (.flagRepeatedNegation first) c.charSpan
          | some first, some _ => fail (.flagDuplicate first) c.charSpan
          | none, _ => flags n (found ++ [(item, c.charSpan)]) c.next

/-- The change that written flags stand for. -/
def changeOf (written : WrittenFlags) : FlagChange :=
  let items := written.map Prod.fst
  ⟨(items.takeWhile Option.isSome).filterMap id, (items.dropWhile Option.isSome).filterMap id⟩

end Cursor

end ProjectBuild.Regex
