/-!
# Problems with patterns

Where a pattern is wrong, and how that is shown: the pattern is written out, and the places are
marked below it. A pattern of several lines has its lines numbered.
-/

namespace ProjectBuild.Regex

/-- A place in a pattern. Lines and columns count from one. -/
structure Position where
  offset : Nat := 0
  line : Nat := 1
  column : Nat := 1
  deriving DecidableEq, Repr, Inhabited

/-- The place behind a character. -/
def Position.after (p : Position) (c : Char) : Position :=
  if c = '\n' then ⟨p.offset + 1, p.line + 1, 1⟩ else ⟨p.offset + 1, p.line, p.column + 1⟩

/-- What lies between two places. -/
structure Span where
  start : Position
  stop : Position
  deriving DecidableEq, Repr, Inhabited

/-- Nesting of groups, classes and repetitions is no deeper. -/
def nestLimit : Nat := 250

/-- What can be wrong with a pattern. -/
inductive ProblemKind where
  | classEscapeInvalid
  | classRangeInvalid
  | classRangeLiteral
  | classUnclosed
  | decimalEmpty
  | decimalInvalid
  | escapeHexEmpty
  | escapeHexInvalid
  | escapeHexInvalidDigit
  | escapeUnexpectedEnd
  | escapeUnrecognized
  | flagDanglingNegation
  /-- A flag is given twice; the first time is marked too. -/
  | flagDuplicate (first : Span)
  | flagRepeatedNegation (first : Span)
  | flagUnexpectedEnd
  | flagUnrecognized
  | groupNameDuplicate (first : Span)
  | groupNameEmpty
  | groupNameInvalid
  | groupNameUnexpectedEnd
  | groupUnclosed
  | groupUnopened
  | nestLimitExceeded
  | repetitionCountInvalid
  | repetitionCountDecimalEmpty
  | repetitionCountUnclosed
  | repetitionMissing
  | wordBoundaryUnclosed
  | wordBoundaryUnrecognized
  | wordBoundaryUnexpectedEnd
  | unicodeClassInvalid
  | backreference
  | lookAround
  /-- A character of several bytes where single bytes are meant. -/
  | unicodeNotAllowed
  /-- A byte that is no character of its own could match. -/
  | invalidText
  | propertyNotFound
  | propertyValueNotFound
  deriving DecidableEq, Repr, Inhabited

namespace ProblemKind

def message : ProblemKind → String
  | classEscapeInvalid => "invalid escape sequence found in character class"
  | classRangeInvalid => "invalid character class range, the start must be <= the end"
  | classRangeLiteral => "invalid range boundary, must be a literal"
  | classUnclosed => "unclosed character class"
  | decimalEmpty => "decimal literal empty"
  | decimalInvalid => "decimal literal invalid"
  | escapeHexEmpty => "hexadecimal literal empty"
  | escapeHexInvalid => "hexadecimal literal is not a Unicode scalar value"
  | escapeHexInvalidDigit => "invalid hexadecimal digit"
  | escapeUnexpectedEnd => "incomplete escape sequence, reached end of pattern prematurely"
  | escapeUnrecognized => "unrecognized escape sequence"
  | flagDanglingNegation => "dangling flag negation operator"
  | flagDuplicate _ => "duplicate flag"
  | flagRepeatedNegation _ => "flag negation operator repeated"
  | flagUnexpectedEnd => "expected flag but got end of regex"
  | flagUnrecognized => "unrecognized flag"
  | groupNameDuplicate _ => "duplicate capture group name"
  | groupNameEmpty => "empty capture group name"
  | groupNameInvalid => "invalid capture group character"
  | groupNameUnexpectedEnd => "unclosed capture group name"
  | groupUnclosed => "unclosed group"
  | groupUnopened => "unopened group"
  | nestLimitExceeded =>
    "exceed the maximum number of nested parentheses/brackets (" ++ toString nestLimit ++ ")"
  | repetitionCountInvalid => "invalid repetition count range, the start must be <= the end"
  | repetitionCountDecimalEmpty => "repetition quantifier expects a valid decimal"
  | repetitionCountUnclosed => "unclosed counted repetition"
  | repetitionMissing => "repetition operator missing expression"
  | wordBoundaryUnclosed =>
    "special word boundary assertion is either unclosed or contains an invalid character"
  | wordBoundaryUnrecognized =>
    "unrecognized special word boundary assertion, valid choices are: start, end, start-half " ++
      "or end-half"
  | wordBoundaryUnexpectedEnd =>
    "found either the beginning of a special word boundary or a bounded repetition on a \\b " ++
      "with an opening brace, but no closing brace"
  | unicodeClassInvalid => "invalid Unicode character class"
  | backreference => "backreferences are not supported"
  | lookAround => "look-around, including look-ahead and look-behind, is not supported"
  | unicodeNotAllowed => "Unicode not allowed here"
  | invalidText => "pattern can match invalid UTF-8"
  | propertyNotFound => "Unicode property not found"
  | propertyValueNotFound => "Unicode property value not found"

/-- A second place that has to do with the problem. -/
def related? : ProblemKind → Option Span
  | flagDuplicate first => some first
  | flagRepeatedNegation first => some first
  | groupNameDuplicate first => some first
  | _ => none

end ProblemKind

/-- A problem, and where it is. -/
structure Problem where
  kind : ProblemKind
  span : Span
  deriving DecidableEq, Repr, Inhabited

namespace Problem

/-- The text cut at line ends. -/
def cutLines : List Char → List (List Char)
  | [] => [[]]
  | c :: rest =>
    match cutLines rest with
    | [] => [[c]]
    | line :: lines => if c = '\n' then [] :: line :: lines else (c :: line) :: lines

def blanks (n : Nat) : String :=
  String.ofList (List.replicate n ' ')

/-- Places in the order in which they begin. -/
def spans (p : Problem) : List Span :=
  match p.kind.related? with
  | none => [p.span]
  | some other =>
    if other.start.offset < p.span.start.offset then [other, p.span] else [p.span, other]

/-- Marks for the places on a line, when the marks so far take `column` columns. -/
def marks (column : Nat) : List Span → String
  | [] => ""
  | span :: rest =>
    let count := max 1 (span.stop.column - span.start.column)
    let start := span.start.column - 1
    blanks (start - column) ++ String.ofList (List.replicate count '^') ++
      marks (max column start + count) rest

def isOneLine (span : Span) : Bool :=
  span.start.line == span.stop.line

/-- Where a place of several lines lies. -/
def extent (span : Span) : String :=
  "on line " ++ toString span.start.line ++ " (column " ++ toString span.start.column ++
    ") through line " ++ toString span.stop.line ++ " (column " ++
    toString (span.stop.column - 1) ++ ")\n"

/-- The lines of a pattern from number `n` on, with the marks below them. `width` is the width of
line numbers, if they are shown. -/
def notated (width : Nat) (places : List Span) (n : Nat) : List (List Char) → String
  | [] => ""
  | line :: lines =>
    let number := toString n
    let lead := if width = 0 then "    " else blanks (width - number.length) ++ number ++ ": "
    let here := places.filter fun span => isOneLine span && span.start.line == n
    lead ++ String.ofList line ++ "\n" ++
      (if here.isEmpty then "" else blanks lead.length ++ marks 0 here ++ "\n") ++
      notated width places (n + 1) lines

def divider : String :=
  String.ofList (List.replicate 79 '~') ++ "\n"

/-- The lines that are shown of a pattern: what ends with a line end has no line behind it. -/
def shownLines (chars : List Char) : List (List Char) :=
  let lines := cutLines chars
  if lines.getLast? = some [] then lines.dropLast else lines

/-- The text that shows a problem with a pattern. -/
def display (p : Problem) (pattern : String) : String :=
  let chars := pattern.toList
  let count := (cutLines chars).length
  let width := if count ≤ 1 then 0 else (toString count).length
  let shown := notated width p.spans 1 (shownLines chars)
  let body :=
    if chars.contains '\n' then
      divider ++ shown ++ divider ++ String.join ((p.spans.filter fun s => !isOneLine s).map extent)
    else shown
  "regex parse error:\n" ++ body ++ "error: " ++ p.kind.message

end Problem

end ProjectBuild.Regex
