import ProjectBuild.Regex.Parse
import ProjectBuild.Regex.Pattern
import ProjectBuild.Regex.Property
import ProjectBuild.Text.Folding

/-!
# The meaning of a pattern's parts

Flags hold from where they are written to the end of the group around them, also in the
alternatives that follow; the meaning is found from left to right with the flags that hold. Without
the Unicode flag only characters of ASCII can be meant, and whatever could match a part of a
character is refused.
-/

namespace ProjectBuild.Regex

/-- The flags that hold at a place. -/
structure Flags where
  caseInsensitive : Bool := false
  multiLine : Bool := false
  dotMatchesNewLine : Bool := false
  unicode : Bool := true
  crlf : Bool := false
  deriving DecidableEq, Repr, Inhabited

/-- The flags behind a change. -/
def Flags.apply (f : Flags) (change : FlagChange) : Flags where
  caseInsensitive := (change.state? .caseInsensitive).getD f.caseInsensitive
  multiLine := (change.state? .multiLine).getD f.multiLine
  dotMatchesNewLine := (change.state? .dotMatchesNewLine).getD f.dotMatchesNewLine
  unicode := (change.state? .unicode).getD f.unicode
  crlf := (change.state? .crlf).getD f.crlf

/-- A set of characters, and about how much room it takes. -/
structure CharSet where
  holds : Char → Bool
  room : Nat := 1
  deriving Inhabited

namespace CharSet

def isAscii (c : Char) : Bool :=
  decide (c.toNat < 0x80)

def none : CharSet := ⟨fun _ => false, 0⟩

def union (a b : CharSet) : CharSet := ⟨fun c => a.holds c || b.holds c, a.room + b.room⟩

def intersection (a b : CharSet) : CharSet := ⟨fun c => a.holds c && b.holds c, max a.room b.room⟩

def difference (a b : CharSet) : CharSet := ⟨fun c => a.holds c && !b.holds c, max a.room b.room⟩

def symmetricDifference (a b : CharSet) : CharSet :=
  ⟨fun c => a.holds c != b.holds c, max a.room b.room⟩

/-- The characters that differ from one of a set at most in case. -/
def anyCase (f : Flags) (s : CharSet) : CharSet :=
  if !f.caseInsensitive then s
  else if f.unicode then ⟨fun c => (Text.caseVariants c).any s.holds, s.room⟩
  else ⟨fun c => s.holds c || s.holds c.toLower || s.holds c.toUpper, s.room⟩

def negateIf (negated : Bool) (s : CharSet) : CharSet :=
  if negated then ⟨fun c => !s.holds c, s.room⟩ else s

/-- The characters of a class that a letter names. -/
def ofLetter (f : Flags) : LetterClass → CharSet
  | .digit => if f.unicode then ⟨Text.isDecimal, 190⟩ else ⟨Char.isDigit, 1⟩
  | .space =>
    if f.unicode then ⟨Text.isBlank, 30⟩ else ⟨fun c => isAscii c && Text.isBlank c, 1⟩
  | .word =>
    if f.unicode then ⟨Text.isWordy, 1600⟩ else ⟨fun c => isAscii c && Text.isWordy c, 1⟩

/-- The characters of a class that stands between colons; all are of ASCII. -/
def ofName (name : String) : CharSet :=
  let visible (c : Char) : Bool := 0x20 < c.toNat && c.toNat < 0x7F
  ⟨fun c => match name with
    | "alnum" => c.isAlphanum
    | "alpha" => c.isAlpha
    | "ascii" => isAscii c
    | "blank" => c == ' ' || c == '\t'
    | "cntrl" => c.toNat < 0x20 || c.toNat == 0x7F
    | "digit" => c.isDigit
    | "graph" => visible c
    | "lower" => c.isLower
    | "print" => visible c || c == ' '
    | "punct" => visible c && !c.isAlphanum
    | "space" => isAscii c && Text.isBlank c
    | "upper" => c.isUpper
    | "word" => c.isAlphanum || c == '_'
    | "xdigit" => Property.isHex c
    | _ => false, 1⟩

/-- Room for the bytes of a character. -/
def roomOf (c : Char) : Nat :=
  c.utf8Size

end CharSet

namespace ClassSet

/-- How long a character is when its byte is written as two hexadecimal digits. -/
def byteLength : Nat := 4

/-- Whether a character is written as a byte that is no character of its own. -/
def isLoneByte (c : Char) (span : Span) : Bool :=
  !CharSet.isAscii c && span.stop.offset - span.start.offset == byteLength

/-- Refuses characters that are no single byte, where single bytes are meant. -/
def checkAscii (f : Flags) (c : Char) (span : Span) : Except Problem Unit :=
  if f.unicode || CharSet.isAscii c then .ok ()
  else .error ⟨if isLoneByte c span then .invalidText else .unicodeNotAllowed, span⟩

/-- A set that may be negated. Without the Unicode flag a negated set takes parts of
characters. -/
def negated (f : Flags) (yes : Bool) (span : Span) (s : CharSet) : Except Problem CharSet :=
  if yes && !f.unicode then .error ⟨.invalidText, span⟩ else .ok (s.negateIf yes)

/-- The set of characters that a class stands for. -/
def charSet (f : Flags) : ClassSet → Except Problem CharSet
  | .literal c span => do
    checkAscii f c span
    return ⟨fun x => x == c, CharSet.roomOf c⟩
  | .range low high lowSpan highSpan => do
    checkAscii f low lowSpan
    checkAscii f high highSpan
    return ⟨fun x => low ≤ x && x ≤ high, CharSet.roomOf high⟩
  | .named isNegated name span => negated f isNegated span ((CharSet.ofName name).anyCase f)
  | .letter isNegated name span => negated f isNegated span (CharSet.ofLetter f name)
  | .property isNegated name span =>
    if !f.unicode then .error ⟨.unicodeNotAllowed, span⟩
    else match Property.ofName name with
      | .ok holds => negated f isNegated span (CharSet.anyCase f ⟨holds, 1000⟩)
      | .error kind => .error ⟨kind, span⟩
  | .bracketed isNegated inside span => do
    negated f isNegated span ((← inside.charSet f).anyCase f)
  | .union items => unionOf f items
  | .intersection left right => do
    -- case is folded on both sides first
    return ((← left.charSet f).anyCase f).intersection ((← right.charSet f).anyCase f)
  | .difference left right => do
    return ((← left.charSet f).anyCase f).difference ((← right.charSet f).anyCase f)
  | .symmetricDifference left right => do
    return ((← left.charSet f).anyCase f).symmetricDifference ((← right.charSet f).anyCase f)
where
  unionOf (f : Flags) : List ClassSet → Except Problem CharSet
    | [] => .ok .none
    | item :: rest => do return (← item.charSet f).union (← unionOf f rest)

end ClassSet

/-- What an assertion looks for. -/
def Assertion.look (f : Flags) (what : Assertion) : Look :=
  let isWord := (CharSet.ofLetter f .word).holds
  match what with
  | .startText => .startText
  | .endText => .endText
  | .startLine =>
    if !f.multiLine then .startText else if f.crlf then .startReturnLine else .startLine
  | .endLine => if !f.multiLine then .endText else if f.crlf then .endReturnLine else .endLine
  | .wordBoundary => .words isWord fun before after => before != after
  | .notWordBoundary => .words isWord fun before after => before == after
  | .wordStart => .words isWord fun before after => !before && after
  | .wordEnd => .words isWord fun before after => before && !after
  | .wordStartHalf => .words isWord fun before _ => !before
  | .wordEndHalf => .words isWord fun _ after => !after

namespace Node

/-- A character that stands for itself. -/
def literalPattern (f : Flags) (c : Char) (span : Span) : Except Problem Pattern :=
  if !f.unicode && ClassSet.isLoneByte c span then .error ⟨.invalidText, span⟩
  else
    let own : CharSet := ⟨fun x => x == c, CharSet.roomOf c⟩
    let set := if f.unicode || CharSet.isAscii c then own.anyCase f else own
    .ok (.chars set.holds set.room)

/-- Any character but those that end lines. -/
def dotPattern (f : Flags) (span : Span) : Except Problem Pattern :=
  if !f.unicode then .error ⟨.invalidText, span⟩
  else .ok (.chars
    (fun c => f.dotMatchesNewLine || (c != '\n' && !(f.crlf && c == '\x0d'))) 12)

/-- The pattern that a node stands for under some flags, and the flags behind it. -/
def pattern (f : Flags) : Node → Except Problem (Pattern × Flags)
  | .empty => .ok (.empty, f)
  | .flags change => .ok (.empty, f.apply change)
  | .literal c span => do return (← literalPattern f c span, f)
  | .dot span => do return (← dotPattern f span, f)
  | .assertion what _ => .ok (.look (what.look f), f)
  | .set inside => do
    let set ← inside.charSet f
    return (.chars set.holds set.room, f)
  | .repetition least most inner _ => do
    let (p, f) ← inner.pattern f
    return (.repetition least most p, f)
  -- flags that change inside a group are as before behind it
  | .group change inner _ => do
    let (p, _) ← inner.pattern (f.apply change)
    return (p, f)
  | .sequence parts _ => sequenceOf f parts
  | .alternation branches _ => choiceOf f branches
where
  sequenceOf (f : Flags) : List Node → Except Problem (Pattern × Flags)
    | [] => .ok (.empty, f)
    | part :: rest => do
      let (first, f) ← part.pattern f
      let (second, f) ← sequenceOf f rest
      return (.sequence first second, f)
  choiceOf (f : Flags) : List Node → Except Problem (Pattern × Flags)
    | [] => .ok (.chars (fun _ => false) 0, f)
    | branch :: rest => do
      let (first, f) ← branch.pattern f
      let (second, f) ← choiceOf f rest
      return (.choice first second, f)

end Node

/-- The pattern in a text, or a text that says what is wrong with it. -/
def Pattern.ofText (text : String) : Except String Pattern :=
  match Node.ofText text with
  | .error problem => .error (problem.display text)
  | .ok node =>
    match node.pattern {} with
    | .error problem => .error (problem.display text)
    | .ok (p, _) =>
      if sizeLimit < p.size then .error "Compiled regex exceeds size limit of 10485760 bytes."
      else .ok p

end ProjectBuild.Regex
