/-!
# Glob patterns

A pattern is a list of tokens read from its text in one pass. `?` stands for any character, `*`
for any sequence within one path segment, `**` for any number of whole segments, and a bracket
expression for one character in or outside a class. Every other character stands for itself;
there is no way to quote one outside a bracket expression.
-/

namespace ProjectBuild.Glob

/-- Members of a bracket expression. -/
inductive ClassItem where
  | single (c : Char)
  /-- All characters from `first` to `last`, both included. -/
  | range (first last : Char)
  deriving DecidableEq, Repr

inductive Token where
  | literal (c : Char)
  /-- Any one character but a slash. -/
  | anyChar
  /-- Any sequence without a slash. -/
  | anySequence
  /-- Any number of whole segments, each with the slash behind it. -/
  | anySegments
  /-- One character, not a slash, that is (or, negated, is not) in the class. -/
  | charClass (negated : Bool) (items : List ClassItem)
  deriving DecidableEq, Repr

/-- Why a text is no pattern, with the index of the character at fault. -/
inductive PatternError where
  /-- More than two stars in a row. -/
  | tooManyStars (position : Nat)
  /-- `**` next to something other than a slash. -/
  | partialSegment (position : Nat)
  /-- A bracket expression that is not closed. -/
  | invalidRange (position : Nat)
  deriving DecidableEq, Repr

namespace PatternError

def position : PatternError → Nat
  | tooManyStars n => n
  | partialSegment n => n
  | invalidRange n => n

def reason : PatternError → String
  | tooManyStars _ => "wildcards are either regular `*` or recursive `**`"
  | partialSegment _ => "recursive wildcards must form a single path component"
  | invalidRange _ => "invalid range pattern"

def message (e : PatternError) : String :=
  "Pattern syntax error near position " ++ toString e.position ++ ": " ++ e.reason

end PatternError

/-- Items of a bracket expression: `x-y` is a range, everything else stands for itself. -/
def classItems : List Char → List ClassItem
  | first :: '-' :: last :: rest => .range first last :: classItems rest
  | c :: rest => .single c :: classItems rest
  | [] => []

/-! ## Reading a pattern -/

/-- What the reader is in the middle of. -/
inductive Mode where
  | plain
  /-- A run of `count` stars that began at `start`, after the character `before`. -/
  | stars (start count : Nat) (before : Option Char)
  /-- Right behind a `[` at `start`. -/
  | opened (start : Nat)
  /-- Right behind a `[!` at `start`. -/
  | openedNegated (start : Nat)
  /-- Inside a bracket expression, with at least one character read, in reverse. -/
  | inClass (start : Nat) (negated : Bool) (body : List Char)

/-- Adds `**` to the tokens read so far, in reverse; a repeated `**` says nothing new. -/
def pushSegments : List Token → List Token
  | .anySegments :: rest => .anySegments :: rest
  | tokens => .anySegments :: tokens

/-- Reads a character that no run of stars or bracket expression claims. -/
def enter (position : Nat) (before : Option Char) (tokens : List Token) :
    Char → Mode × List Token
  | '?' => (.plain, .anyChar :: tokens)
  | '*' => (.stars position 1 before, tokens)
  | '[' => (.opened position, tokens)
  | c => (.plain, .literal c :: tokens)

/-- Whether `**` may stand behind this character. -/
def startsSegment : Option Char → Bool
  | none => true
  | some c => c == '/'

/-- The end of a run of stars, before `next`. A `**` swallows the slash behind it. -/
def closeStars (start count position : Nat) (before : Option Char) (tokens : List Token)
    (next : Char) : Except PatternError (Mode × List Token) :=
  if count = 1 then .ok (enter position (some '*') (.anySequence :: tokens) next)
  else if count > 2 then .error (.tooManyStars (start + 2))
  else if !startsSegment before then .error (.partialSegment (start - 1))
  else if next = '/' then .ok (.plain, pushSegments tokens)
  else .error (.partialSegment position)

/-- One character. -/
def step (mode : Mode) (position : Nat) (before : Option Char) (tokens : List Token) (c : Char) :
    Except PatternError (Mode × List Token) :=
  match mode with
  | .plain => .ok (enter position before tokens c)
  | .stars start count first =>
    if c = '*' then .ok (.stars start (count + 1) first, tokens)
    else closeStars start count position first tokens c
  | .opened start =>
    -- the first character of a class belongs to it, even a closing bracket
    if c = '!' then .ok (.openedNegated start, tokens) else .ok (.inClass start false [c], tokens)
  | .openedNegated start => .ok (.inClass start true [c], tokens)
  | .inClass start negated body =>
    if c = ']' then .ok (.plain, .charClass negated (classItems body.reverse) :: tokens)
    else .ok (.inClass start negated (c :: body), tokens)

/-- The end of the text. -/
def finish (mode : Mode) (tokens : List Token) : Except PatternError (List Token) :=
  match mode with
  | .plain => .ok tokens.reverse
  | .stars start count before =>
    if count = 1 then .ok (Token.anySequence :: tokens).reverse
    else if count > 2 then .error (.tooManyStars (start + 2))
    else if startsSegment before then .ok (pushSegments tokens).reverse
    else .error (.partialSegment (start - 1))
  | .opened start | .openedNegated start | .inClass start _ _ => .error (.invalidRange start)

def readFrom (mode : Mode) (position : Nat) (before : Option Char) (tokens : List Token) :
    List Char → Except PatternError (List Token)
  | [] => finish mode tokens
  | c :: rest =>
    match step mode position before tokens c with
    | .error e => .error e
    | .ok (mode, tokens) => readFrom mode (position + 1) (some c) tokens rest

/-- The tokens of a pattern. -/
def parse (text : List Char) : Except PatternError (List Token) :=
  readFrom .plain 0 none [] text

end ProjectBuild.Glob

/-!
## Matching

Matching walks the tokens over the text. A star tries the shortest sequence first. A failure that
comes from running out of text is final: no longer sequence for an earlier star could repair it,
so the search stops there.
-/

namespace ProjectBuild.Glob

/-- How matching tokens against a text ends. -/
inductive Outcome where
  | matched
  /-- Mismatch; an earlier star may still take more. -/
  | mismatch
  /-- The text ended before the tokens did. -/
  | exhausted
  deriving DecidableEq, Repr

def ClassItem.holds (c : Char) : ClassItem → Bool
  | .single d => c == d
  | .range first last => decide (first ≤ c) && decide (c ≤ last)

/-- Whether a token that stands for exactly one character accepts `c`. -/
def Token.accepts (c : Char) : Token → Bool
  | .literal d => c == d
  | .anyChar => c != '/'
  | .charClass negated items => c != '/' && (items.any (·.holds c) != negated)
  | .anySequence => false
  | .anySegments => false

/-- `*` before `rest`: the shortest sequence within a segment after which `rest` is decided. -/
def sequence (rest : List Char → Outcome) : List Char → Outcome
  | [] => rest []
  | c :: text =>
    match rest (c :: text) with
    | .mismatch => if c = '/' then .mismatch else sequence rest text
    | outcome => outcome

/-- `**` before `rest`: tries `rest` here if a segment starts here, and behind every slash. -/
def segmentsThen (rest : List Char → Outcome) : Bool → List Char → Outcome
  | _, [] => rest []
  | starts, c :: text =>
    match if starts then rest (c :: text) else .mismatch with
    | .mismatch => segmentsThen rest (c == '/') text
    | outcome => outcome

/-- Matches tokens against a whole text. -/
def matchTokens : List Token → List Char → Outcome
  | [], text => if text.isEmpty then .matched else .mismatch
  | .anySequence :: tokens, text => sequence (matchTokens tokens) text
  | .anySegments :: tokens, text => segmentsThen (matchTokens tokens) true text
  | _ :: _, [] => .exhausted
  | token :: tokens, c :: text => if token.accepts c then matchTokens tokens text else .mismatch

/-- Whether the tokens match the whole text. -/
def Matches (tokens : List Token) (text : List Char) : Bool :=
  matchTokens tokens text == .matched

end ProjectBuild.Glob
