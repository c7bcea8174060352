import ProjectBuild.Regex.Problem

/-!
# Patterns as they are written

The parts of a pattern, with the places at which they stand. Flags stay where they are written;
what they mean for the parts behind them is decided when the pattern gets its meaning.
-/

namespace ProjectBuild.Regex

inductive Flag where
  | caseInsensitive
  | multiLine
  | dotMatchesNewLine
  | swapGreed
  | unicode
  | crlf
  | ignoreBlank
  deriving DecidableEq, Repr, Inhabited

/-- Flags that are set and flags that are cleared. -/
structure FlagChange where
  set : List Flag := []
  cleared : List Flag := []
  deriving DecidableEq, Repr, Inhabited

/-- The state that a change brings a flag to, if it does. -/
def FlagChange.state? (change : FlagChange) (flag : Flag) : Option Bool :=
  if change.cleared.contains flag then some false
  else if change.set.contains flag then some true
  else none

/-- What has to hold at a place in a text. -/
inductive Assertion where
  | startLine
  | endLine
  | startText
  | endText
  | wordBoundary
  | notWordBoundary
  | wordStart
  | wordEnd
  | wordStartHalf
  | wordEndHalf
  deriving DecidableEq, Repr, Inhabited

/-- Classes that a letter names. -/
inductive LetterClass where
  | digit
  | space
  | word
  deriving DecidableEq, Repr, Inhabited

/-- How a property of characters is named. -/
inductive PropertyName where
  | letter (c : Char)
  | plain (name : String)
  | valued (name value : String) (differs : Bool)
  deriving DecidableEq, Repr, Inhabited

/-- Sets of characters in brackets. -/
inductive ClassSet where
  | literal (c : Char) (span : Span)
  /-- All characters between two, and where these two stand. -/
  | range (low high : Char) (lowSpan highSpan : Span)
  /-- A class such as `[:alpha:]`. -/
  | named (negated : Bool) (name : String) (span : Span)
  | letter (negated : Bool) (name : LetterClass) (span : Span)
  | property (negated : Bool) (name : PropertyName) (span : Span)
  | bracketed (negated : Bool) (inside : ClassSet) (span : Span)
  | union (items : List ClassSet)
  | intersection (left right : ClassSet)
  | difference (left right : ClassSet)
  | symmetricDifference (left right : ClassSet)
  deriving Repr, Inhabited

inductive Node where
  | empty
  | flags (change : FlagChange)
  | literal (c : Char) (span : Span)
  | dot (span : Span)
  | assertion (what : Assertion) (span : Span)
  | set (inside : ClassSet)
  /-- At least so often, and at most so often if there is a bound. -/
  | repetition (least : Nat) (most : Option Nat) (inner : Node) (span : Span)
  | group (change : FlagChange) (inner : Node) (span : Span)
  | sequence (parts : List Node) (span : Span)
  | alternation (branches : List Node) (span : Span)
  deriving Repr, Inhabited

end ProjectBuild.Regex
