import ProjectBuild.Regex.Syntax
import ProjectBuild.Text.Wordy

/-!
# Patterns

What a pattern means once its flags are resolved: which characters it takes, in which order, and
what has to hold between them. Whether a pattern matches is decided for all places of a text at
once: a set of places at which a match can begin gives the set of places at which it can end.
-/

namespace ProjectBuild.Regex

/-- What can hold at a place of a text. -/
inductive Look where
  | startText
  | endText
  | startLine
  | endLine
  /-- At the start of a line, where a carriage return ends lines too. -/
  | startReturnLine
  | endReturnLine
  /-- About the characters before and after the place: whether they belong to words. -/
  | words (isWord : Char → Bool) (holds : Bool → Bool → Bool)

inductive Pattern where
  | empty
  /-- One of some characters; telling them from others takes some room. -/
  | chars (holds : Char → Bool) (room : Nat)
  | look (what : Look)
  | sequence (first second : Pattern)
  | choice (first second : Pattern)
  | repetition (least : Nat) (most : Option Nat) (inner : Pattern)
  deriving Inhabited

/-- Whether something holds between two characters, of which there may be none. -/
def Look.holdsBetween (before after : Option Char) : Look → Bool
  | .startText => before.isNone
  | .endText => after.isNone
  | .startLine => before.isNone || before == some '\n'
  | .endLine => after.isNone || after == some '\n'
  | .startReturnLine =>
    before.isNone || before == some '\n' || (before == some '\x0d' && after != some '\n')
  | .endReturnLine =>
    after.isNone || after == some '\x0d' || (after == some '\n' && before != some '\x0d')
  | .words isWord holds => holds (before.any isWord) (after.any isWord)

/-- A set of places in a text: bit `n` stands for the place behind `n` characters. -/
abbrev Places := Nat

namespace Places

/-- The places between characters at which something holds, from place `n` on; `before` is the
character before that place. -/
def holding (holds : Option Char → Option Char → Bool) (n : Nat) (before : Option Char) :
    List Char → Places
  | [] => if holds before none then 1 <<< n else 0
  | c :: rest =>
    (if holds before (some c) then 1 <<< n else 0) ||| holding holds (n + 1) (some c) rest

/-- Applies a step so many times. -/
def iterate (step : Places → Places) : Nat → Places → Places
  | 0, places => places
  | n + 1, places => if places = 0 then 0 else iterate step n (step places)

/-- The places that up to so many steps lead to. -/
def spread (step : Places → Places) : Nat → Places → Places
  | 0, places => places
  | n + 1, places =>
    let wider := places ||| step places
    if wider = places then places else spread step n wider

end Places

namespace Pattern

/-- The places at which a match that begins at some places can end. -/
def ends (text : List Char) : Pattern → Places → Places
  | .empty, places => places
  | .chars holds _, places =>
    (places &&& Places.holding (fun _ after => after.any holds) 0 none text) <<< 1
  | .look what, places =>
    places &&& Places.holding (fun before after => what.holdsBetween before after) 0 none text
  | .sequence first second, places => ends text second (ends text first places)
  | .choice first second, places => ends text first places ||| ends text second places
  | .repetition least most inner, places =>
    let least' := Places.iterate (ends text inner) least places
    match most with
    | none => Places.spread (ends text inner) (text.length + 1) least'
    | some most => Places.spread (ends text inner) (most - least) least'

/-- Whether some part of a text matches. -/
def isMatch (p : Pattern) (text : String) : Bool :=
  p.ends text.toList (Places.holding (fun _ _ => true) 0 none text.toList) != 0

/-- About how much room a pattern takes once it is laid out for matching, with every repetition
written out. -/
def size : Pattern → Nat
  | .empty => 1
  | .chars _ room => room
  | .look _ => 1
  | .sequence first second => size first + size second
  | .choice first second => size first + size second + 1
  | .repetition least most inner =>
    match most with
    | none => (max least 1) * size inner + 1
    | some most => most * size inner + (most - least)

/-- No pattern is larger. -/
def sizeLimit : Nat := 327680

end Pattern

end ProjectBuild.Regex
