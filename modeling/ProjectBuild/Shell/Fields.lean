import ProjectBuild.Shell.Pattern

/-!
# Fields

What a word expands to is a row of pieces. A piece that came out of an expansion outside of quotes
is split at separators: blanks among them separate fields as a group, every other separator ends
one. A piece that holds all arguments is split between the arguments only.
-/

namespace ProjectBuild.Shell

inductive Atom where
  | char (c : Char) (quoted : Bool)
  /-- A quotation mark: a field with it in is one, even if there is nothing else. -/
  | mark
  deriving DecidableEq, Repr, Inhabited

/-- How a piece is split. -/
inductive Splitting where
  | never
  | atSeparators
  | betweenArguments
  deriving DecidableEq, Repr, Inhabited

structure Piece where
  splitting : Splitting
  atoms : List Atom
  deriving DecidableEq, Repr, Inhabited

namespace Piece

def marked (atoms : List Atom) : List Marked :=
  atoms.filterMap fun
    | .char c quoted => some (c, quoted)
    | .mark => none

/-- Characters that stand in no field. -/
def fixed (quoted : Bool) (chars : List Char) : Piece :=
  ⟨.never, chars.map fun c => .char c quoted⟩

/-- The value of something, which is split unless it is quoted. -/
def ofValue (quoted : Bool) (chars : List Char) : Piece :=
  ⟨if quoted then .never else .atSeparators, chars.map fun c => .char c quoted⟩

/-- All characters of some pieces, and which of them are quoted. -/
def allMarked (pieces : List Piece) : List Marked :=
  pieces.flatMap fun piece => marked piece.atoms

def chars (pieces : List Piece) : List Char :=
  (allMarked pieces).map Prod.fst

end Piece

namespace Fields

/-- Between arguments stands a character that no text holds. -/
def argumentEnd : Char := Char.ofNat 0

/-- Fields that have been found, and the one at hand. -/
structure Progress where
  /-- The last one first. -/
  found : List (List Atom) := []
  /-- The last atom first. -/
  current : List Atom := []
  /-- Whether the last field ended at a blank. -/
  inBlanks : Bool := false
  /-- How many more fields may be found; the last one takes the rest. -/
  limit : Option Nat := none
  /-- How much of the last field counts, if blanks at its end do not. -/
  kept : Option Nat := none

/-- Goes on with a character that may separate fields. -/
def step (separates isBlank blanksJoin : Bool) (atom : Atom) (p : Progress) : Progress :=
  let added := { p with current := atom :: p.current }
  match p.limit with
  -- the last field takes all that is left, without the blanks at its end
  | some 0 =>
    if isBlank then { added with kept := p.kept.or (some p.current.length) }
    else { added with
      kept := if separates && p.inBlanks then p.kept else none
      inBlanks := false }
  | _ =>
    if p.inBlanks then
      if separates then { p with current := [], inBlanks := isBlank }
      else { p with current := [atom], inBlanks := false }
    else if separates then
      let p := if blanksJoin then { p with inBlanks := isBlank } else p
      if p.current.isEmpty && p.inBlanks then { p with inBlanks := false }
      else match p.limit with
        | some 1 => { p with
          limit := some 0, kept := some p.current.length, current := atom :: p.current }
        | limit => { p with
          found := p.current.reverse :: p.found
          current := []
          limit := limit.map (· - 1) }
    else { added with inBlanks := false }

def isDefaultBlank (c : Char) : Bool :=
  c == ' ' || c == '\t' || c == '\n'

/-- Goes on with a piece; `behindArguments` says whether the piece before held all arguments. -/
def addPiece (separators : List Char) (behindArguments : Bool) (p : Progress) (piece : Piece) :
    Progress :=
  match piece.splitting with
  | .never => { p with current := piece.atoms.reverse ++ p.current }
  | splitting =>
    let onlyArguments := splitting == .betweenArguments
    piece.atoms.foldl
      (fun p atom =>
        match atom with
        | .mark => { p with current := atom :: p.current }
        | .char c _ =>
          let separates := c == argumentEnd || (!onlyArguments && separators.contains c)
          let isBlank := separates && (isDefaultBlank c || c == argumentEnd)
          step separates isBlank (!(behindArguments || onlyArguments)) atom p)
      { p with inBlanks := false }

/-- Goes on with pieces one after the other. -/
def addPieces (separators : List Char) : Bool → Progress → List Piece → Progress × Bool
  | behindArguments, p, [] => (p, behindArguments)
  | behindArguments, p, piece :: rest =>
    let next := addPiece separators behindArguments p piece
    let behind := match piece.splitting with
      | .never => behindArguments
      | .atSeparators => false
      | .betweenArguments => true
    addPieces separators behind next rest

/-- The fields that pieces fall into; at most so many, if there is a limit. -/
def split (separators : List Char) (limit : Option Nat) (pieces : List Piece) :
    List (List Atom) :=
  let (p, behindArguments) := addPieces separators false { limit := limit } pieces
  let last := p.current.reverse
  let last := match p.kept with
    | some n => if behindArguments then last else last.take n
    | none => last
  (if last.isEmpty && !behindArguments then p.found else last :: p.found).reverse

end Fields

end ProjectBuild.Shell
