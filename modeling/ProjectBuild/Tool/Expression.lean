/-!
# Regular expressions of tools

Expressions in the two spellings that tools know: in the basic one, parentheses, braces and some
other signs have a meaning behind a backslash only. A match takes as much as it can from left to
right, and the groups that it fills are known.
-/

namespace ProjectBuild.Tool

inductive Expression where
  | empty
  | chars (holds : Char → Bool)
  | startLine
  | endLine
  | boundary (holds : Bool → Bool → Bool)
  | sequence (first second : Expression)
  | choice (first second : Expression)
  | repetition (least : Nat) (most : Option Nat) (inner : Expression)
  | group (number : Nat) (inner : Expression)
  /-- What a group has matched. -/
  | same (number : Nat)
  deriving Inhabited

namespace Expression

/-- Where a match stands: what is in front of it and behind it, and the groups that are filled. -/
structure Place where
  /-- The characters in front, the last one first. -/
  before : List Char
  after : List Char
  groups : List (Nat × List Char) := []
  deriving Inhabited

def isWord (c : Char) : Bool :=
  c.isAlphanum || c == '_'

/-- The places at which a match can end, the best one first. At most so many steps are nested. -/
def ends : Nat → Expression → Place → List Place
  | 0, _, _ => []
  | n + 1, e, p =>
    match e with
    | .empty => [p]
    | .chars holds =>
      match p.after with
      | c :: rest => if holds c then [{ p with before := c :: p.before, after := rest }] else []
      | [] => []
    | .startLine => if p.before.isEmpty then [p] else []
    | .endLine => if p.after.isEmpty then [p] else []
    | .boundary holds =>
      if holds (p.before.head?.any isWord) (p.after.head?.any isWord) then [p] else []
    | .sequence first second => (ends n first p).flatMap (ends n second)
    | .choice first second =>
      let found := ends n first p ++ ends n second p
      -- The longest match counts, whichever branch it comes from.
      found.mergeSort fun a b => decide (a.after.length ≤ b.after.length)
    | .repetition least most inner =>
      if most == some 0 then [p]
      else
        let more := (ends n inner p).filter fun q => 0 < least || q.after.length < p.after.length
        let rest := Expression.repetition (least - 1) (most.map (· - 1)) inner
        more.flatMap (ends n rest) ++ (if least = 0 then [p] else [])
    | .group number inner =>
      (ends n inner p).map fun q =>
        let taken := (q.before.take (q.before.length - p.before.length)).reverse
        { q with groups := (number, taken) :: q.groups }
    | .same number =>
      let text := (p.groups.lookup number).getD []
      if text.isPrefixOf p.after then
        [{ p with before := text.reverse ++ p.before, after := p.after.drop text.length }]
      else []

/-- Steps that a match may nest. -/
def stepLimit : Nat := 20000

/-- The longest match at a place. -/
def longest? (e : Expression) (start : Place) : Option Place :=
  match ends stepLimit e start with
  | found :: others =>
    some (others.foldl
      (fun (best : Place) q => if q.after.length < best.after.length then q else best) found)
  | [] => none

/-- Where a match at the start of a text ends. -/
def atStart (e : Expression) (text : List Char) : Option Place :=
  e.longest? { before := [], after := text }

/-- How many groups an expression has. -/
def groups : Expression → Nat
  | .sequence first second => first.groups + second.groups
  | .choice first second => first.groups + second.groups
  | .repetition _ _ inner => inner.groups
  | .group _ inner => inner.groups + 1
  | _ => 0

/-- The first match from a place on: where it begins and where it ends. -/
def search (e : Expression) (before after : List Char) : Option (Place × Place) :=
  let start : Place := { before := before, after := after }
  match e.longest? start with
  | some stop => some (start, stop)
  | none =>
    match after with
    | c :: rest => search e (c :: before) rest
    | [] => none
termination_by after.length

def isMatch (e : Expression) (line : List Char) : Bool :=
  (e.search [] line).isSome

/-! ## Spelling -/

/-- How an expression is spelled. -/
structure Spelling where
  extended : Bool
  anyCase : Bool

/-- Reads an expression: what is left of it, and how many groups have been opened. -/
structure Reading where
  rest : List Char
  groups : Nat := 0

/-- Why a text spells no expression. -/
inductive Problem where
  | unmatchedParenthesis
  | unmatchedBracket
  | unmatchedBrace
  | invalidBounds
  | invalidRange
  | unknownClass
  | trailingBackslash
  | unknownGroup
  deriving DecidableEq, Repr

/-- What a problem is called in a complaint. -/
def Problem.text : Problem → String
  | unmatchedParenthesis => "Unmatched ( or \\("
  | unmatchedBracket => "Unmatched [, [^, [:, [., or [="
  | unmatchedBrace => "Unmatched \\\x7b"
  | invalidBounds => "Invalid content of \\\x7b\\\x7d"
  | invalidRange => "Invalid range end"
  | unknownClass => "Invalid character class name"
  | trailingBackslash => "Trailing backslash"
  | unknownGroup => "Invalid back reference"

/-- The characters of a named class. -/
def classOf? (name : String) : Option (Char → Bool) :=
  let isVisible (c : Char) : Bool := 0x20 < c.toNat && c.toNat < 0x7F
  match name with
  | "alnum" => some Char.isAlphanum
  | "alpha" => some Char.isAlpha
  | "blank" => some fun c => c == ' ' || c == '\t'
  | "cntrl" => some fun c => c.toNat < 0x20 || c.toNat == 0x7F
  | "digit" => some Char.isDigit
  | "graph" => some isVisible
  | "lower" => some Char.isLower
  | "print" => some fun c => isVisible c || c == ' '
  | "punct" => some fun c => isVisible c && !c.isAlphanum
  | "space" => some fun c => c == ' ' || (9 ≤ c.toNat && c.toNat ≤ 13)
  | "upper" => some Char.isUpper
  | "xdigit" => some fun c => c.isDigit || ('a' ≤ c.toLower && c.toLower ≤ 'f')
  | _ => none

def classOf (name : String) (c : Char) : Bool :=
  (classOf? name).any fun holds => holds c

/-- The members of a class in brackets, up to the bracket that closes it. -/
def members : Nat → Bool → (Char → Bool) → List Char → Except Problem ((Char → Bool) × List Char)
  | 0, _, _, _ => throw .unmatchedBracket
  | n + 1, isFirst, holds, text =>
    match text with
    | ']' :: rest => if isFirst then single n holds ']' rest else return (holds, rest)
    | '[' :: ':' :: rest =>
      let name := String.ofList (rest.takeWhile (· != ':'))
      let behind := rest.drop name.length
      match behind, classOf? name with
      | ':' :: ']' :: behind, some holdsToo =>
        members n false (fun c => holds c || holdsToo c) behind
      | ':' :: ']' :: _, none => throw .unknownClass
      | _, _ => throw .unmatchedBracket
    | c :: rest => single n holds c rest
    | [] => throw .unmatchedBracket
where
  single (n : Nat) (holds : Char → Bool) (low : Char) (rest : List Char) :
      Except Problem ((Char → Bool) × List Char) :=
    match rest with
    | '-' :: high :: behind =>
      if high == ']' then members n false (fun c => holds c || c == low) rest
      else if high < low then throw .invalidRange
      else members n false (fun c => holds c || (low ≤ c && c ≤ high)) behind
    | rest => members n false (fun c => holds c || c == low) rest

/-- A class in brackets. -/
def bracket (rest : List Char) : Except Problem ((Char → Bool) × List Char) := do
  match rest with
  | '^' :: behind =>
    let (holds, rest) ← members (rest.length + 1) true (fun _ => false) behind
    return (fun c => !holds c, rest)
  | rest => members (rest.length + 1) true (fun _ => false) rest

def literal (s : Spelling) (c : Char) : Expression :=
  .chars fun d => d == c || (s.anyCase && d.toLower == c.toLower)

/-- How often something can be repeated, and what stands behind the sign that says so. -/
structure Repetition where
  least : Nat
  most : Option Nat
  rest : List Char

/-- The bounds in braces. Braces that hold none stand for themselves in the extended spelling. -/
def bounds (s : Spelling) (text : List Char) : Except Problem (Option Repetition) :=
  let low := text.takeWhile Char.isDigit
  let behind := text.drop low.length
  let least := ((String.ofList low).toNat?).getD 0
  let (most, behind) := match behind with
    | ',' :: rest =>
      let high := rest.takeWhile Char.isDigit
      ((String.ofList high).toNat?, rest.drop high.length)
    | rest => (some least, rest)
  let isEmpty := low.isEmpty && text.head? != some ','
  let closed : Option (List Char) := match s.extended, behind with
    | true, '\x7d' :: rest => some rest
    | false, '\\' :: '\x7d' :: rest => some rest
    | _, _ => none
  match closed with
  | some rest =>
    if isEmpty then (if s.extended then return none else throw .invalidBounds)
    else if most.any (· < least) || 32767 < least then throw .invalidBounds
    else return some ⟨least, most, rest⟩
  | none =>
    if s.extended then return none
    else if behind.isEmpty then throw .unmatchedBrace
    else throw .invalidBounds

/-- A sign for a repetition in front of some characters. -/
def repetition? (s : Spelling) (text : List Char) : Except Problem (Option Repetition) :=
  match s.extended, text with
  | _, '*' :: rest => return some ⟨0, none, rest⟩
  | true, '+' :: rest => return some ⟨1, none, rest⟩
  | true, '?' :: rest => return some ⟨0, some 1, rest⟩
  | true, '\x7b' :: rest => bounds s rest
  | false, '\\' :: '+' :: rest => return some ⟨1, none, rest⟩
  | false, '\\' :: '?' :: rest => return some ⟨0, some 1, rest⟩
  | false, '\\' :: '\x7b' :: rest => bounds s rest
  | _, _ => return none

/-- All signs for repetitions behind an expression. -/
def repeated (s : Spelling) : Nat → Expression → List Char → Except Problem (Expression × List Char)
  | 0, e, text => return (e, text)
  | n + 1, e, text => do
    match ← repetition? s text with
    | some r => repeated s n (.repetition r.least r.most e) r.rest
    | none => return (e, text)

/-- Whether a branch ends here. -/
def endsBranch (s : Spelling) (inGroup : Bool) (text : List Char) : Bool :=
  match s.extended, text with
  | _, [] => true
  | true, '|' :: _ => true
  | true, ')' :: _ => inGroup
  | false, '\\' :: '|' :: _ => true
  | false, '\\' :: ')' :: _ => inGroup
  | _, _ => false

/-- The character behind a backslash, outside of brackets. -/
def escape (s : Spelling) (c : Char) : Expression :=
  match c with
  | 'w' => .chars isWord
  | 'W' => .chars fun c => !isWord c
  | 's' => .chars (classOf "space")
  | 'S' => .chars fun c => !classOf "space" c
  | 'b' => .boundary fun before after => before != after
  | 'B' => .boundary fun before after => before == after
  | '<' => .boundary fun before after => !before && after
  | '>' => .boundary fun before after => before && !after
  | 'n' => literal s '\n'
  | 't' => literal s '\t'
  | c => if c.isDigit && c != '0' then .same (c.toNat - 48) else literal s c

mutual

/-- Branches of which one has to match. -/
def branches (s : Spelling) : Nat → Bool → Reading → Except Problem (Expression × Reading)
  | 0, _, _ => throw .unmatchedParenthesis
  | n + 1, inGroup, r => do
    let (first, r) ← branch s n inGroup true .empty r
    match s.extended, r.rest with
    | true, '|' :: rest =>
      let (others, r) ← branches s n inGroup { r with rest := rest }
      return (.choice first others, r)
    | false, '\\' :: '|' :: rest =>
      let (others, r) ← branches s n inGroup { r with rest := rest }
      return (.choice first others, r)
    | _, _ => return (first, r)

/-- One part after the other. -/
def branch (s : Spelling) : Nat → Bool → Bool → Expression → Reading →
    Except Problem (Expression × Reading)
  | 0, _, _, _, _ => throw .unmatchedParenthesis
  | n + 1, inGroup, isFirst, found, r => do
    if endsBranch s inGroup r.rest then return (found, r)
    else
      let (part, r) ← part s n inGroup isFirst r
      let isAnchor := match part with
        | .startLine => true
        | _ => false
      let (part, rest) ← if isAnchor && !s.extended then pure (part, r.rest)
        else repeated s (r.rest.length + 1) part r.rest
      branch s n inGroup (isAnchor && isFirst) (.sequence found part) { r with rest := rest }

/-- A single part. -/
def part (s : Spelling) : Nat → Bool → Bool → Reading → Except Problem (Expression × Reading)
  | 0, _, _, _ => throw .unmatchedParenthesis
  | n + 1, inGroup, isFirst, r => do
    let opened (rest : List Char) : Except Problem (Expression × Reading) := do
      let number := r.groups + 1
      let (inner, r) ← branches s n true ⟨rest, number⟩
      match s.extended, r.rest with
      | true, ')' :: rest => return (.group number inner, { r with rest := rest })
      | false, '\\' :: ')' :: rest => return (.group number inner, { r with rest := rest })
      | _, _ => throw .unmatchedParenthesis
    match r.rest with
    | [] => return (.empty, r)
    | ['\\'] => throw .trailingBackslash
    | '\\' :: c :: rest =>
      if !s.extended && c == '(' then opened rest
      else if !s.extended && c == ')' then throw .unmatchedParenthesis
      -- no group of that number has been opened
      else if c.isDigit && c != '0' && r.groups < c.toNat - 48 then throw .unknownGroup
      else return (escape s c, { r with rest := rest })
    | '[' :: rest =>
      let (holds, rest) ← bracket rest
      let holds' := fun c : Char => holds c || (s.anyCase && (holds c.toLower || holds c.toUpper))
      return (.chars holds', { r with rest := rest })
    | '.' :: rest => return (.chars fun _ => true, { r with rest := rest })
    -- in a basic expression `^` and `$` are marks only where a branch begins or ends
    | '^' :: rest =>
      if s.extended || isFirst then return (.startLine, { r with rest := rest })
      else return (literal s '^', { r with rest := rest })
    | '$' :: rest =>
      if s.extended || endsBranch s inGroup rest then return (.endLine, { r with rest := rest })
      else return (literal s '$', { r with rest := rest })
    | c :: rest =>
      if s.extended && c == '(' then opened rest
      else if s.extended && isFirst && (c == '*' || c == '+' || c == '?') then
        return (.empty, { r with rest := rest })
      else return (literal s c, { r with rest := rest })

end

/-- The expression that a text spells. -/
def ofText (s : Spelling) (text : String) : Except Problem Expression := do
  let (e, r) ← branches s (4 * text.length + 8) false { rest := text.toList }
  if r.rest.isEmpty then return e else throw .unmatchedParenthesis

/-- The expression that takes a text as it is. -/
def ofLiteral (anyCase : Bool) (text : String) : Expression :=
  text.toList.foldr (fun c e => .sequence (literal ⟨false, anyCase⟩ c) e) .empty

end Expression

end ProjectBuild.Tool
