import ProjectBuild.Regex.Cursor

/-!
# The structure of patterns

Groups, alternations, repetitions and classes in brackets. Every function takes a bound on the
nesting of what it reads; the length of the pattern is enough.
-/

namespace ProjectBuild.Regex

namespace Cursor

/-! ## Classes -/

/-- The names of classes that stand between brackets and colons. -/
def classNames : List String := [
  "alnum", "alpha", "ascii", "blank", "cntrl", "digit", "graph", "lower", "print", "punct",
  "space", "upper", "word", "xdigit"]

/-- Characters up to a colon. -/
def upToColon : List Char → List Char × List Char
  | [] => ([], [])
  | ':' :: rest => ([], ':' :: rest)
  | x :: rest =>
    let (before, behind) := upToColon rest
    (x :: before, behind)

/-- Goes so many characters on. -/
def advance (c : Cursor) (n : Nat) : Cursor :=
  (List.range n).foldl (fun c _ => c.next) c

/-- A class such as `[:alpha:]`, if that is what comes next. -/
def namedClass? (c : Cursor) : Option (ClassSet × Cursor) :=
  match c.rest with
  | '[' :: ':' :: rest =>
    let (negated, rest) := match rest with
      | '^' :: rest => (true, rest)
      | rest => (false, rest)
    let (name, behind) := upToColon rest
    match behind with
    | ':' :: ']' :: behind =>
      let text := String.ofList name
      if classNames.contains text then
        let behind := c.advance (c.rest.length - behind.length)
        some (.named negated text (behind.spanFrom c.position), behind)
      else none
    | _ => none
  | _ => none

/-- A piece between brackets. -/
def classItem (c : Cursor) : Except Problem (Primitive × Cursor) :=
  match c.rest with
  | '\\' :: _ => c.backslash
  | x :: _ => .ok (.literal x, c.next)
  | [] => fail .classUnclosed c.here

/-- The set that a piece is. -/
def setOf (piece : Primitive) (span : Span) : Except Problem ClassSet :=
  match piece with
  | .literal x => .ok (.literal x span)
  | .letter negated name => .ok (.letter negated name span)
  | .property negated name => .ok (.property negated name span)
  | _ => fail .classEscapeInvalid span

def boundOf (piece : Primitive) (span : Span) : Except Problem Char :=
  match piece with
  | .literal x => .ok x
  | _ => fail .classRangeLiteral span

/-- The character behind the next one and what means nothing. -/
def peekSkip? (c : Cursor) : Option Char :=
  c.nextSkip.rest.head?

/-- A piece between brackets, or a range of two; `opening` is the place of the bracket. -/
def classRange (opening : Span) (c : Cursor) : Except Problem (ClassSet × Cursor) := do
  let (first, behind) ← c.classItem
  let firstSpan := behind.spanFrom c.position
  let behind := behind.skip
  match behind.rest with
  | [] => fail .classUnclosed opening
  | '-' :: _ =>
    if behind.peekSkip? = some ']' || behind.peekSkip? = some '-' then
      return (← setOf first firstSpan, behind)
    else
      let second := behind.nextSkip
      if second.atEnd then fail .classUnclosed opening
      else
        let (last, behind) ← second.classItem
        let lastSpan := behind.spanFrom second.position
        let span : Span := ⟨c.position, behind.position⟩
        let low ← boundOf first firstSpan
        let high ← boundOf last lastSpan
        if high < low then fail .classRangeInvalid span else return (.range low high firstSpan lastSpan, behind)
  | _ => return (← setOf first firstSpan, behind)

/-- Hyphens at the start of a class, which stand for themselves. -/
def leadingHyphens (start : Position) : Nat → Cursor → Except Problem (List ClassSet × Cursor)
  | 0, c => .ok ([], c)
  | n + 1, c =>
    match c.rest with
    | '-' :: _ =>
      let behind := c.nextSkip
      if behind.atEnd then fail .classUnclosed ⟨start, start⟩
      else (leadingHyphens start n behind).map fun (more, c') =>
        (.literal '-' c.charSpan :: more, c')
    | _ => .ok ([], c)

/-- What opens a class: whether it is negated, and what stands for itself only there. -/
def classOpening (c : Cursor) : Except Problem ((Bool × List ClassSet) × Cursor) := do
  let start := c.position
  let c := c.nextSkip
  if c.atEnd then fail .classUnclosed (c.spanFrom start)
  else
    let negated := c.rest.head? = some '^'
    let c := if negated then c.nextSkip else c
    if c.atEnd then fail .classUnclosed (c.spanFrom start)
    else
      let (items, c) ← leadingHyphens start c.rest.length c
      if items.isEmpty && c.rest.head? = some ']' then
        let behind := c.nextSkip
        if behind.atEnd then fail .classUnclosed (behind.spanFrom start)
        else return ((negated, [.literal ']' c.charSpan]), behind)
      else return ((negated, items), c)

/-- A set that waits for the right side of an operation. -/
abbrev Pending := Option (ClassSet × (ClassSet → ClassSet → ClassSet))

def Pending.complete (pending : Pending) (right : ClassSet) : ClassSet :=
  match pending with
  | some (left, operation) => operation left right
  | none => right

/-- The operation on sets that comes next, and what stands behind it. -/
def setOperation? (c : Cursor) : Option ((ClassSet → ClassSet → ClassSet) × Cursor) :=
  match c.past? "&&", c.past? "--", c.past? "~~" with
  | some behind, _, _ => some (.intersection, behind)
  | _, some behind, _ => some (.difference, behind)
  | _, _, some behind => some (.symmetricDifference, behind)
  | _, _, _ => none

mutual

/-- The class whose opening bracket comes next. -/
def classSet : Nat → Cursor → Except Problem (ClassSet × Cursor)
  | 0, c => fail .nestLimitExceeded c.charSpan
  | n + 1, c => do
    let ((negated, items), inside) ← c.classOpening
    let opening := inside.spanFrom c.position
    let (set, behind) ← classBody n opening none items inside
    return (.bracketed negated set (behind.spanFrom c.position), behind)

/-- What stands between brackets, up to the one that closes it. -/
def classBody : Nat → Span → Pending → List ClassSet → Cursor → Except Problem (ClassSet × Cursor)
  | 0, opening, _, _, _ => fail .classUnclosed opening
  | n + 1, opening, pending, items, c =>
    let c := c.skip
    match c.rest with
    | [] => fail .classUnclosed opening
    | ']' :: _ => .ok (pending.complete (.union items), c.next)
    | '[' :: _ =>
      match c.namedClass? with
      | some (item, behind) => classBody n opening pending (items ++ [item]) behind
      | none => do
        let (item, behind) ← classSet n c
        classBody n opening pending (items ++ [item]) behind
    | _ =>
      match c.setOperation? with
      | some (operation, behind) =>
        classBody n opening (some (pending.complete (.union items), operation)) [] behind
      | none => do
        let (item, behind) ← classRange opening c
        classBody n opening pending (items ++ [item]) behind

end

/-! ## Repetitions -/

/-- What a repetition repeats: the last of some parts. There has to be one that can match. -/
def repeated (parts : List Node) (c : Cursor) : Except Problem (List Node × Node) :=
  match parts.getLast? with
  | none => fail .repetitionMissing c.here
  | some .empty => fail .repetitionMissing c.here
  | some (.flags _) => fail .repetitionMissing c.here
  | some part => .ok (parts.dropLast, part)

/-- The place of a node. -/
def startOf (c : Cursor) : Node → Position
  | .literal _ span => span.start
  | .dot span => span.start
  | .assertion _ span => span.start
  | .repetition _ _ _ span => span.start
  | .group _ _ span => span.start
  | .sequence _ span => span.start
  | .alternation _ span => span.start
  | .set (.bracketed _ _ span) => span.start
  | .set (.letter _ _ span) => span.start
  | .set (.property _ _ span) => span.start
  | _ => c.position

/-- Past a question mark, which makes a repetition modest and does not change what matches. -/
def pastModesty (c : Cursor) : Cursor :=
  if c.rest.head? = some '?' then c.next else c

/-- A repetition by a single sign. -/
def signRepetition (least : Nat) (most : Option Nat) (parts : List Node) (c : Cursor) :
    Except Problem (List Node × Cursor) := do
  let (before, part) ← repeated parts c
  let behind := c.next.pastModesty
  return (before ++ [.repetition least most part (behind.spanFrom (startOf c part))], behind)

/-- The bounds in a repetition, behind its opening brace. -/
def bounds (start : Position) (c : Cursor) : Except Problem ((Nat × Option Nat) × Cursor) := do
  let unclosed (c : Cursor) : Except Problem ((Nat × Option Nat) × Cursor) :=
    fail .repetitionCountUnclosed (c.spanFrom start)
  let (least, behind) := c.decimal
  if behind.atEnd then unclosed behind
  else if behind.rest.head? = some ',' then
    let second := behind.nextSkip
    if second.atEnd then unclosed second
    else if second.rest.head? = some '\x7d' then return ((← least, none), second)
    else
      let least ← least
      let (most, behind) := second.decimal
      return ((least, some (← most)), behind)
  else
    let least ← least
    return ((least, some least), behind)

/-- A repetition with bounds in braces. -/
def countedRepetition (parts : List Node) (c : Cursor) : Except Problem (List Node × Cursor) := do
  let start := c.position
  let (before, part) ← repeated parts c
  let inside := c.nextSkip
  if inside.atEnd then fail .repetitionCountUnclosed (inside.spanFrom start)
  else
    let ((least, most), behind) ← bounds start inside
    if behind.rest.head? != some '\x7d' then
      fail .repetitionCountUnclosed (behind.spanFrom start)
    else
      let behind := behind.nextSkip.pastModesty
      if (most.any fun most => most < least) then
        fail .repetitionCountInvalid (behind.spanFrom start)
      else
        return (before ++ [.repetition least most part (behind.spanFrom (startOf c part))], behind)

/-! ## Groups -/

/-- What an opening parenthesis begins. -/
inductive Opening where
  /-- Flags for what follows. -/
  | flags (change : FlagChange)
  | group (change : FlagChange)

/-- Past what opens a group. -/
def groupOpening (c : Cursor) : Except Problem (Opening × Cursor) := do
  let open_ := c.charSpan
  let inside := c.next.skip
  let lookAround := ["?=", "?!", "?<=", "?<!"].findSome? inside.past?
  match lookAround with
  | some behind => fail .lookAround ⟨open_.start, behind.position⟩
  | none =>
    match (inside.past? "?P<").or (inside.past? "?<") with
    | some behind => return (.group {}, ← behind.groupName)
    | none =>
      match inside.past? "?" with
      | none => return (.group {}, inside)
      | some behind =>
        if behind.atEnd then fail .groupUnclosed open_
        else
          let (written, behind) ← flags (behind.rest.length + 1) [] behind
          if behind.rest.head? = some ')' then
            if written.isEmpty then fail .repetitionMissing inside.here
            else return (.flags (changeOf written), behind.next)
          else return (.group (changeOf written), behind.next)

/-- The node that a piece outside of brackets is. -/
def nodeOf (piece : Primitive) (span : Span) : Node :=
  match piece with
  | .literal x => .literal x span
  | .dot => .dot span
  | .assertion what => .assertion what span
  | .letter negated name => .set (.letter negated name span)
  | .property negated name => .set (.property negated name span)

/-- The node that some parts in a row are. -/
def sequenceOf (parts : List Node) (span : Span) : Node :=
  match parts with
  | [] => .empty
  | [part] => part
  | parts => .sequence parts span

mutual

/-- Alternatives up to the end of the pattern or of the group they stand in. -/
def alternatives : Nat → List Node → Position → Cursor → Except Problem (Node × Cursor)
  | 0, _, _, c => fail .nestLimitExceeded c.here
  | n + 1, found, start, c => do
    let (parts, behind) ← sequence n [] c
    let node := sequenceOf parts (behind.spanFrom c.position)
    if behind.rest.head? = some '|' then alternatives n (found ++ [node]) start behind.next
    else if found.isEmpty then return (node, behind)
    else return (.alternation (found ++ [node]) (behind.spanFrom start), behind)

/-- Parts up to what ends an alternative. -/
def sequence : Nat → List Node → Cursor → Except Problem (List Node × Cursor)
  | 0, _, c => fail .nestLimitExceeded c.here
  | n + 1, parts, c =>
    let c := c.skip
    match c.rest with
    | [] => .ok (parts, c)
    | ')' :: _ => .ok (parts, c)
    | '|' :: _ => .ok (parts, c)
    | '(' :: _ => do
      match ← c.groupOpening with
      | (.flags change, behind) =>
        let ignores := (change.state? .ignoreBlank).getD behind.ignoresBlank
        sequence n (parts ++ [.flags change]) { behind with ignoresBlank := ignores }
      | (.group change, behind) =>
        let ignores := (change.state? .ignoreBlank).getD behind.ignoresBlank
        let (inner, behind) ← alternatives n [] behind.position
          { behind with ignoresBlank := ignores }
        if behind.atEnd then fail .groupUnclosed c.charSpan
        else
          -- flags that are set in a group end with it
          let behind := { behind.next with ignoresBlank := c.ignoresBlank }
          sequence n (parts ++ [.group change inner (behind.spanFrom c.position)]) behind
    | '[' :: _ => do
      let (set, behind) ← classSet (c.rest.length + 1) c
      sequence n (parts ++ [.set set]) behind
    | '?' :: _ => do
      let (parts, behind) ← signRepetition 0 (some 1) parts c
      sequence n parts behind
    | '*' :: _ => do
      let (parts, behind) ← signRepetition 0 none parts c
      sequence n parts behind
    | '+' :: _ => do
      let (parts, behind) ← signRepetition 1 none parts c
      sequence n parts behind
    | '\x7b' :: _ => do
      let (parts, behind) ← countedRepetition parts c
      sequence n parts behind
    | _ => do
      let (piece, behind) ← c.primitive
      sequence n (parts ++ [nodeOf piece (behind.spanFrom c.position)]) behind

end

end Cursor

/-! ## Depth -/

/-- The first class that lies too deep, when its outside lies `depth` deep. -/
def ClassSet.tooDeep? (depth : Nat) : ClassSet → Option Span
  | .bracketed _ inside span =>
    if nestLimit < depth + 1 then some span else tooDeep? (depth + 1) inside
  | .union items => tooDeepIn? depth items
  | .intersection left right => (left.tooDeep? depth).or (right.tooDeep? depth)
  | .difference left right => (left.tooDeep? depth).or (right.tooDeep? depth)
  | .symmetricDifference left right => (left.tooDeep? depth).or (right.tooDeep? depth)
  | _ => none
where
  tooDeepIn? (depth : Nat) : List ClassSet → Option Span
    | [] => none
    | item :: rest => (item.tooDeep? depth).or (tooDeepIn? depth rest)

/-- The first node that lies too deep. -/
def Node.tooDeep? (depth : Nat) : Node → Option Span
  | .set inside => inside.tooDeep? depth
  | .repetition _ _ inner span =>
    if nestLimit < depth + 1 then some span else inner.tooDeep? (depth + 1)
  | .group _ inner span =>
    if nestLimit < depth + 1 then some span else inner.tooDeep? (depth + 1)
  | .sequence parts span =>
    if nestLimit < depth + 1 then some span else tooDeepIn? (depth + 1) parts
  | .alternation branches span =>
    if nestLimit < depth + 1 then some span else tooDeepIn? (depth + 1) branches
  | _ => none
where
  tooDeepIn? (depth : Nat) : List Node → Option Span
    | [] => none
    | part :: rest => (part.tooDeep? depth).or (tooDeepIn? depth rest)

/-- The structure of a pattern. -/
def Node.ofText (pattern : String) : Except Problem Node :=
  let c : Cursor := { rest := pattern.toList }
  match c.alternatives (3 * pattern.length + 4) [] c.position with
  | .error problem => .error problem
  | .ok (node, behind) =>
    if !behind.atEnd then .error ⟨.groupUnopened, behind.charSpan⟩
    else match node.tooDeep? 0 with
      | some span => .error ⟨.nestLimitExceeded, span⟩
      | none => .ok node

end ProjectBuild.Regex
