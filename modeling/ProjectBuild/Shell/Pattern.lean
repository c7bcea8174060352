/-!
# Patterns of the shell

A pattern matches a whole text: `*` any text, `?` any character, brackets one character of a
class. A character that is quoted, or stands behind a backslash, only matches itself.
-/

namespace ProjectBuild.Shell

/-- A character, and whether it is quoted. -/
abbrev Marked := Char × Bool

/-- What a class is made of. -/
inductive ClassItem where
  | range (low high : Char)
  | named (name : String)
  deriving DecidableEq, Repr, Inhabited

inductive PatternItem where
  | anything
  | anyChar
  /-- A character that is, or is not, in a class. -/
  | inside (expected : Bool) (items : List ClassItem)
  | exactly (c : Char)
  deriving DecidableEq, Repr, Inhabited

namespace ClassItem

/-- Whether a character is in the class of a name. -/
def isNamed (name : String) (c : Char) : Bool :=
  let visible := 0x20 < c.toNat && c.toNat < 0x7F
  match name with
  | "alnum" => c.isAlphanum
  | "alpha" => c.isAlpha
  | "blank" => c == ' ' || c == '\t'
  | "cntrl" => c.toNat < 0x20 || c.toNat == 0x7F
  | "digit" => c.isDigit
  | "graph" => visible
  | "lower" => c.isLower
  | "print" => visible || c == ' '
  | "punct" => visible && !c.isAlphanum
  | "space" => c == ' ' || (9 ≤ c.toNat && c.toNat ≤ 13)
  | "upper" => c.isUpper
  | "xdigit" => c.isDigit || ('a' ≤ c.toLower && c.toLower ≤ 'f')
  | _ => false

def holds (item : ClassItem) (c : Char) : Bool :=
  match item with
  | range low high => low ≤ c && c ≤ high
  | named name => isNamed name c

end ClassItem

namespace Pattern

/-- The characters up to a mark with a closing bracket behind it, and those behind that. -/
def upTo (mark : Char) : List Marked → Option (List Char × List Marked)
  | [] => none
  | (c, _) :: rest =>
    if c == mark && (rest.head?.map Prod.fst) == some ']' then some ([], rest.tail)
    else (upTo mark rest).map fun (chars, after) => (c :: chars, after)

/-- One end of a range, and what stands behind it. -/
def cutMember : List Marked → Option (Char × List Marked)
  | ('\\', false) :: (c, _) :: rest => some (c, rest)
  | ('[', false) :: ('.', false) :: rest =>
    match upTo '.' rest with
    | some ([c], after) => some (c, after)
    | _ => some ('[', ('.', false) :: rest)
  | ('[', false) :: ('=', false) :: rest =>
    match upTo '=' rest with
    | some ([c], after) => some (c, after)
    | _ => some ('[', ('=', false) :: rest)
  | (c, _) :: rest => some (c, rest)
  | [] => none

/-- The items of a class of at most so many characters, up to the bracket that closes it. A bracket
that comes first closes nothing. -/
def cutClass : Nat → Bool → List Marked → Option (List ClassItem × List Marked)
  | 0, _, _ => none
  | n + 1, first, chars =>
    match chars with
    | [] => none
    | (']', quoted) :: rest =>
      if quoted || first then member n chars else some ([], rest)
    | ('[', false) :: (':', false) :: rest =>
      match upTo ':' rest with
      | some (name, after) =>
        (cutClass n false after).map fun (items, after) =>
          (.named (String.ofList name) :: items, after)
      | none => member n chars
    | chars => member n chars
where
  member (n : Nat) (chars : List Marked) : Option (List ClassItem × List Marked) :=
    match cutMember chars with
    | none => none
    -- a sign that stands last is no range, but itself
    | some (low, ('-', false) :: (']', false) :: rest) =>
      (cutClass n false (('-', false) :: (']', false) :: rest)).map fun (items, after) =>
        (.range low low :: items, after)
    | some (low, ('-', false) :: rest) =>
      match cutMember rest with
      | none => none
      | some (high, rest) =>
        (cutClass n false rest).map fun (items, after) => (.range low high :: items, after)
    | some (low, rest) =>
      (cutClass n false rest).map fun (items, after) => (.range low low :: items, after)

/-- The class behind an opening bracket, and what follows it. -/
def class? (chars : List Marked) : Option (PatternItem × List Marked) :=
  match chars with
  | ('!', false) :: rest =>
    (cutClass (rest.length + 1) true rest).map fun (items, after) => (.inside false items, after)
  | rest =>
    (cutClass (rest.length + 1) true rest).map fun (items, after) => (.inside true items, after)

/-- The items of a pattern of at most so many characters. -/
def itemsUpTo : Nat → List Marked → List PatternItem
  | 0, _ => []
  | _, [] => []
  | n + 1, (c, true) :: rest => .exactly c :: itemsUpTo n rest
  | n + 1, (c, false) :: rest =>
    match c with
    | '*' => .anything :: itemsUpTo n rest
    | '?' => .anyChar :: itemsUpTo n rest
    | '\\' =>
      match rest with
      | (d, _) :: after => .exactly d :: itemsUpTo n after
      | [] => [.exactly '\\']
    | '[' =>
      match class? rest with
      | some (item, after) => item :: itemsUpTo n after
      | none => .exactly '[' :: itemsUpTo n rest
    | c => .exactly c :: itemsUpTo n rest

def items (chars : List Marked) : List PatternItem :=
  itemsUpTo chars.length chars

/-- Whether an item is a character that matches. -/
def PatternItem.admits (item : PatternItem) (c : Char) : Bool :=
  match item with
  | .anything => true
  | .anyChar => true
  | .exactly d => c == d
  | .inside expected items => (items.any fun item => item.holds c) == expected

/-- Which ends of a text some items match, the whole text first and the empty one last. -/
def matchedEnds : List PatternItem → List Char → List Bool
  | [], text => List.replicate text.length false ++ [true]
  | .anything :: rest, text =>
    (matchedEnds rest text).foldr (fun now later => (now || later.headD false) :: later) []
  | item :: rest, text =>
    text.zipWith (fun c behind => PatternItem.admits item c && behind)
      (matchedEnds rest text).tail ++ [false]

/-- Whether some items match all of a text. -/
def accepts (pattern : List PatternItem) (text : List Char) : Bool :=
  (matchedEnds pattern text).headD false

/-- Whether some character can match anything but itself. -/
def isActive (chars : List Marked) : Bool :=
  (items chars).any fun
    | .exactly _ => false
    | _ => true

/-- The characters that a pattern is written with, without the backslashes that quote. -/
def literal (chars : List Marked) : List Char :=
  (items chars).filterMap fun
    | .exactly c => some c
    | _ => none

/-- The number of characters in front of the longest, or the shortest, end that matches. -/
def endPlace? (longest : Bool) (pattern : List PatternItem) (text : List Char) : Option Nat :=
  let places := (matchedEnds pattern text).zipIdx.filterMap fun (found, n) =>
    if found then some n else none
  if longest then places.head? else places.getLast?

/-- The rest of a text before the shortest, or the longest, end that matches. -/
def withoutEnd (longest : Bool) (pattern : List PatternItem) (text : List Char) : List Char :=
  match endPlace? longest pattern text with
  | some n => text.take n
  | none => text

/-- The rest of a text behind the shortest, or the longest, beginning that matches. -/
def withoutStart (longest : Bool) (pattern : List PatternItem) (text : List Char) : List Char :=
  (withoutEnd longest pattern.reverse text.reverse).reverse

end Pattern

end ProjectBuild.Shell
