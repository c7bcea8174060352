/-!
# Escapes

Backslashes in what is printed: letters for control characters, and octal numbers for any byte. What
stands for nothing is printed as it is.
-/

namespace ProjectBuild.Shell.Escape

def octal? (c : Char) : Option Nat :=
  if '0' ≤ c && c ≤ '7' then some (c.toNat - 48) else none

/-- The value of at most so many octal digits, and what stands behind them. -/
def cutOctal : Nat → Nat → List Char → Nat × List Char
  | 0, value, chars => (value, chars)
  | n + 1, value, chars =>
    match chars with
    | c :: rest =>
      match octal? c with
      | some d => cutOctal n (value * 8 + d) rest
      | none => (value, chars)
    | [] => (value, chars)

/-- The character that a letter behind a backslash stands for. -/
def letter? : Char → Option Char
  | '\\' => some '\\'
  | 'a' => some '\x07'
  | 'b' => some '\x08'
  | 'e' => some '\x1b'
  | 'f' => some '\x0c'
  | 'n' => some '\n'
  | 'r' => some '\x0d'
  | 't' => some '\t'
  | 'v' => some '\x0b'
  | _ => none

def byte (n : Nat) : Char :=
  Char.ofNat (n % 256)

/-- The character that what stands behind a backslash stands for, and the rest. A backslash that
means nothing stands for itself. -/
def cut (chars : List Char) : Char × List Char :=
  match chars with
  | [] => ('\\', [])
  | c :: rest =>
    if (octal? c).isSome then
      let (value, after) := cutOctal 3 0 chars
      (byte value, after)
    else match letter? c with
      | some d => (d, rest)
      | none => ('\\', chars)

/-- A text with its escapes resolved. -/
structure Resolved where
  chars : List Char
  /-- Whether nothing more is to be printed. -/
  ends : Bool := false
  deriving DecidableEq, Repr, Inhabited

/-- Resolves at most so many characters. An octal number may begin with a zero that does not
count. -/
def resolveUpTo : Nat → List Char → Resolved
  | 0, _ => ⟨[], false⟩
  | _, [] => ⟨[], false⟩
  | n + 1, '\\' :: rest =>
    let continued (c : Char) (after : List Char) : Resolved :=
      let more := resolveUpTo n after
      ⟨c :: more.chars, more.ends⟩
    match rest with
    | 'c' :: _ => ⟨[], true⟩
    | '0' :: d :: _ =>
      let (c, after) := cut (if (octal? d).isSome then rest.tail else rest)
      continued c after
    | rest =>
      let (c, after) := cut rest
      continued c after
  | n + 1, c :: rest =>
    let more := resolveUpTo n rest
    ⟨c :: more.chars, more.ends⟩

def resolve (text : String) : Resolved :=
  resolveUpTo (text.length + 1) text.toList

end ProjectBuild.Shell.Escape
