import ProjectBuild.Shell.Arithmetic
import ProjectBuild.Shell.Paths

/-!
# Expansion of words

A word expands in steps: tildes, parameters, commands and expressions are replaced by their values,
what was not quoted is split into fields, and a field with a pattern in it is replaced by the paths
that match.
-/

namespace ProjectBuild.Shell

/-- Runs a command for its output. -/
abbrev Substitution := Command → Act String

namespace Expand

/-- What is expanded, and what for. -/
structure Purpose where
  /-- Whether the result is split into fields. -/
  full : Bool := false
  quoted : Bool := false
  /-- Whether the word belongs to a parameter; then its characters separate fields as well. -/
  inParameter : Bool := false
  /-- Whether a tilde at the start stands for a directory. -/
  tilde : Bool := false
  /-- Whether tildes behind colons do, too. -/
  colonTilde : Bool := false

/-! ## Tildes -/

/-- The characters of a text up to a mark. -/
def cutAt (mark : Char) (chars : List Char) : List Char × List Char :=
  (chars.takeWhile (· != mark), (chars.dropWhile (· != mark)).tail)

/-- Fields of a line between colons. -/
def colonFields : Nat → List Char → List (List Char)
  | 0, _ => []
  | n + 1, chars =>
    let (field, rest) := cutAt ':' chars
    field :: colonFields n rest

/-- A list of users: names first, and directories sixth. -/
def usersFile : Path := ⟨"/etc/passwd"⟩

/-- The lines of a text. -/
def linesOf (text : String) : List String :=
  (text.splitOn "\n").filter (· ≠ "")

/-- The directory of a user. -/
def homeOf? (s : State) (user : String) : Option String :=
  match s.world.disk.contents [] usersFile with
  | .ok content =>
    (linesOf (Raw.ofBytes content)).findSome? fun line =>
      match colonFields 7 line.toList with
      | name :: _ :: _ :: _ :: _ :: home :: _ =>
        if String.ofList name = user then some (String.ofList home) else none
      | _ => none
  | .error _ => none

/-- The user that a tilde at the start of a word names, and the rest of the word. -/
def cutTilde? (colon : Bool) (w : Word) : Option (String × Word) :=
  match w with
  | .char '~' .none :: rest =>
    let (plain, behind) := cutPlain rest
    let name := plain.takeWhile fun c => !(c == '/' || (colon && c == ':'))
    if name.length == plain.length && !behind.isEmpty then none
    else some (String.ofList name, rest.drop name.length)
  | _ => none

/-- The directory that a tilde at the start of a word stands for, and the rest of the word. -/
def tilde? (s : State) (colon : Bool) (w : Word) : Option (String × Word) :=
  (cutTilde? colon w).bind fun (user, rest) =>
    (if user = "" then s.value? "HOME" else homeOf? s user).map fun home => (home, rest)

/-! ## Parameters -/

/-- The letters of options, in the order in which they are listed. -/
def optionLetters : List Char :=
  "efIimnsxvVECabup".toList

/-- The arguments with something between them. -/
def joined (s : State) (between : List Char) : List Char :=
  (s.arguments.map String.toList).intersperse between |>.flatten

/-- What stands between arguments where they are one text. -/
def between (s : State) : List Char :=
  match s.value? "IFS" with
  | some separators => separators.toList.take 1
  | none => [' ']

/-- All arguments. -/
def allArguments (s : State) (purpose : Purpose) (quoted apart : Bool) : List Char :=
  if quoted then joined s (if apart && purpose.full then [Fields.argumentEnd] else between s)
  else if purpose.full && (s.value? "IFS").isSome then joined s [Fields.argumentEnd]
  else joined s (between s)

/-- The value of a parameter, if it is set. -/
def value? (s : State) (purpose : Purpose) (quoted : Bool) (name : String) :
    Option (List Char) :=
  match name with
  | "$" => some (toString s.rootProcess).toList
  | "?" => some (toString s.status).toList
  | "#" => some (toString s.arguments.length).toList
  | "!" => s.lastBackground.map fun n => (toString n).toList
  | "-" => some ((optionLetters.reverse.filter s.isSet))
  | "@" => some (allArguments s purpose quoted true)
  | "*" => some (allArguments s purpose quoted false)
  | name =>
    match name.toNat? with
    | some 0 => some s.name.toList
    | some n => s.arguments[n - 1]?.map String.toList
    | none => (s.value? name).map String.toList

/-- The piece that a value is. -/
def pieceOf (s : State) (quoted : Bool) (name : String) (chars : List Char) : Piece :=
  if quoted && name = "@" && !s.arguments.isEmpty then
    ⟨.betweenArguments, chars.map fun c => .char c true⟩
  else .ofValue quoted chars

/-- A text without the line ends at its end. -/
def trimLines (text : String) : List Char :=
  (text.toList.reverse.dropWhile (· == '\n')).reverse

mutual

/-- The pieces that a word expands to. Words are nested at most so deep. -/
def pieces (substitute : Substitution) : Nat → Purpose → Word → Act (List Piece)
  | 0, _, _ => return []
  | n + 1, purpose, w => do
    let s ← get
    match if purpose.tilde then tilde? s purpose.colonTilde w else none with
    | some (home, rest) =>
      let others ← partsOf substitute n purpose rest
      return .fixed true home.toList :: others
    | none => partsOf substitute n purpose w

/-- The pieces that parts expand to, one after the other. -/
def partsOf (substitute : Substitution) : Nat → Purpose → Word → Act (List Piece)
  | 0, _, _ => return []
  | _, _, [] => return []
  | n + 1, purpose, part :: rest => do
    match part with
    | .char c .none =>
      let (plain, behind) := cutPlain (.char c .none :: rest)
      -- a tilde may stand behind each colon of an assigned value
      let (plain, behind) :=
        if purpose.colonTilde then
          let stretch := plain.takeWhile (· != ':')
          if stretch.length == plain.length then (plain, behind)
          else (stretch ++ [':'], (.char c .none :: rest).drop (stretch.length + 1))
        else (plain, behind)
      let first : Piece :=
        if purpose.inParameter && !purpose.quoted then .ofValue false plain
        else .fixed purpose.quoted plain
      let atColon := purpose.colonTilde && plain.getLast? == some ':'
      let others ← if atColon then pieces substitute n { purpose with tilde := true } behind
        else partsOf substitute n purpose behind
      return first :: others
    | .char c _ =>
      return .fixed true [c] :: (← partsOf substitute n purpose rest)
    | .mark => return ⟨.never, [.mark]⟩ :: (← partsOf substitute n purpose rest)
    | .output quoted command =>
      let text ← substitute command
      let first : Piece := .ofValue (quoted || purpose.quoted) (trimLines text)
      return first :: (← partsOf substitute n purpose rest)
    | .number quoted expression =>
      let text := Piece.chars (← pieces substitute n {} expression)
      let value ← Arithmetic.evaluate (String.ofList text)
      let first : Piece := .ofValue (quoted || purpose.quoted) (toString value).toList
      return first :: (← partsOf substitute n purpose rest)
    | .parameter quoted name use alsoEmpty word =>
      let first ← parameter substitute n purpose (quoted || purpose.quoted) name use alsoEmpty word
      return first ++ (← partsOf substitute n purpose rest)

/-- The pieces that a parameter expands to. -/
def parameter (substitute : Substitution) : Nat → Purpose → Bool → String → ParameterUse → Bool →
    Word → Act (List Piece)
  | 0, _, _, _, _, _, _ => return []
  | n + 1, purpose, quoted, name, use, alsoEmpty, word => do
    let s ← get
    let found := value? s purpose quoted name
    -- with a colon, an empty value counts as none
    let value := if alsoEmpty && found == some [] then none else found
    let unset : Act (List Piece) := do
      if s.isSet 'u' then Act.fail (name ++ ": parameter not set") else return []
    let inner := pieces substitute n
      { purpose with quoted := quoted, inParameter := true, tilde := true }
    let pattern : Act (List PatternItem) := do
      let found ← pieces substitute n { full := purpose.full, tilde := true } word
      return Pattern.items (Piece.allMarked found)
    match use, value with
    | .bad, _ => Act.fail "Bad substitution"
    | .value, some chars => return [pieceOf s quoted name chars]
    | .value, none => unset
    | .orElse, some chars => return [pieceOf s quoted name chars]
    | .orElse, none => inner word
    | .andThen, some _ => inner word
    | .andThen, none => return []
    | .require, some chars => return [pieceOf s quoted name chars]
    | .require, none =>
      if word.isEmpty then
        Act.fail (name ++ ": parameter not set" ++ if alsoEmpty then " or null" else "")
      else
        let text := Piece.chars (← pieces substitute n { tilde := true } word)
        Act.fail (name ++ ": " ++ String.ofList text)
    | .assign, some chars => return [pieceOf s quoted name chars]
    | .assign, none =>
      let text := Piece.chars (← pieces substitute n { tilde := true } word)
      if !isName name then Act.fail (name ++ ": bad variable name")
      else
        Act.assign name (String.ofList text)
        return [.ofValue quoted text]
    | .length, some chars => return [.ofValue quoted (toString chars.length).toList]
    | .length, none => do
      let _ ← unset
      return [.ofValue quoted ['0']]
    | .withoutEnd longest, some chars =>
      return [pieceOf s quoted name (Pattern.withoutEnd longest (← pattern) chars)]
    | .withoutEnd _, none => unset
    | .withoutStart longest, some chars =>
      return [pieceOf s quoted name (Pattern.withoutStart longest (← pattern) chars)]
    | .withoutStart _, none => unset

end

/-- Words are nested no deeper than this. -/
def depth : Nat := 100000

/-- The fields that a word expands to. -/
def fields (substitute : Substitution) (w : Word) : Act (List String) := do
  let found ← pieces substitute depth { full := true, tilde := true } w
  let s ← get
  return (Fields.split s.separators.toList none found).flatMap (Paths.ofField s)

/-- The text of a word that is not split. -/
def text (substitute : Substitution) (w : Word) : Act String := do
  return String.ofList (Piece.chars (← pieces substitute depth { tilde := true } w))

/-- The text of the value in an assignment. -/
def assigned (substitute : Substitution) (w : Word) : Act String := do
  let purpose : Purpose := { tilde := true, colonTilde := true }
  return String.ofList (Piece.chars (← pieces substitute depth purpose w))

/-- The pattern that a word is. -/
def pattern (substitute : Substitution) (w : Word) : Act (List PatternItem) := do
  return Pattern.items (Piece.allMarked (← pieces substitute depth { tilde := true } w))

/-- The text of a document. -/
def document (substitute : Substitution) (w : Word) : Act String := do
  return String.ofList (Piece.chars (← pieces substitute depth { quoted := true } w))

end Expand

end ProjectBuild.Shell
