/-!
# The language of the shell

A script is a sequence of commands, and a command is made of words. A word is a list of parts:
characters, and what is put in place of something else when the word is expanded. A part that
stands in quotes expands to text that is not split into fields and holds no pattern.
-/

namespace ProjectBuild.Shell

/-- What keeps a character from having its special meaning. -/
inductive Quoting where
  | none
  | backslash
  | quotes
  deriving DecidableEq, Repr, Inhabited

/-- What is done with the value of a parameter. -/
inductive ParameterUse where
  | value
  /-- The word instead, if the parameter is unset. -/
  | orElse
  /-- The word instead, unless the parameter is unset. -/
  | andThen
  /-- A complaint, if the parameter is unset. -/
  | require
  /-- As `orElse`, and the parameter is set to the word. -/
  | assign
  /-- The rest before the shortest, or the longest, end that matches. -/
  | withoutEnd (longest : Bool)
  /-- The rest after the shortest, or the longest, beginning that matches. -/
  | withoutStart (longest : Bool)
  | length
  /-- It is not clear what is to be done. -/
  | bad
  deriving DecidableEq, Repr, Inhabited

inductive RedirectKind where
  | input
  /-- For reading and writing. -/
  | both
  | output
  /-- As `output`, also over a file that is there. -/
  | overwrite
  | append
  deriving DecidableEq, Repr, Inhabited

/-- Whether a loop goes on while its condition succeeds, or until it does. -/
inductive LoopKind where
  | while
  | until
  deriving DecidableEq, Repr, Inhabited

/-- How two commands are joined. -/
inductive Junction where
  /-- One after the other. -/
  | sequence
  /-- The second only if the first succeeds. -/
  | both
  /-- The second only if the first fails. -/
  | either
  deriving DecidableEq, Repr, Inhabited

mutual

inductive Part where
  | char (c : Char) (how : Quoting)
  /-- A quotation mark, which makes a field even if there is nothing in it. -/
  | mark
  /-- The value of a parameter; `alsoEmpty` says that an empty one counts as unset. -/
  | parameter (quoted : Bool) (name : String) (use : ParameterUse) (alsoEmpty : Bool)
    (word : List Part)
  /-- The output of a command. -/
  | output (quoted : Bool) (command : Command)
  /-- The value of an arithmetic expression. -/
  | number (quoted : Bool) (expression : List Part)

inductive Redirect where
  /-- A descriptor is opened on a file. -/
  | open (descriptor : Nat) (kind : RedirectKind) (name : List Part)
  /-- A descriptor becomes a copy of another one, or is closed if there is none. -/
  | copy (descriptor : Nat) (source : Option Nat)
  /-- As `copy`, but which descriptor is copied is not known before the word is expanded. -/
  | copyNamed (descriptor : Nat) (source : List Part)
  /-- A descriptor is opened on a document, which has a number. -/
  | document (descriptor : Nat) (number : Nat)

inductive Command where
  /-- Nothing at all. -/
  | nothing
  | simple (line : Nat) (assignments words : List (List Part)) (redirects : List Redirect)
  | join (how : Junction) (first second : Command)
  | pipeline (commands : List Command)
  | negated (inner : Command)
  | branch (condition body otherwise : Command)
  | loop (kind : LoopKind) (condition body : Command)
  /-- A round for each word, which the variable then stands for. -/
  | each (line : Nat) (name : String) (words : List (List Part)) (body : Command)
  /-- The first body that has a pattern which the subject matches. -/
  | select (line : Nat) (subject : List Part) (arms : List (List (List Part) × Command))
  | redirected (line : Nat) (inner : Command) (redirects : List Redirect)
  | subshell (line : Nat) (inner : Command) (redirects : List Redirect)
  /-- Runs while the script goes on. -/
  | background (inner : Command)
  | define (line : Nat) (name : String) (body : Command)

end

deriving instance Inhabited for Part
deriving instance Inhabited for Redirect
deriving instance Inhabited for Command

abbrev Word := List Part

/-- The bodies of a selection, each with its patterns. -/
abbrev Arms := List (List Word × Command)

/-! ## Names -/

def isBlank (c : Char) : Bool :=
  c == ' ' || c == '\t'

def isNameStart (c : Char) : Bool :=
  c.isAlpha || c == '_'

def isNameChar (c : Char) : Bool :=
  c.isAlphanum || c == '_'

/-- Parameters whose name is one character of its own. -/
def isSpecialName (c : Char) : Bool :=
  c.isDigit || "?$#@*!-".toList.contains c

/-- The name at the start of some characters, and what stands behind it. -/
def cutName (chars : List Char) : List Char × List Char :=
  match chars with
  | c :: _ => if isNameStart c then chars.span isNameChar else ([], chars)
  | [] => ([], [])

/-- Whether a text is a name that a variable can have. -/
def isName (text : String) : Bool :=
  match cutName text.toList with
  | (_ :: _, []) => true
  | _ => false

/-- The characters of a word, if none is quoted and nothing is to be expanded. -/
def plainChars? : Word → Option (List Char)
  | [] => some []
  | .char c .none :: rest => (plainChars? rest).map (c :: ·)
  | _ :: _ => none

/-- The text of a word that is not quoted in any part. -/
def plainText? (w : Word) : Option String :=
  (plainChars? w).map String.ofList

/-- The unquoted characters in front of a word, and the parts behind them. -/
def cutPlain : Word → List Char × Word
  | .char c .none :: rest =>
    let (chars, after) := cutPlain rest
    (c :: chars, after)
  | w => ([], w)

/-- The name and the value, if a word is an assignment. -/
def assignment? (w : Word) : Option (String × Word) :=
  let (name, _) := cutName (cutPlain w).1
  if name.isEmpty then none
  else match w.drop name.length with
    | .char '=' .none :: value => some (String.ofList name, value)
    | _ => none

end ProjectBuild.Shell
