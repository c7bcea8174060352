import ProjectBuild.CommandLine.Flag

/-!
# Reading words

The words of a command line, from left to right. A **scan** holds the flags and operands read so
far; the first word that is wrong ends it, and so does a flag that asks for help or the version.
In front of the verb a scan ends at the first operand, behind it at the end of the line.
-/

namespace ProjectBuild.CommandLine

/-- What is wrong with a command line. -/
inductive UsageError where
  | unknownFlag (word : String)
  | unneededValue (flag : Flag)
  | missingValue (flag : Flag)
  | invalidValue (flag : Flag) (value : String)
  | repeated (flag : Flag)
  | conflict (flag other : Flag)
  | unexpected (operand : String)
  | emptyPath
  | invalidVariable (name value : String)
  | missingShell
  | unknownShell (name : String)
  | missingVerb
  | unknownVerb (name : String)
  deriving DecidableEq, Repr, Inhabited

/-- Why a scan ends early. -/
inductive Stop where
  | help (verb : Option Verb)
  | version
  | wrong (error : UsageError)
  deriving DecidableEq, Repr, Inhabited

/-- What has been read. -/
structure Scan where
  /-- The flags with their values, in order. -/
  given : List (Flag × String) := []
  operands : List String := []
  /-- The flag whose value comes next. -/
  pending : Option Flag := none
  /-- Whether no more flags may come. -/
  closed : Bool := false
  deriving DecidableEq, Repr, Inhabited

/-- Whether a word is written as a flag; a single dash is not. -/
def looksLikeFlag (word : String) : Bool :=
  match word.toList with
  | '-' :: _ :: _ => true
  | _ => false

/-- The name and the value of a long flag. -/
def splitValue (body : List Char) : String × Option String :=
  let name := body.takeWhile (· != '=')
  (String.ofList name,
    match body.drop name.length with
    | [] => none
    | _ :: value => some (String.ofList value))

namespace Scan

def has (s : Scan) (flag : Flag) : Bool :=
  s.given.any fun entry => entry.1 == flag

/-- The values of a flag, in order. -/
def values (s : Scan) (flag : Flag) : List String :=
  (s.given.filter fun entry => entry.1 == flag).map Prod.snd

def value? (s : Scan) (flag : Flag) : Option String :=
  s.given.lookup flag

/-- Takes a flag with its value. -/
def give (verb : Option Verb) (s : Scan) (flag : Flag) (value : String) : Except Stop Scan :=
  if flag = .help then .error (.help verb)
  else if flag = .version then .error .version
  else if s.has flag && !flag.isRepeatable then .error (.wrong (.repeated flag))
  else if !flag.accepts value then .error (.wrong (.invalidValue flag value))
  else .ok { s with given := s.given ++ [(flag, value)] }

/-- Takes a word that starts with two dashes. -/
def takeLong (verb : Option Verb) (s : Scan) (body : List Char) : Except Stop Scan :=
  let (name, attached) := splitValue body
  match (Flag.allowed verb).find? fun flag => flag.name == name with
  | none => .error (.wrong (.unknownFlag ("--" ++ name)))
  | some flag =>
    match flag.arity, attached with
    | .nothing, none => s.give verb flag ""
    | .nothing, some _ => .error (.wrong (.unneededValue flag))
    | _, some value => s.give verb flag value
    | _, none => .ok { s with pending := some flag }

/-- Takes the letters behind one dash. What follows a letter with a value is the value. -/
def takeLetters (verb : Option Verb) (s : Scan) : List Char → Except Stop Scan
  | [] => .ok s
  | c :: rest =>
    match (Flag.allowed verb).find? fun flag => flag.letter? == some c with
    | none => .error (.wrong (.unknownFlag (String.ofList ['-', c])))
    | some flag =>
      if flag.arity = .nothing then
        -- a letter without a value leaves the rest of the word to further letters
        match s.give verb flag "" with
        | .ok s => takeLetters verb s rest
        | .error stop => .error stop
      else match rest with
        | [] => .ok { s with pending := some flag }
        | '=' :: value => s.give verb flag (String.ofList value)
        | value => s.give verb flag (String.ofList value)

/-- Takes an operand. -/
def takeOperand (verb : Option Verb) (s : Scan) (word : String) : Except Stop Scan :=
  let taken := { s with operands := s.operands ++ [word] }
  match verb with
  | none => .error (.wrong (.unexpected word))
  | some .completions =>
    if !s.operands.isEmpty then .error (.wrong (.unexpected word))
    else if (ShellKind.named? word).isNone then .error (.wrong (.unknownShell word))
    else .ok taken
  | some _ => if word.isEmpty then .error (.wrong .emptyPath) else .ok taken

/-- Takes the next word. -/
def take (verb : Option Verb) (s : Scan) (word : String) : Except Stop Scan :=
  match s.pending with
  | some flag =>
    if flag.arity = .anyValue || !looksLikeFlag word then
      { s with pending := none }.give verb flag word
    else .error (.wrong (.missingValue flag))
  | none =>
    if s.closed || !looksLikeFlag word then s.takeOperand verb word
    else match word.toList with
      -- every word behind it is an operand
      | ['-', '-'] => .ok { s with closed := true }
      | '-' :: '-' :: body => s.takeLong verb body
      | letters => s.takeLetters verb (letters.drop 1)

/-- Nothing may be missing at the end. -/
def finish (s : Scan) : Except Stop Scan :=
  match s.pending with
  | some flag => .error (.wrong (.missingValue flag))
  | none => .ok s

/-- Reads all words behind a verb. -/
def readAll (verb : Verb) : Scan → List String → Except Stop Scan
  | s, [] => s.finish
  | s, word :: rest =>
    match s.take (some verb) word with
    | .ok s => readAll verb s rest
    | .error stop => .error stop

/-- Whether a word in front of the verb is the verb. -/
def endsAt (s : Scan) (word : String) : Bool :=
  s.pending.isNone && !s.closed && !looksLikeFlag word

/-- Reads the words up to the verb, which is left with those behind it. -/
def readFront : Scan → List String → Except Stop (Scan × List String)
  | s, [] => s.finish.map fun s => (s, [])
  | s, word :: rest =>
    if s.endsAt word then .ok (s, word :: rest)
    else match s.take none word with
      | .ok s => readFront s rest
      | .error stop => .error stop

end Scan

end ProjectBuild.CommandLine
