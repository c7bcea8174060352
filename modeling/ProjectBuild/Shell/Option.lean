import ProjectBuild.Shell.Numeral
import ProjectBuild.Shell.State

/-!
# Options

Options of commands: letters behind a hyphen, some of which take a text. The options of the shell
itself have long names as well.
-/

namespace ProjectBuild.Shell

namespace Options

/-- Whether a letter is accepted, and whether it takes a text: then a colon stands behind it. -/
def accepted? (letters : List Char) (c : Char) : Option Bool :=
  match letters with
  | [] => none
  | d :: rest =>
    if d == c && c != ':' then some (rest.head? == some ':') else accepted? rest c

/-- Options with their texts, and the other arguments. -/
abbrev Read := List (Char × String) × List String

/-- Reads the letters of one argument. -/
def letters (accepted : String) : List Char → List String → Act Read
  | [], rest => return ([], rest)
  | c :: more, rest => do
    match accepted? accepted.toList c with
    | none => Act.fail (String.ofList ("Illegal option -".toList ++ [c]))
    | some false =>
      let (options, rest) ← letters accepted more rest
      return ((c, "") :: options, rest)
    | some true =>
      match more, rest with
      | [], [] => Act.fail (String.ofList ("No arg for -".toList ++ [c] ++ " option".toList))
      | [], text :: rest => return ([(c, text)], rest)
      | more, rest => return ([(c, String.ofList more)], rest)

/-- Reads the options in front of some arguments, at most so many. -/
def readUpTo (accepted : String) : Nat → List String → Act Read
  | 0, arguments => return ([], arguments)
  | n + 1, arguments => do
    match arguments with
    | [] => return ([], [])
    | first :: rest =>
      match first.toList with
      | '-' :: c :: more =>
        if c == '-' && more.isEmpty then return ([], rest)
        else
          let (found, rest) ← letters accepted (c :: more) rest
          let (others, rest) ← readUpTo accepted n rest
          return (found ++ others, rest)
      | _ => return ([], arguments)

/-- Reads the options in front of some arguments. -/
def read (accepted : String) (arguments : List String) : Act Read :=
  readUpTo accepted (arguments.length + 1) arguments

end Options

/-! ## Options of the shell -/

namespace ShellOption

/-- The options of the shell: long names and letters. Those without a letter do nothing; here they
go by a digit. -/
def all : List (String × Char) := [
  ("errexit", 'e'), ("noglob", 'f'), ("ignoreeof", 'I'), ("interactive", 'i'), ("monitor", 'm'),
  ("noexec", 'n'), ("stdin", 's'), ("xtrace", 'x'), ("verbose", 'v'), ("vi", 'V'), ("emacs", 'E'),
  ("noclobber", 'C'), ("allexport", 'a'), ("notify", 'b'), ("nounset", 'u'), ("privileged", 'p'),
  ("nolog", '0'), ("debug", '1')]

/-- Turns an option on or off. -/
def set (on : Bool) (letter : Char) (s : State) : State :=
  let others := s.options.filter (· != letter)
  { s with options := if on then letter :: others else others }

/-- Turns the option of a letter on or off. -/
def setLetter (on : Bool) (letter : Char) : Act Unit := do
  if all.any fun option => option.2 == letter && !letter.isDigit then modify (set on letter)
  else Act.fail (String.ofList ("Illegal option -".toList ++ [letter]))

/-- Fills a text up to a width. -/
def padded (width : Nat) (text : String) : String :=
  text ++ String.ofList (List.replicate (width - text.length) ' ')

/-- Lists all options, in one of two forms. -/
def list (on : Bool) : Act Unit := do
  let s ← get
  let line (option : String × Char) : String :=
    if on then padded 16 option.1 ++ (if s.isSet option.2 then "on" else "off")
    else "set " ++ (if s.isSet option.2 then "-" else "+") ++ "o " ++ option.1
  if on then Act.printLine "Current option settings"
  all.forM fun option => Act.printLine (line option)

/-- Turns the option of a long name on or off; lists all options if there is no name. -/
def setNamed (on : Bool) (name : Option String) : Act Unit := do
  match name with
  | none => list on
  | some name =>
    match all.lookup name with
    | some letter => modify (set on letter)
    | none => Act.fail ("Illegal option -o " ++ name)

/-- What the options in front of a shell's arguments come to. -/
structure Reading where
  /-- Whether a script is given as an argument. -/
  takesScript : Bool := false
  /-- Whether the arguments are to replace those of the shell. -/
  replaces : Bool := false
  rest : List String

/-- Turns options on or off, letter by letter. `starting` says that the shell is being started. -/
def setLetters (starting on : Bool) (r : Reading) : List Char → Act Reading
  | [] => return r
  | 'c' :: more => do
    if starting then setLetters starting on { r with takesScript := true } more
    else
      setLetter on 'c'
      return r
  | 'o' :: more => do
    setNamed on r.rest.head?
    setLetters starting on { r with rest := r.rest.tail } more
  | letter :: more => do
    if !(starting && letter == 'l') then setLetter on letter
    setLetters starting on r more

/-- Turns options on or off, as the arguments in front say. -/
def setAll (starting : Bool) : Nat → Reading → Act Reading
  | 0, r => return r
  | n + 1, r => do
    match r.rest with
    | [] => return r
    | first :: rest =>
      match first.toList with
      | ['-'] =>
        if !starting then
          modify (set false 'x')
          modify (set false 'v')
        return { r with rest := rest, replaces := !rest.isEmpty }
      | ['-', '-'] => return { r with rest := rest, replaces := true }
      | '-' :: letters =>
        setAll starting n (← setLetters starting true { r with rest := rest } letters)
      | '+' :: letters =>
        setAll starting n (← setLetters starting false { r with rest := rest } letters)
      | _ => return { r with replaces := true }

end ShellOption

end ProjectBuild.Shell
