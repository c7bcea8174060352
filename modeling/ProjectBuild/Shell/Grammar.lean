import ProjectBuild.Shell.Lexer
import ProjectBuild.Shell.Search

/-!
# The grammar of the shell

Commands are recognized in the tokens of a script, one complete command at a time: the rest of the
script may be read in another way once that command has run.
-/

namespace ProjectBuild.Shell

namespace Reader

/-- How far a list of commands goes. -/
inductive Extent where
  /-- To the end of a line. -/
  | line
  /-- To a token that closes it, behind one command at least. -/
  | some
  /-- To a token that closes it. -/
  | any
  deriving DecidableEq, Repr

/-- What is read with the help of the tokens of a script. -/
structure Grammar where
  token : Attention → Reader Token
  documents : Reader Unit

/-- One command after another, if there is one before. -/
def joined (first : Option Command) (second : Command) : Command :=
  match first with
  | none => second
  | some first => .join .sequence first second

/-- A command that runs while the script goes on. -/
def inBackground (c : Command) : Command :=
  .background c

/-- Where a command begins. -/
def atCommand : Attention := { keywords := true, aliases := true }

def atCommandBelow : Attention := { atCommand with skipsNewlines := true }

/-- Reads this keyword. -/
def keyword (g : Grammar) (text : String) (attention : Attention := {}) : Reader Unit := do
  let found ← g.token attention
  if found.isKeyword text then return
  else refuseToken found (some ("\"" ++ text ++ "\""))

/-- Reads this operator. -/
def sign (g : Grammar) (text : String) : Reader Unit := do
  let found ← g.token {}
  if found.isOperator text then return
  else refuseToken found (some ("\"" ++ text ++ "\""))

/-! ## Redirections -/

/-- What a descriptor is copied from, as far as a word says without being expanded. -/
def copyOf (descriptor : Nat) (w : Word) : Redirect :=
  match plainText? w with
  | some "-" => .copy descriptor none
  | some text =>
    match text.toList with
    | [c] => if c.isDigit then .copy descriptor (some (c.toNat - '0'.toNat))
      else .copyNamed descriptor w
    | _ => .copyNamed descriptor w
  | none => .copyNamed descriptor w

/-- The characters of a word, quoted or not. -/
def charsOf (w : Word) : List Char :=
  w.filterMap fun
    | .char c _ => some c
    | _ => none

/-- Reads what a redirection goes to. -/
def redirectTarget (g : Grammar) (descriptor : Option Nat) (sign : String) : Reader Redirect := do
  let isDocument := sign == "<<" || sign == "<<-"
  let found ← g.token { plain := isDocument }
  match found with
  | .word w quoted =>
    let input := descriptor.getD 0
    let output := descriptor.getD 1
    match sign with
    | "<" => return .open input .input w
    | "<>" => return .open input .both w
    | ">" => return .open output .output w
    | ">|" => return .open output .overwrite w
    | ">>" => return .open output .append w
    | "<&" => return copyOf input w
    | ">&" => return copyOf output w
    | _ =>
      let s ← get
      let awaited : AwaitedDocument :=
        ⟨s.nextDocument, String.ofList (charsOf w), sign == "<<-", quoted⟩
      set { s with awaited := s.awaited ++ [awaited], nextDocument := s.nextDocument + 1 }
      return .document input s.nextDocument
  | t => refuseToken t none

/-- Reads redirections as long as there are any. -/
def redirects (g : Grammar) : Nat → Attention → Reader (List Redirect)
  | 0, _ => return []
  | n + 1, attention => do
    match ← g.token attention with
    | .redirect descriptor sign =>
      let first ← redirectTarget g descriptor sign
      return first :: (← redirects g n attention)
    | t =>
      pushToken t
      return []

/-! ## Simple commands -/

/-- The pieces of a simple command so far. -/
structure Pieces where
  assignments : List Word := []
  words : List Word := []
  redirects : List Redirect := []

/-- The name of the function that is defined, if an opening parenthesis follows some pieces. -/
def Pieces.functionName? (p : Pieces) : Option Word :=
  match p.assignments, p.words, p.redirects with
  | [], [w], [] => some w
  | _, _, _ => none

/-- Reads the pieces of a simple command, or the definition of a function, whose body `command`
reads. -/
def simple (g : Grammar) (command : Attention → Reader Command) (line : Nat) :
    Nat → Pieces → Reader Command
  | 0, _ => return .nothing
  | n + 1, p => do
    let found ← g.token { aliases := p.words.isEmpty }
    let done : Reader Command := do
      pushToken found
      return .simple line p.assignments p.words p.redirects
    match found with
    | .word w _ =>
      -- behind the name of the command, an assignment is an argument
      if p.words.isEmpty && (assignment? w).isSome then
        simple g command line n { p with assignments := p.assignments ++ [w] }
      else simple g command line n { p with words := p.words ++ [w] }
    | .redirect descriptor sign =>
      let r ← redirectTarget g descriptor sign
      simple g command line n { p with redirects := p.redirects ++ [r] }
    | .operator "(" =>
      match p.functionName? with
      | none => done
      | some w =>
        sign g ")"
        let name := (plainText? w).getD ""
        if !isName name || specialBuiltins.contains name then refuse "Bad function name"
        else
          let line := (← get).line
          return .define line name (← command atCommandBelow)
    | _ => done

/-! ## Compound commands -/

/-- Reads the words of a loop, up to the end of the line or a semicolon. -/
def loopWords (g : Grammar) : Nat → Reader (List Word)
  | 0 => return []
  | n + 1 => do
    match ← g.token {} with
    | .word w _ => return w :: (← loopWords g n)
    | .newline => return []
    | .operator ";" => return []
    | t => refuseToken t none

/-- All arguments, each a word of its own. -/
def everyArgument : Word :=
  [.parameter true "@" .value false []]

/-- Reads the words that a loop goes through. -/
def loopRange (g : Grammar) : Reader (List Word) := do
  let found ← g.token atCommandBelow
  if found.isKeyword "in" then loopWords g (← room)
  else
    if !found.isOperator ";" then pushToken found
    return [everyArgument]

/-- The word that a token in the place of a pattern is. -/
def patternOf : Token → Word
  | .word w _ => w
  | .keyword text => text.toList.map fun c => .char c .none
  | _ => []

/-- Reads the patterns of an arm, the first of which has been read. -/
def patterns (g : Grammar) : Nat → Token → Reader (List Word)
  | 0, _ => return []
  | n + 1, first => do
    let behind ← g.token {}
    if behind.isOperator "|" then
      return patternOf first :: (← patterns g n (← g.token {}))
    else if behind.isOperator ")" then return [patternOf first]
    else refuseToken behind (some "\")\"")

/-- Reads the arms of a selection, up to the keyword that ends it. -/
def arms (g : Grammar) (list : Extent → Reader Command) : Nat → Reader Arms
  | 0 => return []
  | n + 1 => do
    let between : Attention := { keywords := true, skipsNewlines := true }
    let found ← g.token between
    if found.isKeyword "esac" then return []
    else
      let first ← if found.isOperator "(" then g.token {} else pure found
      let alternatives ← patterns g (← room) first
      let body ← list .any
      let behind ← g.token between
      if behind.isKeyword "esac" then return [(alternatives, body)]
      else if behind.isOperator ";;" then return (alternatives, body) :: (← arms g list n)
      else refuseToken behind (some "\";;\"")

/-- Reads what stands behind `if` or `elif`. -/
def branch (g : Grammar) (list : Extent → Reader Command) : Nat → Reader Command
  | 0 => return .nothing
  | n + 1 => do
    let condition ← list .some
    keyword g "then"
    let body ← list .some
    let found ← g.token {}
    if found.isKeyword "elif" then return .branch condition body (← branch g list n)
    else if found.isKeyword "else" then return .branch condition body (← list .some)
    else
      pushToken found
      return .branch condition body .nothing

/-- A command with redirections, if there are any. -/
def withRedirects (line : Nat) (c : Command) (redirects : List Redirect) : Command :=
  if redirects.isEmpty then c
  else match c with
    | .subshell line inner _ => .subshell line inner redirects
    | c => .redirected line c redirects

/-- Reads a command. `list` reads the lists of commands in it. -/
def command (g : Grammar) (list : Extent → Reader Command) :
    Nat → Attention → Reader Command
  | 0, _ => return .nothing
  | n + 1, attention => do
    let line := (← get).line
    let found ← g.token attention
    -- redirections may stand behind the last word of a compound command
    let closed (c : Command) (last : Reader Unit) : Reader Command := do
      last
      return withRedirects line c (← redirects g (← room) atCommand)
    match found with
    | .keyword "if" => closed (← branch g list (← room)) (keyword g "fi")
    | .keyword "while" =>
      let condition ← list .some
      keyword g "do"
      closed (.loop .while condition (← list .some)) (keyword g "done")
    | .keyword "until" =>
      let condition ← list .some
      keyword g "do"
      closed (.loop .until condition (← list .some)) (keyword g "done")
    | .keyword "for" =>
      let name := match ← g.token {} with
        | .word w false => (plainText? w).getD ""
        | _ => ""
      if !isName name then refuse "Bad for loop variable"
      else
        let words ← loopRange g
        keyword g "do" atCommandBelow
        closed (.each line name words (← list .some)) (keyword g "done")
    | .keyword "case" =>
      match ← g.token {} with
      | .word subject _ =>
        keyword g "in" atCommandBelow
        closed (.select line subject (← arms g list (← room))) (pure ())
      | t => refuseToken t (some "word")
    | .keyword "\x7b" => closed (← list .some) (keyword g "\x7d")
    | .operator "(" => closed (.subshell line (← list .some) []) (sign g ")")
    | .word _ _ =>
      pushToken found
      simple g (command g list n) (← get).line (← room) {}
    | .redirect _ _ =>
      pushToken found
      simple g (command g list n) (← get).line (← room) {}
    | t => refuseToken t none

/-! ## Lists -/

/-- Reads the commands behind the first one of a pipeline. -/
def pipelineRest (g : Grammar) (command : Attention → Reader Command) :
    Nat → Reader (List Command)
  | 0 => return []
  | n + 1 => do
    let found ← g.token {}
    if found.isOperator "|" then
      let next ← command atCommandBelow
      return next :: (← pipelineRest g command n)
    else
      pushToken found
      return []

/-- Reads a pipeline, which can be negated. -/
def pipeline (g : Grammar) (command : Attention → Reader Command) (attention : Attention) :
    Reader Command := do
  let found ← g.token attention
  let isNegated := found.isKeyword "!"
  if !isNegated then pushToken found
  let first ← command (if isNegated then atCommand else {})
  let rest ← pipelineRest g command (← room)
  let whole := if rest.isEmpty then first else .pipeline (first :: rest)
  return if isNegated then .negated whole else whole

/-- Reads what is joined to a command by what its status decides. -/
def andOrRest (g : Grammar) (command : Attention → Reader Command) :
    Nat → Command → Reader Command
  | 0, first => return first
  | n + 1, first => do
    let found ← g.token {}
    let more (how : Junction) : Reader Command := do
      andOrRest g command n (.join how first (← pipeline g command atCommandBelow))
    if found.isOperator "&&" then more .both
    else if found.isOperator "||" then more .either
    else
      pushToken found
      return first

/-- What follows a list of commands. -/
inductive Read where
  /-- Some commands, or none where a line is empty. -/
  | commands (c : Option Command)
  /-- There is nothing more to read. -/
  | nothingMore

/-- Reads a list of commands. `again` says that one has been read before. -/
def listFrom (g : Grammar) (command : Attention → Reader Command) (extent : Extent) :
    Nat → Option Command → Reader Read
  | 0, found => return .commands found
  | n + 1, before => do
    let isLine := extent = .line
    let first ← g.token { atCommand with skipsNewlines := !isLine }
    -- the end of the text is left for whoever reads on
    let ended : Reader Read := do
      g.documents
      pushToken .endOfText
      return if before.isNone && isLine then .nothingMore else .commands before
    match first with
    | .newline =>
      g.documents
      return .commands before
    | .endOfText => ended
    | first =>
      pushToken first
      if first.closes && !isLine && (extent = .any || before.isSome) then
        return .commands before
      else
        let whole ← andOrRest g command (← room) (← pipeline g command {})
        let behind ← g.token {}
        let isBackground := behind.isOperator "&"
        let commands := joined before (if isBackground then inBackground whole else whole)
        match behind with
        | .endOfText =>
          g.documents
          pushToken .endOfText
          return .commands (some commands)
        | .newline =>
          pushToken .newline
          listFrom g command extent n (some commands)
        | behind =>
          if isBackground || behind.isOperator ";" then
            listFrom g command extent n (some commands)
          else if isLine then refuseToken behind none
          else
            pushToken behind
            return .commands (some commands)

/-- The commands that have been read. -/
def Read.command : Read → Command
  | .commands (some c) => c
  | _ => .nothing

mutual

/-- How scripts nested at most so deep are read. -/
def grammar : Nat → Grammar
  | 0 => ⟨fun _ => return .endOfText, return⟩
  | n + 1 =>
    let inside := do
      -- Documents of the script around are read later.
      let awaited := (← get).awaited
      modify fun s => { s with awaited := [] }
      let commands ← listOf n .any
      sign (grammar n) ")"
      (grammar n).documents
      modify fun s => { s with awaited := awaited }
      return commands
    let script := do
      let awaited := (← get).awaited
      modify fun s => { s with awaited := [] }
      let commands ← listOf n .any
      (grammar n).documents
      modify fun s => { s with awaited := awaited }
      return commands
    ⟨token inside script, readDocuments inside script⟩

/-- Reads a list of commands that are nested at most so deep. -/
def listOf : Nat → Extent → Reader Command
  | 0, _ => return .nothing
  | n + 1, extent => do
    let nested := listOf n
    let read ← listFrom (grammar n) (command (grammar n) nested (← room)) extent (← room) none
    return read.command

end

/-- Scripts are nested no deeper than this. -/
def nestingLimit : Nat := 100000

/-- Reads the next complete command, if there is any more to read. -/
def completeCommand : Reader (Option Command) := do
  modify fun s => { s with pushed := none, awaited := [] }
  let g := grammar nestingLimit
  match ← listFrom g (command g (listOf nestingLimit) (← room)) .line (← room) none with
  | .nothingMore => return none
  | .commands c => return some (c.getD .nothing)

/-- Reads a text to its end in which only what begins with a dollar sign, and commands in
backquotes, stand for something else. -/
def expandable : Reader Word := do
  -- No line of a script holds the character that the mark is made of.
  let document : AwaitedDocument := ⟨0, String.ofList [Char.ofNat 0], false, false⟩
  modify fun s => { s with awaited := [document], documents := [] }
  (grammar nestingLimit).documents
  return ((← get).documents.lookup 0).getD []

end Reader

end ProjectBuild.Shell
