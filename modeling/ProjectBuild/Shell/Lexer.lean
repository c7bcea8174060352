import ProjectBuild.Shell.Source

/-!
# Reading words

A word is read as a flat list of marks, with openings and closings for what can hold words itself,
and then nested. Which characters have a meaning depends on the **manner** of reading: outside of
quotes, in double or single quotes, or in an arithmetic expression. Manners are stacked, because
what stands in braces can be read in another manner than what is around it.
-/

namespace ProjectBuild.Shell

inductive Manner where
  | bare
  | double
  | single
  | arithmetic
  deriving DecidableEq, Repr, Inhabited

/-- What a character does. -/
inductive Role where
  | newline
  | plain
  /-- It would have a meaning if it were not quoted. -/
  | tame
  | backslash
  | openSingle
  | openDouble
  | closeQuote
  | dollar
  | closeBrace
  | openParenthesis
  | closeParenthesis
  | backquote
  /-- It ends a word. -/
  | delimiter
  deriving DecidableEq, Repr, Inhabited

/-- Characters that have a meaning in patterns and at the start of words. -/
def isActive (c : Char) : Bool :=
  "!*?[=~:/-]".toList.contains c

def isDelimiter (c : Char) : Bool :=
  "<>();&| \t".toList.contains c

def Manner.role (manner : Manner) (c : Char) : Role :=
  if c == '\n' then .newline
  else match manner with
    -- between single quotes nothing is special but the closing one
    | .single => if c == '\'' then .closeQuote else if isActive c || c == '\\' then .tame else .plain
    | .bare =>
      match c with
      | '\\' => .backslash
      | '\'' => .openSingle
      | '"' => .openDouble
      | '\x60' => .backquote
      | '$' => .dollar
      | '\x7d' => .closeBrace
      | c => if isDelimiter c then .delimiter else .plain
    | .double =>
      match c with
      | '\\' => .backslash
      | '"' => .closeQuote
      | '\x60' => .backquote
      | '$' => .dollar
      | '\x7d' => .closeBrace
      | c => if isActive c then .tame else .plain
    | .arithmetic =>
      match c with
      | '\\' => .backslash
      | '\x60' => .backquote
      | '$' => .dollar
      | '\x7d' => .closeBrace
      | '(' => .openParenthesis
      | ')' => .closeParenthesis
      | _ => .plain

/-- A piece of a word as it is read. -/
inductive Mark where
  | char (c : Char) (escaped : Bool)
  | quote
  | openParameter (name : String) (use : ParameterUse) (alsoEmpty : Bool)
  | closeParameter
  | output (command : Command)
  | openNumber
  | closeNumber
  deriving Inhabited

/-- A manner of reading, and what is open in it. -/
structure Frame where
  manner : Manner
  /-- Whether double quotes are around. -/
  inDouble : Bool := false
  /-- Braces that are open. -/
  braces : Nat := 0
  /-- Those of them that were opened in double quotes. -/
  doubleBraces : Nat := 0
  /-- Whether double quotes are open inside of braces. -/
  innerDouble : Bool := false
  /-- Whether the manner ends with its first brace. -/
  forBrace : Bool := false
  parentheses : Nat := 0
  deriving Inhabited

/-- A word that is being read. -/
structure Draft where
  frame : Frame
  below : List Frame := []
  /-- The marks so far, the last one first. -/
  marks : List Mark := []
  quoted : Bool := false
  deriving Inhabited

namespace Draft

def put (d : Draft) (mark : Mark) : Draft :=
  { d with marks := mark :: d.marks }

def putChar (d : Draft) (c : Char) (escaped : Bool) : Draft :=
  d.put (.char c escaped)

def setFrame (d : Draft) (change : Frame → Frame) : Draft :=
  { d with frame := change d.frame }

/-- Goes on in another manner, until what is open is closed. -/
def push (d : Draft) (frame : Frame) : Draft :=
  { d with frame := frame, below := d.frame :: d.below }

def pop (d : Draft) : Draft :=
  match d.below with
  | frame :: below => { d with frame := frame, below := below }
  | [] => d

end Draft

/-! ## Nesting -/

/-- Nests marks from some depth on. What is read as one part ends with its closing, or with the
marks; `inQuotes` says whether a quotation mark is open. The marks behind the closing are left. -/
def nest : Nat → Bool → List Mark → Word × List Mark
  | 0, _, marks => ([], marks)
  | _, _, [] => ([], [])
  | n + 1, inQuotes, mark :: rest =>
    let continued (part : Part) (rest : List Mark) : Word × List Mark :=
      let (word, after) := nest n inQuotes rest
      (part :: word, after)
    match mark with
    | .char c escaped =>
      continued (.char c (if inQuotes then .quotes else if escaped then .backslash else .none)) rest
    | .closeParameter => ([], rest)
    | .closeNumber => ([], rest)
    | .output command => continued (.output inQuotes command) rest
    | .openNumber =>
      let (inner, rest) := nest n false rest
      continued (.number inQuotes inner) rest
    | .openParameter name use alsoEmpty =>
      if use = .value && !alsoEmpty then
        continued (.parameter inQuotes name use alsoEmpty []) rest
      else
        let (inner, rest) := nest n false rest
        continued (.parameter inQuotes name use alsoEmpty inner) rest
    | .quote =>
      match inQuotes, rest with
      -- All arguments make no field of their own if there are none.
      | false, .openParameter "@" .value false :: .quote :: rest =>
        continued (.parameter true "@" .value false []) rest
      | _, _ =>
        let (word, after) := nest n (!inQuotes) rest
        (.mark :: word, after)

/-- The word that marks make up. -/
def wordOf (marks : List Mark) : Word :=
  (nest (2 * marks.length + 1) false marks).1

/-! ## Reading -/

/-- How what is read ends: a word at a delimiter, a document at its last line. -/
structure Ending where
  document : Option AwaitedDocument := none
  /-- Whether nothing in the word stands for anything else. -/
  plain : Bool := false

namespace Ending

def isDocument (e : Ending) : Bool :=
  e.document.isSome

end Ending

namespace Reader

/-- Reads the next character in the manner at hand. In single quotes, a backslash continues no
line. -/
def charIn (d : Draft) : Reader (Option Char) :=
  if d.frame.manner = .single then char? else joined?

/-- Skips tabs. -/
def skipTabs : Nat → Reader Unit
  | 0 => return
  | n + 1 => do
    match ← char? with
    | some '\t' => skipTabs n
    | other => unread other

/-- Reads the characters of a line, if they come next and nothing else is on the line. -/
def acceptLine : List Char → Reader Bool
  | [] => do
    match ← char? with
    | none => return true
    | some '\n' =>
      nextLine
      return true
    | other =>
      unread other
      return false
  | c :: rest => do
    match ← char? with
    | some found =>
      if found == c then
        if ← acceptLine rest then return true
        else
          unread (some found)
          return false
      else
        unread (some found)
        return false
    | none => return false

/-- Whether a document ends here; the line that ends it is read. -/
def endsDocument (document : Option AwaitedDocument) : Reader Bool := do
  match document with
  | none => return false
  | some awaited =>
    if awaited.stripsTabs then skipTabs (← room)
    acceptLine awaited.mark.toList

/-- Reads characters as long as they satisfy a condition. -/
def charsWhile (holds : Char → Bool) : Nat → Reader (List Char)
  | 0 => return []
  | n + 1 => do
    match ← joined? with
    | some c =>
      if holds c then return c :: (← charsWhile holds n)
      else
        unread (some c)
        return []
    | none => return []

/-! ### Parameters -/

/-- The use that a sign stands for. -/
def useOf? : Char → Option ParameterUse
  | '\x7d' => some .value
  | '-' => some .orElse
  | '+' => some .andThen
  | '?' => some .require
  | '=' => some .assign
  | _ => none

/-- The name of a parameter in braces; whether its length is asked for; and whether the name is a
good one. `first` is the character that has been read. -/
def bracedName (first : Option Char) : Reader (String × Bool × Bool) := do
  let word (c : Char) : Reader String := do
    if isNameStart c then return String.ofList (c :: (← charsWhile isNameChar (← room)))
    else return String.ofList (c :: (← charsWhile Char.isDigit (← room)))
  match first with
  | none => return ("", false, false)
  | some '\x7d' =>
    unread first
    return ("", false, false)
  -- the parameter `#` itself, or the length of the one named behind it
  | some '#' =>
    match ← joined? with
    | none => return ("#", false, true)
    | some c =>
      if c.isAlphanum || c == '_' then return (← word c, true, true)
      else
        let behind ← joined?
        if c == '\x7d' || behind != some '\x7d' then
          unread behind
          unread (some c)
          return ("#", false, true)
        else
          unread behind
          return (String.ofList [c], true, isSpecialName c)
  | some c =>
    if isNameStart c || c.isDigit then return (← word c, false, true)
    else if isSpecialName c then return (String.ofList [c], false, true)
    else return ("", false, false)

/-- What is done with a parameter whose name has been read. -/
def bracedUse : Reader (ParameterUse × Bool) := do
  let trim (sign : Char) (use : Bool → ParameterUse) : Reader (ParameterUse × Bool) := do
    return (use (← accept sign), false)
  match ← joined? with
  | some '%' => trim '%' .withoutEnd
  | some '#' => trim '#' .withoutStart
  | some ':' =>
    match ← joined? with
    | some c => return ((useOf? c).getD .bad, true)
    | none => return (.bad, true)
  | some c => return ((useOf? c).getD .bad, false)
  | none => return (.bad, false)

/-- Opens a parameter, whose word is read in the manner that its use asks for. -/
def openBrace (d : Draft) (name : String) (use : ParameterUse) (alsoEmpty : Bool) : Draft :=
  let opened := d.put (.openParameter name use alsoEmpty)
  if use = .value && !alsoEmpty then opened
  else
    let manner := match use with
      | .withoutEnd _ => Manner.bare
      | .withoutStart _ => .bare
      | _ => if d.frame.manner = .arithmetic then .double else d.frame.manner
    let opened :=
      if manner != d.frame.manner || d.frame.innerDouble then
        opened.push { manner := manner, forBrace := true, inDouble := manner != .bare }
      else opened
    opened.setFrame fun f => { f with
      braces := f.braces + 1
      doubleBraces := if f.inDouble then f.doubleBraces + 1 else f.doubleBraces }

/-- A parameter in braces. -/
def braced (d : Draft) : Reader Draft := do
  let first ← joined?
  let (name, length, good) ← bracedName first
  if !good then return openBrace d name .bad false
  else if length then
    match ← joined? with
    | some '\x7d' =>
      unread (some '\x7d')
      return openBrace d name .length false
    | other =>
      unread other
      return openBrace d name .bad false
  else
    let (use, alsoEmpty) ← bracedUse
    return openBrace d name use alsoEmpty

/-! ### Substitutions -/

/-- The text up to the closing backquote. A backslash in front of a character that has a meaning
there is left out. -/
def backquoted (inDouble : Bool) : Nat → Reader (List Char)
  | 0 => refuse "EOF in backquote substitution"
  | n + 1 => do
    match ← joined? with
    | none => refuse "EOF in backquote substitution"
    | some '\x60' => return []
    | some '\\' =>
      match ← char? with
      | none => backquoted inDouble n
      | some c =>
        let quoted := c == '\\' || c == '\x60' || c == '$' || (inDouble && c == '"')
        let rest ← backquoted inDouble n
        return if quoted then c :: rest else '\\' :: c :: rest
    | some c =>
      if c == '\n' then nextLine
      return c :: (← backquoted inDouble n)

/-- Reads another text with a reader of its own; the line it is on does not count. -/
def readApart {α : Type} (text : List Char) (read : Reader α) : Reader α := do
  let s ← get
  set { s with
    sources := [{ rest := text }], room := text.length + 8, line := 1, pushed := none }
  let result ← read
  modify fun after => { after with
    sources := s.sources, room := s.room, line := s.line, pushed := s.pushed
    passedOn := s.passedOn }
  return result

/-- What stands behind a dollar sign. `commands` reads the commands in parentheses, and `script`
those of a whole text. -/
def dollar (commands : Reader Command) (ending : Ending) (d : Draft) : Reader Draft := do
  let c? ← joined?
  let literal : Reader Draft := do
    unread c?
    return d.putChar '$' false
  match c? with
  | none => literal
  | some c =>
    if ending.plain then literal
    else if c == '(' then
      if ← accept '(' then
        return (d.put .openNumber).push { manner := .arithmetic, inDouble := true }
      else return d.put (.output (← commands))
    else if c == '\x7b' then braced d
    else if isNameStart c then
      let rest ← charsWhile isNameChar (← room)
      return d.put (.openParameter (String.ofList (c :: rest)) .value false)
    else if isSpecialName c then
      return d.put (.openParameter (String.ofList [c]) .value false)
    else literal

/-! ### Words -/

/-- What a backslash does: it quotes the next character, or stands for itself. -/
def backslash (ending : Ending) (d : Draft) : Reader Draft := do
  match ← char? with
  | none => return d.putChar '\\' true
  | some c =>
    let f := d.frame
    let means :=
      !f.inDouble || c == '\\' || c == '\x60' || c == '$' ||
      (c == '"' && !(ending.isDocument && f.braces == 0)) || (c == '\x7d' && f.braces != 0)
    let d := if means then d else d.putChar '\\' true
    return { d.putChar c true with quoted := true }

/-- A mark for a quotation mark; documents have none. -/
def quoteMark (ending : Ending) (d : Draft) : Draft :=
  if ending.isDocument then d else d.put .quote

/-- Turns quotes inside of braces on or off. -/
def toggleInner (d : Draft) : Draft :=
  if d.frame.braces = 0 then d
  else d.setFrame fun f => { f with innerDouble := !f.innerDouble }

/-- What a closing quotation mark does. -/
def closeQuote (ending : Ending) (c : Char) (d : Draft) : Draft :=
  if ending.isDocument && d.frame.braces = 0 then d.putChar c false
  else
    let d := if d.frame.doubleBraces = 0
      then d.setFrame fun f => { f with manner := .bare, inDouble := false } else d
    let d := { d with quoted := true }
    quoteMark ending (if c == '"' then toggleInner d else d)

/-- What a closing brace does. -/
def closeBrace (c : Char) (d : Draft) : Draft :=
  let f := d.frame
  if f.innerDouble || f.braces = 0 then d.putChar c false
  else
    let closed := d.setFrame fun f => { f with braces := f.braces - 1 }
    (if f.braces = 1 && f.forBrace then closed.pop
      else closed.setFrame fun f => { f with doubleBraces := f.doubleBraces - 1 }).put
      .closeParameter

/-- What a closing parenthesis does in an arithmetic expression. -/
def closeParenthesis (d : Draft) : Reader Draft := do
  if d.frame.parentheses != 0 then
    return (d.putChar ')' false).setFrame fun f => { f with parentheses := f.parentheses - 1 }
  else if ← accept ')' then return (d.put .closeNumber).pop
  else return d.putChar ')' false

/-- Reads the rest of a word or document. `script` reads the commands of a whole text. -/
def restOfWord (commands script : Reader Command) (ending : Ending) :
    Nat → Draft → Reader Draft
  | 0, d => return d
  | n + 1, d => do
    match ← charIn d with
    | none => return d
    | some c =>
      let more (d : Draft) : Reader Draft := restOfWord commands script ending n d
      match d.frame.manner.role c with
      | .newline =>
        -- outside quotes and braces a word ends with the line
        if d.frame.manner = .bare && d.frame.braces = 0 then
          unread (some c)
          return d
        else
          nextLine
          let d := d.putChar c false
          if ← endsDocument ending.document then return d else more d
      | .plain => more (d.putChar c false)
      | .tame => more (d.putChar c (!ending.isDocument || d.frame.inDouble))
      | .backslash => more (← backslash ending d)
      | .openSingle => more (quoteMark ending (d.setFrame fun f => { f with manner := .single }))
      | .openDouble =>
        let opened := d.setFrame fun f => { f with manner := .double, inDouble := true }
        more (quoteMark ending (toggleInner opened))
      | .closeQuote => more (closeQuote ending c d)
      | .dollar => more (← dollar commands ending d)
      | .closeBrace => more (closeBrace c d)
      | .openParenthesis =>
        more ((d.putChar c false).setFrame fun f => { f with parentheses := f.parentheses + 1 })
      | .closeParenthesis => more (← closeParenthesis d)
      | .backquote =>
        if ending.plain then more { d.putChar c false with quoted := true }
        else
          let text ← backquoted d.frame.inDouble (← room)
          more (d.put (.output (← readApart text script)))
      | .delimiter =>
        if d.frame.braces = 0 then
          unread (some c)
          return d
        else more (d.putChar c false)

/-- Reads a word or a document, and says whether any part of it is quoted. -/
def word (commands script : Reader Command) (ending : Ending) (manner : Manner) :
    Reader (Word × Bool) := do
  let start : Draft := { frame := { manner := manner, inDouble := manner = .double } }
  let d ← if ← endsDocument ending.document then pure start
    else restOfWord commands script ending (← room) start
  if d.frame.manner = .arithmetic then refuse "Missing '))'"
  else if d.frame.manner != .bare && !ending.isDocument then refuse "Unterminated quoted string"
  else if d.frame.braces != 0 then refuse "Missing '\x7d'"
  else return (wordOf d.marks.reverse, d.quoted)

/-- Reads the documents that are awaited, once a line has ended. -/
def readDocuments (commands script : Reader Command) : Reader Unit := do
  let awaited := (← get).awaited
  modify fun s => { s with awaited := [] }
  awaited.forM fun document => do
    let manner := if document.literal then Manner.single else .double
    let (w, _) ← word commands script { document := some document } manner
    modify fun s => { s with documents := (document.number, w) :: s.documents }

/-! ### Tokens -/

/-- What the reader looks for. -/
structure Attention where
  skipsNewlines : Bool := false
  keywords : Bool := false
  aliases : Bool := false
  /-- Whether nothing in a word is to be expanded. -/
  plain : Bool := false

/-- Skips a comment, up to the end of its line. -/
def skipComment : Nat → Reader Unit
  | 0 => return
  | n + 1 => do
    match ← char? with
    | none => return
    | some '\n' => unread (some '\n')
    | some _ => skipComment n

/-- The redirection that a sign begins. -/
def redirection (descriptor : Option Nat) (sign : Char) : Reader Token := do
  let followers := if sign == '>' then ['>', '|', '&'] else ['<', '&', '>']
  match ← joined? with
  | some c =>
    if followers.contains c then
      if sign == '<' && c == '<' then
        return .redirect descriptor (if ← accept '-' then "<<-" else "<<")
      else return .redirect descriptor (String.ofList [sign, c])
    else
      unread (some c)
      return .redirect descriptor (String.ofList [sign])
  | none => return .redirect descriptor (String.ofList [sign])

/-- The descriptor that a word in front of a redirection names. -/
def descriptorOf? (w : Word) (quoted : Bool) : Option (Option Nat) :=
  if quoted then none
  else match w with
    | [] => some none
    | [.char c .none] => if c.isDigit then some (some (c.toNat - '0'.toNat)) else none
    | _ => none

/-- Reads a word, or the redirection that it names the descriptor of. -/
def wordToken (commands script : Reader Command) (attention : Attention) : Reader Token := do
  let (w, quoted) ← word commands script { plain := attention.plain } .bare
  match ← peek?, descriptorOf? w quoted with
  | some c, some descriptor =>
    if c == '<' || c == '>' then
      let _ ← char?
      redirection descriptor c
    else return .word w quoted
  | _, _ => return .word w quoted

/-- An operator of one sign, or of that sign twice. -/
def doubled (sign : Char) : Reader Token := do
  if ← accept sign then return .operator (String.ofList [sign, sign])
  else return .operator (String.ofList [sign])

/-- Reads a token behind blanks and comments. -/
def freshToken (commands script : Reader Command) (attention : Attention) : Nat → Reader Token
  | 0 => return .endOfText
  | n + 1 => do
    match ← joined? with
    | none => return .endOfText
    | some c =>
      if isBlank c then freshToken commands script attention n
      else match c with
        | '#' =>
          skipComment (← room)
          freshToken commands script attention n
        | '\n' =>
          nextLine
          return .newline
        | '&' => doubled '&'
        | '|' => doubled '|'
        | ';' => doubled ';'
        | '(' => return .operator "("
        | ')' => return .operator ")"
        | c =>
          unread (some c)
          wordToken commands script attention

/-- The token that is to be read again, or a fresh one. -/
def someToken (commands script : Reader Command) (attention : Attention) : Reader Token := do
  match (← get).pushed with
  | some t =>
    modify fun s => { s with pushed := none }
    return t
  | none => freshToken commands script attention (← room)

/-- Reads a token behind newlines. -/
def pastNewlines (commands script : Reader Command) (attention : Attention) :
    Nat → Reader Token
  | 0 => return .endOfText
  | n + 1 => do
    match ← someToken commands script attention with
    | .newline =>
      if attention.skipsNewlines then
        readDocuments commands script
        pastNewlines commands script attention n
      else return .newline
    | t => return t

/-- The value of an alias that is not being read already. -/
def aliasValue? (s : ReaderState) (text : String) : Option String :=
  let isBeingRead (source : Source) : Bool :=
    source.alias? == some text || source.held.contains text
  if s.ended.contains text || s.sources.any isBeingRead then none
  else s.aliases.lookup text

/-- Reads a token. Aliases are replaced at most so many times. -/
def tokenUpTo (commands script : Reader Command) : Nat → Attention → Reader Token
  | 0, _ => return .endOfText
  | n + 1, attention => do
    let found ← pastNewlines commands script attention (← room)
    let s ← get
    set { s with passedOn := false }
    match found with
    | .word w false =>
      match plainText? w with
      | none => return found
      | some text =>
        if attention.keywords && keywords.contains text then return .keyword text
        else if attention.aliases || s.passedOn then
          match aliasValue? s text with
          | some value =>
            -- an alias that ends in a blank has the next word looked up as well
            let passesOn := (value.toList.getLast?).any isBlank
            modify fun s => { s with
              sources := ⟨value.toList, some text, s.ended, passesOn⟩ :: s.sources
              room := s.room + value.length
              ended := [] }
            tokenUpTo commands script n { attention with aliases := true }
          | none => return found
        else return found
    | t => return t

/-- So many aliases can stand in front of a word. -/
def aliasLimit : Nat := 1000

def token (commands script : Reader Command) (attention : Attention) : Reader Token :=
  tokenUpTo commands script aliasLimit attention

/-- Puts a token back, to be read again. -/
def pushToken (t : Token) : Reader Unit :=
  modify fun s => { s with pushed := some t }

end Reader

end ProjectBuild.Shell
