import ProjectBuild.Console.Plain
import ProjectBuild.FileSystem.Basic
import ProjectBuild.Process.Basic
import ProjectBuild.Regex.Meaning
import ProjectBuild.Text.Wordy

/-!
# The log on the console

Which log messages are shown, and how. A filter is a list of directives: a level for everything,
or for the parts of the program whose names begin in some way. Of those that apply to a message
the one with the longest name decides. Behind a slash, a filter can give a pattern that messages
must match.
-/

namespace ProjectBuild

namespace LogFilter

/-- The most detailed level that is shown; nothing is, if there is none. -/
abbrev Threshold := Option LogLevel

/-- A directive for the sources whose names begin with a text; for all, if there is none. -/
structure Directive where
  source : Option String
  threshold : Threshold
  deriving DecidableEq, Repr, Inhabited

/-- The threshold that a word names, in any case of letters. -/
def threshold? (word : String) : Option Threshold :=
  match word.toLower with
  | "off" => some none
  | "error" => some (some .error)
  | "warn" => some (some .warn)
  | "info" => some (some .info)
  | "debug" => some (some .debug)
  | "trace" => some (some .trace)
  | _ => none

/-- A text cut at every occurrence of a character. -/
def splitAt (mark : Char) : List Char → List (List Char)
  | [] => [[]]
  | c :: rest =>
    if c = mark then [] :: splitAt mark rest
    else match splitAt mark rest with
      | [] => [[c]]
      | part :: parts => (c :: part) :: parts

/-- A text without blanks at its ends. -/
def trim (chars : List Char) : List Char :=
  ((chars.dropWhile Text.isBlank).reverse.dropWhile Text.isBlank).reverse

/-- The directive in one item of a filter, or the part that is wrong. -/
def directive (item : List Char) : Except String Directive :=
  match splitAt '=' item with
  | [word] =>
    match threshold? (String.ofList word) with
    | some threshold => .ok ⟨none, threshold⟩
    | none => .ok ⟨some (String.ofList word), some .trace⟩
  | [source, word] =>
    let word := trim word
    if word.isEmpty then .ok ⟨some (String.ofList source), some .trace⟩
    else match threshold? (String.ofList word) with
      | some threshold => .ok ⟨some (String.ofList source), threshold⟩
      | none => .error (String.ofList word)
  | _ => .error (String.ofList item)

end LogFilter

structure LogFilter where
  directives : List LogFilter.Directive
  /-- A pattern that messages must match. -/
  pattern : Option Regex.Pattern := none
  deriving Inhabited

namespace LogFilter

/-- Adds a directive, in place of one for the same sources. -/
def add (directives : List Directive) (d : Directive) : List Directive :=
  if directives.any fun other => other.source == d.source then
    directives.map fun other => if other.source == d.source then d else other
  else directives ++ [d]

/-- The directives of the items that have one, and a warning for each other. -/
def collect (directives : List Directive) : List (List Char) → List Directive × List String
  | [] => (directives, [])
  | item :: rest =>
    let item := trim item
    if item.isEmpty then collect directives rest
    else match directive item with
      | .ok d => collect (add directives d) rest
      | .error part =>
        let (found, warnings) := collect directives rest
        (found, ("invalid logging spec '" ++ part ++ "'") :: warnings)

/-- A filter without directives shows errors. -/
def ofDirectives (directives : List Directive) (pattern : Option Regex.Pattern) : LogFilter :=
  ⟨if directives.isEmpty then [⟨none, some .error⟩] else directives, pattern⟩

/-- The filter in a text, and warnings about what is wrong in it. -/
def ofText (text : String) : LogFilter × List String :=
  match splitAt '/' text.toList with
  | [items] =>
    let (directives, warnings) := collect [] (splitAt ',' items)
    (ofDirectives directives none, warnings)
  | [items, pattern] =>
    let (directives, warnings) := collect [] (splitAt ',' items)
    match Regex.Pattern.ofText (String.ofList pattern) with
    | .ok pattern => (ofDirectives directives (some pattern), warnings)
    | .error problem =>
      (ofDirectives directives none, warnings ++ ["invalid regex filter - " ++ problem])
  | _ => (ofDirectives [] none, ["invalid logging spec '" ++ text ++ "' (too many '/'s)"])

/-- Whether a directive is about a source. -/
def Directive.covers (d : Directive) (source : String) : Bool :=
  match d.source with
  | none => true
  | some name => name.toList.isPrefixOf source.toList

/-- How closely a directive names its sources. -/
def Directive.weight (d : Directive) : Nat :=
  (d.source.map String.utf8ByteSize).getD 0

/-- The directive that decides about a source: the last of those with the longest name. -/
def decisive? (filter : LogFilter) (source : String) : Option Directive :=
  (filter.directives.filter fun d => d.covers source).foldl
    (fun best d =>
      match best with
      | some b => if b.weight ≤ d.weight then some d else some b
      | none => some d)
    none

/-- Whether a message is shown. -/
def shows (filter : LogFilter) (notice : Notice) : Bool :=
  (match filter.decisive? notice.source with
    | some ⟨_, some threshold⟩ => decide (notice.level.severity ≤ threshold.severity)
    | _ => false) &&
  (match filter.pattern with
    | some pattern => pattern.isMatch notice.message
    | none => true)

end LogFilter

/-! ## Lines -/

/-- How log lines are written. -/
structure LogStyle where
  color : Bool
  deriving DecidableEq, Repr, Inhabited

namespace LogStyle

def isSet (env : Environment) (name : String) : Bool :=
  match env.lookup name with
  | some value => value ≠ ""
  | none => false

/-- Log lines that do not go to a terminal are colored only if the environment forces it. -/
def ofEnvironment (env : Environment) : LogStyle :=
  match env.lookup "RUST_LOG_STYLE" with
  | some "always" => ⟨true⟩
  | some "never" => ⟨false⟩
  | _ => ⟨!isSet env "NO_COLOR" && isSet env "CLICOLOR_FORCE"⟩

/-- The modes of display of a level. -/
def modesOf : LogLevel → List Nat
  | .error => [1, 31]
  | .warn => [33]
  | .info => [32]
  | .debug => [34]
  | .trace => [36]

/-- Text in some modes of display. -/
def styled (style : LogStyle) (modes : List Nat) (text : String) : String :=
  if style.color then
    String.join (modes.map fun mode => "\x1b[" ++ toString mode ++ "m") ++ text ++ "\x1b[0m"
  else text

/-- A message whose lines but the first are indented. -/
def indented (message : String) : String :=
  "\n    ".intercalate ((LogFilter.splitAt '\n' message.toList).map String.ofList)

/-- The name of a level, at the width of the longest. -/
def levelName (level : LogLevel) : String :=
  level.name ++ String.ofList (List.replicate (5 - level.name.length) ' ')

/-- The line of a message. Without color there are no control sequences in it, whatever the
message holds. -/
def line (style : LogStyle) (notice : Notice) : String :=
  let text :=
    style.styled [90] "[" ++ style.styled (modesOf notice.level) (levelName notice.level) ++ " " ++
      notice.source ++ style.styled [90] "]" ++ " " ++ indented notice.message ++ "\n"
  if style.color then text else Plain.ofText text

end LogStyle

end ProjectBuild
