/-!
# Text without control sequences

What is left of a text when it goes somewhere that is no terminal: characters and line ends stay,
other controls and the sequences that an escape character opens are dropped. The states are those
of a terminal that reads the text. A blank control inside a sequence is kept, and what follows it
is kept too, up to the next control; only then is the sequence gone on with.
-/

namespace ProjectBuild.Plain

/-- What a terminal is in the middle of. -/
inductive State where
  | ground
  | escape
  | escapeIntermediate
  /-- Behind `ESC [`. -/
  | control
  | controlParameter
  | controlIntermediate
  | controlIgnored
  /-- Behind `ESC P`. -/
  | device
  | deviceParameter
  | deviceIntermediate
  | deviceIgnored
  | deviceData
  /-- Behind `ESC ]`. -/
  | command
  /-- Behind `ESC X`, `ESC ^` or `ESC _`. -/
  | privateData
  deriving DecidableEq, Repr, Inhabited

/-- What a character does, apart from the change of state. -/
inductive Effect where
  /-- It is shown. -/
  | show
  /-- It is a control that is carried out at once. -/
  | perform
  | nothing
  deriving DecidableEq, Repr, Inhabited

namespace State

def within (c : Char) (low high : Nat) : Bool :=
  decide (low ≤ c.toNat) && decide (c.toNat ≤ high)

/-- Controls that do not change the state. -/
def isPlainControl (c : Char) : Bool :=
  decide (c.toNat < 0x20)

/-- The state behind `ESC` and a character. -/
def afterEscape (c : Char) : State :=
  match c with
  | '[' => .control
  | ']' => .command
  | 'P' => .device
  | 'X' => .privateData
  | '^' => .privateData
  | '_' => .privateData
  | _ => .ground

/-- The next state of those that begin as `ESC [` does. -/
def inControl (s : State) (c : Char) : State :=
  if within c 0x40 0x7E then .ground
  else if within c 0x20 0x2F then if s = .controlIgnored then s else .controlIntermediate
  else if within c 0x30 0x3F then
    match s with
    | .control => .controlParameter
    | .controlParameter => if within c 0x3C 0x3F then .controlIgnored else s
    | _ => .controlIgnored
  else s

/-- The next state of those that begin as `ESC P` does. -/
def inDevice (s : State) (c : Char) : State :=
  if within c 0x40 0x7E then .deviceData
  else if within c 0x20 0x2F then .deviceIntermediate
  else if within c 0x30 0x3F then
    match s with
    | .device => .deviceParameter
    | .deviceParameter => if within c 0x3C 0x3F then .deviceIgnored else s
    | _ => .deviceIgnored
  else s

/-- What a character does in a state. -/
def step (s : State) (c : Char) : State × Effect :=
  -- these end any sequence, wherever it stands
  if c = '\x18' || c = '\x1a' then (.ground, .perform)
  else if c = '\x1b' then (.escape, .nothing)
  else match s with
    | .ground =>
      (s, if isPlainControl c then .perform else if c = '\x7f' then .nothing else .show)
    | .escape =>
      if isPlainControl c then (s, .perform)
      else if within c 0x20 0x2F then (.escapeIntermediate, .nothing)
      else if within c 0x30 0x7E then (afterEscape c, .nothing)
      else (s, .nothing)
    | .escapeIntermediate =>
      if isPlainControl c then (s, .perform)
      else if within c 0x30 0x7E then (.ground, .nothing)
      else (s, .nothing)
    | .control => if isPlainControl c then (s, .perform) else (s.inControl c, .nothing)
    | .controlParameter => if isPlainControl c then (s, .perform) else (s.inControl c, .nothing)
    | .controlIntermediate => if isPlainControl c then (s, .perform) else (s.inControl c, .nothing)
    | .controlIgnored => if isPlainControl c then (s, .perform) else (s.inControl c, .nothing)
    | .device => (s.inDevice c, .nothing)
    | .deviceParameter => (s.inDevice c, .nothing)
    | .deviceIntermediate => (s.inDevice c, .nothing)
    | .command => (if c = '\x07' then .ground else s, .nothing)
    | .deviceIgnored => (s, .nothing)
    | .deviceData => (s, .nothing)
    | .privateData => (s, .nothing)

end State

/-- Blank characters that are kept where controls are carried out. -/
def isKeptControl (c : Char) : Bool :=
  c = '\t' || c = '\n' || c = '\x0c' || c = '\r'

/-- Whether a character is kept. -/
def Effect.keeps (effect : Effect) (c : Char) : Bool :=
  match effect with
  | .show => true
  | .perform => isKeptControl c
  | .nothing => false

/-- The state in which a kept character leaves a terminal. Only a character of several bytes ends
a sequence that is open. -/
def afterKept (s : State) (c : Char) : State :=
  if c.toNat < 0x80 then s else .ground

/-- The kept characters of a text. Within a run of kept characters the state is not looked at. -/
def strip (running : Bool) (s : State) : List Char → List Char
  | [] => []
  | c :: rest =>
    if running && (State.ground.step c).2.keeps c then
      c :: strip true (afterKept s c) rest
    else
      let here := if running && c = '\x1b' then .escape else s
      let (next, effect) := here.step c
      if effect.keeps c then c :: strip true (afterKept next c) rest
      else strip false next rest

/-- A text without its control sequences. -/
def ofText (text : String) : String :=
  String.ofList (strip false .ground text.toList)

end ProjectBuild.Plain
