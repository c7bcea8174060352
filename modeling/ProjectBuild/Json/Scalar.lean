import ProjectBuild.Json.Cursor

/-!
# Scalars

Numerals and string literals.
-/

/-!
## Numerals

Reading a number of which the value matters. Digits that no longer fit a word only scale the
value; a numeral that ends too early or is too large for a real number is refused.
-/

namespace ProjectBuild.Json.Numeral

def digit? (c : Char) : Option Nat :=
  if '0' ≤ c ∧ c ≤ '9' then some (c.toNat - 48) else none

/-- The run of digits at the front, and the cursor behind it. -/
def digitsFrom : List Char → Position → List Nat × Cursor
  | [], p => ([], ⟨[], p⟩)
  | c :: rest, p =>
    match digit? c with
    | none => ([], ⟨c :: rest, p⟩)
    | some d =>
      let (digits, behind) := digitsFrom rest (p.after c 1)
      (d :: digits, behind)

def digits (c : Cursor) : List Nat × Cursor :=
  digitsFrom c.rest c.position

/-- The end of a real numeral. -/
def close (positive : Bool) (value : Nat) (exponent : Int) (c : Cursor) :
    Except Fault (Number × Cursor) :=
  match Number.ofParts? positive value exponent with
  | some n => .ok (n, c)
  | none => .error (c.faultHere .numberOutOfRange)

/-- Reads the digits of an exponent behind its first. A magnitude beyond 31 bits is refused at
once if it makes the number too large, and makes it zero otherwise. -/
def exponentFrom (positive upward : Bool) (value : Nat) (start : Int) :
    Nat → List Char → Position → Except Fault (Number × Cursor)
  | magnitude, [], p => closeExponent magnitude ⟨[], p⟩
  | magnitude, c :: rest, p =>
    match digit? c with
    | none => closeExponent magnitude ⟨c :: rest, p⟩
    | some d =>
      let behind := p.after c 1
      if magnitude * 10 + d < Nat.pow 2 31 then
        exponentFrom positive upward value start (magnitude * 10 + d) rest behind
      else if upward && value != 0 then .error (.placed .numberOutOfRange behind)
      else .ok (.real (if positive then 0.0 else -0.0), (digitsFrom rest behind).2)
where
  closeExponent (magnitude : Nat) (c : Cursor) : Except Fault (Number × Cursor) :=
    let exponent := if upward then start + magnitude else start - magnitude
    close positive value (max (-2147483648) (min 2147483647 exponent)) c

/-- Reads an exponent, from its letter on. -/
def exponent (positive : Bool) (value : Nat) (start : Int) (c : Cursor) :
    Except Fault (Number × Cursor) :=
  let c := match c.rest with
    | letter :: rest => Cursor.past letter rest c.position
    | [] => c
  let (upward, c) := match c.rest with
    | '+' :: rest => (true, Cursor.past '+' rest c.position)
    | '-' :: rest => (false, Cursor.past '-' rest c.position)
    | _ => (true, c)
  match c.rest with
  | [] => .error (c.faultHere .endInValue)
  | next :: rest =>
    match digit? next with
    | none => .error (c.faultPeek .invalidNumber)
    | some d => exponentFrom positive upward value start d rest (c.position.after next 1)

/-- Reads what follows the digits of a real numeral. -/
def afterDigits (positive : Bool) (value : Nat) (scale : Int) (c : Cursor) :
    Except Fault (Number × Cursor) :=
  match c.rest with
  | 'e' :: _ | 'E' :: _ => exponent positive value scale c
  | _ => close positive value scale c

/-- Reads a fraction, from its point on. -/
def fraction (positive : Bool) (value : Nat) (scale : Int) (c : Cursor) :
    Except Fault (Number × Cursor) :=
  let c := match c.rest with
    | point :: rest => Cursor.past point rest c.position
    | [] => c
  match digits c with
  | ([], c) => .error (c.faultPeek (if c.rest.isEmpty then .endInValue else .invalidNumber))
  | (ds, c) =>
    let (value, dropped) := Number.significand value ds
    afterDigits positive value (scale - (ds.length - dropped : Nat)) c

/-- Reads what follows an integer part, of which `dropped` digits did not fit. -/
def afterInteger (positive : Bool) (value dropped : Nat) (c : Cursor) :
    Except Fault (Number × Cursor) :=
  match c.rest with
  | '.' :: _ => fraction positive value dropped c
  | 'e' :: _ | 'E' :: _ => exponent positive value dropped c
  | _ =>
    if dropped = 0 then .ok (.ofInteger positive value, c) else close positive value dropped c

/-- Reads a number behind its sign. -/
def read (positive : Bool) (c : Cursor) : Except Fault (Number × Cursor) :=
  match c.rest with
  | [] => .error (c.faultHere .endInValue)
  | first :: _ =>
    match digits c with
    | ([], _) => .error (c.faultPeek .invalidNumber)
    | (ds, behind) =>
      if first = '0' then
        if ds.length = 1 then afterInteger positive 0 0 behind
        else
          let second := (Cursor.past first (c.rest.drop 1) c.position)
          .error (second.faultPeek .invalidNumber)
      else
        let (value, dropped) := Number.significand 0 ds
        afterInteger positive value dropped behind

end ProjectBuild.Json.Numeral

/-!
## String literals

String literals are read character by character. Escaped code units beyond the first plane come
in pairs, which are joined; a unit without its partner is refused.
-/

namespace ProjectBuild.Json

/-- Where in a literal the reader is. -/
inductive LiteralMode where
  | plain
  /-- Behind a backslash. -/
  | escape
  /-- Inside the four bytes of a code unit, after the leading unit `high` if there is one. The
  value is lost once a byte was no hexadecimal digit. -/
  | unit (high : Option Nat) (needed : Nat) (value : Option Nat)
  /-- Behind the leading unit `high`, before a backslash. -/
  | secondEscape (high : Nat)
  /-- Behind the leading unit `high` and a backslash. -/
  | secondUnit (high : Nat)
  deriving DecidableEq, Repr

namespace Literal

/-- The character that a letter behind a backslash stands for. -/
def escaped? : Char → Option Char
  | '"' => some '"'
  | '\\' => some '\\'
  | '/' => some '/'
  | 'b' => some (Char.ofNat 8)
  | 'f' => some (Char.ofNat 12)
  | 'n' => some '\n'
  | 'r' => some '\r'
  | 't' => some '\t'
  | _ => none

/-- One more digit of a code unit. -/
def unitValue (value : Option Nat) (c : Char) : Option Nat := do
  return (← value) * 16 + (← Hex.value? c)

/-- The end of a code unit: a character, or the wait for the partner of a leading unit. -/
def closeUnit (high : Option Nat) (unit : Nat) : Except Problem (LiteralMode × List Char) :=
  let trailing := 0xDC00 ≤ unit && unit ≤ 0xDFFF
  match high with
  | none =>
    if trailing then .error .loneSurrogate
    else if 0xD800 ≤ unit && unit ≤ 0xDBFF then .ok (.secondEscape unit, [])
    else .ok (.plain, [Char.ofNat unit])
  | some high =>
    if trailing then
      .ok (.plain, [Char.ofNat (0x10000 + (high - 0xD800) * 0x400 + (unit - 0xDC00))])
    else .error .loneSurrogate

/-- Reads the rest of a literal behind its opening quote; `read` holds the characters so far, in
reverse. -/
def readFrom (mode : LiteralMode) (read : List Char) :
    List Char → Position → Except Fault (String × Cursor)
  | [], p => .error (.placed .endInString p)
  | c :: rest, p =>
    match mode with
    | .plain =>
      if c = '"' then .ok (String.ofList read.reverse, Cursor.past c rest p)
      else if c = '\\' then readFrom .escape read rest (p.after c 1)
      else if c.toNat < 0x20 then .error (.placed .controlCharacter (p.after c 1))
      else readFrom .plain (c :: read) rest (p.after c c.utf8Size)
    | .escape =>
      if c = 'u' then readFrom (.unit none 4 (some 0)) read rest (p.after c 1)
      else match escaped? c with
        | some d => readFrom .plain (d :: read) rest (p.after c 1)
        | none => .error (.placed .invalidEscape (p.after c 1))
    | .unit high needed value =>
      -- the four places of a unit are counted in bytes
      if c.utf8Size < needed then
        readFrom (.unit high (needed - c.utf8Size) (unitValue value c)) read rest
          (p.after c c.utf8Size)
      else
        let behind := p.after c needed
        match unitValue value c with
        | none => .error (.placed .invalidEscape behind)
        | some unit =>
          match closeUnit high unit with
          | .error problem => .error (.placed problem behind)
          | .ok (mode, chars) => readFrom mode (chars ++ read) rest behind
    | .secondEscape high =>
      if c = '\\' then readFrom (.secondUnit high) read rest (p.after c 1)
      else .error (.placed .endOfHexEscape (p.after c 1))
    | .secondUnit high =>
      if c = 'u' then readFrom (.unit (some high) 4 (some 0)) read rest (p.after c 1)
      else .error (.placed .endOfHexEscape (p.after c 1))

/-- Reads a literal whose opening quote has been read. -/
def read (c : Cursor) : Except Fault (String × Cursor) :=
  readFrom .plain [] c.rest c.position

end Literal

end ProjectBuild.Json
