import ProjectBuild.Json.Skip

/-!
# Typed reading

Readers for the values a record is made of: booleans, words, strings, optional values, lists, maps
and structures. A structure may be written as an object, with its fields in any order and unknown
keys skipped, or as a list of its fields in declaration order.

A list or map is read by at most as many rounds as there are characters left, since every element
and key has at least one.
-/

namespace ProjectBuild.Json

/-- A reader of one value. -/
abbrev Reader (α : Type) := Cursor → Except Fault (α × Cursor)

namespace Read

/-- The fault of a value that has another type: a scalar is read first, and a fault in reading it
wins; a bracket is left unread. -/
def wrongType (expected : String) (c : Cursor) : Fault :=
  let mismatch (found : Found) (c : Cursor) := c.faultHere (.invalidType found expected)
  match c.rest with
  | [] => c.faultPeek .endInValue
  | first :: rest =>
    let next := Cursor.past first rest c.position
    let word (letters : List Char) (found : Found) :=
      match Cursor.expectWord letters next with
      | .ok c => mismatch found c
      | .error fault => fault
    let number (positive : Bool) (c : Cursor) :=
      match Numeral.read positive c with
      | .ok (n, c) => mismatch (.number n) c
      | .error fault => fault
    if first = 'n' then word ['u', 'l', 'l'] .null
    else if first = 't' then word ['r', 'u', 'e'] (.boolean true)
    else if first = 'f' then word ['a', 'l', 's', 'e'] (.boolean false)
    else if first = '-' then number false next
    else if (Numeral.digit? first).isSome then number true c
    else if first = '"' then
      match Literal.read next with
      | .ok (text, c) => mismatch (.string text) c
      | .error fault => fault
    else if first = '[' then mismatch .sequence c
    else if first = '{' then mismatch .map c
    else c.faultPeek .expectedValue

/-! ## Scalars -/

/-- A string, called `expected` where something else stands. -/
def text (expected : String) : Reader String := fun c =>
  let c := c.skipSpace
  match c.rest with
  | '"' :: rest => Literal.read (Cursor.past '"' rest c.position)
  | _ => .error (wrongType expected c)

def string : Reader String :=
  text "a string"

def boolean : Reader Bool := fun c =>
  let c := c.skipSpace
  match c.rest with
  | 't' :: rest =>
    (Cursor.expectWord ['r', 'u', 'e'] (Cursor.past 't' rest c.position)).map (true, ·)
  | 'f' :: rest =>
    (Cursor.expectWord ['a', 'l', 's', 'e'] (Cursor.past 'f' rest c.position)).map (false, ·)
  | _ => .error (wrongType "a boolean" c)

/-- A natural number below `2^bits`. -/
def word (bits : Nat) (expected : String) : Reader Nat := fun c =>
  let c := c.skipSpace
  let accept (result : Except Fault (Number × Cursor)) : Except Fault (Nat × Cursor) := do
    let (n, c) ← result
    match n with
    | .unsigned k =>
      if k < Nat.pow 2 bits then return (k, c)
      else throw (c.faultHere (.invalidValue (.number n) expected))
    | .negative _ => throw (c.faultHere (.invalidValue (.number n) expected))
    | .real _ => throw (c.faultHere (.invalidType (.number n) expected))
  match c.rest with
  | '-' :: rest => accept (Numeral.read false (Cursor.past '-' rest c.position))
  | first :: _ =>
    if (Numeral.digit? first).isSome then accept (Numeral.read true c)
    else .error (wrongType expected c)
  | [] => .error (wrongType expected c)

/-- A value or `null`. -/
def optional {α : Type} (reader : Reader α) : Reader (Option α) := fun c =>
  let c := c.skipSpace
  match c.rest with
  | 'n' :: rest =>
    (Cursor.expectWord ['u', 'l', 'l'] (Cursor.past 'n' rest c.position)).map (none, ·)
  | _ => (reader c).map fun (x, c) => (some x, c)

/-! ## Brackets -/

/-- The end of a list that should have no more elements. -/
def endList (c : Cursor) : Except Fault Cursor :=
  let c := c.skipSpace
  match c.rest with
  | ']' :: rest => .ok (Cursor.past ']' rest c.position)
  | ',' :: rest =>
    let c := (Cursor.past ',' rest c.position).skipSpace
    match c.rest with
    | ']' :: _ => .error (c.faultPeek .trailingComma)
    | _ => .error (c.faultPeek .trailingCharacters)
  | [] => .error (c.faultPeek .endInList)
  | _ => .error (c.faultPeek .trailingCharacters)

/-- The end of an object that should have no more keys. -/
def endObject (c : Cursor) : Except Fault Cursor :=
  let c := c.skipSpace
  match c.rest with
  | '}' :: rest => .ok (Cursor.past '}' rest c.position)
  | ',' :: _ => .error (c.faultPeek .trailingComma)
  | [] => .error (c.faultPeek .endInObject)
  | _ => .error (c.faultPeek .trailingCharacters)

/-- Where the unread text begins after an attempt to close a list. -/
def closedList (c : Cursor) : Position :=
  let c := c.skipSpace
  match c.rest with
  | ']' :: rest => (Cursor.past ']' rest c.position).position
  | ',' :: rest => (Cursor.past ',' rest c.position).skipSpace.position
  | _ => c.position

/-- Where the unread text begins after an attempt to close an object. -/
def closedObject (c : Cursor) : Position :=
  let c := c.skipSpace
  match c.rest with
  | '}' :: rest => (Cursor.past '}' rest c.position).position
  | _ => c.position

/-- Places a floating fault where the structure around it has been closed. -/
def place (closed : Cursor → Position) : Fault → Fault
  | .floating problem c => .placed problem (closed c)
  | fault => fault

/-- The inside of a list up to its closing bracket; faults without a place are placed there. -/
def inList {α : Type} (body : Reader α) : Reader α := fun c =>
  match body c with
  | .error fault => .error (place closedList fault)
  | .ok (x, c) => (endList c).map (x, ·)

/-- The inside of an object up to its closing brace. -/
def inObject {α : Type} (body : Reader α) : Reader α := fun c =>
  match body c with
  | .error fault => .error (place closedObject fault)
  | .ok (x, c) => (endObject c).map (x, ·)

/-- The cursor at the next element of a list, if there is one. -/
def nextElement (first : Bool) (c : Cursor) : Except Fault (Option Cursor) :=
  let c := c.skipSpace
  match c.rest with
  | [] => .error (c.faultPeek .endInList)
  | ']' :: _ => .ok none
  | ',' :: rest =>
    if first then .ok (some c)
    else
      let c := (Cursor.past ',' rest c.position).skipSpace
      match c.rest with
      | [] => .error (c.faultPeek .endInValue)
      | ']' :: _ => .error (c.faultPeek .trailingComma)
      | _ => .ok (some c)
  | _ => if first then .ok (some c) else .error (c.faultPeek .expectedListEnd)

/-- The next key of an object, if there is one. -/
def nextKey (first : Bool) (c : Cursor) : Except Fault (Option (String × Cursor)) :=
  let key (c : Cursor) (rest : List Char) :=
    (Literal.read (Cursor.past '"' rest c.position)).map some
  let c := c.skipSpace
  match c.rest with
  | [] => .error (c.faultPeek .endInObject)
  | '}' :: _ => .ok none
  | '"' :: rest => if first then key c rest else .error (c.faultPeek .expectedObjectEnd)
  | ',' :: rest =>
    if first then .error (c.faultPeek .keyNotString)
    else
      let c := (Cursor.past ',' rest c.position).skipSpace
      match c.rest with
      | '"' :: rest => key c rest
      | '}' :: _ => .error (c.faultPeek .trailingComma)
      | [] => .error (c.faultPeek .endInValue)
      | _ => .error (c.faultPeek .keyNotString)
  | _ => .error (c.faultPeek (if first then .keyNotString else .expectedObjectEnd))

/-- The colon behind a key. -/
def colon (c : Cursor) : Except Fault Cursor :=
  let c := c.skipSpace
  match c.rest with
  | ':' :: rest => .ok (Cursor.past ':' rest c.position)
  | [] => .error (c.faultPeek .endInObject)
  | _ => .error (c.faultPeek .expectedColon)

/-! ## Lists and maps -/

def elements {α : Type} (reader : Reader α) : Nat → Bool → List α → Reader (List α)
  | 0, _, _ => fun c => .error (c.faultPeek .endInList)
  | rounds + 1, first, read => fun c => do
    match ← nextElement first c with
    | none => return (read.reverse, c)
    | some c =>
      let (x, c) ← reader c
      elements reader rounds false (x :: read) c

def list {α : Type} (reader : Reader α) : Reader (List α) := fun c =>
  let c := c.skipSpace
  match c.rest with
  | '[' :: rest =>
    inList (elements reader (rest.length + 1) true []) (Cursor.past '[' rest c.position)
  | _ => .error (wrongType "a sequence" c)

def bindings {α : Type} (reader : Reader α) :
    Nat → Bool → List (String × α) → Reader (List (String × α))
  | 0, _, _ => fun c => .error (c.faultPeek .endInObject)
  | rounds + 1, first, read => fun c => do
    match ← nextKey first c with
    | none => return (read.reverse, c)
    | some (key, c) =>
      let (x, c) ← reader (← colon c)
      bindings reader rounds false ((key, x) :: read) c

/-- The keys and values of an object, in order of appearance. -/
def map {α : Type} (reader : Reader α) : Reader (List (String × α)) := fun c =>
  let c := c.skipSpace
  match c.rest with
  | '{' :: rest =>
    inObject (bindings reader (rest.length + 1) true []) (Cursor.past '{' rest c.position)
  | _ => .error (wrongType "a map" c)

end Read

/-! ## Structures -/

/-- A field of a structure that is filled into `σ`. -/
structure Field (σ : Type) where
  name : String
  required : Bool
  /-- Reads the value and stores it. -/
  fill : σ → Reader σ

/-- A structure type. -/
structure Shape (σ : Type) where
  /-- What is expected where the structure should stand. -/
  title : String
  /-- What a list of its fields is expected to be. -/
  listTitle : String
  fields : List (Field σ)
  /-- Whether unknown keys are refused. -/
  closed : Bool
  /-- Nothing filled in. -/
  blank : σ
  /-- A last look at the fields together. -/
  check : σ → Option Problem

namespace Shape

variable {σ : Type}

/-- The fields of an object; `seen` holds the names already read. -/
def readKeys (shape : Shape σ) : Nat → Bool → List String → σ → Reader σ
  | 0, _, _, _ => fun c => .error (c.faultPeek .endInObject)
  | rounds + 1, first, seen, filled => fun c => do
    match ← Read.nextKey first c with
    | none =>
      match shape.fields.find? fun field => field.required && !seen.contains field.name with
      | some field => throw (.floating (.missingField field.name) c)
      | none => return (filled, c)
    | some (key, c) =>
      match shape.fields.find? fun field => field.name == key with
      | none =>
        if shape.closed then
          throw (.floating (.unknownField key (shape.fields.map Field.name)) c)
        else
          let c ← Skip.value (← Read.colon c)
          readKeys shape rounds false seen filled c
      | some field =>
        if seen.contains key then throw (.floating (.duplicateField key) c)
        let (filled, c) ← field.fill filled (← Read.colon c)
        readKeys shape rounds false (key :: seen) filled c

/-- Fields written as a list; `index` of them have been read. -/
def readFields (shape : Shape σ) : List (Field σ) → Nat → σ → Reader σ
  | [], _, filled => fun c => .ok (filled, c)
  | field :: fields, index, filled => fun c => do
    match ← Read.nextElement (index == 0) c with
    | none =>
      if field.required then throw (.floating (.invalidLength index shape.listTitle) c)
      readFields shape fields index filled c
    | some c =>
      let (filled, c) ← field.fill filled c
      readFields shape fields (index + 1) filled c

/-- A body followed by the last look at the fields. -/
def checked (shape : Shape σ) (body : Reader σ) : Reader σ := fun c => do
  let (filled, c) ← body c
  match shape.check filled with
  | some problem => throw (.floating problem c)
  | none => return (filled, c)

def read (shape : Shape σ) : Reader σ := fun c =>
  let c := c.skipSpace
  match c.rest with
  | '{' :: rest =>
    Read.inObject (shape.checked (shape.readKeys (rest.length + 1) true [] shape.blank))
      (Cursor.past '{' rest c.position)
  | '[' :: rest =>
    Read.inList (shape.checked (shape.readFields shape.fields 0 shape.blank))
      (Cursor.past '[' rest c.position)
  | _ => .error (Read.wrongType shape.title c)

end Shape

/-- A problem and its place, as shown. -/
structure Mistake where
  problem : Problem
  position : Position
  deriving Inhabited

def Mistake.message (m : Mistake) : String :=
  m.problem.message ++ " at line " ++ toString m.position.line ++ " column " ++
    toString m.position.column

def Fault.mistake : Fault → Mistake
  | .placed problem p => ⟨problem, p⟩
  | .floating problem c => ⟨problem, c.position⟩

/-- Reads a text that holds one value and nothing else. -/
def readAll {α : Type} (reader : Reader α) (text : String) : Except Mistake α :=
  match reader (Cursor.ofString text) with
  | .error fault => .error fault.mistake
  | .ok (x, c) =>
    let c := c.skipSpace
    if c.rest.isEmpty then .ok x else .error (c.faultPeek .trailingCharacters).mistake

end ProjectBuild.Json
