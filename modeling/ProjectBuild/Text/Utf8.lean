/-!
# Decoding bytes

Bytes decode to a text if they are well-formed UTF-8. A fault names the first byte that is not
part of a well-formed sequence, and how many bytes of a sequence it cuts off; a sequence that the
end of the input cuts off has no such length.
-/

namespace ProjectBuild.Utf8

structure Fault where
  index : Nat
  length : Option Nat
  deriving DecidableEq, Repr, Inhabited

def Fault.message (f : Fault) : String :=
  match f.length with
  | some n =>
    "invalid utf-8 sequence of " ++ toString n ++ " bytes from index " ++ toString f.index
  | none => "incomplete utf-8 byte sequence from index " ++ toString f.index

/-- The range of the second byte, and how many bytes follow the first, where the first byte
begins a sequence. -/
def sequenceOf? (first : UInt8) : Option (UInt8 × UInt8 × Nat) :=
  if 0xC2 ≤ first ∧ first ≤ 0xDF then some (0x80, 0xBF, 1)
  else if first = 0xE0 then some (0xA0, 0xBF, 2)
  else if first = 0xED then some (0x80, 0x9F, 2)
  else if 0xE1 ≤ first ∧ first ≤ 0xEF then some (0x80, 0xBF, 2)
  else if first = 0xF0 then some (0x90, 0xBF, 3)
  else if 0xF1 ≤ first ∧ first ≤ 0xF3 then some (0x80, 0xBF, 3)
  else if first = 0xF4 then some (0x80, 0x8F, 3)
  else none

/-- A sequence that began at `start`: `missing` bytes are to come, the next within a range. -/
structure Pending where
  start : Nat
  missing : Nat
  low : UInt8
  high : UInt8

/-- The first fault of bytes from `index` on, inside a sequence if there is one. -/
def faultFrom? (index : Nat) (pending : Option Pending) : List UInt8 → Option Fault
  | [] => pending.map fun s => ⟨s.start, none⟩
  | b :: rest =>
    match pending with
    | none =>
      if b < 0x80 then faultFrom? (index + 1) none rest
      else match sequenceOf? b with
        | none => some ⟨index, some 1⟩
        | some (low, high, missing) =>
          faultFrom? (index + 1) (some ⟨index, missing, low, high⟩) rest
    | some s =>
      if s.low ≤ b ∧ b ≤ s.high then
        faultFrom? (index + 1)
          (if s.missing = 1 then none else some ⟨s.start, s.missing - 1, 0x80, 0xBF⟩) rest
      else some ⟨s.start, some (index - s.start)⟩

/-- The fault of bytes, if they are no text. -/
def fault? (bytes : ByteArray) : Option Fault :=
  faultFrom? 0 none bytes.toList

/-- The text that bytes spell. -/
def decode (bytes : ByteArray) : Except Fault String :=
  match String.fromUTF8? bytes with
  | some text => .ok text
  | none => .error ((fault? bytes).getD ⟨0, none⟩)

/-- The longest text in front of bytes, and the bytes behind it without the sequence that is at
fault; nothing is left behind where there is no fault. -/
def cutFault (bytes : List UInt8) : String × List UInt8 :=
  let text (bytes : List UInt8) := (String.fromUTF8? ⟨bytes.toArray⟩).getD ""
  match faultFrom? 0 none bytes with
  | none => (text bytes, [])
  | some f =>
    (text (bytes.take f.index) ++ "\uFFFD",
      (f.length.map fun n => bytes.drop (f.index + n)).getD [])

/-- The text of at most so many well-formed stretches of bytes. -/
def decodeLossyUpTo : Nat → List UInt8 → String
  | 0, _ => ""
  | n + 1, bytes =>
    match cutFault bytes with
    | (text, []) => text
    | (text, rest) => text ++ decodeLossyUpTo n rest

/-- The text that bytes spell, with a replacement character for every faulty sequence. -/
def decodeLossy (bytes : ByteArray) : String :=
  decodeLossyUpTo (bytes.size + 1) bytes.toList

end ProjectBuild.Utf8

/-!
## Raw texts

A raw text stands for bytes: each of its characters has the number of one byte. Programs that know
bytes only, and not what the bytes spell, work on raw texts.
-/

namespace ProjectBuild.Raw

/-- The raw text of bytes. -/
def ofBytes (bytes : ByteArray) : String :=
  String.ofList (bytes.toList.map fun b => Char.ofNat b.toNat)

/-- The bytes of a raw text. -/
def bytes (raw : String) : ByteArray :=
  ⟨(raw.toList.map fun c => c.toNat.toUInt8).toArray⟩

/-- The raw text of the bytes that spell a text. -/
def ofText (text : String) : String :=
  ofBytes text.toUTF8

/-- The text that the bytes of a raw text spell. -/
def text (raw : String) : String :=
  Utf8.decodeLossy (bytes raw)

end ProjectBuild.Raw
