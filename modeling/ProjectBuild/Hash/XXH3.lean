import ProjectBuild.Text.Quoted

/-!
# XXH3

The 64-bit XXH3 hash of a byte sequence, with seed 0 and the standard secret. Inputs fall into
length classes, each with a mixing of its own: up to 16 bytes the input is read into one or two
words, up to 240 bytes it is mixed in pairs of words, and longer inputs run through eight lanes
in blocks of sixteen stripes. All arithmetic is modulo 2^64.
-/

namespace ProjectBuild.XXH3

/-! ## Constants -/

/-- The standard secret. -/
def secret : ByteArray := ⟨#[
  0xb8, 0xfe, 0x6c, 0x39, 0x23, 0xa4, 0x4b, 0xbe, 0x7c, 0x01, 0x81, 0x2c,
  0xf7, 0x21, 0xad, 0x1c, 0xde, 0xd4, 0x6d, 0xe9, 0x83, 0x90, 0x97, 0xdb,
  0x72, 0x40, 0xa4, 0xa4, 0xb7, 0xb3, 0x67, 0x1f, 0xcb, 0x79, 0xe6, 0x4e,
  0xcc, 0xc0, 0xe5, 0x78, 0x82, 0x5a, 0xd0, 0x7d, 0xcc, 0xff, 0x72, 0x21,
  0xb8, 0x08, 0x46, 0x74, 0xf7, 0x43, 0x24, 0x8e, 0xe0, 0x35, 0x90, 0xe6,
  0x81, 0x3a, 0x26, 0x4c, 0x3c, 0x28, 0x52, 0xbb, 0x91, 0xc3, 0x00, 0xcb,
  0x88, 0xd0, 0x65, 0x8b, 0x1b, 0x53, 0x2e, 0xa3, 0x71, 0x64, 0x48, 0x97,
  0xa2, 0x0d, 0xf9, 0x4e, 0x38, 0x19, 0xef, 0x46, 0xa9, 0xde, 0xac, 0xd8,
  0xa8, 0xfa, 0x76, 0x3f, 0xe3, 0x9c, 0x34, 0x3f, 0xf9, 0xdc, 0xbb, 0xc7,
  0xc7, 0x0b, 0x4f, 0x1d, 0x8a, 0x51, 0xe0, 0x4b, 0xcd, 0xb4, 0x59, 0x31,
  0xc8, 0x9f, 0x7e, 0xc9, 0xd9, 0x78, 0x73, 0x64, 0xea, 0xc5, 0xac, 0x83,
  0x34, 0xd3, 0xeb, 0xc3, 0xc5, 0x81, 0xa0, 0xff, 0xfa, 0x13, 0x63, 0xeb,
  0x17, 0x0d, 0xdd, 0x51, 0xb7, 0xf0, 0xda, 0x49, 0xd3, 0x16, 0x55, 0x26,
  0x29, 0xd4, 0x68, 0x9e, 0x2b, 0x16, 0xbe, 0x58, 0x7d, 0x47, 0xa1, 0xfc,
  0x8f, 0xf8, 0xb8, 0xd1, 0x7a, 0xd0, 0x31, 0xce, 0x45, 0xcb, 0x3a, 0x8f,
  0x95, 0x16, 0x04, 0x28, 0xaf, 0xd7, 0xfb, 0xca, 0xbb, 0x4b, 0x40, 0x7e]⟩

def prime32₁ : UInt64 := 0x9E3779B1
def prime32₂ : UInt64 := 0x85EBCA77
def prime32₃ : UInt64 := 0xC2B2AE3D
def prime64₁ : UInt64 := 0x9E3779B185EBCA87
def prime64₂ : UInt64 := 0xC2B2AE3D27D4EB4F
def prime64₃ : UInt64 := 0x165667B19E3779F9
def prime64₄ : UInt64 := 0x85EBCA77C2B2AE63
def prime64₅ : UInt64 := 0x27D4EB2F165667C5
def primeMix₁ : UInt64 := 0x165667919E3779F9
def primeMix₂ : UInt64 := 0x9FB21C651E98DF25

/-! ## Words -/

/-- The byte at an index; zero behind the end, where no length class reads. -/
def byte (data : ByteArray) (i : Nat) : UInt64 :=
  if h : i < data.size then data[i].toUInt64 else 0

/-- Four bytes, least significant first. -/
def word32 (data : ByteArray) (i : Nat) : UInt64 :=
  byte data i ||| byte data (i + 1) <<< 8 ||| byte data (i + 2) <<< 16 |||
    byte data (i + 3) <<< 24

/-- Eight bytes, least significant first. -/
def word64 (data : ByteArray) (i : Nat) : UInt64 :=
  word32 data i ||| word32 data (i + 4) <<< 32

def rotateLeft (x : UInt64) (n : UInt64) : UInt64 :=
  x <<< n ||| x >>> (64 - n)

def xorShift (x : UInt64) (n : UInt64) : UInt64 :=
  x ^^^ x >>> n

/-- The eight bytes of a word in the opposite order. -/
def swapBytes (x : UInt64) : UInt64 :=
  let pairs := (x &&& 0x00FF00FF00FF00FF) <<< 8 ||| x >>> 8 &&& 0x00FF00FF00FF00FF
  let quads := (pairs &&& 0x0000FFFF0000FFFF) <<< 16 ||| pairs >>> 16 &&& 0x0000FFFF0000FFFF
  quads <<< 32 ||| quads >>> 32

/-- The two halves of the 128-bit product, folded together. -/
def foldProduct (x y : UInt64) : UInt64 :=
  let product := x.toNat * y.toNat
  UInt64.ofNat product ^^^ UInt64.ofNat (product >>> 64)

/-- Final mixing of the shortest inputs. -/
def avalancheShort (h : UInt64) : UInt64 :=
  xorShift (xorShift (xorShift h 33 * prime64₂) 29 * prime64₃) 32

/-- Final mixing of all other inputs. -/
def avalanche (h : UInt64) : UInt64 :=
  xorShift (xorShift h 37 * primeMix₁) 32

/-! ## Short inputs -/

def hash1to3 (data : ByteArray) : UInt64 :=
  let n := data.size
  let combined := byte data 0 <<< 16 ||| byte data (n / 2) <<< 24 ||| byte data (n - 1) |||
    UInt64.ofNat n <<< 8
  avalancheShort (combined ^^^ (word32 secret 0 ^^^ word32 secret 4))

def hash4to8 (data : ByteArray) : UInt64 :=
  let n := data.size
  let joined := word32 data (n - 4) + word32 data 0 <<< 32
  let keyed := joined ^^^ (word64 secret 8 ^^^ word64 secret 16)
  let h := keyed ^^^ rotateLeft keyed 49 ^^^ rotateLeft keyed 24
  let h := h * primeMix₂
  let h := (h ^^^ (h >>> 35 + UInt64.ofNat n)) * primeMix₂
  xorShift h 28

def hash9to16 (data : ByteArray) : UInt64 :=
  let n := data.size
  let low := word64 data 0 ^^^ (word64 secret 24 ^^^ word64 secret 32)
  let high := word64 data (n - 8) ^^^ (word64 secret 40 ^^^ word64 secret 48)
  avalanche (UInt64.ofNat n + swapBytes low + high + foldProduct low high)

/-! ## Middle inputs -/

/-- Mixes the sixteen bytes at `i` with those of the secret at `j`. -/
def mix16 (data : ByteArray) (i j : Nat) : UInt64 :=
  foldProduct (word64 data i ^^^ word64 secret j) (word64 data (i + 8) ^^^ word64 secret (j + 8))

/-- Adds the mixes of pairs of offsets into data and secret. -/
def addMixes (data : ByteArray) (start : UInt64) (offsets : List (Nat × Nat)) : UInt64 :=
  offsets.foldl (fun acc offset => acc + mix16 data offset.1 offset.2) start

/-- Sixteen bytes from both ends, working inward as far as the input is long. -/
def hash17to128 (data : ByteArray) : UInt64 :=
  let n := data.size
  let rounds := (n - 1) / 32
  let offsets := (List.range (rounds + 1)).flatMap fun r =>
    [(16 * r, 32 * r), (n - 16 * (r + 1), 32 * r + 16)]
  avalanche (addMixes data (UInt64.ofNat n * prime64₁) offsets)

def hash129to240 (data : ByteArray) : UInt64 :=
  let n := data.size
  let front := (List.range 8).map fun r => (16 * r, 16 * r)
  let back := (List.range (n / 16 - 8)).map fun r => (16 * (r + 8), 16 * r + 3)
  let acc := avalanche (addMixes data (UInt64.ofNat n * prime64₁) front)
  avalanche (addMixes data acc (back ++ [(n - 16, 136 - 17)]))

/-! ## Long inputs -/

/-- The eight lanes. -/
abbrev Lanes := List UInt64

def initialLanes : Lanes :=
  [prime32₃, prime64₁, prime64₂, prime64₃, prime64₄, prime32₂, prime64₅, prime32₁]

/-- Mixes the 64 bytes at `i` into the lanes, under the secret at `j`: each lane takes its
neighbour's word and the product of the halves of its own keyed word. -/
def stripe (data : ByteArray) (i j : Nat) (lanes : Lanes) : Lanes :=
  lanes.mapIdx fun lane acc =>
    let keyed := word64 data (i + 8 * lane) ^^^ word64 secret (j + 8 * lane)
    acc + word64 data (i + 8 * (lane ^^^ 1)) + (keyed &&& (0xFFFFFFFF : UInt64)) * (keyed >>> 32)

/-- Scrambles the lanes at the end of a block. -/
def scramble (lanes : Lanes) : Lanes :=
  lanes.mapIdx fun lane acc =>
    (xorShift acc 47 ^^^ word64 secret (192 - 64 + 8 * lane)) * prime32₁

/-- The first `n` stripes of the block at `i`. -/
def stripes (data : ByteArray) (i n : Nat) (lanes : Lanes) : Lanes :=
  (List.range n).foldl (fun lanes k => stripe data (i + 64 * k) (8 * k) lanes) lanes

def mergeLanes (start : UInt64) : Nat → Lanes → UInt64
  | j, x :: y :: rest =>
    mergeLanes (start + foldProduct (x ^^^ word64 secret j) (y ^^^ word64 secret (j + 8)))
      (j + 16) rest
  | _, _ => avalanche start

def hashLong (data : ByteArray) : UInt64 :=
  let n := data.size
  let blocks := (n - 1) / 1024
  let lanes := (List.range blocks).foldl
    (fun lanes b => scramble (stripes data (1024 * b) 16 lanes)) initialLanes
  let lanes := stripes data (1024 * blocks) ((n - 1 - 1024 * blocks) / 64) lanes
  let lanes := stripe data (n - 64) (192 - 64 - 7) lanes
  mergeLanes (UInt64.ofNat n * prime64₁) 11 lanes

/-- The hash of a byte sequence. -/
def hash (data : ByteArray) : UInt64 :=
  let n := data.size
  if n = 0 then avalancheShort (word64 secret 56 ^^^ word64 secret 64)
  else if n ≤ 3 then hash1to3 data
  else if n ≤ 8 then hash4to8 data
  else if n ≤ 16 then hash9to16 data
  else if n ≤ 128 then hash17to128 data
  else if n ≤ 240 then hash129to240 data
  else hashLong data

end ProjectBuild.XXH3

/-!
## Fingerprints

The fingerprint of a text is the XXH3 hash of its UTF-8 bytes, written in sixteen hexadecimal
digits.
-/

namespace ProjectBuild

def fingerprint (text : String) : String :=
  String.ofList (Hex.padded 16 (XXH3.hash text.toUTF8).toNat)

end ProjectBuild
