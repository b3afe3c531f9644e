import SchemaCatalog.Text.Digits

/-!
# SchemaCatalog.Digest

SHA-256. A message is padded to blocks of 64 bytes, each block is expanded to 64 words, and the
words are mixed one after the other into a state of eight words.
-/

namespace SchemaCatalog.Digest

/-- The eight words that blocks are mixed into. -/
structure State where
  a : UInt32
  b : UInt32
  c : UInt32
  d : UInt32
  e : UInt32
  f : UInt32
  g : UInt32
  h : UInt32
  deriving DecidableEq, Repr

def State.initial : State :=
  ⟨0x6a09e667, 0xbb67ae85, 0x3c6ef372, 0xa54ff53a, 0x510e527f, 0x9b05688c, 0x1f83d9ab, 0x5be0cd19⟩

def State.add (s t : State) : State :=
  ⟨s.a + t.a, s.b + t.b, s.c + t.c, s.d + t.d, s.e + t.e, s.f + t.f, s.g + t.g, s.h + t.h⟩

def State.words (s : State) : List UInt32 := [s.a, s.b, s.c, s.d, s.e, s.f, s.g, s.h]

def roundConstants : List UInt32 :=
  [0x428a2f98, 0x71374491, 0xb5c0fbcf, 0xe9b5dba5, 0x3956c25b, 0x59f111f1, 0x923f82a4, 0xab1c5ed5,
    0xd807aa98, 0x12835b01, 0x243185be, 0x550c7dc3, 0x72be5d74, 0x80deb1fe, 0x9bdc06a7, 0xc19bf174,
    0xe49b69c1, 0xefbe4786, 0x0fc19dc6, 0x240ca1cc, 0x2de92c6f, 0x4a7484aa, 0x5cb0a9dc, 0x76f988da,
    0x983e5152, 0xa831c66d, 0xb00327c8, 0xbf597fc7, 0xc6e00bf3, 0xd5a79147, 0x06ca6351, 0x14292967,
    0x27b70a85, 0x2e1b2138, 0x4d2c6dfc, 0x53380d13, 0x650a7354, 0x766a0abb, 0x81c2c92e, 0x92722c85,
    0xa2bfe8a1, 0xa81a664b, 0xc24b8b70, 0xc76c51a3, 0xd192e819, 0xd6990624, 0xf40e3585, 0x106aa070,
    0x19a4c116, 0x1e376c08, 0x2748774c, 0x34b0bcb5, 0x391c0cb3, 0x4ed8aa4a, 0x5b9cca4f, 0x682e6ff3,
    0x748f82ee, 0x78a5636f, 0x84c87814, 0x8cc70208, 0x90befffa, 0xa4506ceb, 0xbef9a3f7, 0xc67178f2]

/-- Moves the bits of a word to the right, around the end. -/
def rotate (x n : UInt32) : UInt32 := x >>> n ||| x <<< (32 - n)

/-! ## Blocks -/

/-- A number as eight bytes, the highest first. -/
def bigEndian (n : Nat) : List UInt8 :=
  (List.range 8).reverse.map fun i => UInt8.ofNat (n >>> (8 * i))

/-- A message, a single bit, zeros, and the number of bits in the message: whole blocks of 64
bytes. -/
def padded (message : ByteArray) : Array UInt8 :=
  message.data.push 0x80 ++ Array.replicate ((119 - message.size % 64) % 64) 0 ++
    (bigEndian (8 * message.size)).toArray

def wordAt (bytes : Array UInt8) (i : Nat) : UInt32 :=
  (List.range 4).foldl (fun w k => w <<< 8 ||| (bytes.getD (i + k) 0).toUInt32) 0

def block (bytes : Array UInt8) (i : Nat) : Array UInt32 :=
  ((List.range 16).map fun k => wordAt bytes (64 * i + 4 * k)).toArray

def extend (w : Array UInt32) : Array UInt32 :=
  let before (back : Nat) : UInt32 := w.getD (w.size - back) 0
  let x := before 15
  let y := before 2
  let s := rotate x 7 ^^^ rotate x 18 ^^^ x >>> 3
  let t := rotate y 17 ^^^ rotate y 19 ^^^ y >>> 10
  w.push (before 16 + s + before 7 + t)

def schedule (words : Array UInt32) : List UInt32 :=
  ((List.range 48).foldl (fun w _ => extend w) words).toList

/-! ## Mixing -/

def round (s : State) (k w : UInt32) : State :=
  let x := rotate s.e 6 ^^^ rotate s.e 11 ^^^ rotate s.e 25
  let choice := s.e &&& s.f ^^^ ~~~ s.e &&& s.g
  let t := s.h + x + choice + k + w
  let y := rotate s.a 2 ^^^ rotate s.a 13 ^^^ rotate s.a 22
  let majority := s.a &&& s.b ^^^ s.a &&& s.c ^^^ s.b &&& s.c
  ⟨t + (y + majority), s.a, s.b, s.c, s.d + t, s.e, s.f, s.g⟩

def mix (s : State) (words : Array UInt32) : State :=
  ((roundConstants.zip (schedule words)).foldl (fun s kw => round s kw.1 kw.2) s).add s

def digest (message : ByteArray) : State :=
  let bytes := padded message
  (List.range (bytes.size / 64)).foldl (fun s i => mix s (block bytes i)) .initial

/-- The digest of a text in UTF-8, as 64 hexadecimal digits. -/
def hex (text : String) : String :=
  String.join ((digest text.toUTF8).words.map fun w => Text.toHex 8 w.toNat)

end SchemaCatalog.Digest
