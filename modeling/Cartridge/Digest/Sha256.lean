import Cartridge.Text.Hex

/-!
# SHA-256

The digest of a sequence of bytes by the secure hash standard: the message is padded to blocks of
64 bytes, each block is expanded to 64 words, and 64 rounds mix every word into the state.
-/

namespace Cartridge.Digest

/-- Round constants: the first 32 bits of the fractional parts of the cube roots of the first 64
primes. -/
def roundConstants : Array UInt32 := #[
  0x428a2f98, 0x71374491, 0xb5c0fbcf, 0xe9b5dba5, 0x3956c25b, 0x59f111f1, 0x923f82a4, 0xab1c5ed5,
  0xd807aa98, 0x12835b01, 0x243185be, 0x550c7dc3, 0x72be5d74, 0x80deb1fe, 0x9bdc06a7, 0xc19bf174,
  0xe49b69c1, 0xefbe4786, 0x0fc19dc6, 0x240ca1cc, 0x2de92c6f, 0x4a7484aa, 0x5cb0a9dc, 0x76f988da,
  0x983e5152, 0xa831c66d, 0xb00327c8, 0xbf597fc7, 0xc6e00bf3, 0xd5a79147, 0x06ca6351, 0x14292967,
  0x27b70a85, 0x2e1b2138, 0x4d2c6dfc, 0x53380d13, 0x650a7354, 0x766a0abb, 0x81c2c92e, 0x92722c85,
  0xa2bfe8a1, 0xa81a664b, 0xc24b8b70, 0xc76c51a3, 0xd192e819, 0xd6990624, 0xf40e3585, 0x106aa070,
  0x19a4c116, 0x1e376c08, 0x2748774c, 0x34b0bcb5, 0x391c0cb3, 0x4ed8aa4a, 0x5b9cca4f, 0x682e6ff3,
  0x748f82ee, 0x78a5636f, 0x84c87814, 0x8cc70208, 0x90befffa, 0xa4506ceb, 0xbef9a3f7, 0xc67178f2]

/-- The eight words of the state. -/
structure State where
  a : UInt32
  b : UInt32
  c : UInt32
  d : UInt32
  e : UInt32
  f : UInt32
  g : UInt32
  h : UInt32

/-- The state before the first block. -/
def State.initial : State :=
  ⟨0x6a09e667, 0xbb67ae85, 0x3c6ef372, 0xa54ff53a, 0x510e527f, 0x9b05688c, 0x1f83d9ab, 0x5be0cd19⟩

/-- A word turned right. -/
def turned (x : UInt32) (n : UInt32) : UInt32 := (x >>> n) ||| (x <<< (32 - n))

/-- One round with its round constant and message word added up. -/
def State.round (s : State) (kw : UInt32) : State :=
  let s₁ := turned s.e 6 ^^^ turned s.e 11 ^^^ turned s.e 25
  let choice := (s.e &&& s.f) ^^^ (~~~s.e &&& s.g)
  let t₁ := s.h + s₁ + choice + kw
  let s₀ := turned s.a 2 ^^^ turned s.a 13 ^^^ turned s.a 22
  let majority := (s.a &&& s.b) ^^^ (s.a &&& s.c) ^^^ (s.b &&& s.c)
  ⟨t₁ + (s₀ + majority), s.a, s.b, s.c, s.d + t₁, s.e, s.f, s.g⟩

/-- Adds up two states word by word. -/
def State.add (s t : State) : State :=
  ⟨s.a + t.a, s.b + t.b, s.c + t.c, s.d + t.d, s.e + t.e, s.f + t.f, s.g + t.g, s.h + t.h⟩

/-- The padded message: a one bit, zeros, and the length in bits as eight bytes. -/
def padded (message : ByteArray) : ByteArray :=
  let n := message.size
  let zeros := (119 - n % 64) % 64
  let bits := 8 * n
  let length := (List.range 8).map fun i => UInt8.ofNat (bits >>> (8 * (7 - i)))
  message ++ ⟨(0x80 :: List.replicate zeros 0 ++ length).toArray⟩

/-- The word of four bytes, the first the most significant. -/
def wordAt (bytes : ByteArray) (i : Nat) : UInt32 :=
  let byte (j : Nat) : UInt32 := (bytes[i + j]?.getD 0).toUInt32
  (byte 0 <<< 24) ||| (byte 1 <<< 16) ||| (byte 2 <<< 8) ||| byte 3

/-- One more word of the schedule. -/
def nextWord (w : Array UInt32) (t : Nat) : UInt32 :=
  let word (back : Nat) : UInt32 := w[t - back]?.getD 0
  let s₀ := turned (word 15) 7 ^^^ turned (word 15) 18 ^^^ (word 15 >>> 3)
  let s₁ := turned (word 2) 17 ^^^ turned (word 2) 19 ^^^ (word 2 >>> 10)
  s₁ + word 7 + s₀ + word 16

/-- The 64 words of the block that begins at byte `start`. -/
def schedule (bytes : ByteArray) (start : Nat) : Array UInt32 :=
  let first := (List.range 16).foldl (fun w i => w.push (wordAt bytes (start + 4 * i))) #[]
  (List.range 48).foldl (fun w i => w.push (nextWord w (i + 16))) first

/-- Mixes one block into the state. -/
def State.block (s : State) (bytes : ByteArray) (start : Nat) : State :=
  let w := schedule bytes start
  let mixed := (List.range 64).foldl
    (fun t i => t.round (roundConstants[i]?.getD 0 + w[i]?.getD 0)) s
  s.add mixed

/-- The digest in hexadecimal. -/
def sha256 (message : ByteArray) : String :=
  let bytes := padded message
  let blocks := List.range (bytes.size / 64)
  let s := blocks.foldl (fun (s : State) i => s.block bytes (64 * i)) State.initial
  "".intercalate <| [s.a, s.b, s.c, s.d, s.e, s.f, s.g, s.h].map fun (x : UInt32) =>
    .ofList (Text.hexDigits 8 x.toNat)

end Cartridge.Digest
