/-!
# SHA-256

The digest of FIPS 180-4 over bytes: padding to whole blocks, a message schedule of sixty-four
words for each block, and as many rounds on eight chaining words.
-/

namespace HalfBinary.Sha256

/-- The eight chaining words. -/
structure State where
  a : UInt32
  b : UInt32
  c : UInt32
  d : UInt32
  e : UInt32
  f : UInt32
  g : UInt32
  h : UInt32

/-- The first bits of the fractional parts of the square roots of the first eight primes. -/
def initial : State :=
  ⟨0x6a09e667, 0xbb67ae85, 0x3c6ef372, 0xa54ff53a, 0x510e527f, 0x9b05688c, 0x1f83d9ab, 0x5be0cd19⟩

/-- The first bits of the fractional parts of the cube roots of the first sixty-four primes. -/
def constants : Array UInt32 := #[
  0x428a2f98, 0x71374491, 0xb5c0fbcf, 0xe9b5dba5, 0x3956c25b, 0x59f111f1, 0x923f82a4, 0xab1c5ed5,
  0xd807aa98, 0x12835b01, 0x243185be, 0x550c7dc3, 0x72be5d74, 0x80deb1fe, 0x9bdc06a7, 0xc19bf174,
  0xe49b69c1, 0xefbe4786, 0x0fc19dc6, 0x240ca1cc, 0x2de92c6f, 0x4a7484aa, 0x5cb0a9dc, 0x76f988da,
  0x983e5152, 0xa831c66d, 0xb00327c8, 0xbf597fc7, 0xc6e00bf3, 0xd5a79147, 0x06ca6351, 0x14292967,
  0x27b70a85, 0x2e1b2138, 0x4d2c6dfc, 0x53380d13, 0x650a7354, 0x766a0abb, 0x81c2c92e, 0x92722c85,
  0xa2bfe8a1, 0xa81a664b, 0xc24b8b70, 0xc76c51a3, 0xd192e819, 0xd6990624, 0xf40e3585, 0x106aa070,
  0x19a4c116, 0x1e376c08, 0x2748774c, 0x34b0bcb5, 0x391c0cb3, 0x4ed8aa4a, 0x5b9cca4f, 0x682e6ff3,
  0x748f82ee, 0x78a5636f, 0x84c87814, 0x8cc70208, 0x90befffa, 0xa4506ceb, 0xbef9a3f7, 0xc67178f2]

/-- Rotation to the right by `0 < n < 32` bits. -/
def rotate (x : UInt32) (n : UInt32) : UInt32 := (x >>> n) ||| (x <<< (32 - n))

/-! ## Padding -/

/-- The number of zero bytes between the closing bit and the length of the message. -/
def paddingZeros (size : Nat) : Nat := (119 - size % 64) % 64

/-- The message, a closing bit, zeros, and the length in bits as eight bytes. -/
def pad (message : ByteArray) : ByteArray :=
  let zeros := ByteArray.mk (Array.replicate (paddingZeros message.size) 0)
  let bits := 8 * message.size
  let length := ByteArray.mk (Array.ofFn fun i : Fin 8 => (bits >>> (8 * (7 - i.val))).toUInt8)
  message.push 0x80 ++ zeros ++ length

/-- Padding fills whole blocks. -/
theorem size_pad (message : ByteArray) : (pad message).size % 64 = 0 := by
  simp only [pad, ByteArray.size_append, ByteArray.size_push]
  simp only [ByteArray.size, Array.size_replicate, Array.size_ofFn, paddingZeros]
  omega

/-! ## Rounds -/

/-- The byte at a position, or zero past the end. -/
def byteAt (bytes : ByteArray) (i : Nat) : UInt8 := if h : i < bytes.size then bytes[i] else 0

/-- The big-endian word at a position. -/
def wordAt (bytes : ByteArray) (i : Nat) : UInt32 :=
  (byteAt bytes i).toUInt32 <<< 24 ||| (byteAt bytes (i + 1)).toUInt32 <<< 16 |||
    (byteAt bytes (i + 2)).toUInt32 <<< 8 ||| (byteAt bytes (i + 3)).toUInt32

/-- The words of a block, and forty-eight more of which each is a sum over earlier ones. -/
def schedule (bytes : ByteArray) (start : Nat) : Array UInt32 :=
  Nat.fold 64 (fun i _ w =>
    if i < 16 then w.push (wordAt bytes (start + 4 * i))
    else
      let x := w.getD (i - 15) 0
      let y := w.getD (i - 2) 0
      let s₀ := rotate x 7 ^^^ rotate x 18 ^^^ (x >>> 3)
      let s₁ := rotate y 17 ^^^ rotate y 19 ^^^ (y >>> 10)
      w.push (w.getD (i - 16) 0 + s₀ + w.getD (i - 7) 0 + s₁)) (Array.mkEmpty 64)

/-- One round with its constant and its word of the schedule added up. -/
def round (s : State) (kw : UInt32) : State :=
  let s₁ := rotate s.e 6 ^^^ rotate s.e 11 ^^^ rotate s.e 25
  let choice := (s.e &&& s.f) ^^^ (~~~ s.e &&& s.g)
  let t₁ := s.h + s₁ + choice + kw
  let s₀ := rotate s.a 2 ^^^ rotate s.a 13 ^^^ rotate s.a 22
  let majority := (s.a &&& s.b) ^^^ (s.a &&& s.c) ^^^ (s.b &&& s.c)
  ⟨t₁ + (s₀ + majority), s.a, s.b, s.c, s.d + t₁, s.e, s.f, s.g⟩

/-- The chaining words after the block at a position. -/
def compress (bytes : ByteArray) (s : State) (start : Nat) : State :=
  let w := schedule bytes start
  let t := Nat.fold 64 (fun i _ t => round t (constants.getD i 0 + w.getD i 0)) s
  ⟨s.a + t.a, s.b + t.b, s.c + t.c, s.d + t.d, s.e + t.e, s.f + t.f, s.g + t.g, s.h + t.h⟩

/-- The eight words of the digest. -/
def digest (message : ByteArray) : List UInt32 :=
  let bytes := pad message
  let s := Nat.fold (bytes.size / 64) (fun i _ s => compress bytes s (64 * i)) initial
  [s.a, s.b, s.c, s.d, s.e, s.f, s.g, s.h]

def hexWord (word : UInt32) : List Char :=
  (List.range 8).map fun i => Nat.digitChar ((word >>> (28 - 4 * i.toUInt32)).toNat % 16)

def hex (message : ByteArray) : String := String.ofList ((digest message).flatMap hexWord)

/-- The digest has sixty-four digits. -/
theorem length_hex (message : ByteArray) : (hex message).length = 64 := by
  simp [hex, digest, hexWord]

example : hex "abc".toUTF8 =
    "ba7816bf8f01cfea414140de5dae2223b00361a396177a9cb410ff61f20015ad" := by decide +kernel

end HalfBinary.Sha256
