import PluginAtlas.Text.Basic

/-!
# The MD5 digest

The message digest of RFC 1321: the message is padded to a multiple of 64 bytes, and
each block of sixteen little-endian words is mixed into a state of four words in
sixty-four steps.

## Main definitions

* `digest`: the sixteen bytes of the digest of a byte sequence.
* `hexDigest`: the same in hexadecimal.
-/

namespace PluginAtlas.Digest.Md5

/-- The four words that the digest is computed in. -/
structure State where
  a : UInt32
  b : UInt32
  c : UInt32
  d : UInt32

/-- The state before the first block. -/
def State.start : State := ⟨0x67452301, 0xefcdab89, 0x98badcfe, 0x10325476⟩

/-- The additive constants of the sixty-four steps: the first 32 fractional bits of
the sines of 1 to 64. -/
def sines : List UInt32 := [
  0xd76aa478, 0xe8c7b756, 0x242070db, 0xc1bdceee, 0xf57c0faf, 0x4787c62a, 0xa8304613, 0xfd469501,
  0x698098d8, 0x8b44f7af, 0xffff5bb1, 0x895cd7be, 0x6b901122, 0xfd987193, 0xa679438e, 0x49b40821,
  0xf61e2562, 0xc040b340, 0x265e5a51, 0xe9b6c7aa, 0xd62f105d, 0x02441453, 0xd8a1e681, 0xe7d3fbc8,
  0x21e1cde6, 0xc33707d6, 0xf4d50d87, 0x455a14ed, 0xa9e3e905, 0xfcefa3f8, 0x676f02d9, 0x8d2a4c8a,
  0xfffa3942, 0x8771f681, 0x6d9d6122, 0xfde5380c, 0xa4beea44, 0x4bdecfa9, 0xf6bb4b60, 0xbebfbc70,
  0x289b7ec6, 0xeaa127fa, 0xd4ef3085, 0x04881d05, 0xd9d4d039, 0xe6db99e5, 0x1fa27cf8, 0xc4ac5665,
  0xf4292244, 0x432aff97, 0xab9423a7, 0xfc93a039, 0x655b59c3, 0x8f0ccc92, 0xffeff47d, 0x85845dd1,
  0x6fa87e4f, 0xfe2ce6e0, 0xa3014314, 0x4e0811a1, 0xf7537e82, 0xbd3af235, 0x2ad7d2bb, 0xeb86d391]

/-- The rotation amounts of a round, repeated four times in it. -/
def rotations : Nat → List UInt32
  | 0 => [7, 12, 17, 22]
  | 1 => [5, 9, 14, 20]
  | 2 => [4, 11, 16, 23]
  | _ => [6, 10, 15, 21]

/-- Rotation to the left by an amount between 1 and 31. -/
def rotateLeft (x amount : UInt32) : UInt32 :=
  (x <<< amount) ||| (x >>> (32 - amount))

/-- The mixing function of step `i`, and the word of the block that it takes. -/
def mixing (i : Nat) (s : State) : UInt32 × Nat :=
  match i / 16 with
  | 0 => ((s.b &&& s.c) ||| (~~~s.b &&& s.d), i)
  | 1 => ((s.d &&& s.b) ||| (~~~s.d &&& s.c), (5 * i + 1) % 16)
  | 2 => (s.b ^^^ s.c ^^^ s.d, (3 * i + 5) % 16)
  | _ => (s.c ^^^ (s.b ||| ~~~s.d), (7 * i) % 16)

/-- Step `i` on a block of sixteen words, with its additive constant. -/
def step (block : List UInt32) (s : State) (i : Nat) (sine : UInt32) : State :=
  let (f, word) := mixing i s
  let sum := s.a + f + sine + block.getD word 0
  let amount := (rotations (i / 16)).getD (i % 4) 0
  ⟨s.d, s.b + rotateLeft sum amount, s.b, s.c⟩

/-- Mixes one block into the state. -/
def absorb (s : State) (block : List UInt32) : State :=
  let t := sines.zipIdx.foldl (fun t (sine, i) => step block t i sine) s
  ⟨s.a + t.a, s.b + t.b, s.c + t.c, s.d + t.d⟩

/-- The four bytes of a word, the least significant first. -/
def wordBytes (w : UInt32) : List UInt8 :=
  [w.toUInt8, (w >>> 8).toUInt8, (w >>> 16).toUInt8, (w >>> 24).toUInt8]

/-- Reads bytes as little-endian words. -/
def toWords : List UInt8 → List UInt32
  | a :: b :: c :: d :: rest =>
    (a.toUInt32 ||| (b.toUInt32 <<< 8) ||| (c.toUInt32 <<< 16) ||| (d.toUInt32 <<< 24))
      :: toWords rest
  | _ => []

/-- The message followed by a one bit, zeros and its length in bits, so that the whole
is a multiple of 64 bytes. -/
def pad (message : List UInt8) : List UInt8 :=
  let zeros := (119 - message.length % 64) % 64
  let bits := 8 * message.length
  message ++ 0x80 :: List.replicate zeros 0
    ++ wordBytes (UInt32.ofNat bits) ++ wordBytes (UInt32.ofNat (bits / Nat.pow 2 32))

/-- Cuts words into the given number of blocks of sixteen. -/
def blocks : Nat → List UInt32 → List (List UInt32)
  | 0, _ => []
  | n + 1, ws => ws.take 16 :: blocks n (ws.drop 16)

/-- The digest of a byte sequence. -/
def digest (message : List UInt8) : List UInt8 :=
  let ws := toWords (pad message)
  let s := (blocks (ws.length / 16) ws).foldl absorb State.start
  wordBytes s.a ++ wordBytes s.b ++ wordBytes s.c ++ wordBytes s.d

/-- The digest in hexadecimal digits. -/
def hexDigest (message : List UInt8) : String :=
  String.join ((digest message).map fun byte => Text.hex 2 byte.toNat)

end PluginAtlas.Digest.Md5
