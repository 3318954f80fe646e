import PluginAtlas.Text.Basic

/-!
# UTF-8 and the single-byte charsets

Encoding of text as UTF-8 and the reading of bytes as text. A byte sequence is read
strictly (surrogates, overlong forms and numbers beyond U+10FFFF are refused) or
leniently, where every maximal part that cannot begin a character becomes one
replacement character. Two single-byte charsets stand beside it.

## Main definitions

* `encode`, `decode?`: UTF-8 and its strict reading.
* `decodeLenient`: the reading that always gives a text.
* `windows1252?`, `latin1`: one character per byte.
-/

namespace PluginAtlas.Text

/-- The UTF-8 bytes of one character. -/
def encodeChar (c : Char) : List UInt8 :=
  let n := c.toNat
  let continuation (k : Nat) : UInt8 := UInt8.ofNat (0x80 + k % 0x40)
  if n < 0x80 then [UInt8.ofNat n]
  else if n < 0x800 then [UInt8.ofNat (0xC0 + n / 0x40), continuation n]
  else if n < 0x10000 then
    [UInt8.ofNat (0xE0 + n / 0x1000), continuation (n / 0x40), continuation n]
  else
    [UInt8.ofNat (0xF0 + n / 0x40000), continuation (n / 0x1000), continuation (n / 0x40),
      continuation n]

/-- The UTF-8 bytes of a text. -/
def encode (s : String) : List UInt8 :=
  s.toList.flatMap encodeChar

/-- What the bytes at the front of a sequence begin with: a character and its length,
or the number of bytes that begin none and are to be replaced together. -/
inductive Utf8Step where
  | char (c : Char) (length : Nat)
  | invalid (length : Nat)

/-- Whether a byte continues a character. -/
def isContinuation (b : UInt8) : Bool := 0x80 ≤ b.toNat && b.toNat < 0xC0

/-- The bytes that may follow a lead byte: the lead fixes how many follow, and narrows
the range of the first so that overlong forms and surrogates are refused. -/
def secondByteRange (lead : UInt8) : Nat × Nat :=
  match lead.toNat with
  | 0xE0 => (0xA0, 0xBF)
  | 0xED => (0x80, 0x9F)
  | 0xF0 => (0x90, 0xBF)
  | 0xF4 => (0x80, 0x8F)
  | _ => (0x80, 0xBF)

/-- Reads the character, if any, at the front of a nonempty byte sequence. -/
def utf8Step (lead : UInt8) (rest : List UInt8) : Utf8Step :=
  let l := lead.toNat
  let (lo, hi) := secondByteRange lead
  let low (b : UInt8) : Nat := b.toNat % 0x40
  if l < 0x80 then .char (Char.ofNat l) 1
  else if l < 0xC2 || 0xF4 < l then .invalid 1
  else
    match rest with
    | [] => .invalid 1
    | b :: rest =>
      if b.toNat < lo || hi < b.toNat then .invalid 1
      else if l < 0xE0 then .char (Char.ofNat (l % 0x20 * 0x40 + low b)) 2
      else
        match rest with
        | [] => .invalid 2
        | c :: rest =>
          if !isContinuation c then .invalid 2
          else if l < 0xF0 then
            .char (Char.ofNat (l % 0x10 * 0x1000 + low b * 0x40 + low c)) 3
          else
            match rest with
            | [] => .invalid 3
            | d :: _ =>
              if !isContinuation d then .invalid 3
              else
                .char (Char.ofNat
                  (l % 0x08 * 0x40000 + low b * 0x1000 + low c * 0x40 + low d)) 4

/-- Reads bytes as UTF-8, passing over the `skip` bytes that the last character has
already taken; `none` when some byte belongs to no character. -/
def decodeList? : Nat → List UInt8 → Option (List Char)
  | _, [] => some []
  | n + 1, _ :: rest => decodeList? n rest
  | 0, b :: rest =>
    match utf8Step b rest with
    | .char c length => (decodeList? (length - 1) rest).map (c :: ·)
    | .invalid _ => none

/-- The text that a byte sequence encodes in UTF-8, if it encodes one. -/
def decode? (bytes : List UInt8) : Option String :=
  (decodeList? 0 bytes).map String.ofList

/-- Reads bytes as UTF-8 with replacement characters. -/
def decodeListLenient : Nat → List UInt8 → List Char
  | _, [] => []
  | n + 1, _ :: rest => decodeListLenient n rest
  | 0, b :: rest =>
    match utf8Step b rest with
    | .char c length => c :: decodeListLenient (length - 1) rest
    | .invalid length => Char.ofNat 0xFFFD :: decodeListLenient (length - 1) rest

/-- The text of a byte sequence, with a replacement character for every maximal part
that is not UTF-8. -/
def decodeLenient (bytes : List UInt8) : String :=
  String.ofList (decodeListLenient 0 bytes)

/-- The code points that the bytes 80 to 9F stand for in the Windows charset; zero
where it leaves a byte undefined. -/
def windows1252High : List Nat := [
  0x20AC, 0, 0x201A, 0x0192, 0x201E, 0x2026, 0x2020, 0x2021,
  0x02C6, 0x2030, 0x0160, 0x2039, 0x0152, 0, 0x017D, 0,
  0, 0x2018, 0x2019, 0x201C, 0x201D, 0x2022, 0x2013, 0x2014,
  0x02DC, 0x2122, 0x0161, 0x203A, 0x0153, 0, 0x017E, 0x0178]

/-- The character of a byte in the Windows charset, if it has one. -/
def windows1252Char? (b : UInt8) : Option Char :=
  let n := b.toNat
  if n < 0x80 || 0xA0 ≤ n then some (Char.ofNat n)
  else
    match windows1252High.getD (n - 0x80) 0 with
    | 0 => none
    | code => some (Char.ofNat code)

/-- The text of a byte sequence in the Windows charset, if it has no undefined byte. -/
def windows1252? (bytes : List UInt8) : Option String :=
  (bytes.mapM windows1252Char?).map String.ofList

/-- The text whose code points are the bytes. -/
def latin1 (bytes : List UInt8) : String :=
  String.ofList (bytes.map fun b => Char.ofNat b.toNat)

end PluginAtlas.Text
