import PluginAtlas.Path
import PluginAtlas.Text.Utf8
import PluginAtlas.Traced

/-!
# File contents as text

Plugins hold files in old encodings. The bytes of a file are read in the first encoding
that has them all: as UTF-8, else as Windows-1252, and else byte by byte. A byte-order
mark at the front is dropped. Bytes that no encoding has would be read with replacement
characters, and with a notice. Since every byte is a character in the last encoding, no
notice is ever given, and only the text is handed on.

## Main definitions

* `Encoding`, `Encoding.decode?`: the encodings and what they make of bytes.
* `Content.decodeNoting`: the text of bytes, with a notice if no encoding has them.
* `Content.decode`: the text of bytes.
* `Content.source`: the text of a file, with line feeds only.
* `Content.head`: the text of the first bytes of a file.
-/

namespace PluginAtlas

/-- An encoding of files. -/
inductive Encoding where
  | utf8
  | windows1252
  | latin1
deriving DecidableEq, Repr

namespace Encoding

/-- The name of an encoding. -/
def name : Encoding → String
  | utf8 => "utf-8"
  | windows1252 => "cp1252"
  | latin1 => "latin-1"

/-- The text of bytes in an encoding, if it has them all. -/
def decode? (bytes : List UInt8) : Encoding → Option String
  | utf8 => Text.decode? bytes
  | windows1252 => Text.windows1252? bytes
  | latin1 => some (Text.latin1 bytes)

/-- The encodings in the order in which they are tried. -/
def chain : List Encoding := [utf8, windows1252, latin1]

end Encoding

namespace Content

/-- The bytes without a byte-order mark. -/
def withoutMark : List UInt8 → List UInt8
  | 0xEF :: 0xBB :: 0xBF :: rest => rest
  | bytes => bytes

/-- The text of bytes, in the first encoding that has them all. Bytes that no encoding has
are given replacement characters, and a notice that names their file. -/
def decodeNoting (file : Option Path) (bytes : List UInt8) : Traced String :=
  let body := withoutMark bytes
  match Encoding.chain.findSome? (Encoding.decode? body) with
  | some text => pure text
  | none => do
    Traced.notify
      (.encodingFallback ((file.map Path.render).getD "None") (Encoding.chain.map Encoding.name))
    return Text.decodeLenient body

/-- The text of bytes. -/
def decode (bytes : List UInt8) : String := (decodeNoting none bytes).value

/-- The last encoding has every byte, so that there is always a text without replacement
characters. -/
theorem findSome?_chain (body : List UInt8) :
    Encoding.chain.findSome? (Encoding.decode? body) =
      some ((Text.decode? body).getD ((Text.windows1252? body).getD (Text.latin1 body))) := by
  rw [Encoding.chain]
  simp only [List.findSome?_cons, Encoding.decode?]
  cases Text.decode? body with
  | some text => rfl
  | none => cases Text.windows1252? body <;> rfl

theorem decode_eq (bytes : List UInt8) :
    decode bytes = (Text.decode? (withoutMark bytes)).getD
      ((Text.windows1252? (withoutMark bytes)).getD (Text.latin1 (withoutMark bytes))) := by
  rw [decode, decodeNoting]
  simp only [findSome?_chain]
  rfl

/-- No notice is given. -/
theorem decodeNoting_eq (file : Option Path) (bytes : List UInt8) :
    decodeNoting file bytes = pure (decode bytes) := by
  rw [decode_eq, decodeNoting]
  simp only [findSome?_chain]

/-- The text with every line end as a line feed. -/
def normalizeLineEnds (text : String) : String :=
  Text.substitute "\r" "\n" (Text.substitute "\r\n" "\n" text)

/-- The text of a file. -/
def source (bytes : List UInt8) : String := normalizeLineEnds (decode bytes)

/-- The number of bytes at the front of a file that may hold its header. -/
def headSize : Nat := 8192

/-- The text of the first bytes of a file. -/
def head (size : Nat) (bytes : List UInt8) : String := decode (bytes.take size)

end Content

end PluginAtlas
