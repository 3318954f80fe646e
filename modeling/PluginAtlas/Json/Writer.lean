import PluginAtlas.Json.Basic

/-!
# JSON text

Values written as JSON text, on one line or over several. A layout says what stands
between two items and after a key, and whether characters beyond ASCII are escaped.
Texts escape the quotation mark, the backslash and the control characters.

## Main definitions

* `Json.Layout`: the choices that a text leaves open.
* `Json.render`: the text of a value.
-/

namespace PluginAtlas.Json

/-- The choices of a JSON text: blanks per level when it stands over several lines, and
whether characters beyond ASCII are escaped. -/
structure Layout where
  indent : Option Nat
  escapeNonAscii : Bool

/-- One line, with a blank after every comma and colon. -/
def Layout.oneLine : Layout := ⟨none, false⟩

/-- One line of ASCII characters. -/
def Layout.ascii : Layout := ⟨none, true⟩

/-- Several lines, two blanks a level. -/
def Layout.pretty : Layout := ⟨some 2, false⟩

/-- Doubles in JSON text stand without exponent between 10⁻⁴ and 10¹⁶. -/
def jsonNumbers : Decimal.NumberFormat := ⟨-3, 16, "Infinity", "NaN"⟩

/-- An escape of one UTF-16 unit. -/
def unitEscape (n : Nat) : List Char := '\\' :: 'u' :: (Text.hex 4 n).toList

/-- One character inside a JSON text. -/
def escapeChar (escapeNonAscii : Bool) (c : Char) : List Char :=
  let n := c.toNat
  if c == '"' then ['\\', '"']
  else if c == '\\' then ['\\', '\\']
  else if c == '\n' then ['\\', 'n']
  else if c == '\r' then ['\\', 'r']
  else if c == '\t' then ['\\', 't']
  else if n == 8 then ['\\', 'b']
  else if n == 12 then ['\\', 'f']
  else if n < 0x20 then unitEscape n
  else if escapeNonAscii && 0x7E < n then
    if n < 0x10000 then unitEscape n
    else
      unitEscape (0xD800 + (n - 0x10000) / 0x400) ++ unitEscape (0xDC00 + (n - 0x10000) % 0x400)
  else [c]

/-- A text in quotation marks. -/
def writeText (layout : Layout) (s : String) : String :=
  String.ofList ('"' :: s.toList.flatMap (escapeChar layout.escapeNonAscii) ++ ['"'])

/-- What stands before an item at a level. -/
def Layout.newline (layout : Layout) (level : Nat) : String :=
  match layout.indent with
  | none => ""
  | some width => String.ofList ('\n' :: List.replicate (width * level) ' ')

/-- What stands between two items at a level. -/
def Layout.separator (layout : Layout) (level : Nat) : String :=
  match layout.indent with
  | none => ", "
  | some _ => "," ++ layout.newline level

mutual

/-- The text of a value that stands at a level. -/
def write (layout : Layout) (level : Nat) : Json → String
  | .null => "null"
  | .bool true => "true"
  | .bool false => "false"
  | .int n => Text.ofInt n
  | .float x => x.render jsonNumbers
  | .str s => writeText layout s
  | .arr [] => "[]"
  | .arr (item :: rest) =>
    "[" ++ layout.newline (level + 1) ++ write layout (level + 1) item
      ++ writeItems layout (level + 1) rest ++ layout.newline level ++ "]"
  | .obj [] => "\x7b\x7d"
  | .obj ((key, value) :: rest) =>
    "\x7b" ++ layout.newline (level + 1) ++ writeText layout key ++ ": "
      ++ write layout (level + 1) value ++ writeFields layout (level + 1) rest
      ++ layout.newline level ++ "\x7d"

/-- The text of the items after the first. -/
def writeItems (layout : Layout) (level : Nat) : List Json → String
  | [] => ""
  | item :: rest =>
    layout.separator level ++ write layout level item ++ writeItems layout level rest

/-- The text of the fields after the first. -/
def writeFields (layout : Layout) (level : Nat) : List (String × Json) → String
  | [] => ""
  | (key, value) :: rest =>
    layout.separator level ++ writeText layout key ++ ": " ++ write layout level value
      ++ writeFields layout level rest

end

/-- The JSON text of a value. -/
def render (layout : Layout) (value : Json) : String := write layout 0 value

end PluginAtlas.Json
