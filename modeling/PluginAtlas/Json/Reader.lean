import PluginAtlas.Json.Basic

/-!
# Reading JSON text

JSON text is read from left to right, and the first fault is reported with its place.
Blanks are the space, the tab and the two line ends. Besides the standard's values
`NaN`, `Infinity` and `-Infinity` are read. The last of several fields with one key
wins and stands where the first stood. A whole number has at most 4300 digits.

A reading function takes the text that is left and gives the text that it leaves. A
fault is placed by the amount of text left where it was found, so that no position is
carried along.

## Main definitions

* `Json.Fault`: what can be wrong with a text.
* `Json.readFront`: the value at the beginning of a text.
* `Json.parse`: the value of a whole text.
* `Json.ParseError`, `Json.ParseError.message`: a fault with its place.
-/

namespace PluginAtlas.Json

/-- What can be wrong with a JSON text. -/
inductive Fault where
  | value
  | propertyName
  | colon
  | comma
  | extraData
  | unterminated
  | controlCharacter
  | escape
  | unicodeEscape
  | byteOrderMark
  /-- A whole number with more digits than can be read. -/
  | digits (count : Nat)
deriving DecidableEq, Repr

/-- The wording of a fault. -/
def Fault.text : Fault → String
  | .value => "Expecting value"
  | .propertyName => "Expecting property name enclosed in double quotes"
  | .colon => "Expecting ':' delimiter"
  | .comma => "Expecting ',' delimiter"
  | .extraData => "Extra data"
  | .unterminated => "Unterminated string starting at"
  | .controlCharacter => "Invalid control character at"
  | .escape => "Invalid \\escape"
  | .unicodeEscape => "Invalid \\uXXXX escape"
  | .byteOrderMark => "Unexpected UTF-8 BOM (decode using utf-8-sig)"
  | .digits _ => ""

/-- The most digits that a whole number may have. -/
def maxDigits : Nat := 4300

/-- The wording of a number that has too many digits. -/
def tooManyDigits (count : Nat) : String :=
  "Exceeds the limit (" ++ Text.ofNat maxDigits ++ " digits) for integer string conversion: value has "
    ++ Text.ofNat count ++ " digits; use sys.set_int_max_str_digits() to increase the limit"

/-- A fault and the number of characters left where it was found. -/
structure Failure where
  fault : Fault
  left : Nat
deriving DecidableEq, Repr

/-- The result of reading something from the front of a text. -/
abbrev Reading (α : Type) := Except Failure (α × List Char)

/-- A fault in front of the given text. -/
def failAt {α : Type} (fault : Fault) (rest : List Char) : Except Failure α :=
  .error ⟨fault, rest.length⟩

/-- A blank between the parts of a JSON text. -/
def isSpace (c : Char) : Bool := c == ' ' || c == '\t' || c == '\n' || c == '\r'

/-- The text without leading blanks. -/
def skipSpace (cs : List Char) : List Char := cs.dropWhile isSpace

/-- The value of a hexadecimal digit. -/
def hexValue? (c : Char) : Option Nat :=
  if '0' ≤ c && c ≤ '9' then some (c.toNat - 48)
  else if 'a' ≤ c && c ≤ 'f' then some (c.toNat - 87)
  else if 'A' ≤ c && c ≤ 'F' then some (c.toNat - 55)
  else none

/-- The number written by four hexadecimal digits. -/
def hexUnit? (a b c d : Char) : Option Nat := do
  return (((← hexValue? a) * 16 + (← hexValue? b)) * 16 + (← hexValue? c)) * 16 + (← hexValue? d)

/-- Whether a UTF-16 unit begins a pair. -/
def isHighSurrogate (n : Nat) : Bool := 0xD800 ≤ n && n < 0xDC00

/-- Whether a UTF-16 unit ends a pair. -/
def isLowSurrogate (n : Nat) : Bool := 0xDC00 ≤ n && n < 0xE000

/-- The character of a single UTF-16 unit; half a pair shows as a replacement. -/
def unitChar (n : Nat) : Char :=
  if 0xD800 ≤ n && n < 0xE000 then Char.ofNat 0xFFFD else Char.ofNat n

/-- The character that a one-letter escape stands for. -/
def simpleEscape? : Char → Option Char
  | '"' => some '"'
  | '\\' => some '\\'
  | '/' => some '/'
  | 'b' => some (Char.ofNat 8)
  | 'f' => some (Char.ofNat 12)
  | 'n' => some '\n'
  | 'r' => some '\r'
  | 't' => some '\t'
  | _ => none

/-- Reads an escape of a UTF-16 unit after its `u`, or of a pair of units; the text
must go on after it. -/
def readUnit (rest : List Char) : Reading Char :=
  match rest with
  | a :: b :: c :: d :: next :: rest' =>
    match hexUnit? a b c d with
    | none => .error ⟨.unicodeEscape, rest.length + 1⟩
    | some high =>
      let single : Reading Char := .ok (unitChar high, next :: rest')
      if !isHighSurrogate high || next != '\\' then single
      else
        match rest' with
        | 'u' :: a' :: b' :: c' :: d' :: e' :: rest'' =>
          match hexUnit? a' b' c' d' with
          | none => .error ⟨.unicodeEscape, rest'.length⟩
          | some low =>
            if isLowSurrogate low then
              .ok (Char.ofNat (0x10000 + (high - 0xD800) * 0x400 + (low - 0xDC00)), e' :: rest'')
            else single
        | _ => single
  | _ => .error ⟨.unicodeEscape, rest.length + 1⟩

/-- Reads the rest of a text value after its opening mark. `start` is the number of
characters left in front of that mark, `fuel` bounds the number of steps, and `done`
holds what has been read, the last first. -/
def readTextFrom (start : Nat) : Nat → List Char → List Char → Reading String
  | 0, _, _ => .error ⟨.unterminated, start⟩
  | fuel + 1, done, cs =>
    match cs with
    | [] => .error ⟨.unterminated, start⟩
    | '"' :: rest => .ok (String.ofList done.reverse, rest)
    | '\\' :: rest =>
      match rest with
      | [] => .error ⟨.unterminated, start⟩
      | 'u' :: rest' =>
        match readUnit rest' with
        | .ok (c, rest'') => readTextFrom start fuel (c :: done) rest''
        | .error failure => .error failure
      | e :: rest' =>
        match simpleEscape? e with
        | some c => readTextFrom start fuel (c :: done) rest'
        | none => failAt .escape cs
    | c :: rest =>
      if c.toNat < 0x20 then failAt .controlCharacter cs
      else readTextFrom start fuel (c :: done) rest

/-- Reads a text value after its opening mark. -/
def readText (rest : List Char) : Reading String :=
  readTextFrom (rest.length + 1) (rest.length + 1) [] rest

/-- The number that ASCII digits write. -/
def digitsValue (ds : List Char) : Nat :=
  ds.foldl (fun n d => n * 10 + (d.toNat - 48)) 0

/-- The whole part of a number: a zero alone, or digits that begin with another. -/
def wholePart? : List Char → Option (List Char × List Char)
  | '0' :: rest => some (['0'], rest)
  | c :: rest =>
    if c.isDigit then some (c :: rest.takeWhile Char.isDigit, rest.dropWhile Char.isDigit) else none
  | [] => none

/-- The digits after a point, if a point with digits follows. -/
def fractionPart : List Char → List Char × List Char
  | '.' :: c :: rest =>
    if c.isDigit then (c :: rest.takeWhile Char.isDigit, rest.dropWhile Char.isDigit)
    else ([], '.' :: c :: rest)
  | cs => ([], cs)

/-- The digits of an exponent and the text after it, if the text begins with digits. -/
def exponentDigits? (negative : Bool) (cs : List Char) : Option (Int × List Char) :=
  let ds := cs.takeWhile Char.isDigit
  if ds.isEmpty then none
  else
    let n : Int := digitsValue ds
    some (if negative then -n else n, cs.dropWhile Char.isDigit)

/-- The exponent of a number, if one follows. -/
def exponentPart? : List Char → Option (Int × List Char)
  | c :: '+' :: rest => if c == 'e' || c == 'E' then exponentDigits? false rest else none
  | c :: '-' :: rest => if c == 'e' || c == 'E' then exponentDigits? true rest else none
  | c :: rest => if c == 'e' || c == 'E' then exponentDigits? false rest else none
  | [] => none

/-- Reads a number after its sign; `start` is the text from the sign on. -/
def readNumber (start : List Char) (negative : Bool) (cs : List Char) : Reading Json :=
  match wholePart? cs with
  | none => failAt .value start
  | some (whole, rest) =>
    let (fraction, rest) := fractionPart rest
    let exponent := exponentPart? rest
    if fraction.isEmpty && exponent.isNone then
      if maxDigits < whole.length then .error ⟨.digits whole.length, start.length⟩
      else
        let n : Int := digitsValue whole
        .ok (.int (if negative then -n else n), rest)
    else
      let (power, rest) := exponent.getD (0, rest)
      let x := Decimal.Binary64.ofDecimal negative (digitsValue (whole ++ fraction))
        (power - fraction.length)
      .ok (.float x, rest)

/-- The text after a word that it begins with. -/
def afterWord? (word : String) (cs : List Char) : Option (List Char) :=
  if word.toList.isPrefixOf cs then some (cs.drop word.length) else none

/-- Reads a value that is neither a text, a list nor an object. -/
def readAtom (cs : List Char) : Reading Json :=
  let words : List (String × Json) := [
    ("null", .null), ("true", .bool true), ("false", .bool false),
    ("NaN", .float Decimal.Binary64.nan),
    ("Infinity", .float (Decimal.Binary64.infinity false)),
    ("-Infinity", .float (Decimal.Binary64.infinity true))]
  match words.findSome? fun (word, value) => (afterWord? word cs).map (value, ·) with
  | some result => .ok result
  | none =>
    match cs with
    | '-' :: rest => readNumber cs true rest
    | _ => readNumber cs false cs

mutual

/-- Reads a value; `fuel` bounds the depth and the number of parts. -/
def readValue : Nat → List Char → Reading Json
  | 0, cs => failAt .value cs
  | fuel + 1, cs =>
    match cs with
    | '"' :: rest =>
      match readText rest with
      | .ok (s, rest') => .ok (.str s, rest')
      | .error failure => .error failure
    | '[' :: rest =>
      match skipSpace rest with
      | ']' :: rest' => .ok (.arr [], rest')
      | rest' => readItems fuel [] rest'
    | '\x7b' :: rest =>
      match skipSpace rest with
      | '\x7d' :: rest' => .ok (.obj [], rest')
      | rest' => readFields fuel [] rest'
    | _ => readAtom cs

/-- Reads the items of a list up to its end, after those of `done`, the last first. -/
def readItems : Nat → List Json → List Char → Reading Json
  | 0, _, cs => failAt .value cs
  | fuel + 1, done, cs =>
    match readValue fuel cs with
    | .error failure => .error failure
    | .ok (item, rest) =>
      match skipSpace rest with
      | ']' :: rest' => .ok (.arr (item :: done).reverse, rest')
      | ',' :: rest' => readItems fuel (item :: done) (skipSpace rest')
      | rest' => failAt .comma rest'

/-- Reads the fields of an object up to its end, after those of `done`. -/
def readFields : Nat → List (String × Json) → List Char → Reading Json
  | 0, _, cs => failAt .propertyName cs
  | fuel + 1, done, cs =>
    match cs with
    | '"' :: rest =>
      match readText rest with
      | .error failure => .error failure
      | .ok (key, rest) =>
        match skipSpace rest with
        | ':' :: rest =>
          match readValue fuel (skipSpace rest) with
          | .error failure => .error failure
          | .ok (value, rest) =>
            match skipSpace rest with
            | '\x7d' :: rest' => .ok (.obj (insertField key value done), rest')
            | ',' :: rest' => readFields fuel (insertField key value done) (skipSpace rest')
            | rest' => failAt .comma rest'
        | rest => failAt .colon rest
    | _ => failAt .propertyName cs

end

/-- The value at the beginning of a text, and the text after it. -/
def readFront (cs : List Char) : Reading Json :=
  readValue (2 * cs.length + 2) cs

/-- Reads a whole text: a value between blanks. -/
def readWhole (cs : List Char) : Except Failure Json :=
  match cs with
  | '\ufeff' :: _ => failAt .byteOrderMark cs
  | _ =>
    match readFront (skipSpace cs) with
    | .error failure => .error failure
    | .ok (value, rest) =>
      match skipSpace rest with
      | [] => .ok value
      | rest' => failAt .extraData rest'

/-- A fault with its place, counted in characters from the beginning. -/
structure ParseError where
  fault : Fault
  offset : Nat
  line : Nat
  column : Nat
deriving DecidableEq, Repr

/-- Places a failure in the text that it was found in. -/
def ParseError.of (cs : List Char) (failure : Failure) : ParseError :=
  let before := cs.take (cs.length - failure.left)
  ⟨failure.fault, before.length, before.count '\n' + 1,
    (before.reverse.takeWhile (· != '\n')).length + 1⟩

/-- The message of a fault with its place. -/
def ParseError.message (error : ParseError) : String :=
  match error.fault with
  | .digits count => tooManyDigits count
  | fault =>
    fault.text ++ ": line " ++ Text.ofNat error.line ++ " column " ++ Text.ofNat error.column
      ++ " (char " ++ Text.ofNat error.offset ++ ")"

/-- Whether the fault lies in the grammar of the text, and not in the size of a number. -/
def ParseError.isMalformed (error : ParseError) : Bool :=
  match error.fault with
  | .digits _ => false
  | _ => true

/-- The value of a JSON text. -/
def parse (s : String) : Except ParseError Json :=
  match readWhole s.toList with
  | .ok value => .ok value
  | .error failure => .error (ParseError.of s.toList failure)

end PluginAtlas.Json
