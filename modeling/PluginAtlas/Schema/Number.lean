import PluginAtlas.Json.Reader
import PluginAtlas.Schema.Checked
import PluginAtlas.Text.Blank

/-!
# Numbers and truth values of fields

Numbers are read generously: a truth value counts as zero or one, a double without a
fraction counts as whole, and a text may write the number.

## Main definitions

* `whole`, `natural`: whole numbers.
* `truth`: truth values.
* `decimal`: doubles.
-/

namespace PluginAtlas.Schema

/-- White space around a number. The information separators are none. -/
def isNumberSpace (c : Char) : Bool :=
  Text.isBlank c && !(28 ≤ c.toNat && c.toNat ≤ 31)

/-- A sign and what follows it; no sign is a plus. -/
def splitSign : List Char → Bool × List Char
  | '-' :: rest => (true, rest)
  | '+' :: rest => (false, rest)
  | cs => (false, cs)

/-- The digits of a number in which single underscores may divide the digits. -/
def dividedDigits? : List Char → Option (List Char)
  | [] => none
  | [c] => if c.isDigit then some [c] else none
  | c :: '_' :: rest => if c.isDigit then (dividedDigits? rest).map (c :: ·) else none
  | c :: rest => if c.isDigit then (dividedDigits? rest).map (c :: ·) else none

/-- A whole number without sign; a point with nothing but zeros after it may follow. -/
def plainWhole? (cs : List Char) : Option Nat :=
  let whole := cs.takeWhile (· != '.')
  let zeros := (cs.drop whole.length).drop 1
  if zeros.all (· == '0') then (dividedDigits? whole).map Json.digitsValue else none

/-- The whole number that a text writes. -/
def wholeOfText (s : String) : Checked Int :=
  let cs := (Text.trim isNumberSpace s).toList
  if Json.maxDigits < cs.length then .flawed .wholeTooLong
  else
    let (negative, digits) := splitSign cs
    match plainWhole? digits with
    | some n => .valid (if negative then -(n : Int) else n)
    | none => .flawed .wholeUnreadable

/-- The whole number that a double is; it has to lie strictly within 64 bits. -/
def wholeOfDouble (x : Decimal.Binary64) : Checked Int :=
  if !x.isFinite then .flawed .notFinite
  else
    match x.toInt? with
    | none => .flawed .hasFraction
    | some n => if n.natAbs < Nat.pow 2 63 then .valid n else .flawed .wholeTooLong

/-- A whole number. -/
def whole : Shape Int
  | .int n => .valid n
  | .bool b => .valid (if b then 1 else 0)
  | .float x => wholeOfDouble x
  | .str s => wholeOfText s
  | _ => .flawed .notWhole

/-- A whole number that is not negative. -/
def natural : Shape Nat := fun value =>
  match whole value with
  | .valid n => if n < 0 then .flawed .belowBound else .valid n.toNat
  | .faulty ds => .faulty ds

/-- The words for the truth values. -/
def truthWords : List (String × Bool) := [
  ("0", false), ("off", false), ("f", false), ("false", false), ("n", false), ("no", false),
  ("1", true), ("on", true), ("t", true), ("true", true), ("y", true), ("yes", true)]

/-- The truth value that a number stands for: of the numbers of 64 bits only zero and
one do. -/
def truthOfWhole (n : Int) : Checked Bool :=
  if n = 0 then .valid false
  else if n = 1 then .valid true
  else if n < -(Nat.pow 2 63 : Nat) || (Nat.pow 2 63 : Nat) ≤ n then .flawed .notTruth
  else .flawed .truthUnreadable

/-- A truth value; words are read without regard to the case of ASCII letters. -/
def truth : Shape Bool
  | .bool b => .valid b
  | .int n => truthOfWhole n
  | .float x =>
    match x.toInt? with
    | some n => truthOfWhole n
    | none => .flawed .notTruth
  | .str s =>
    match truthWords.lookup (String.ofList (s.toList.map Char.toLower)) with
    | some b => .valid b
    | none => .flawed .truthUnreadable
  | _ => .flawed .notTruth

/-- The words for the doubles that no digits write. -/
def doubleWord? (negative : Bool) (cs : List Char) : Option Decimal.Binary64 :=
  match String.ofList (cs.map Char.toLower) with
  | "inf" | "infinity" => some (.infinity negative)
  | "nan" => some .nan
  | _ => none

/-- The exponent at the end of a decimal; nothing is the exponent zero. -/
def exponent? : List Char → Option Int
  | [] => some 0
  | c :: rest =>
    let (negative, digits) := splitSign rest
    if (c == 'e' || c == 'E') && !digits.isEmpty && digits.all Char.isDigit then
      let n : Int := Json.digitsValue digits
      some (if negative then -n else n)
    else none

/-- A decimal without sign: digits with at most one point among them, and an exponent. -/
def plainDecimal? (negative : Bool) (cs : List Char) : Option Decimal.Binary64 :=
  let whole := cs.takeWhile Char.isDigit
  let rest := cs.drop whole.length
  let fraction := match rest with
    | '.' :: more => more.takeWhile Char.isDigit
    | _ => []
  let rest := match rest with
    | '.' :: more => more.drop fraction.length
    | _ => rest
  if whole.isEmpty && fraction.isEmpty then none
  else (exponent? rest).map fun e =>
    .ofDecimal negative (Json.digitsValue (whole ++ fraction)) (e - fraction.length)

/-- The double that a text writes, if the text is not divided by underscores. -/
def doubleOfChars? (cs : List Char) : Option Decimal.Binary64 :=
  let (negative, rest) := splitSign cs
  (doubleWord? negative rest).orElse fun _ => plainDecimal? negative rest

/-- The characters of a number without the underscores that divide it; none may stand
at an end or beside another. -/
def withoutDividers? (cs : List Char) : Option (List Char) :=
  if cs.head? == some '_' || cs.getLast? == some '_' || Text.occursIn ['_', '_'] cs then none
  else some (cs.filter (· != '_'))

/-- A double. -/
def decimal : Shape Decimal.Binary64
  | .float x => .valid x
  | .int n => .valid (.ofInt n)
  | .bool b => .valid (.ofInt (if b then 1 else 0))
  | .str s =>
    let cs := (Text.trim isNumberSpace s).toList
    match (doubleOfChars? cs).orElse fun _ => (withoutDividers? cs).bind doubleOfChars? with
    | some x => .valid x
    | none => .flawed .decimalUnreadable
  | _ => .flawed .decimalUnreadable

end PluginAtlas.Schema
