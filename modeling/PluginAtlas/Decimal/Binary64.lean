import PluginAtlas.Text.Basic

/-!
# Double-precision numbers

A double-precision number is kept as its bit pattern, so that two numbers are equal
exactly when they are the same double. It is read from a decimal by exact rounding to
nearest, and written with the fewest decimal digits that read back.

## Main definitions

* `Binary64`: a bit pattern of the binary64 format.
* `Binary64.ofDecimal`: the double nearest to a decimal, ties to the even neighbour.
* `Binary64.magnitude`: a finite double as a whole number times a power of two.
* `shortest`: the fewest digits that lie in the rounding interval of a double.
* `NumberFormat`, `Binary64.render`: how a double is written.
-/

namespace PluginAtlas.Decimal

/-- A double-precision number, by its bit pattern. -/
structure Binary64 where
  bits : UInt64
deriving DecidableEq, Repr, Inhabited

namespace Binary64

/-- The number of bits of the fraction. -/
def fractionSize : Nat := Nat.pow 2 52

/-- The bit pattern of positive infinity, above that of every finite number. -/
def infinityBits : Nat := 2047 * fractionSize

/-- The pattern of a sign and a magnitude. -/
def ofParts (negative : Bool) (magnitude : Nat) : Binary64 :=
  ⟨UInt64.ofNat (magnitude + if negative then Nat.pow 2 63 else 0)⟩

/-- Infinity. -/
def infinity (negative : Bool) : Binary64 := ofParts negative infinityBits

/-- Not a number. -/
def nan : Binary64 := ofParts false (infinityBits + fractionSize / 2)

/-- Whether the sign bit is set. -/
def isNegative (x : Binary64) : Bool := Nat.pow 2 63 ≤ x.bits.toNat

/-- The pattern without its sign. -/
def unsigned (x : Binary64) : Nat := x.bits.toNat % Nat.pow 2 63

/-- Whether the number is neither infinite nor a NaN. -/
def isFinite (x : Binary64) : Bool := x.unsigned < infinityBits

/-- Whether the number is a NaN. -/
def isNan (x : Binary64) : Bool := infinityBits < x.unsigned

/-- Whether the number is zero, of either sign. -/
def isZero (x : Binary64) : Bool := x.unsigned == 0

/-- The absolute value of a finite double as `m * 2 ^ q`. -/
def magnitude (x : Binary64) : Nat × Int :=
  let exponent := x.unsigned / fractionSize
  let fraction := x.unsigned % fractionSize
  if exponent = 0 then (fraction, -1074) else (fractionSize + fraction, (exponent : Int) - 1075)

/-- The quotient rounded to the nearest whole number, a half to the even one. -/
def roundDiv (num den : Nat) : Nat :=
  let quotient := num / den
  let rest := 2 * (num % den)
  if den < rest || (rest == den && quotient % 2 == 1) then quotient + 1 else quotient

/-- The pattern of the double nearest to the positive fraction `num / den`. -/
def nearestBits (num den : Nat) : Nat :=
  let guess : Int := (Nat.log2 num : Int) - Nat.log2 den
  let reached := den * Nat.pow 2 guess.toNat ≤ num * Nat.pow 2 (-guess).toNat
  let exponent := if reached then guess else guess - 1
  let q := max (-1074) (exponent - 52)
  let m := roundDiv (num * Nat.pow 2 (-q).toNat) (den * Nat.pow 2 q.toNat)
  (q + 1074).toNat * fractionSize + m

/-- The double nearest to `digits * 10 ^ exponent`, with a sign. Decimals beyond the
largest double become infinite. -/
def ofDecimal (negative : Bool) (digits : Nat) (exponent : Int) : Binary64 :=
  if digits = 0 then ofParts negative 0
  else
    let scale := (Nat.toDigits 10 digits).length + exponent
    if 310 < scale then infinity negative
    else if scale < -330 then ofParts negative 0
    else
      let bits := nearestBits (digits * Nat.pow 10 exponent.toNat) (Nat.pow 10 (-exponent).toNat)
      ofParts negative (min bits infinityBits)

/-- The double nearest to an integer. -/
def ofInt (n : Int) : Binary64 := ofDecimal (n < 0) n.natAbs 0

/-- The integer that a finite double is, if it is one. -/
def toInt? (x : Binary64) : Option Int :=
  if !x.isFinite then none
  else
    let (m, q) := x.magnitude
    let whole := m * Nat.pow 2 q.toNat
    let den := Nat.pow 2 (-q).toNat
    if whole % den = 0 then
      let n : Int := (whole / den : Nat)
      some (if x.isNegative then -n else n)
    else none

end Binary64

/-- How many decimal digits the whole part of a positive fraction has; for a fraction
below one, minus the number of zeros after the point. -/
def decimalSize (num den : Nat) : Int :=
  if den ≤ num then (Nat.toDigits 10 (num / den)).length
  else
    let zeros := (List.range 400).find? fun j => den ≤ num * Nat.pow 10 (j + 1)
    Int.neg (zeros.getD 0)

/-- The two decimals with `count` digits next to a fraction, as a number of units in
the last place, and the nearer of those that a test accepts. -/
def pickNear (value unit scale : Nat) (accepts : Nat → Bool) : Option Nat :=
  let below := value * scale / unit
  let above := below + 1
  let upper := above * unit - value * scale
  let lower := value * scale - below * unit
  match accepts below, accepts above with
  | true, true => some (if lower < upper || (lower == upper && below % 2 == 0) then below else above)
  | true, false => some below
  | false, true => some above
  | false, false => none

/-- The fewest digits that read back as `m * 2 ^ q`, as digits and a power of ten.
The interval of the reals that round to a double reaches half way to its neighbours,
a quarter of the way down from a power of two, and holds its ends when `m` is even. -/
def shortest (m : Nat) (q : Int) : Nat × Int :=
  let atPower := m == Binary64.fractionSize && -1074 < q
  let up := Nat.pow 2 (q - 2).toNat
  let den := Nat.pow 2 (2 - q).toNat
  let value := 4 * m * up
  let low := (4 * m - if atPower then 1 else 2) * up
  let high := (4 * m + 2) * up
  let size := decimalSize value den
  let inside (unit scale candidate : Nat) : Bool :=
    let x := candidate * unit
    if m % 2 == 0 then low * scale ≤ x && x ≤ high * scale
    else low * scale < x && x < high * scale
  let found := (List.range 17).findSome? fun i =>
    let place := size - (i + 1 : Nat)
    let unit := den * Nat.pow 10 place.toNat
    let scale := Nat.pow 10 (-place).toNat
    (pickNear value unit scale (inside unit scale)).map fun digits => (digits, place)
  found.getD (0, 0)

/-- How a double is written: the powers of ten between which it is written without
exponent, and the texts of the values that are no numbers. -/
structure NumberFormat where
  /-- The point stands at least this many places from the first digit. -/
  leastPoint : Int
  /-- The point stands at most this many places from the first digit. -/
  mostPoint : Int
  infinity : String
  nan : String

/-- Digits, and the place of the point counted from the first of them, as text. -/
def NumberFormat.write (format : NumberFormat) (digits : List Char) (point : Int) : String :=
  let zeros (n : Nat) : List Char := List.replicate n '0'
  let count := digits.length
  if format.leastPoint ≤ point && point ≤ format.mostPoint then
    String.ofList <|
      if point ≤ 0 then '0' :: '.' :: zeros (-point).toNat ++ digits
      else if count ≤ point.toNat then digits ++ zeros (point.toNat - count) ++ ['.', '0']
      else digits.take point.toNat ++ '.' :: digits.drop point.toNat
  else
    let exponent := point - 1
    let size := Nat.toDigits 10 exponent.natAbs
    let fraction := digits.drop 1
    String.ofList <|
      digits.take 1 ++ (if fraction.isEmpty then [] else '.' :: fraction)
        ++ 'e' :: (if exponent < 0 then '-' else '+') :: zeros (2 - size.length) ++ size

/-- A double as text, with the fewest digits that read back. -/
def Binary64.render (format : NumberFormat) (x : Binary64) : String :=
  let sign := if x.isNegative then "-" else ""
  if x.isNan then format.nan
  else if !x.isFinite then sign ++ format.infinity
  else if x.isZero then sign ++ "0.0"
  else
    let (m, q) := x.magnitude
    let (digits, place) := shortest m q
    let text := Nat.toDigits 10 digits
    let point : Int := text.length + place
    sign ++ format.write (Text.dropEndWhile (· == '0') text) point

end PluginAtlas.Decimal
