import PluginAtlas.Schema.Number

/-!
# Points in time

A point in time as a calendar writes it: a date, a time of day down to microseconds,
and the distance from universal time where it is known. It is read from ISO text or
from the seconds of the Unix clock, and written as ISO text.

## Main definitions

* `Date`, `Date.isValid`, `Date.ofDays`: days of the calendar.
* `Timestamp`, `Timestamp.iso`: points in time and their text.
* `Timestamp.ofText?`: reads ISO text.
* `Timestamp.ofUnix?`: the time of a reading of the Unix clock.
* `Schema.time`: the shape of a field that holds a point in time.
-/

namespace PluginAtlas

/-- A day of the calendar. -/
structure Date where
  year : Nat
  month : Nat
  day : Nat
deriving DecidableEq, Repr, Inhabited

namespace Date

/-- Whether a year has a twenty-ninth of February. -/
def isLeap (year : Nat) : Bool := year % 4 = 0 && (year % 100 ≠ 0 || year % 400 = 0)

/-- The number of days of a month. -/
def monthLength (year month : Nat) : Nat :=
  if month = 2 then (if isLeap year then 29 else 28)
  else if month = 4 || month = 6 || month = 9 || month = 11 then 30
  else 31

/-- Whether the calendar has the day. -/
def isValid (d : Date) : Bool :=
  1 ≤ d.year && 1 ≤ d.month && d.month ≤ 12 && 1 ≤ d.day && d.day ≤ monthLength d.year d.month

/-- The day with a number, where the first of January 1970 is day zero. Years are
counted from March in cycles of four hundred, so that the leap day ends a year. -/
def ofDays (days : Int) : Date :=
  let shifted := days + 719468
  let cycle := Int.fdiv shifted 146097
  let dayOfCycle := (shifted - cycle * 146097).toNat
  let yearOfCycle :=
    (dayOfCycle - dayOfCycle / 1460 + dayOfCycle / 36524 - dayOfCycle / 146096) / 365
  let dayOfYear := dayOfCycle - (365 * yearOfCycle + yearOfCycle / 4 - yearOfCycle / 100)
  let fromMarch := (5 * dayOfYear + 2) / 153
  let day := dayOfYear - (153 * fromMarch + 2) / 5 + 1
  let month := if fromMarch < 10 then fromMarch + 3 else fromMarch - 9
  let year := (cycle * 400 + yearOfCycle).toNat + (if month ≤ 2 then 1 else 0)
  ⟨year, month, day⟩

end Date

/-- A point in time. -/
structure Timestamp where
  date : Date
  hour : Nat := 0
  minute : Nat := 0
  second : Nat := 0
  micros : Nat := 0
  /-- Minutes ahead of universal time, if that is known. -/
  zone : Option Int := none
deriving DecidableEq, Repr, Inhabited

namespace Timestamp

/-- A number with leading zeros. -/
def padded (width n : Nat) : String :=
  let digits := Nat.toDigits 10 n
  String.ofList (List.replicate (width - digits.length) '0' ++ digits)

/-- The text of a distance from universal time. -/
def zoneText (minutes : Int) : String :=
  (if minutes < 0 then "-" else "+") ++ padded 2 (minutes.natAbs / 60) ++ ":" ++
    padded 2 (minutes.natAbs % 60)

/-- The ISO text of a point in time; whole seconds are written without a fraction. -/
def iso (t : Timestamp) : String :=
  padded 4 t.date.year ++ "-" ++ padded 2 t.date.month ++ "-" ++ padded 2 t.date.day ++ "T" ++
    padded 2 t.hour ++ ":" ++ padded 2 t.minute ++ ":" ++ padded 2 t.second ++
    (if t.micros = 0 then "" else "." ++ padded 6 t.micros) ++
    (t.zone.map zoneText).getD ""

/-! ### The Unix clock -/

/-- The last reading of the clock that counts as seconds; beyond it the clock counts
milliseconds. -/
def secondsLimit : Nat := 20000000000

/-- The first second of the year 1600. -/
def firstSecond : Int := -11676096000

/-- The last second of the year 9999. -/
def lastSecond : Int := 253402300799

/-- The time of a clock reading, with microseconds added to it. -/
def ofUnix? (reading : Int) (micros : Nat) : Option Timestamp :=
  let inMillis := secondsLimit < reading.natAbs
  let seconds := if inMillis then Int.fdiv reading 1000 else reading
  let extra := if inMillis then (Int.fmod reading 1000).toNat * 1000 else 0
  let total := micros + extra
  let second := seconds + (total / 1000000 : Nat)
  if second < firstSecond || lastSecond < second then none
  else
    let ofDay := (Int.fmod second 86400).toNat
    some {
      date := .ofDays (Int.fdiv second 86400)
      hour := ofDay / 3600
      minute := ofDay / 60 % 60
      second := ofDay % 60
      micros := total % 1000000
      zone := some 0 }

/-- The time of a fractional clock reading `num / den`: the second at or before it, and
the part after the point in microseconds. -/
def ofUnixFraction? (negative : Bool) (num den : Nat) : Option Timestamp :=
  let micros := (2 * (num % den) * 1000000 + den) / (2 * den)
  let floor : Int := if negative then -((num + den - 1) / den : Nat) else (num / den : Nat)
  ofUnix? floor micros

/-- The time of a double as a clock reading. -/
def ofDouble? (x : Decimal.Binary64) : Option Timestamp :=
  if !x.isFinite then none
  else
    let (m, q) := x.magnitude
    ofUnixFraction? x.isNegative (m * Nat.pow 2 q.toNat) (Nat.pow 2 (-q).toNat)

/-! ### ISO text -/

/-- A number of exactly `width` digits. -/
def number? : Nat → Nat → List Char → Option (Nat × List Char)
  | 0, n, cs => some (n, cs)
  | width + 1, n, c :: cs =>
    if c.isDigit then number? width (10 * n + (c.toNat - 48)) cs else none
  | _ + 1, _, [] => none

/-- What follows a character. -/
def after? (isExpected : Char → Bool) : List Char → Option (List Char)
  | [] => none
  | c :: cs => if isExpected c then some cs else none

/-- A date. -/
def date? (cs : List Char) : Option (Date × List Char) := do
  let (year, cs) ← number? 4 0 cs
  let (month, cs) ← number? 2 0 (← after? (· == '-') cs)
  let (day, cs) ← number? 2 0 (← after? (· == '-') cs)
  let date : Date := ⟨year, month, day⟩
  if date.isValid then some (date, cs) else none

/-- The microseconds that the digits of a fraction write; those after the sixth do not
count. -/
def microsOf (digits : List Char) : Nat :=
  Json.digitsValue ((digits ++ List.replicate 6 '0').take 6)

/-- Seconds with an optional fraction, both optional. -/
def seconds? (cs : List Char) : Option (Nat × Nat × List Char) :=
  match cs with
  | ':' :: rest => do
    let (second, rest) ← number? 2 0 rest
    if 59 < second then none
    else
      match after? (fun c => c == '.' || c == ',') rest with
      | none => some (second, 0, rest)
      | some rest =>
        let digits := rest.takeWhile Char.isDigit
        if digits.isEmpty then none
        else some (second, microsOf digits, rest.drop digits.length)
  | _ => some (0, 0, cs)

/-- The sign of a distance from universal time. -/
def zoneSign? : Char → Option Int
  | '+' => some 1
  | '-' | '−' => some (-1)
  | _ => none

/-- The distance from universal time at the end of a time. -/
def zone? : List Char → Option (Option Int)
  | [] => some none
  | ['Z'] | ['z'] => some (some 0)
  | c :: rest => do
    let sign ← zoneSign? c
    let (hours, rest) ← number? 2 0 rest
    let (minutes, rest) ← number? 2 0 ((after? (· == ':') rest).getD rest)
    if rest.isEmpty && minutes < 60 && hours < 24 then
      some (some (sign * (60 * hours + minutes : Nat)))
    else none

/-- A date and a time of day. -/
def ofIso? (cs : List Char) : Option Timestamp := do
  let (date, cs) ← date? cs
  let cs ← after? (fun c => c == 'T' || c == 't' || c == ' ' || c == '_') cs
  let (hour, cs) ← number? 2 0 cs
  let (minute, cs) ← number? 2 0 (← after? (· == ':') cs)
  let (second, micros, cs) ← seconds? cs
  let zone ← zone? cs
  if hour < 24 && minute < 60 then some ⟨date, hour, minute, second, micros, zone⟩ else none

/-- A clock reading written in digits. -/
def ofReading? (cs : List Char) : Option Timestamp :=
  let (negative, rest) := Schema.splitSign cs
  let whole := rest.takeWhile Char.isDigit
  if whole.isEmpty then none
  else
    let n := Json.digitsValue whole
    match rest.drop whole.length with
    | [] => ofUnix? (if negative then -(n : Int) else n) 0
    | '.' :: digits =>
      if digits.all Char.isDigit then
        ofUnixFraction? negative (Json.digitsValue (whole ++ digits)) (Nat.pow 10 digits.length)
      else none
    | _ => none

/-- The midnight of a date. -/
def ofDateText? (cs : List Char) : Option Timestamp :=
  match date? cs with
  | some (date, []) => some { date }
  | _ => none

/-- The point in time that a text writes: ISO text, a reading of the Unix clock, or the
midnight of a bare date. -/
def ofText? (s : String) : Option Timestamp :=
  let cs := s.toList
  (ofIso? cs).orElse fun _ => (ofReading? cs).orElse fun _ => ofDateText? cs

end Timestamp

/-- A point in time. -/
def Schema.time : Schema.Shape Timestamp
  | .str s => ((Timestamp.ofText? s).map .valid).getD (.flawed .dateUnreadable)
  | .int n => ((Timestamp.ofUnix? n 0).map .valid).getD (.flawed .timeUnreadable)
  | .float x => ((Timestamp.ofDouble? x).map .valid).getD (.flawed .timeUnreadable)
  | _ => .flawed .notTime

end PluginAtlas
