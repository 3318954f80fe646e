/-!
# Text operations

Cutting, trimming and searching text. Every operation is given by its action on
the list of code points, so that lengths and positions count code points and a
statement about text is a statement about lists.

## Main definitions

* `trimStart`, `trimEnd`, `trim`: drop the characters of a class at the ends.
* `split`, `cut`, `lastSegment`: take text apart at a separator.
* `dropStart?`: the rest of a text after a known beginning.
* `substitute`: replace every occurrence of a text, from left to right.
-/

namespace PluginAtlas.Text

/-- The list without the final elements that satisfy `p`. -/
def dropEndWhile {α : Type} (p : α → Bool) (xs : List α) : List α :=
  (xs.reverse.dropWhile p).reverse

/-- Drops the leading characters of a class. -/
def trimStart (p : Char → Bool) (s : String) : String :=
  String.ofList (s.toList.dropWhile p)

/-- Drops the trailing characters of a class. -/
def trimEnd (p : Char → Bool) (s : String) : String :=
  String.ofList (dropEndWhile p s.toList)

/-- Drops the characters of a class at both ends. -/
def trim (p : Char → Bool) (s : String) : String :=
  String.ofList (dropEndWhile p (s.toList.dropWhile p))

/-- The first `n` characters. -/
def take (n : Nat) (s : String) : String :=
  String.ofList (s.toList.take n)

/-- All but the first `n` characters. -/
def drop (n : Nat) (s : String) : String :=
  String.ofList (s.toList.drop n)

/-- The text between every two occurrences of a separator; a text without the
separator is its only piece. -/
def split (sep : Char) (s : String) : List String :=
  (s.toList.splitOn sep).map String.ofList

/-- Puts a separator between the pieces. -/
def join (sep : String) (pieces : List String) : String :=
  sep.intercalate pieces

/-- Whether a text begins with another. -/
def startsWith (start s : String) : Bool :=
  start.toList.isPrefixOf s.toList

/-- Whether a text ends with another. -/
def endsWith (tail s : String) : Bool :=
  tail.toList.isSuffixOf s.toList

/-- What follows a given beginning, if the text has it. -/
def dropStart? (start s : String) : Option String :=
  if startsWith start s then some (drop start.length s) else none

/-- Whether one list stands somewhere inside another. -/
def occursIn {α : Type} [BEq α] (part : List α) : List α → Bool
  | [] => part.isEmpty
  | x :: xs => part.isPrefixOf (x :: xs) || occursIn part xs

/-- Whether one text stands somewhere inside another. -/
def contains (part s : String) : Bool :=
  occursIn part.toList s.toList

/-- What stands before the first occurrence of `part`, and what stands after it
when there is one. -/
def cutList {α : Type} [BEq α] (part : List α) : List α → List α × Option (List α)
  | [] => if part.isEmpty then ([], some []) else ([], none)
  | x :: xs =>
    if part.isPrefixOf (x :: xs) then ([], some ((x :: xs).drop part.length))
    else
      let (before, after) := cutList part xs
      (x :: before, after)

/-- Cuts a text at the first occurrence of `part`; the second component is `none`
when `part` does not occur. -/
def cut (part s : String) : String × Option String :=
  let (before, after) := cutList part.toList s.toList
  (String.ofList before, after.map String.ofList)

/-- What follows the last occurrence of a separator, or the whole text. -/
def lastSegment (sep : Char) (s : String) : String :=
  String.ofList (s.toList.reverse.takeWhile (· != sep)).reverse

/-- Replaces every occurrence of `old`, found from left to right; `skip` counts the
characters of an occurrence that are still to be passed over. -/
def substituteList (old new : List Char) : Nat → List Char → List Char
  | _, [] => []
  | 0, c :: cs =>
    if !old.isEmpty && old.isPrefixOf (c :: cs) then
      new ++ substituteList old new (old.length - 1) cs
    else c :: substituteList old new 0 cs
  | n + 1, _ :: cs => substituteList old new n cs

/-- Replaces every occurrence of one text by another. -/
def substitute (old new s : String) : String :=
  String.ofList (substituteList old.toList new.toList 0 s.toList)

/-- The text of a natural number in decimal digits. -/
def ofNat (n : Nat) : String :=
  String.ofList (Nat.toDigits 10 n)

/-- The text of an integer: a minus sign, if negative, and decimal digits. -/
def ofInt : Int → String
  | .ofNat n => ofNat n
  | .negSucc n => "-" ++ ofNat (n + 1)

/-- Hexadecimal digits of `n`, padded with zeros on the left to `width`. -/
def hex (width n : Nat) : String :=
  let digits := Nat.toDigits 16 n
  String.ofList (List.replicate (width - digits.length) '0' ++ digits)

end PluginAtlas.Text
