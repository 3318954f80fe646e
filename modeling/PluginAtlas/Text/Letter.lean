/-!
# Letters in any case

Comparing with an ASCII word while ignoring letter case. Besides the two cases of a
letter, characters outside ASCII whose lower case is an ASCII letter, and the variants
of `i` and `s`, count as that letter.

## Main definitions

* `isLetter`: whether a character counts as an ASCII letter.
* `dropWordList?`, `isWord`: comparison with a word, ignoring case.
-/

namespace PluginAtlas.Text

/-- The characters outside ASCII that count as an ASCII letter. -/
def letterVariants : List (Char × List Nat) := [
  ('i', [0x130, 0x131]), ('s', [0x17F]), ('k', [0x212A])]

/-- Whether a character counts as the given character of a lower-case word. -/
def isLetter (letter c : Char) : Bool :=
  c.toLower == letter || ((letterVariants.lookup letter).getD []).contains c.toNat

/-- What follows a lower-case word at the front, ignoring case. -/
def dropWordList? : List Char → List Char → Option (List Char)
  | [], cs => some cs
  | _ :: _, [] => none
  | letter :: word, c :: cs => if isLetter letter c then dropWordList? word cs else none

/-- Whether a text is a lower-case word, ignoring case. -/
def isWord (word s : String) : Bool :=
  dropWordList? word.toList s.toList == some []

end PluginAtlas.Text
