import PluginAtlas.Text.Basic

/-!
# White space and line boundaries

Two properties of code points: being white space, and ending a line. White space is
the white space of the Unicode standard together with the four information
separators; every ASCII blank is in it. Lines end at every boundary that the
standard knows, which is more than the line feed.

## Main definitions

* `isBlank`, `strip`, `stripStart`: white space, and text without it at the ends.
* `lines`: the lines of a text, without their ends.
-/

namespace PluginAtlas.Text

/-- White space. -/
def isBlank (c : Char) : Bool :=
  let n := c.toNat
  (9 ≤ n && n ≤ 13) || (28 ≤ n && n ≤ 32) || n == 0x85 || n == 0xA0 || n == 0x1680 ||
    (0x2000 ≤ n && n ≤ 0x200A) || n == 0x2028 || n == 0x2029 || n == 0x202F ||
    n == 0x205F || n == 0x3000

/-- The text without white space at its ends. -/
def strip (s : String) : String := trim isBlank s

/-- The text without leading white space. -/
def stripStart (s : String) : String := trimStart isBlank s

/-- The words of a text: its maximal runs without white space. -/
def words (s : String) : List String :=
  ((s.toList.splitBy fun a b => isBlank a == isBlank b).filter
    fun run => !run.all isBlank).map String.ofList

/-- A character that ends a line. A carriage return directly before a line feed ends
no line of its own. -/
def isLineEnd (c : Char) : Bool :=
  let n := c.toNat
  (10 ≤ n && n ≤ 13) || (28 ≤ n && n ≤ 30) || n == 0x85 || n == 0x2028 || n == 0x2029

/-- Collects the lines of a text, with the characters of the current line reversed in
`line`. A line end at the very end of the text begins no further line. -/
def linesFrom (line : List Char) : List Char → List (List Char)
  | [] => if line.isEmpty then [] else [line.reverse]
  | '\r' :: '\n' :: rest => line.reverse :: linesFrom [] rest
  | c :: rest =>
    if isLineEnd c then line.reverse :: linesFrom [] rest else linesFrom (c :: line) rest

/-- The lines of a text, at every Unicode line boundary, without their ends. -/
def lines (s : String) : List String :=
  (linesFrom [] s.toList).map String.ofList

end PluginAtlas.Text
