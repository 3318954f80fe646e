import PluginAtlas.Text.Letter

/-!
# Patterns

Patterns of texts by the ways in which they match. A pattern is tried at the front of a text
and gives what is left after each match, with the match that is preferred first; a search goes
through a text and tries the pattern wherever a line begins.

## Main definitions

* `Pattern`: a pattern, by what its matches leave.
* `Pattern.search`: what follows the first match at the front of a line.
-/

namespace PluginAtlas.Text

/-- A pattern, by what is left of a text after each match at its front. The matches stand in
the order in which they are tried. -/
abbrev Pattern := List Char → List (List Char)

namespace Pattern

/-- A lower-case word, in any letter case. -/
def word (w : String) : Pattern := fun cs => (dropWordList? w.toList cs).toList

/-- Any number of characters of a class, as many as there are before fewer. -/
def run (inside : Char → Bool) : Pattern
  | [] => [[]]
  | c :: cs => (if inside c then run inside cs else []) ++ [c :: cs]

/-- A pattern, or nothing. -/
def optional (p : Pattern) : Pattern := fun cs => p cs ++ [cs]

/-- A pattern and then another. -/
def andThen (p q : Pattern) : Pattern := fun cs => (p cs).flatMap q

/-- What follows the first match at the front of a line. The search goes from left to right,
and `front` says whether a line begins where it stands. -/
def search (p : Pattern) : (front : Bool) → List Char → Option (List Char)
  | front, [] => if front then (p []).head? else none
  | front, c :: cs => (if front then (p (c :: cs)).head? else none).or (p.search (c == '\n') cs)

end Pattern

end PluginAtlas.Text
