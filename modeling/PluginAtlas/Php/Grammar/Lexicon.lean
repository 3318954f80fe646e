import PluginAtlas.Syntax.Rule

/-!
# Lexical conventions of PHP

Names, blanks and comments of PHP, and the passages of plain text between two
stretches of code. Names may use any character outside ASCII. A passage of plain text
counts as something that stands between two parts.

## Main definitions

* `gap`: blanks and comments.
* `trivia`: the same with passages of plain text.
* `lexicon`: the conventions for the grammar.
-/

namespace PluginAtlas.Php.Grammar

/-- A blank between the parts of PHP code. -/
def isSpace (c : Char) : Bool :=
  c == ' ' || (9 ≤ c.toNat && c.toNat ≤ 13) || c.toNat == 0xA0 || c.toNat == 0x200B
    || c.toNat == 0x2060 || c.toNat == 0xFEFF

/-- A character with which a name begins. -/
def isNameStart (c : Char) : Bool :=
  c.isAlpha || c == '_' || (0x80 ≤ c.toNat && !isSpace c)

/-- A character of a name. -/
def isNameChar (c : Char) : Bool := isNameStart c || c.isDigit

/-- Whether a line comment ends before a position. -/
def endsLineComment (s : Source) (p : Nat) : Bool :=
  s.charAt p == '\n' || s.charAt p == '\r' || s.holdsText p "?>"

/-- The end of the comment at a position, if one begins there. -/
def commentEnd? (s : Source) (p : Nat) : Option Nat :=
  if s.holdsText p "/*" then some (min s.size (s.skipUntil (s.holdsText · "*/") (p + 2) + 2))
  else if s.holdsText p "//" || (s.charAt p == '#' && s.charAt (p + 1) != '[') then
    some (s.skipUntil (endsLineComment s) p)
  else none

/-- The comments from a position on, latest first, and the position after them and the
blanks around them. -/
def gapFrom (s : Source) : Nat → List Tree → Nat → List Tree × Nat
  | 0, done, p => (done, p)
  | fuel + 1, done, p =>
    let start := s.skipWhile isSpace p
    match commentEnd? s start with
    | none => (done, start)
    | some stop => gapFrom s fuel (s.leaf "comment" true start stop :: done) stop

/-- The comments from a position on and the position after them. -/
def gap (s : Source) (p : Nat) : List Tree × Nat :=
  let (done, q) := gapFrom s (s.size + 1 - p) [] p
  (done.reverse, q)

/-- The end of an opening tag. -/
def openTagEnd (s : Source) (p : Nat) : Nat :=
  if (s.slice (p + 2) (p + 5)).map Char.toLower = "php" then p + 5
  else if s.charAt (p + 2) == '=' then p + 3
  else p + 2

/-- The passage of plain text at a closing tag, and the position after it. -/
def passage (s : Source) (p : Nat) : Tree × Nat :=
  let tag := s.skipUntil (s.holdsText · "<?") (p + 2)
  let close := s.leaf "php_end_tag" true p (p + 2)
  let text := if p + 2 < tag then [s.leaf "text" true (p + 2) tag] else []
  let opening := if s.atEnd tag then [] else [s.leaf "php_tag" true tag (openTagEnd s tag)]
  let stop := if s.atEnd tag then tag else openTagEnd s tag
  (.node "text_interpolation" true (s.offset p) (s.offset stop) none (close :: (text ++ opening)),
    stop)

/-- The comments and passages of plain text from a position on, latest first. -/
def triviaFrom (s : Source) : Nat → List Tree → Nat → List Tree × Nat
  | 0, done, p => (done, p)
  | fuel + 1, done, p =>
    let (comments, start) := gap s p
    if s.holdsText start "?>" then
      let (tree, stop) := passage s start
      triviaFrom s fuel (tree :: (comments.reverse ++ done)) stop
    else (comments.reverse ++ done, start)

/-- The comments and passages of plain text from a position on. -/
def trivia (s : Source) (p : Nat) : List Tree × Nat :=
  let (done, q) := triviaFrom s (s.size + 1 - p) [] p
  (done.reverse, q)

/-- The lexical conventions of PHP. -/
def lexicon : Lexicon where
  isWordChar := isNameChar
  anyCase := true
  trivia := trivia

/-- The position of the next part within the same stretch of code. -/
def near (input : Input) (p : Nat) : Nat := (gap input.toSource p).2

/-- The end of a statement: a semicolon, or the end of the stretch of code. -/
def semicolon : Rule := fun input p =>
  let (comments, q) := gap input.toSource p
  if input.charAt q == ';' then
    some (comments ++ [input.leaf ";" false q (q + 1)], q + 1)
  else if input.atEnd q || input.holdsText q "?>" then some ([], p)
  else none

end PluginAtlas.Php.Grammar
