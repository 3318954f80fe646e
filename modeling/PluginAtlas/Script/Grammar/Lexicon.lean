import PluginAtlas.Syntax.Rule

/-!
# Lexical conventions of scripts

Names, blanks and comments of JavaScript and TypeScript, the end of a statement, which
need not be written where a line ends, and literals without inner expressions.

## Main definitions

* `Dialect`: whether types and markup can be written.
* `lexicon`: the conventions for the grammar.
* `semicolon`: the end of a statement.
* `number`, `quotedText`, `regex`: literals.
-/

namespace PluginAtlas.Script.Grammar

open Rule

/-- What a script may contain besides plain JavaScript. -/
structure Dialect where
  types : Bool
  markup : Bool

/-- The goals of the grammar. -/
inductive Goal where
  | statement
  /-- An expression of operators that bind at least as tightly as a level. -/
  | expression (level : Nat)
  | pattern
  | type
  /-- An element of markup. -/
  | markup

/-- A character that ends a line. -/
def isNewline (c : Char) : Bool :=
  c == '\n' || c == '\r' || c.toNat == 0x2028 || c.toNat == 0x2029

/-- A blank between the parts of a script. -/
def isSpace (c : Char) : Bool :=
  let n := c.toNat
  c == ' ' || (9 ≤ n && n ≤ 13) || n == 0xA0 || n == 0x1680 || (0x2000 ≤ n && n ≤ 0x200B)
    || n == 0x2028 || n == 0x2029 || n == 0x202F || n == 0x205F || n == 0x2060 || n == 0x3000
    || n == 0xFEFF || n == 0x85

/-- A character with which a name begins. -/
def isNameStart (c : Char) : Bool :=
  c.isAlpha || c == '_' || c == '$' || (0x80 ≤ c.toNat && !isSpace c)

/-- A character of a name. -/
def isNameChar (c : Char) : Bool := isNameStart c || c.isDigit || c.toNat == 0x200C || c.toNat == 0x200D

/-- The end of the comment at a position, if one begins there. -/
def commentEnd? (s : Source) (p : Nat) : Option Nat :=
  if s.holdsText p "/*" then some (min s.size (s.skipUntil (s.holdsText · "*/") (p + 2) + 2))
  else if s.holdsText p "//" then some (s.skipWhile (fun c => !isNewline c) p)
  else none

/-- The comments from a position on, latest first, and the position after them and the
blanks around them. -/
def triviaFrom (s : Source) : Nat → List Tree → Nat → List Tree × Nat
  | 0, done, p => (done, p)
  | fuel + 1, done, p =>
    let start := s.skipWhile isSpace p
    match commentEnd? s start with
    | none => (done, start)
    | some stop => triviaFrom s fuel (s.leaf "comment" true start stop :: done) stop

/-- The comments from a position on and the position after them. -/
def trivia (s : Source) (p : Nat) : List Tree × Nat :=
  let (done, q) := triviaFrom s (s.size + 1 - p) [] p
  (done.reverse, q)

/-- The lexical conventions of scripts. -/
def lexicon : Lexicon where
  isWordChar := isNameChar
  anyCase := false
  trivia := trivia

/-- Whether a line ends between two positions. -/
def newlineBetween (input : Input) (p q : Nat) : Bool :=
  (input.chars.extract p q).any isNewline

/-- Whether a line ends before the next part. -/
def newlineFollows (input : Input) (p : Nat) : Bool := newlineBetween input p (input.next p)

/-- Whether only blanks stand between a position and the beginning of its line. -/
def startsLine (input : Input) : Nat → Bool
  | 0 => true
  | p + 1 =>
    let c := input.charAt p
    isNewline c || (isSpace c && startsLine input p)

/-- Whether a part that begins a line goes on with what stands before it. -/
def continues (input : Input) (p : Nat) : Bool :=
  let c := input.charAt p
  if c ∈ ['\x60', ',', ':', ';', '*', '%', '>', '<', '=', '[', '(', '?', '^', '|', '&', '/'] then true
  else if c == '.' then !(input.charAt (p + 1)).isDigit
  else if c == '+' || c == '-' then input.charAt (p + 1) != c
  else if c == '!' then input.charAt (p + 1) == '='
  else input.wordAt p = "in" || input.wordAt p = "instanceof"

/-- Whether the end of a statement is implied at a position. -/
def endImplied (input : Input) (p : Nat) : Bool :=
  let q := input.next p
  input.atEnd q || input.charAt q == '\x7d' || (newlineBetween input p q && !continues input q)

/-- The end of a statement: a semicolon, the end of the block, or the end of a line. -/
def semicolon : Rule := fun input p =>
  let (comments, q) := input.trivia p
  if input.charAt q == ';' then some (comments ++ [input.leaf ";" false q (q + 1)], q + 1)
  else if input.atEnd q || input.charAt q == '\x7d' || newlineBetween input p q then some ([], p)
  else none

/-! ### Names -/

/-- The end of the name at a position. -/
def nameEnd? (input : Input) (p : Nat) : Option Nat :=
  if isNameStart (input.charAt p) then some (input.wordEnd p) else none

/-- A name as a leaf of a kind. -/
def nameAs (kind : String) : Rule := leaf kind nameEnd?

/-- A name of a variable. -/
def identifier : Rule := nameAs "identifier"

/-- A name of a type. -/
def typeName : Rule := nameAs "type_identifier"

/-- The name of a private member. -/
def privateName : Rule := leaf "private_property_identifier" fun input p =>
  if input.charAt p == '#' then nameEnd? input (p + 1) else none

/-- The name of a member after its mark. -/
def propertyName : Rule := alt [nameAs "property_identifier", privateName]

/-! ### Literals -/

/-- The end of a number. -/
def numberEnd? (input : Input) (p : Nat) : Option Nat :=
  let digits (q : Nat) : Nat := input.skipWhile (fun c => c.isDigit || c == '_') q
  let c := input.charAt p
  let d := (input.charAt (p + 1)).toLower
  if c == '0' && (d == 'x' || d == 'b' || d == 'o') then some (input.wordEnd p)
  else if c.isDigit || (c == '.' && d.isDigit) then
    let whole := digits p
    let fraction := if input.charAt whole == '.' then digits (whole + 1) else whole
    let exponent := if (input.charAt fraction).toLower == 'e' then
        let s := input.charAt (fraction + 1)
        let q := if s == '+' || s == '-' then fraction + 2 else fraction + 1
        if (input.charAt q).isDigit then digits q else fraction
      else fraction
    some (if input.charAt exponent == 'n' then exponent + 1 else exponent)
  else none

/-- A number. -/
def number : Rule := leaf "number" numberEnd?

/-- The position of the quote that closes a text. -/
def closingQuote (input : Input) (quote : Char) (p : Nat) : Nat :=
  if h : p < input.chars.size then
    if input.chars[p] = quote then p
    else if input.chars[p] = '\\' then closingQuote input quote (p + 2)
    else closingQuote input quote (p + 1)
  else p
termination_by input.chars.size - p

/-- A text between two equal quotes, with or without escapes. -/
def textBetween (escapes : Bool) : Rule := fun input p =>
  let quote := input.charAt p
  if quote == '\'' || quote == '"' then
    let q := if escapes then closingQuote input quote (p + 1) else input.skipWhile (· != quote) (p + 1)
    if input.atEnd q then none
    else
      let sign := String.singleton quote
      let content := if p + 1 < q then [input.leaf "string_fragment" true (p + 1) q] else []
      some ([.node "string" true (input.offset p) (input.offset (q + 1)) none
        (input.leaf sign false p (p + 1) :: (content ++ [input.leaf sign false q (q + 1)]))], q + 1)
  else none

/-- A literal text. -/
def quotedText : Rule := textBetween true

/-- The position of the slash that closes a regular expression, which counts only
outside brackets. -/
def closingSlash (input : Input) (inBrackets : Bool) (p : Nat) : Nat :=
  if h : p < input.chars.size then
    let c := input.chars[p]
    if c = '\\' then closingSlash input inBrackets (p + 2)
    else if c = '[' then closingSlash input true (p + 1)
    else if c = ']' then closingSlash input false (p + 1)
    else if c = '/' && !inBrackets then p
    else closingSlash input inBrackets (p + 1)
  else p
termination_by input.chars.size - p

/-- A regular expression. -/
def regex : Rule := fun input p =>
  let q := closingSlash input false (p + 1)
  if input.atEnd q || newlineBetween input p q then none
  else
    let stop := input.wordEnd (q + 1)
    let flags := if q + 1 < stop then [intoField "flags" (input.leaf "regex_flags" true (q + 1) stop)]
      else []
    some ([.node "regex" true (input.offset p) (input.offset stop) none
      ([input.leaf "/" false p (p + 1), intoField "pattern" (input.leaf "regex_pattern" true (p + 1) q),
        input.leaf "/" false q (q + 1)] ++ flags)], stop)

end PluginAtlas.Script.Grammar
