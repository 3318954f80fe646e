import PluginAtlas.Php.Grammar.Name

/-!
# Literals of PHP

Numbers, and texts with the expressions that are inserted into them.

## Main definitions

* `number`: integers and floating-point numbers.
* `textLiteral`: quoted texts, shell commands and texts between labels.
-/

namespace PluginAtlas.Php.Grammar

open Rule

/-! ### Numbers -/

/-- A digit, or the mark between digits. -/
def isDigitPart (c : Char) : Bool := c.isDigit || c == '_'

/-- The end of an exponent, or the position itself. -/
def exponentEnd (input : Input) (p : Nat) : Nat :=
  if input.charAt p == 'e' || input.charAt p == 'E' then
    let q := if input.charAt (p + 1) == '+' || input.charAt (p + 1) == '-' then p + 2 else p + 1
    if (input.charAt q).isDigit then input.skipWhile isDigitPart q else p
  else p

/-- The end of a fraction, or the position itself. A second point or the mark of
concatenation with a name does not begin one. -/
def fractionEnd (input : Input) (p : Nat) : Nat :=
  if input.charAt p == '.' && input.charAt (p + 1) != '.' && input.charAt (p + 1) != '=' then
    input.skipWhile isDigitPart (p + 1)
  else p

/-- A number. -/
def number : Rule := fun input p =>
  let c := input.charAt p
  let d := (input.charAt (p + 1)).toLower
  if c == '0' && (d == 'x' || d == 'b' || d == 'o') then
    leaf "integer" (fun input p => some (input.wordEnd p)) input p
  else if c.isDigit || (c == '.' && d.isDigit) then
    let whole := input.skipWhile isDigitPart p
    let stop := exponentEnd input (fractionEnd input whole)
    leaf (if stop = whole then "integer" else "float") (fun _ _ => some stop) input p
  else none

/-! ### Inserted expressions -/

/-- The index of a variable that is inserted without braces. -/
def plainIndex (r : Goal → Rule) : Rule := fun input p =>
  if input.charAt p == '$' then r .variable input p
  else if input.charAt p == '-' then
    node "unary_op_expression" [mark "-", number] input p
  else alt [number, name] input p

/-- A variable that is inserted without braces, with at most one index or member. -/
def plainInsertion (r : Goal → Rule) : Rule := fun input p => do
  let (base, q) ← r .variable input p
  if input.charAt q == '[' then
    extend "subscript_expression" base [mark "[", plainIndex r, mark "]"] input q
      <|> some (base, q)
  else if input.holdsText q "->" && isNameStart (input.charAt (q + 2)) then
    extend "member_access_expression" (base.map (intoField "object"))
      [mark "->", field "name" name] input q
  else if input.holdsText q "?->" && isNameStart (input.charAt (q + 3)) then
    extend "nullsafe_member_access_expression" (base.map (intoField "object"))
      [mark "?->", field "name" name] input q
  else some (base, q)

/-- The expression that is inserted at a position, if one is. -/
def insertion (r : Goal → Rule) : Rule := fun input p =>
  if input.holdsText p "\x7b$" then
    seq [mark "\x7b", r (.expression 0), mark "\x7d"] input p
  else if input.holdsText p "$\x7b" then r .variable input p
  else if input.charAt p == '$' && isNameStart (input.charAt (p + 1)) then
    plainInsertion r input p
  else none

/-- The plain text from one position to another, if there is any. -/
def textRun (kind : String) (input : Input) (start stop : Nat) : List Tree :=
  if start < stop then [input.leaf kind true start stop] else []

/-- The parts of a text up to a position where it closes, latest first. The plain text
since `run` is still to be added. -/
def textParts (r : Goal → Rule) (closes : Nat → Bool) (input : Input) :
    Nat → Nat → Nat → List Tree → List Tree × Nat
  | 0, _, p, done => (done, p)
  | fuel + 1, run, p, done =>
    if input.atEnd p || closes p then (textRun "string_content" input run p ++ done, p)
    else if input.charAt p == '\\' then textParts r closes input fuel run (p + 2) done
    else
      match insertion r input p with
      | some (trees, q) =>
        textParts r closes input fuel q q (trees.reverse ++ (textRun "string_content" input run p ++ done))
      | none => textParts r closes input fuel run (p + 1) done

/-- A text between two equal quotes with inserted expressions, after a beginning. -/
def insertedText (r : Goal → Rule) (kind : String) (quote : Char) (start : Nat) : Rule :=
  fun input p =>
    let (done, q) :=
      textParts r (fun i => input.charAt i == quote) input (input.size + 1) (start + 1) (start + 1) []
    if input.atEnd q then none
    else
      let mark := String.singleton quote
      some ([.node kind true (input.offset p) (input.offset (q + 1)) none
        (input.leaf mark false p (start + 1) ::
          (done.reverse ++ [input.leaf mark false q (q + 1)]))], q + 1)

/-- The position of the apostrophe that closes a text. -/
def closingApostrophe (input : Input) (p : Nat) : Nat :=
  if h : p < input.chars.size then
    if input.chars[p] = '\'' then p
    else if input.chars[p] = '\\' then closingApostrophe input (p + 2)
    else closingApostrophe input (p + 1)
  else p
termination_by input.chars.size - p

/-- A text between apostrophes, after a beginning. -/
def plainText (start : Nat) : Rule := fun input p =>
  let q := closingApostrophe input (start + 1)
  if input.atEnd q then none
  else
    some ([.node "string" true (input.offset p) (input.offset (q + 1)) none
      (input.leaf "'" false p (start + 1) ::
        (textRun "string_content" input (start + 1) q ++ [input.leaf "'" false q (q + 1)]))], q + 1)

/-! ### Texts between labels -/

/-- The start of the closing label if one stands on the line that begins at a
position. -/
def closingLabel? (input : Input) (label : String) (p : Nat) : Option Nat :=
  let q := input.skipWhile (fun c => c == ' ' || c == '\t') p
  if input.holdsText q label && !isNameChar (input.charAt (q + label.length)) then some q else none

/-- The start of the line on which the closing label stands, and of the label. -/
def findClosingLabel? (input : Input) (label : String) : Nat → Nat → Option (Nat × Nat)
  | 0, _ => none
  | fuel + 1, p =>
    match closingLabel? input label p with
    | some q => some (p, q)
    | none =>
      let newline := input.skipWhile (· != '\n') p
      if input.atEnd newline then none else findClosingLabel? input label fuel (newline + 1)

/-- A text between labels, after a beginning. -/
def labelledText (r : Goal → Rule) (start : Nat) : Rule := fun input p => do
  let afterMark := input.skipWhile (fun c => c == ' ' || c == '\t') (start + 3)
  let quote := input.charAt afterMark
  let quoted := quote == '\'' || quote == '"'
  let labelStart := if quoted then afterMark + 1 else afterMark
  let labelEnd := input.wordEnd labelStart
  if labelEnd = labelStart then none
  else
    let label := input.slice labelStart labelEnd
    let newline := input.skipWhile (· != '\n') labelEnd
    let bodyStart := newline + 1
    let (line, close) ← findClosingLabel? input label (input.size + 1) bodyStart
    let stop := close + label.length
    let bodyEnd := max bodyStart (line - 1)
    let plain := quote == '\''
    let parts := if plain then textRun "nowdoc_string" input bodyStart bodyEnd
      else (textParts r (fun i => bodyEnd ≤ i) input (input.size + 1) bodyStart bodyStart []).1.reverse
    let body : Tree := .node (if plain then "nowdoc_body" else "heredoc_body") true
      (input.offset bodyStart) (input.offset bodyEnd) (some "value") parts
    some ([.node (if plain then "nowdoc" else "heredoc") true (input.offset p) (input.offset stop) none
      [input.leaf "<<<" false p (start + 3),
        intoField "identifier" (input.leaf "heredoc_start" true labelStart labelEnd),
        body, intoField "end_tag" (input.leaf "heredoc_end" true close stop)]], stop)

/-- A literal text, possibly marked as binary. -/
def textLiteral (r : Goal → Rule) : Rule := fun input p =>
  let c := input.charAt p
  let d := input.charAt (p + 1)
  let start := if (c == 'b' || c == 'B') && (d == '\'' || d == '"' || input.holdsText (p + 1) "<<<")
    then p + 1 else p
  match input.charAt start with
  | '\'' => plainText start input p
  | '"' => insertedText r "encapsed_string" '"' start input p
  | '\x60' => insertedText r "shell_command_expression" '\x60' start input p
  | '<' => if input.holdsText start "<<<" then labelledText r start input p else none
  | _ => none

end PluginAtlas.Php.Grammar
