import PluginAtlas.Script.Grammar.Lexicon

/-!
# Types in scripts

Types say nothing about what a script does, so they are read only for their extent:
a type becomes a leaf of the tree. What stands in brackets inside a type is passed over
as a whole.

## Main definitions

* `skipBrackets?`: the end of a bracketed passage.
* `typeRule`: a type.
* `typeArguments`, `typeParameters`, `statedType`: where types are written.
-/

namespace PluginAtlas.Script.Grammar

open Rule

/-- The bracket that closes an opening one. -/
def closingBracket? : Char → Option Char
  | '(' => some ')'
  | '[' => some ']'
  | '\x7b' => some '\x7d'
  | _ => none

/-- The position after the brackets that are still open, innermost first. Texts and
comments are passed over. -/
def skipOpen (input : Input) : Nat → List Char → Nat → Option Nat
  | 0, _, _ => none
  | _, [], p => some p
  | fuel + 1, close :: rest, p =>
    let q := input.next p
    let c := input.charAt q
    if input.atEnd q then none
    else if c == close then skipOpen input fuel rest (q + 1)
    else if c == '\'' || c == '"' || c == '\x60' then
      skipOpen input fuel (close :: rest) (closingQuote input c (q + 1) + 1)
    else
      match closingBracket? c with
      | some inner => skipOpen input fuel (inner :: close :: rest) (q + 1)
      | none => skipOpen input fuel (close :: rest) (q + 1)

/-- The position after the bracketed passage at a position. -/
def skipBrackets? (input : Input) (p : Nat) : Option Nat :=
  match closingBracket? (input.charAt p) with
  | some close => skipOpen input (input.size + 1) [close] (p + 1)
  | none => none

/-- A bracketed passage as a leaf. -/
def bracketed (kind : String) : Rule := leaf kind skipBrackets?

/-- The arguments of a generic type. -/
def typeArguments (r : Goal → Rule) : Rule :=
  flatLeaf "type_arguments" (seq [mark "<", sepEndBy (mark ",") (r .type), mark ">"])

/-- The parameters of a generic declaration. -/
def typeParameters (r : Goal → Rule) : Rule :=
  let modifier := fun w => opt (when (fun input p => isNameStart (input.nextChar (input.wordEnd p))) (word w))
  flatLeaf "type_parameters" (seq [mark "<",
    sepEndBy1 (mark ",") (seq [modifier "const", modifier "in", modifier "out", typeName,
      opt (seq [word "extends", r .type]), opt (seq [mark "=", r .type])]),
    mark ">"])

/-- A template as a leaf. -/
def flatTemplate : Rule := leaf "template_literal_type" fun input p =>
  if input.charAt p == '\x60' then
    let q := closingQuote input '\x60' (p + 1)
    if input.atEnd q then none else some (q + 1)
  else none

/-- A name with members, possibly with arguments. -/
def namedType (r : Goal → Rule) : Rule :=
  seq [identifier, many (seq [mark ".", nameAs "property_identifier"]), opt (typeArguments r)]

/-- A type of functions: parameters, an arrow and the type of the result. -/
def functionType (r : Goal → Rule) : Rule :=
  seq [opt (typeParameters r), bracketed "formal_parameters", mark "=>",
    opt (when (fun input p => input.wordAt p = "asserts" && isNameStart (input.nextChar (input.wordEnd p)))
      (word "asserts")),
    r .type,
    opt (seq [word "is", r .type])]

/-- A type that begins with a word. -/
def wordType (r : Goal → Rule) : Rule := fun input p =>
  let w := input.wordAt p
  let follows := input.nextChar (input.wordEnd p)
  if w = "new" then seq [word w, functionType r] input p
  else if w = "abstract" && input.wordAt (input.next (input.wordEnd p)) = "new" then
    seq [word w, word "new", functionType r] input p
  else if w = "import" then
    seq [word w, bracketed "arguments", many (seq [mark ".", identifier]), opt (typeArguments r)] input p
  else if w = "typeof" && (isNameStart follows) then
    alt [seq [word w, word "import", bracketed "arguments", many (seq [mark ".", identifier]),
        opt (typeArguments r)],
      seq [word w, identifier, many (seq [mark ".", alt [identifier, privateName]]),
        opt (typeArguments r)]] input p
  else namedType r input p

/-- A type without operators and indices. -/
def primaryType (r : Goal → Rule) : Rule := fun input p =>
  match input.charAt p with
  | '(' => alt [functionType r, bracketed "parenthesized_type"] input p
  | '<' => functionType r input p
  | '\x7b' => bracketed "object_type" input p
  | '[' => bracketed "tuple_type" input p
  | '\'' | '"' => quotedText input p
  | '\x60' => flatTemplate input p
  | '-' => seq [mark "-", number] input p
  | c => if c.isDigit then number input p
    else if isNameStart c then wordType r input p else none

/-- The words that stand in front of a type. -/
def typeOperators : List String := ["keyof", "unique", "readonly", "infer"]

/-- Whether a word in front of a type stands at a position. -/
def isTypeOperator (input : Input) (p : Nat) : Bool :=
  let c := input.nextChar (input.wordEnd p)
  input.wordAt p ∈ typeOperators
    && (isNameStart c || c == '(' || c == '[' || c == '\x7b' || c == '\'' || c == '"')

/-- An index of a type, on the line of the type. -/
def typeIndex : Rule :=
  when (fun input p => input.charAt p == '[' && !startsLine input p) (bracketed "index")

/-- A type with the indices and words around it. -/
def operandType (r : Goal → Rule) : Rule :=
  seq [many (when isTypeOperator (nameAs "operator")), primaryType r, many typeIndex]

/-- A type, read for its extent. What a choice between types tests for may itself bound
a type that it infers. -/
def typeRule (r : Goal → Rule) : Rule :=
  let meet := seq [opt (mark "&"), sepBy1 (mark "&") (operandType r)]
  let join := seq [opt (mark "|"), sepBy1 (mark "|") meet]
  flatLeaf "type" (seq [join,
    opt (seq [many1 (seq [word "extends", join]), mark "?", r .type, mark ":", r .type])])

/-- A type after a colon. -/
def statedType (r : Goal → Rule) : Rule :=
  node "type_annotation" [mark ":", r .type]

/-- The type of a result, which may also say what a successful test shows. -/
def statedResult (r : Goal → Rule) : Rule :=
  let asserts : Input → Nat → Bool := fun input p =>
    input.wordAt p = "asserts" && isNameStart (input.nextChar (input.wordEnd p))
  node "type_annotation" [mark ":", opt (when asserts (word "asserts")), r .type,
    opt (seq [word "is", r .type])]

end PluginAtlas.Script.Grammar
