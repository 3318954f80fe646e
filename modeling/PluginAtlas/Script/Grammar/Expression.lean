import PluginAtlas.Script.Grammar.Markup

/-!
# Expressions of scripts

Operands with what follows them, functions and classes as values, and the operators by
their binding strength.

## Main definitions

* `operand`: everything that binds tighter than the binary operators.
* `expression`: operands joined by operators of at least a given strength.
* `pattern`: what values are bound to.
-/

namespace PluginAtlas.Script.Grammar

open Rule

/-- Expressions, possibly several divided by commas. -/
def anyExpression (r : Goal → Rule) : Rule := r (.expression 0)

/-- A single expression. -/
def oneExpression (r : Goal → Rule) : Rule := r (.expression 2)

/-- Statements in braces. -/
def block (r : Goal → Rule) : Rule :=
  node "statement_block" [mark "\x7b", many (r .statement), mark "\x7d"]

/-- A rule of the dialects with types. -/
def typed (d : Dialect) (rule : Rule) : Rule := if d.types then opt rule else empty

/-! ### Templates -/

/-- The parts of a template up to its end, latest first. The plain text since `run` is
still to be added. -/
def templateParts (r : Goal → Rule) (input : Input) :
    Nat → Nat → Nat → List Tree → Option (List Tree × Nat)
  | 0, _, _, _ => none
  | fuel + 1, run, p, done =>
    let text := if run < p then [input.leaf "string_fragment" true run p] else []
    if input.atEnd p then none
    else if input.charAt p == '\x60' then some (text ++ done, p)
    else if input.charAt p == '\\' then templateParts r input fuel run (p + 2) done
    else if input.holdsText p "$\x7b" then do
      let (trees, q) ← node "template_substitution" [mark "$\x7b", anyExpression r, mark "\x7d"] input p
      templateParts r input fuel q q (trees.reverse ++ (text ++ done))
    else templateParts r input fuel run (p + 1) done

/-- A template. -/
def template (r : Goal → Rule) : Rule := fun input p =>
  if input.charAt p == '\x60' then do
    let (done, q) ← templateParts r input (input.size + 1) (p + 1) (p + 1) []
    some ([.node "template_string" true (input.offset p) (input.offset (q + 1)) none
      (input.leaf "\x60" false p (p + 1) :: (done.reverse ++ [input.leaf "\x60" false q (q + 1)]))],
      q + 1)
  else none

/-! ### Names of members -/

/-- A name that is computed. -/
def computedName (r : Goal → Rule) : Rule :=
  node "computed_property_name" [mark "[", oneExpression r, mark "]"]

/-- The name of a member of an object or a class. -/
def memberName (r : Goal → Rule) : Rule :=
  alt [propertyName, quotedText, number, computedName r]

/-- Whether a name of a member can begin with a character. -/
def beginsName (c : Char) : Bool :=
  isNameStart c || c.isDigit || c == '#' || c == '[' || c == '\'' || c == '"'

/-! ### Patterns -/

/-- A pattern with the value that is taken when there is none. -/
def patternWithDefault (r : Goal → Rule) : Rule := fun input p => do
  let (left, q) ← r .pattern input p
  if input.nextChar q == '=' then
    extend "assignment_pattern" (left.map (intoField "left"))
      [mark "=", field "right" (oneExpression r)] input q
  else some (left, q)

/-- The rest of what is bound. -/
def restPattern (r : Goal → Rule) : Rule := node "rest_pattern" [mark "...", r .pattern]

/-- A member that a pattern takes apart. -/
def memberPattern (r : Goal → Rule) : Rule := alt [
  restPattern r,
  node "pair_pattern" [field "key" (memberName r), mark ":", field "value" (patternWithDefault r)],
  node "object_assignment_pattern" [
    field "left" (nameAs "shorthand_property_identifier_pattern"), mark "=",
    field "right" (oneExpression r)],
  nameAs "shorthand_property_identifier_pattern"]

/-- What values are bound to. -/
def pattern (r : Goal → Rule) : Rule := fun input p =>
  match input.charAt p with
  | '\x7b' =>
    node "object_pattern" [mark "\x7b", sepEndBy (mark ",") (memberPattern r), mark "\x7d"] input p
  | '[' =>
    node "array_pattern" [mark "[", many (alt [mark ",", restPattern r, patternWithDefault r]),
      mark "]"] input p
  | _ => identifier input p

/-- A decorator. -/
def decorator (r : Goal → Rule) : Rule := field "decorator" (node "decorator" [mark "@", r (.expression 30)])

/-- The words in front of a parameter that make it a member. -/
def parameterWords : List String := ["public", "private", "protected", "readonly", "override"]

/-- A word in front of a parameter or a member. -/
def memberWord (words : List String) : Rule :=
  when (fun input p =>
    let q := input.next (input.wordEnd p)
    input.wordAt p ∈ words && (beginsName (input.charAt q) || input.charAt q == '\x7b'))
    fun input p => word (input.wordAt p) input p

/-- A parameter of a function. -/
def parameter (d : Dialect) (r : Goal → Rule) : Rule :=
  if d.types then
    let head := [many (decorator r), many (memberWord parameterWords),
      field "pattern" (alt [restPattern r, r .pattern])]
    let rest := [opt (field "type" (statedType r)),
      opt (seq [mark "=", field "value" (oneExpression r)])]
    alt [node "optional_parameter" (head ++ [mark "?"] ++ rest), node "required_parameter" (head ++ rest)]
  else seq [many (decorator r), alt [restPattern r, patternWithDefault r]]

/-- The parameters of a function. -/
def parameters (d : Dialect) (r : Goal → Rule) : Rule :=
  field "parameters"
    (node "formal_parameters" [mark "(", sepEndBy (mark ",") (parameter d r), mark ")"])

/-- The parameters of a function with the types around them. -/
def signature (d : Dialect) (r : Goal → Rule) : Rule :=
  seq [typed d (field "type_parameters" (typeParameters r)), parameters d r,
    typed d (field "return_type" (statedResult r))]

/-! ### Functions and classes as values -/

/-- A function as a value, possibly with a name. -/
def functionValue (d : Dialect) (r : Goal → Rule) : Rule :=
  let named := opt (field "name" identifier)
  alt [
    node "generator_function" [opt (word "async"), word "function", mark "*", named, signature d r,
      field "body" (block r)],
    node "function_expression" [opt (word "async"), word "function", named, signature d r,
      field "body" (block r)]]

/-- The body of an arrow function. -/
def arrowBody (r : Goal → Rule) : Rule := fun input p =>
  if input.charAt p == '\x7b' then field "body" (block r) input p
  else field "body" (oneExpression r) input p

/-- Whether the mark of an arrow function follows on the same line. -/
def arrowFollows (input : Input) (p : Nat) : Bool :=
  let q := input.next p
  input.holdsText q "=>"

/-- An arrow function with a single parameter or with parameters in parentheses. -/
def arrow (d : Dialect) (r : Goal → Rule) : Rule :=
  let single := when (fun input p => arrowFollows input (input.wordEnd p))
    (field "parameter" identifier)
  let asyncWord := when (fun input p => !newlineFollows input (input.wordEnd p)) (word "async")
  alt [
    node "arrow_function" [single, mark "=>", arrowBody r],
    node "arrow_function" [asyncWord, single, mark "=>", arrowBody r],
    node "arrow_function" [opt asyncWord, signature d r, mark "=>", arrowBody r]]

/-- The words in front of a member of a class. -/
def memberWords : List String := [
  "public", "private", "protected", "static", "override", "readonly", "abstract", "declare", "async",
  "get", "set", "accessor"]

/-- The words in front of a method of an object. -/
def methodWords : List String := ["async", "get", "set", "static"]

/-- The beginning of a member: its words and the mark of a generator. -/
def memberStart (words : List String) : Rule :=
  let starred := when (fun input p => input.wordAt p = "async" && input.nextChar (input.wordEnd p) == '*')
    (word "async")
  let staticStarred :=
    when (fun input p => input.wordAt p = "static" && input.nextChar (input.wordEnd p) == '*')
      (word "static")
  seq [many (alt [memberWord words, starred, staticStarred]), opt (mark "*")]

/-- A method. -/
def method (d : Dialect) (r : Goal → Rule) (words : List String) : Rule :=
  node "method_definition" [many (decorator r), memberStart words, field "name" (memberName r),
    typed d (mark "?"), signature d r, field "body" (block r)]

/-- A method without a body. -/
def methodSignature (d : Dialect) (r : Goal → Rule) : Rule :=
  if d.types then
    nodeEndingIn semicolon "method_signature" [many (decorator r), memberStart memberWords,
      field "name" (memberName r), opt (mark "?"), signature d r]
  else fail

/-- A member that says what any name means. -/
def indexSignature (d : Dialect) (r : Goal → Rule) : Rule :=
  if d.types then
    nodeEndingIn semicolon "index_signature" [many (memberWord memberWords), mark "[", identifier,
      mark ":", r .type, mark "]", statedType r]
  else fail

/-- A member with a value. -/
def fieldDefinition (d : Dialect) (r : Goal → Rule) : Rule :=
  nodeEndingIn semicolon (if d.types then "public_field_definition" else "field_definition")
    [many (decorator r), many (memberWord memberWords),
      field (if d.types then "name" else "property") (memberName r),
      typed d (alt [mark "?", mark "!"]), typed d (field "type" (statedType r)),
      opt (seq [mark "=", field "value" (oneExpression r)])]

/-- A member of a class. -/
def classMember (d : Dialect) (r : Goal → Rule) : Rule := alt [
  mark ";",
  node "class_static_block" [word "static", field "body" (block r)],
  field "member" (method d r memberWords),
  methodSignature d r,
  indexSignature d r,
  field "member" (fieldDefinition d r)]

/-- What a class extends and implements. -/
def heritage (d : Dialect) (r : Goal → Rule) : Rule :=
  let base := r (.expression 20)
  if d.types then
    let extending := node "extends_clause" [word "extends",
      sepBy1 (mark ",") (seq [field "value" base, opt (field "type_arguments" (typeArguments r))])]
    let implementing := node "implements_clause" [word "implements", sepBy1 (mark ",") (r .type)]
    opt (node "class_heritage" [alt [seq [extending, opt implementing], implementing]])
  else opt (node "class_heritage" [word "extends", base])

/-- The name of a class, which is not one of the words that follow it. -/
def className (d : Dialect) : Rule :=
  when (fun input p => input.wordAt p ≠ "extends" && input.wordAt p ≠ "implements")
    (field "name" (if d.types then typeName else identifier))

/-- The parts of a class after its word. -/
def classParts (d : Dialect) (r : Goal → Rule) (named : Rule) : List Rule := [
  word "class", named, typed d (field "type_parameters" (typeParameters r)), heritage d r,
  field "body" (node "class_body" [mark "\x7b", many (classMember d r), mark "\x7d"])]

/-- A class as a value. -/
def classValue (d : Dialect) (r : Goal → Rule) : Rule :=
  node "class" (many (decorator r) :: classParts d r (opt (className d)))

/-! ### Objects, arrays and arguments -/

/-- Values that are spread. -/
def spread (r : Goal → Rule) : Rule := node "spread_element" [mark "...", oneExpression r]

/-- A member of an object. -/
def objectMember (d : Dialect) (r : Goal → Rule) : Rule := alt [
  spread r,
  node "pair" [field "key" (memberName r), mark ":", field "value" (oneExpression r)],
  method d r methodWords,
  node "object_assignment_pattern" [
    field "left" (nameAs "shorthand_property_identifier_pattern"), mark "=",
    field "right" (oneExpression r)],
  nameAs "shorthand_property_identifier"]

/-- An object. -/
def object (d : Dialect) (r : Goal → Rule) : Rule :=
  node "object" [mark "\x7b", sepEndBy (mark ",") (objectMember d r), mark "\x7d"]

/-- An array. -/
def array (r : Goal → Rule) : Rule :=
  node "array" [mark "[", many (alt [mark ",", spread r, oneExpression r]), mark "]"]

/-- The arguments of a call. -/
def arguments (r : Goal → Rule) : Rule :=
  node "arguments" [mark "(", sepEndBy (mark ",") (alt [spread r, oneExpression r]), mark ")"]

/-- Expressions in parentheses. -/
def parenthesized (r : Goal → Rule) : Rule :=
  node "parenthesized_expression" [mark "(", anyExpression r, mark ")"]

/-! ### What follows an operand -/

/-- How far an operand reaches. -/
structure Reach where
  /-- Whether arguments may follow. -/
  calls : Bool := true
  /-- Whether an index may follow. -/
  indices : Bool := true

/-- The mark of an access that may fail. -/
def optionalMark : Rule := node "optional_chain" [mark "?."]

/-- An index after an operand. -/
def index (r : Goal → Rule) (base : List Tree) (start : List Rule) : Rule :=
  extend "subscript_expression" (base.map (intoField "object"))
    (start ++ [mark "[", field "index" (anyExpression r), mark "]"])

/-- A call of an operand. -/
def call (base : List Tree) (parts : List Rule) : Rule :=
  extend "call_expression" (base.map (intoField "function")) parts

/-- Whether no operand begins with a character. -/
def endsOperand (c : Char) : Bool := c ∈ [')', ']', '\x7d', ',', ';', ':', '\x00']

/-- A call with the arguments of a generic function, or the function with its types. -/
def genericCall (r : Goal → Rule) (base : List Tree) : Rule := fun input p => do
  let (_, q) ← seq [typeArguments r] input p
  let c := input.nextChar q
  if c == '(' then
    call base [field "type_arguments" (typeArguments r), field "arguments" (arguments r)] input p
  else if c == '\x60' then
    call base [field "type_arguments" (typeArguments r), field "arguments" (template r)] input p
  else if endsOperand c then
    extend "instantiation_expression" base [field "type_arguments" (typeArguments r)] input p
  else none

/-- Whether a choice between two values begins at a position, and not an access that
may fail. -/
def isOptionalAccess (input : Input) (p : Nat) : Bool :=
  input.holdsText p "?." && !(input.charAt (p + 2)).isDigit

/-- One thing that follows an operand. -/
def tail (d : Dialect) (r : Goal → Rule) (reach : Reach) (base : List Tree) : Rule := fun input p =>
  let q := input.next p
  let c := input.charAt q
  let object := base.map (intoField "object")
  if c == '.' then
    extend "member_expression" object [mark ".", field "property" propertyName] input p
  else if isOptionalAccess input q then
    let follows := input.nextChar (q + 2)
    if follows == '(' && reach.calls then
      call base [optionalMark, field "arguments" (arguments r)] input p
    else if follows == '[' then index r base [optionalMark] input p
    else
      extend "member_expression" object [optionalMark, field "property" propertyName] input p
  else if c == '[' && reach.indices then index r base [] input p
  else if c == '\x60' then call base [field "arguments" (template r)] input p
  else if d.types && c == '!' && input.charAt (q + 1) != '=' && !newlineBetween input p q then
    extend "non_null_expression" base [mark "!"] input p
  else if !reach.calls then none
  else if c == '(' then call base [field "arguments" (arguments r)] input p
  else if d.types && c == '<' then genericCall r base input p
  else none

/-- Everything that follows an operand. -/
def tails (d : Dialect) (r : Goal → Rule) (reach : Reach) (input : Input) :
    Nat → List Tree → Nat → List Tree × Nat
  | 0, base, p => (base, p)
  | fuel + 1, base, p =>
    match tail d r reach base input p with
    | some (trees, q) => tails d r reach input fuel trees q
    | none => (base, p)

/-- An operand with everything that follows it. -/
def withTails (d : Dialect) (r : Goal → Rule) (reach : Reach) (base : Rule) : Rule := fun input p => do
  let (trees, q) ← base input p
  some (tails d r reach input (input.size + 1 - q) trees q)

/-! ### Operands -/

/-- The words that are values by themselves. -/
def valueWords : List String := ["this", "super", "null", "true", "false", "undefined"]

/-- The words that cannot begin an operand. -/
def reservedWords : List String := [
  "if", "else", "for", "while", "do", "switch", "case", "default", "break", "continue", "return", "throw",
  "try", "catch", "finally", "with", "var", "const", "export", "extends", "in", "instanceof", "enum"]

/-- The name of a variable in an expression. -/
def variableName : Rule := when (fun input p => input.wordAt p ∉ reservedWords) identifier

/-- The beginning of an operand. -/
def primary (d : Dialect) (r : Goal → Rule) : Rule := fun input p =>
  match input.charAt p with
  | '(' => parenthesized r input p
  | '[' => array r input p
  | '\x7b' => object d r input p
  | '\'' | '"' => quotedText input p
  | '\x60' => template r input p
  | '/' => regex input p
  | '#' => privateName input p
  | '@' => classValue d r input p
  | c =>
    if c.isDigit || c == '.' then number input p
    else
      let w := input.wordAt p
      let q := input.next (input.wordEnd p)
      if w = "function" || (w = "async" && input.wordAt q = "function" && !newlineFollows input (input.wordEnd p))
      then functionValue d r input p
      else if w = "class" then classValue d r input p
      else if w = "import" then
        if input.charAt q == '.' then
          node "meta_property" [word w, mark ".", nameAs "property_identifier"] input p
        else nameAs "import" input p
      else if w ∈ valueWords then nameAs w input p
      else variableName input p

/-- The class that is instantiated, without a call. -/
def instantiated (d : Dialect) (r : Goal → Rule) : Rule := fun input p =>
  if input.wordAt p = "new" then r (.expression 20) input p
  else withTails d r { calls := false } (primary d r) input p

/-- A new object, or the function that was called to make one. -/
def creation (d : Dialect) (r : Goal → Rule) : Rule := fun input p =>
  if input.nextChar (input.wordEnd p) == '.' then
    node "meta_property" [word "new", mark ".", nameAs "property_identifier"] input p
  else
    node "new_expression" [word "new", field "constructor" (instantiated d r),
      typed d (field "type_arguments" (typeArguments r)), opt (field "arguments" (arguments r))] input p

/-- An operand with what follows it, without signs. -/
def reached (d : Dialect) (r : Goal → Rule) (reach : Reach) : Rule := fun input p =>
  let base := if input.wordAt p = "new" then creation d r else primary d r
  withTails d r reach base input p

/-- Whether markup or a generic function begins with a name and a mark of a list. -/
def isGenericArrow (input : Input) (p : Nat) : Bool :=
  let q := input.next (p + 1)
  let s := input.next (input.wordEnd q)
  isNameStart (input.charAt q) && (input.charAt s == ',' || input.wordAt s = "extends")

/-- An operand that begins with an angle bracket: markup, a generic function, or a
value with a type in front. -/
def angled (d : Dialect) (r : Goal → Rule) : Rule := fun input p =>
  if d.markup then
    if d.types && isGenericArrow input p then alt [arrow d r, r .markup] input p
    else withTails d r {} (r .markup) input p
  else if d.types then
    alt [arrow d r, node "type_assertion" [typeArguments r, r (.expression 16)]] input p
  else none

/-- The assignments that combine. -/
def combinedAssignments : List String := [
  ">>>=", "**=", "&&=", "||=", "??=", "<<=", ">>=", "+=", "-=", "*=", "/=", "%=", "&=", "|=", "^="]

/-- An assignment to an operand that was read, or a counter after it, or the operand
alone. -/
def assignment (r : Goal → Rule) (left : List Tree) : Rule := fun input p =>
  let q := input.next p
  let value := field "right" (oneExpression r)
  let target := left.map (intoField "left")
  if input.charAt q == '=' && input.charAt (q + 1) != '=' && input.charAt (q + 1) != '>' then
    extend "assignment_expression" target [mark "=", value] input p
  else if (input.holdsText q "++" || input.holdsText q "--") && !newlineBetween input p q then
    extend "update_expression" (left.map (intoField "argument"))
      [field "operator" (mark (input.slice q (q + 2)))] input p
  else
    match combinedAssignments.find? (input.holdsText q) with
    | some operator =>
      extend "augmented_assignment_expression" target [field "operator" (mark operator), value] input p
    | none => some (left, p)

/-- A pause of a generator. -/
def yieldExpression (r : Goal → Rule) : Rule := fun input p =>
  let stop := input.wordEnd p
  if input.nextChar stop == '*' then
    node "yield_expression" [word "yield", mark "*", oneExpression r] input p
  else if newlineFollows input stop then node "yield_expression" [word "yield"] input p
  else node "yield_expression" [word "yield", opt (oneExpression r)] input p

/-- Whether a function ends in a block. -/
def endsInBlock (t : Tree) : Bool :=
  t.children.getLast?.any fun body => body.kind == "statement_block"

/-- An arrow function, with what follows it if it ends in a block. -/
def arrowWithTails (d : Dialect) (r : Goal → Rule) : Rule := fun input p => do
  let (trees, q) ← arrow d r input p
  if trees.all endsInBlock then some (tails d r {} input (input.size + 1 - q) trees q)
  else some (trees, q)

/-- The words that are signs. -/
def signWords : List String := ["typeof", "void", "delete"]

/-- An operand with its signs, an arrow function, or an assignment. -/
def operand (d : Dialect) (r : Goal → Rule) : Rule := fun input p =>
  let c := input.charAt p
  let w := input.wordAt p
  let sign (rule : Rule) : Rule :=
    node "unary_expression" [field "operator" rule, field "argument" (r (.expression 16))]
  if input.holdsText p "++" || input.holdsText p "--" then
    node "update_expression" [field "operator" (mark (input.slice p (p + 2))),
      field "argument" (r (.expression 16))] input p
  else if c == '!' || c == '~' || c == '+' || c == '-' then sign (mark (String.singleton c)) input p
  else if c == '<' then angled d r input p
  else if w ∈ signWords then sign (word w) input p
  else if w = "await" && !arrowFollows input (input.wordEnd p) then
    alt [node "await_expression" [word w, r (.expression 16)], reached d r {}] input p
  else if w = "yield" then yieldExpression r input p
  else
    match (if c == '(' || isNameStart c then arrowWithTails d r input p else none) with
    | some found => some found
    | none => do
      let (left, q) ← reached d r {} input p
      assignment r left input q

/-! ### Operators -/

/-- A binary operator: its text, how tightly it binds, and how tightly the operators
to its right have to bind. -/
structure Operator where
  text : String
  level : Nat
  rightLevel : Nat

/-- The operators that are written with marks, longer ones first. -/
def markOperators : List Operator := [
  ⟨">>>", 12, 13⟩, ⟨"===", 10, 11⟩, ⟨"!==", 10, 11⟩,
  ⟨"**", 15, 15⟩, ⟨"??", 4, 5⟩, ⟨"||", 5, 6⟩, ⟨"&&", 6, 7⟩, ⟨"==", 10, 11⟩, ⟨"!=", 10, 11⟩,
  ⟨"<=", 11, 12⟩, ⟨">=", 11, 12⟩, ⟨"<<", 12, 13⟩, ⟨">>", 12, 13⟩,
  ⟨"|", 7, 8⟩, ⟨"^", 8, 9⟩, ⟨"&", 9, 10⟩, ⟨"<", 11, 12⟩, ⟨">", 11, 12⟩,
  ⟨"+", 13, 14⟩, ⟨"-", 13, 14⟩, ⟨"*", 14, 15⟩, ⟨"/", 14, 15⟩, ⟨"%", 14, 15⟩]

/-- The operators that are written as words. -/
def wordOperators : List Operator := [⟨"in", 11, 12⟩, ⟨"instanceof", 11, 12⟩]

/-- The operator at a position. The mark of a counter is no operator: on a new line it
begins the next statement. -/
def operatorAt? (input : Input) (p : Nat) : Option Operator :=
  if isNameStart (input.charAt p) then wordOperators.find? fun o => input.wordAt p = o.text
  else if input.holdsText p "++" || input.holdsText p "--" then none
  else markOperators.find? fun o => input.holdsText p o.text

/-- The expressions that are no operands of an operator. The body of an arrow function
takes every operator after it, unless it is a block. -/
def isClosed (t : Tree) : Bool :=
  t.kind == "yield_expression" || (t.kind == "arrow_function" && !endsInBlock t)

/-- The operator that follows an operand, with its right side. -/
def operation (d : Dialect) (r : Goal → Rule) (level : Nat) (left : List Tree) : Rule := fun input p =>
  let q := input.next p
  let c := input.charAt q
  if left.any isClosed then
    if c == ',' && level = 0 then further input p else none
  else if c == ',' then if level = 0 then further input p else none
  else if c == '?' && !input.holdsText q "??" then
    if level ≤ 3 then
      extend "ternary_expression" (left.map (intoField "condition"))
        [mark "?", field "consequence" (oneExpression r), mark ":",
          field "alternative" (oneExpression r)] input p
    else none
  else if d.types && (input.wordAt q = "as" || input.wordAt q = "satisfies") && level ≤ 11
      && !newlineBetween input p q then
    extend (input.wordAt q ++ "_expression") left [word (input.wordAt q), r .type] input p
  else
    match operatorAt? input q with
    | none => none
    | some o =>
      if o.level < level then none
      else
        let sign := if isNameStart c then word o.text else mark o.text
        extend "binary_expression" (left.map (intoField "left"))
          [field "operator" sign, field "right" (r (.expression o.rightLevel))] input p
where
  /-- A further expression after a comma. -/
  further : Rule := extend "sequence_expression" left [mark ",", oneExpression r]

/-- All operators that follow an operand and bind tightly enough. -/
def operations (d : Dialect) (r : Goal → Rule) (level : Nat) (input : Input) :
    Nat → List Tree → Nat → List Tree × Nat
  | 0, left, p => (left, p)
  | fuel + 1, left, p =>
    match operation d r level left input p with
    | some (trees, q) => operations d r level input fuel trees q
    | none => (left, p)

/-- An expression of operators that bind at least as tightly as a level. From level 20
on there are no signs, and from level 30 on, where decorators are read, no indices. -/
def expression (d : Dialect) (r : Goal → Rule) (level : Nat) : Rule := fun input p =>
  if 30 ≤ level then reached d r { indices := false } input p
  else if 20 ≤ level then reached d r {} input p
  else do
    let (left, q) ← operand d r input p
    some (operations d r level input (input.size + 1 - q) left q)

end PluginAtlas.Script.Grammar
