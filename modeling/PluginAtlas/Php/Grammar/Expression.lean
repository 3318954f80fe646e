import PluginAtlas.Php.Grammar.Text

/-!
# Expressions of PHP

Operands with what follows them (calls, members, indices), the operators by their
binding strength, and assignments, which may follow any variable.

## Main definitions

* `operand`: everything that binds tighter than the binary operators.
* `expression`: operands joined by operators of at least a given strength.
-/

namespace PluginAtlas.Php.Grammar

open Rule

/-- An expression of any operators. -/
def anyExpression (r : Goal → Rule) : Rule := r (.expression 0)

/-- An operand of a sign. -/
def tightExpression (r : Goal → Rule) : Rule := r (.expression 19)

/-- An operand without binary operators. -/
def bareExpression (r : Goal → Rule) : Rule := r (.expression 21)

/-- An expression in parentheses. -/
def parenthesized (r : Goal → Rule) : Rule :=
  node "parenthesized_expression" [mark "(", anyExpression r, mark ")"]

/-- An expression in braces. -/
def braced (r : Goal → Rule) : Rule := seq [mark "\x7b", anyExpression r, mark "\x7d"]

/-- A variable, also one whose name is computed. -/
def variableRule (r : Goal → Rule) : Rule := fun input p =>
  if input.charAt p != '$' then none
  else if isNameStart (input.charAt (p + 1)) then node "variable_name" [mark "$", name] input p
  else if input.charAt (p + 1) == '$' then
    node "dynamic_variable_name" [mark "$", r .variable] input p
  else node "dynamic_variable_name" [mark "$", braced r] input p

/-! ### Arguments and elements -/

/-- The mark of a reference. -/
def referenceMark : Rule := node "reference_modifier" [mark "&"]

/-- Values that are spread. -/
def spread (r : Goal → Rule) : Rule := node "variadic_unpacking" [mark "...", anyExpression r]

/-- Whether the name at a position is followed by a single colon. -/
def isNamedArgument (input : Input) (p : Nat) : Bool :=
  let q := near input (input.wordEnd p)
  isNameStart (input.charAt p) && input.charAt q == ':' && input.charAt (q + 1) != ':'

/-- Whether a mark for the whole argument list stands alone. -/
def isPlaceholder (input : Input) (p : Nat) : Bool :=
  input.holdsText p "..." && input.nextChar (p + 3) == ')'

/-- An argument of a call. -/
def argument (r : Goal → Rule) : Rule := fun input p =>
  if isPlaceholder input p then node "variadic_placeholder" [mark "..."] input p
  else
    node "argument" [
      opt (when isNamedArgument (seq [field "name" name, mark ":"])),
      alt [spread r, anyExpression r, seq [referenceMark, anyExpression r]]] input p

/-- The arguments of a call. -/
def arguments (r : Goal → Rule) : Rule :=
  node "arguments" [mark "(", sepEndBy (mark ",") (argument r), mark ")"]

/-- A value that may be a reference. -/
def elementValue (r : Goal → Rule) : Rule :=
  alt [node "by_ref" [mark "&", tightExpression r], anyExpression r]

/-- An element of an array. -/
def arrayElement (r : Goal → Rule) : Rule :=
  node "array_element_initializer" [
    alt [spread r, seq [elementValue r, opt (seq [mark "=>", elementValue r])]]]

/-- The elements of an array or of a pattern, which may be left out. -/
def arrayElements (r : Goal → Rule) : Rule := many (alt [mark ",", arrayElement r])

/-! ### Functions without a name -/

/-- The attributes of a declaration. -/
def attributeList (r : Goal → Rule) : Rule :=
  node "attribute_list" [many1 (node "attribute_group" [mark "#[",
    sepEndBy1 (mark ",") (node "attribute" [classRef, opt (field "parameters" (arguments r))]),
    mark "]"])]

/-- Attributes that may be left out. -/
def attributes (r : Goal → Rule) : Rule := opt (field "attributes" (attributeList r))

/-- The words that modify a declaration, and the nodes they make. -/
def modifierWords : List (String × String) := [
  ("public", "visibility_modifier"), ("protected", "visibility_modifier"),
  ("private", "visibility_modifier"), ("static", "static_modifier"),
  ("abstract", "abstract_modifier"), ("final", "final_modifier"),
  ("readonly", "readonly_modifier"), ("var", "var_modifier")]

/-- A word that modifies a declaration. -/
def modifier : Rule := fun input p =>
  let w := input.wordAt p
  match modifierWords.lookup w with
  | none => none
  | some kind => node kind [word w, opt (seq [mark "(", word "set", mark ")"])] input p

/-- The value of a parameter that is not given. -/
def defaultValue (r : Goal → Rule) : Rule :=
  opt (seq [mark "=", field "default_value" (anyExpression r)])

/-- The hooks of a property. -/
def propertyHooks (r : Goal → Rule) : Rule :=
  let parameters := seq [mark "(", sepEndBy (mark ",")
    (seq [opt (field "type" typeRule), r .variable, defaultValue r]), mark ")"]
  node "property_hook_list" [mark "\x7b",
    many (node "property_hook" [attributes r, many modifier, opt referenceMark, name,
      opt parameters,
      alt [seq [mark "=>", anyExpression r, mark ";"], r .statement]]),
    mark "\x7d"]

/-- A parameter of a declaration. -/
def parameter (r : Goal → Rule) : Rule :=
  let typed := opt (field "type" typeRule)
  let named := field "name" (r .variable)
  alt [
    node "property_promotion_parameter" [attributes r, many1 modifier, typed, opt referenceMark,
      named, defaultValue r, opt (propertyHooks r)],
    node "variadic_parameter" [attributes r, typed, opt referenceMark, mark "...", named],
    node "simple_parameter" [attributes r, typed, opt referenceMark, named, defaultValue r]]

/-- The parameters of a declaration. -/
def parameters (r : Goal → Rule) : Rule :=
  field "parameters" (node "formal_parameters" [mark "(", sepEndBy (mark ",") (parameter r), mark ")"])

/-- Statements in braces. -/
def block (r : Goal → Rule) : Rule :=
  node "compound_statement" [mark "\x7b", many (r .statement), mark "\x7d"]

/-- A function without a name. -/
def closure (r : Goal → Rule) : Rule :=
  node "anonymous_function" [attributes r,
    opt (field "static_modifier" (node "static_modifier" [word "static"])),
    word "function", opt referenceMark, parameters r,
    opt (node "anonymous_function_use_clause" [word "use", mark "(",
      sepEndBy (mark ",") (alt [r .variable, node "by_ref" [mark "&", r .variable]]), mark ")"]),
    opt returnType, field "body" (block r)]

/-- A function without a name whose body is an expression. -/
def arrow (r : Goal → Rule) : Rule :=
  node "arrow_function" [attributes r,
    opt (field "static_modifier" (node "static_modifier" [word "static"])),
    word "fn", opt referenceMark, parameters r, opt returnType, mark "=>",
    field "body" (anyExpression r)]

/-! ### Classes -/

/-- The class that a class extends. -/
def baseClause : Rule := node "base_clause" [word "extends", sepBy1 (mark ",") classRef]

/-- The interfaces that a class implements. -/
def interfaceClause : Rule :=
  node "class_interface_clause" [word "implements", sepBy1 (mark ",") classRef]

/-- The members of a class. -/
def classBody (r : Goal → Rule) : Rule :=
  field "body" (node "declaration_list" [mark "\x7b", many (r .member), mark "\x7d"])

/-- A class without a name. -/
def anonymousClass (r : Goal → Rule) : Rule :=
  node "anonymous_class" [attributes r, many modifier, word "class", opt (arguments r),
    opt baseClause, opt interfaceClause, classBody r]

/-! ### Operands and what follows them -/

/-- The name of a member after its mark. -/
def memberName (r : Goal → Rule) : Rule := alt [name, r .variable, braced r]

/-- Whether the next part begins with an opening parenthesis. -/
def callFollows (input : Input) (p : Nat) : Bool := input.charAt (near input p) == '('

/-- The trees of a part and, if a call follows, of its arguments; with a node of the
kind that fits. -/
def memberOrCall (r : Goal → Rule) (callKind accessKind : String) (base : List Tree)
    (part : List Rule) (calls : Bool) : Rule := fun input p => do
  let (_, q) ← seq part input p
  if calls && callFollows input q then
    extend callKind base (part ++ [field "arguments" (arguments r)]) input p
  else extend accessKind base part input p

/-- A member behind the mark of a scope. -/
def scopedTail (r : Goal → Rule) (base : List Tree) (calls : Bool) : Rule := fun input p =>
  let q := near input (near input p + 2)
  let scope := base.map (intoField "scope")
  if input.charAt q == '$' then
    memberOrCall r "scoped_call_expression" "scoped_property_access_expression" scope
      [mark "::", field "name" (r .variable)] calls input p
  else
    let constant := alt [name, node "braced_name" [braced r]]
    if calls && ((seq [mark "::", constant] input p).map fun (_, s) => callFollows input s) = some true then
      extend "scoped_call_expression" scope
        [mark "::", field "name" constant, field "arguments" (arguments r)] input p
    else extend "class_constant_access_expression" base [mark "::", constant] input p

/-- The kinds of operands that an index in braces may follow. -/
def isIndexedByBraces (kind : String) : Bool :=
  kind ∈ ["variable_name", "subscript_expression", "member_access_expression"]

/-- One thing that follows an operand: arguments, an index, a member or a counter. -/
def tail (r : Goal → Rule) (base : List Tree) (calls : Bool) : Rule := fun input p =>
  let q := near input p
  let object := base.map (intoField "object")
  if input.holdsText q "->" then
    memberOrCall r "member_call_expression" "member_access_expression" object
      [mark "->", field "name" (memberName r)] calls input p
  else if input.holdsText q "?->" then
    memberOrCall r "nullsafe_member_call_expression" "nullsafe_member_access_expression" object
      [mark "?->", field "name" (memberName r)] calls input p
  else if input.holdsText q "::" then scopedTail r base calls input p
  else if input.charAt q == '[' then
    extend "subscript_expression" base [mark "[", opt (anyExpression r), mark "]"] input p
  else if input.charAt q == '\x7b' && base.all (isIndexedByBraces ·.kind) then
    extend "subscript_expression" base [braced r] input p
  else if !calls then none
  else if input.charAt q == '(' then
    extend "function_call_expression" (base.map (intoField "function"))
      [field "arguments" (arguments r)] input p
  else if input.holdsText q "++" then
    extend "update_expression" base [field "operator" (mark "++")] input p
  else if input.holdsText q "--" then
    extend "update_expression" base [field "operator" (mark "--")] input p
  else none

/-- Everything that follows an operand. -/
def tails (r : Goal → Rule) (calls : Bool) (input : Input) : Nat → List Tree → Nat → List Tree × Nat
  | 0, base, p => (base, p)
  | fuel + 1, base, p =>
    match tail r base calls input p with
    | some (trees, q) => tails r calls input fuel trees q
    | none => (base, p)

/-- An operand with everything that follows it. -/
def withTails (r : Goal → Rule) (calls : Bool) (base : Rule) : Rule := fun input p => do
  let (trees, q) ← base input p
  some (tails r calls input (input.size + 1 - q) trees q)

/-- The class that is instantiated or tested for. -/
def classOperand (r : Goal → Rule) : Rule := fun input p =>
  if input.charAt p == '$' then withTails r false (r .variable) input p
  else if input.charAt p == '(' then parenthesized r input p
  else if isNameStart (input.charAt p) || input.charAt p == '\\' then
    let base : Rule := if input.holdsText (near input (input.wordEnd p)) "::" then
      withTails r false name else classRef
    base input p
  else none

/-- A new object. -/
def creation (r : Goal → Rule) : Rule :=
  node "object_creation_expression" [word "new",
    alt [anonymousClass r, seq [classOperand r, opt (arguments r)]]]

/-- An arm of a choice by value. -/
def matchArm (r : Goal → Rule) : Rule :=
  alt [
    node "match_default_expression" [word "default", opt (mark ","), mark "=>",
      field "return_expression" (anyExpression r)],
    node "match_conditional_expression" [
      field "conditional_expressions"
        (node "match_condition_list" [sepEndBy1 (mark ",") (anyExpression r)]),
      mark "=>", field "return_expression" (anyExpression r)]]

/-- A choice by value. -/
def matchExpression (r : Goal → Rule) : Rule :=
  node "match_expression" [word "match", field "condition" (parenthesized r),
    field "body" (node "match_block" [mark "\x7b", sepEndBy (mark ",") (matchArm r), mark "\x7d"])]

/-- The words that are followed by one expression of any operators. -/
def leadingWords : List (String × String) := [
  ("print", "print_intrinsic"), ("throw", "throw_expression"),
  ("include", "include_expression"), ("include_once", "include_once_expression"),
  ("require", "require_expression"), ("require_once", "require_once_expression")]

/-- A pause of a generator. -/
def yieldExpression (r : Goal → Rule) : Rule :=
  node "yield_expression" [word "yield",
    opt (alt [seq [word "from", anyExpression r],
      node "array_element_initializer" [anyExpression r, opt (seq [mark "=>", anyExpression r])]])]

/-- The name of a scope relative to the enclosing class. -/
def relativeScope : Rule := fun input p =>
  let w := input.wordAt p
  if (w = "self" || w = "static" || w = "parent") && input.holdsText (near input (input.wordEnd p)) "::"
  then node "relative_scope" [word w] input p
  else none

/-- An operand that begins with a word. -/
def wordOperand (r : Goal → Rule) : Rule := fun input p =>
  let w := input.wordAt p
  let stop := input.wordEnd p
  let follows := input.charAt (near input stop)
  if input.charAt stop == '\\' then withTails r true segmentedName input p
  else if w = "new" then withTails r true (creation r) input p
  else if w = "clone" then node "clone_expression" [word w, bareExpression r] input p
  else if w = "yield" then yieldExpression r input p
  else if w = "fn" && (follows == '(' || follows == '&') then arrow r input p
  else if w = "function" && (follows == '(' || follows == '&') then
    withTails r true (closure r) input p
  else if w = "static" && input.wordAt (near input stop) = "fn" then arrow r input p
  else if w = "static" && input.wordAt (near input stop) = "function" then
    withTails r true (closure r) input p
  else if w = "match" && follows == '(' then withTails r true (matchExpression r) input p
  else if w = "list" && follows == '(' then
    node "list_literal" [word w, mark "(", arrayElements r, mark ")"] input p
  else if w = "array" && follows == '(' then
    withTails r true
      (node "array_creation_expression" [word w, mark "(", arrayElements r, mark ")"]) input p
  else if w = "true" || w = "false" then
    withTails r true (leaf "boolean" nameEnd?) input p
  else if w = "null" then leaf "null" nameEnd? input p
  else
    match leadingWords.lookup w with
    | some kind => node kind [word w, anyExpression r] input p
    | none => withTails r true (alt [relativeScope, name]) input p

/-- The types that a value can be cast to. -/
def castTypes : List String := [
  "array", "binary", "bool", "boolean", "double", "float", "int", "integer", "object", "real",
  "string", "unset", "void"]

/-- Whether a cast begins at a position. -/
def isCast (input : Input) (p : Nat) : Bool :=
  let q := near input (p + 1)
  input.wordAt q ∈ castTypes && input.charAt (near input (input.wordEnd q)) == ')'

/-- A cast. -/
def cast (r : Goal → Rule) : Rule :=
  node "cast_expression" [mark "(", field "type" (leaf "cast_type" nameEnd?), mark ")",
    field "value" (bareExpression r)]

/-- The kinds of operands that can be assigned to. -/
def isAssignable (kind : String) : Bool :=
  kind ∈ ["variable_name", "dynamic_variable_name", "subscript_expression",
    "member_access_expression", "nullsafe_member_access_expression",
    "scoped_property_access_expression", "list_literal", "array_creation_expression"]

/-- The assignments that combine. -/
def combinedAssignments : List String := [
  "**=", "??=", "<<=", ">>=", "+=", "-=", "*=", "/=", ".=", "%=", "&=", "|=", "^="]

/-- An array as a pattern. -/
def asPattern : Tree → Tree
  | .node kind named start stop field children =>
    .node (if kind = "array_creation_expression" then "list_literal" else kind) named start stop field
      children

/-- An assignment to an operand that was read, or the operand alone. -/
def assignment (r : Goal → Rule) (left : List Tree) : Rule := fun input p =>
  let q := near input p
  let value := field "right" (r (.expression 4))
  let target := left.map fun t => intoField "left" (asPattern t)
  if !(left.all fun t => isAssignable t.kind) then some (left, p)
  else if input.charAt q == '=' && input.charAt (q + 1) != '=' && input.charAt (q + 1) != '>' then
    if input.nextChar (q + 1) == '&' then
      extend "reference_assignment_expression" target [mark "=", referenceMark, value] input p
    else extend "assignment_expression" target [mark "=", value] input p
  else
    match combinedAssignments.find? (input.holdsText q) with
    | some operator =>
      extend "augmented_assignment_expression" target [field "operator" (mark operator), value] input p
    | none => some (left, p)

/-- An operand that is no sign: its beginning and what follows it. -/
def plainOperand (r : Goal → Rule) : Rule := fun input p =>
  let c := input.charAt p
  if c == '(' then
    if isCast input p then cast r input p else withTails r true (parenthesized r) input p
  else if c == '$' then withTails r true (r .variable) input p
  else if c == '[' then
    withTails r true
      (node "array_creation_expression" [mark "[", arrayElements r, mark "]"]) input p
  else if c == '#' then alt [withTails r true (closure r), arrow r] input p
  else if c.isDigit || c == '.' then number input p
  else
    match textLiteral r input p with
    | some (trees, q) => some (tails r true input (input.size + 1 - q) trees q)
    | none =>
      if c == '\\' then withTails r true segmentedName input p
      else if isNameStart c then wordOperand r input p
      else none

/-- An operand with its signs, or an assignment to it. -/
def operand (r : Goal → Rule) : Rule := fun input p =>
  let c := input.charAt p
  if input.holdsText p "++" || input.holdsText p "--" then
    node "update_expression" [field "operator" (mark (input.slice p (p + 2))), bareExpression r] input p
  else if c == '!' || c == '~' || c == '+' || c == '-' then
    node "unary_op_expression" [field "operator" (mark (String.singleton c)),
      field "argument" (tightExpression r)] input p
  else if c == '@' then
    node "error_suppression_expression" [mark "@", bareExpression r] input p
  else do
    let (left, q) ← plainOperand r input p
    assignment r left input q

/-! ### Operators -/

/-- A binary operator: its text, how tightly it binds, and how tightly the operators
to its right have to bind. -/
structure Operator where
  text : String
  level : Nat
  rightLevel : Nat

/-- The operators that are written with marks, longer ones first. -/
def markOperators : List Operator := [
  ⟨"<=>", 12, 13⟩, ⟨"===", 12, 13⟩, ⟨"!==", 12, 13⟩,
  ⟨"**", 18, 18⟩, ⟨"??", 6, 6⟩, ⟨"||", 7, 8⟩, ⟨"&&", 8, 9⟩, ⟨"==", 12, 13⟩, ⟨"!=", 12, 13⟩,
  ⟨"<>", 12, 13⟩, ⟨"<=", 13, 14⟩, ⟨">=", 13, 14⟩, ⟨"<<", 15, 16⟩, ⟨">>", 15, 16⟩, ⟨"|>", 13, 14⟩,
  ⟨"|", 9, 10⟩, ⟨"^", 10, 11⟩, ⟨"&", 11, 12⟩, ⟨"<", 13, 14⟩, ⟨">", 13, 14⟩, ⟨".", 14, 15⟩,
  ⟨"+", 16, 17⟩, ⟨"-", 16, 17⟩, ⟨"*", 17, 18⟩, ⟨"/", 17, 18⟩, ⟨"%", 17, 18⟩]

/-- The operators that are written as words. -/
def wordOperators : List Operator := [
  ⟨"or", 1, 2⟩, ⟨"xor", 2, 3⟩, ⟨"and", 3, 4⟩, ⟨"instanceof", 20, 21⟩]

/-- The operator at a position. -/
def operatorAt? (input : Input) (p : Nat) : Option Operator :=
  if isNameStart (input.charAt p) then
    wordOperators.find? fun o => input.wordAt p = o.text
  else markOperators.find? fun o => input.holdsText p o.text

/-- Whether a choice between two values begins at a position. -/
def isChoice (input : Input) (p : Nat) : Bool :=
  input.charAt p == '?' && input.charAt (p + 1) != '>' && input.charAt (p + 1) != '?'
    && !input.holdsText p "?->"

/-- The operator that follows an operand, with its right side. -/
def operation (r : Goal → Rule) (level : Nat) (left : List Tree) : Rule := fun input p =>
  let q := near input p
  if isChoice input q then
    if level ≤ 5 then
      extend "conditional_expression" (left.map (intoField "condition"))
        [mark "?", opt (field "body" (anyExpression r)), mark ":",
          field "alternative" (r (.expression 6))] input p
    else none
  else
    match operatorAt? input q with
    | none => none
    | some o =>
      if o.level < level then none
      else
        let sign := if isNameStart (input.charAt q) then word o.text else mark o.text
        let right := if o.text = "instanceof" then classOperand r else r (.expression o.rightLevel)
        extend "binary_expression" (left.map (intoField "left"))
          [field "operator" sign, field "right" right] input p

/-- All operators that follow an operand and bind tightly enough. -/
def operations (r : Goal → Rule) (level : Nat) (input : Input) :
    Nat → List Tree → Nat → List Tree × Nat
  | 0, left, p => (left, p)
  | fuel + 1, left, p =>
    match operation r level left input p with
    | some (trees, q) => operations r level input fuel trees q
    | none => (left, p)

/-- An expression of operators that bind at least as tightly as a level. -/
def expression (r : Goal → Rule) (level : Nat) : Rule := fun input p => do
  let (left, q) ← operand r input p
  some (operations r level input (input.size + 1 - q) left q)

end PluginAtlas.Php.Grammar
