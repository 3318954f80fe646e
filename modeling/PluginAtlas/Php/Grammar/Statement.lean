import PluginAtlas.Php.Grammar.Expression

/-!
# Statements and declarations of PHP

## Main definitions

* `member`: what stands in the body of a class.
* `statement`: statements and declarations.
-/

namespace PluginAtlas.Php.Grammar

open Rule

/-! ### Members of classes -/

/-- A constant and its value. -/
def constElement (r : Goal → Rule) : Rule := node "const_element" [name, mark "=", anyExpression r]

/-- The constants of a declaration, with the type they may have. -/
def constElements (r : Goal → Rule) : Rule :=
  let elements := sepBy1 (mark ",") (constElement r)
  alt [elements, seq [field "type" typeRule, elements]]

/-- A declaration of constants. -/
def constDeclaration (r : Goal → Rule) : Rule :=
  nodeEndingIn semicolon "const_declaration" [attributes r, many modifier, word "const", constElements r]

/-- A method, with or without a body. -/
def method (r : Goal → Rule) : Rule :=
  node "method_declaration" [attributes r, many modifier, word "function", opt referenceMark,
    field "name" name, parameters r, opt returnType, alt [field "body" (block r), mark ";"]]

/-- A property and its value. -/
def propertyElement (r : Goal → Rule) : Rule :=
  node "property_element" [field "name" (r .variable), defaultValue r]

/-- A declaration of properties. -/
def property (r : Goal → Rule) : Rule :=
  let head := [attributes r, many1 modifier, opt (field "type" typeRule),
    sepBy1 (mark ",") (propertyElement r)]
  alt [node "property_declaration" (head ++ [propertyHooks r]),
    nodeEndingIn semicolon "property_declaration" head]

/-- A case of an enumeration. -/
def enumCase (r : Goal → Rule) : Rule :=
  nodeEndingIn semicolon "enum_case" [attributes r, word "case", field "name" name,
    opt (seq [mark "=", field "value" (anyExpression r)])]

/-- How a clash between used traits is settled. -/
def useRule : Rule :=
  let target := seq [classRef, opt (seq [mark "::", name])]
  node "use_clause" [target,
    alt [seq [word "insteadof", sepBy1 (mark ",") classRef],
      seq [word "as", opt modifier, opt name]], mark ";"]

/-- The traits that a class uses. -/
def traitUse : Rule :=
  let head := [word "use", sepBy1 (mark ",") classRef]
  alt [node "use_declaration" (head ++ [node "use_list" [mark "\x7b", many useRule, mark "\x7d"]]),
    nodeEndingIn semicolon "use_declaration" head]

/-- A member of a class. -/
def member (r : Goal → Rule) : Rule :=
  alt [traitUse, method r, constDeclaration r, enumCase r, property r]

/-! ### Declarations -/

/-- A function. -/
def functionDefinition (r : Goal → Rule) : Rule :=
  node "function_definition" [attributes r, word "function", opt referenceMark, field "name" name,
    parameters r, opt returnType, field "body" (block r)]

/-- A class. -/
def classDeclaration (r : Goal → Rule) : Rule :=
  node "class_declaration" [attributes r, many modifier, word "class", field "name" name,
    opt baseClause, opt interfaceClause, classBody r]

/-- An interface. -/
def interfaceDeclaration (r : Goal → Rule) : Rule :=
  node "interface_declaration" [attributes r, word "interface", field "name" name, opt baseClause,
    classBody r]

/-- A trait. -/
def traitDeclaration (r : Goal → Rule) : Rule :=
  node "trait_declaration" [attributes r, word "trait", field "name" name, classBody r]

/-- An enumeration. -/
def enumDeclaration (r : Goal → Rule) : Rule :=
  node "enum_declaration" [attributes r, word "enum", field "name" name,
    opt (seq [mark ":", typeRule]), opt interfaceClause,
    field "body" (node "enum_declaration_list" [mark "\x7b", many (r .member), mark "\x7d"])]

/-- A namespace, with or without a body. -/
def namespaceDefinition (r : Goal → Rule) : Rule :=
  alt [
    node "namespace_definition" [word "namespace", opt (field "name" namespaceName),
      field "body" (block r)],
    nodeEndingIn semicolon "namespace_definition" [word "namespace", field "name" namespaceName]]

/-- The word for what is imported if it is no class. -/
def importType : Rule := field "type" (alt [word "function", word "const"])

/-- Whether a word for the import of functions or constants stands at a position, and
not a name that begins with it. -/
def importTypeFollows (input : Input) (p : Nat) : Bool :=
  let w := input.wordAt p
  let c := input.nextChar (input.wordEnd p)
  (w = "function" || w = "const") && (isNameStart c || c == '\\')

/-- An imported name, with the word for what it is and its alias. -/
def useClause : Rule :=
  node "namespace_use_clause" [opt (when importTypeFollows importType), classRef,
    opt (seq [word "as", field "alias" name])]

/-- An import of names. The word for what is imported belongs to each name, or stands
in front of the common beginning of a group. -/
def useDeclaration : Rule :=
  let group := field "body" (node "namespace_use_group" [mark "\x7b",
    sepEndBy (mark ",") useClause, mark "\x7d"])
  alt [
    nodeEndingIn semicolon "namespace_use_declaration"
      [word "use", opt (when importTypeFollows importType), opt (mark "\\"), namespaceName,
        mark "\\", group],
    nodeEndingIn semicolon "namespace_use_declaration" [word "use", sepBy1 (mark ",") useClause]]

/-! ### Statements -/

/-- Expressions divided by commas. -/
def sequenceRule (r : Goal → Rule) : Rule := fun input p => do
  let (first, q) ← anyExpression r input p
  if input.charAt (near input q) == ',' then
    node "sequence_expression" [sepBy1 (mark ",") (anyExpression r)] input p
  else some (first, q)

/-- A statement that consists of an expression. -/
def expressionStatement (r : Goal → Rule) : Rule :=
  nodeEndingIn semicolon "expression_statement" [sequenceRule r]

/-- Statements after a colon. -/
def colonBlock (r : Goal → Rule) : Rule := node "colon_block" [mark ":", many (r .statement)]

/-- A statement with a head whose body is a statement, or statements up to a closing
word. -/
def withBody (r : Goal → Rule) (kind closing : String) (head : List Rule) : Rule :=
  alt [
    nodeEndingIn semicolon kind (head ++ [field "body" (colonBlock r), word closing]),
    node kind (head ++ [field "body" (r .statement)])]

/-- The further branches of a condition. -/
def branches (r : Goal → Rule) (body : Rule) : List Rule := [
  many (field "alternative" (node "else_if_clause"
    [word "elseif", field "condition" (parenthesized r), field "body" body])),
  opt (field "alternative" (node "else_clause" [word "else", field "body" body]))]

/-- A condition. -/
def ifStatement (r : Goal → Rule) : Rule :=
  let head := [word "if", field "condition" (parenthesized r)]
  alt [
    nodeEndingIn semicolon "if_statement"
      (head ++ [field "body" (colonBlock r)] ++ branches r (colonBlock r) ++ [word "endif"]),
    node "if_statement" (head ++ [field "body" (r .statement)] ++ branches r (r .statement))]

/-- The cases of a choice. -/
def switchCases (r : Goal → Rule) : Rule :=
  let divider := alt [mark ":", mark ";"]
  many (alt [
    node "case_statement" [word "case", field "value" (anyExpression r), divider,
      many (r .statement)],
    node "default_statement" [word "default", divider, many (r .statement)]])

/-- A choice by cases. -/
def switchStatement (r : Goal → Rule) : Rule :=
  let head := [word "switch", field "condition" (parenthesized r)]
  alt [
    node "switch_statement" (head ++ [field "body"
      (node "switch_block" [mark "\x7b", opt (mark ";"), switchCases r, mark "\x7d"])]),
    nodeEndingIn semicolon "switch_statement" (head ++ [field "body"
      (node "switch_block" [mark ":", switchCases r, word "endswitch"])])]

/-- A loop with a counter. -/
def forStatement (r : Goal → Rule) : Rule :=
  withBody r "for_statement" "endfor" [word "for", mark "(", opt (sequenceRule r), mark ";",
    opt (sequenceRule r), mark ";", opt (sequenceRule r), mark ")"]

/-- A loop over elements. -/
def foreachStatement (r : Goal → Rule) : Rule :=
  withBody r "foreach_statement" "endforeach" [word "foreach", mark "(", anyExpression r, word "as",
    alt [node "pair" [anyExpression r, mark "=>", elementValue r], elementValue r], mark ")"]

/-- A block with handlers. -/
def tryStatement (r : Goal → Rule) : Rule :=
  node "try_statement" [word "try", field "body" (block r),
    many (alt [
      node "catch_clause" [word "catch", mark "(",
        field "type" (node "type_list" [sepBy1 (mark "|") classRef]),
        opt (field "name" (r .variable)), mark ")", field "body" (block r)],
      node "finally_clause" [word "finally", field "body" (block r)]])]

/-- Directives for the code that follows. -/
def declareStatement (r : Goal → Rule) : Rule :=
  let head := [word "declare", mark "(",
    sepEndBy (mark ",") (node "declare_directive" [name, mark "=", anyExpression r]), mark ")"]
  alt [
    nodeEndingIn semicolon "declare_statement"
      (head ++ [mark ":", many (r .statement), word "enddeclare"]),
    node "declare_statement" (head ++ [mark ";"]),
    node "declare_statement" (head ++ [r .statement]),
    nodeEndingIn semicolon "declare_statement" head]

/-- A statement of a word and at most one expression. -/
def wordStatement (r : Goal → Rule) (kind w : String) : Rule :=
  alt [nodeEndingIn semicolon kind [word w],
    nodeEndingIn semicolon kind [word w, sequenceRule r]]

/-- Variables that keep their values between calls. -/
def staticStatement (r : Goal → Rule) : Rule :=
  nodeEndingIn semicolon "function_static_declaration" [word "static",
    sepBy1 (mark ",") (node "static_variable_declaration" [field "name" (r .variable),
      opt (seq [mark "=", field "value" (anyExpression r)])])]

/-- The words that end a list of statements. -/
def closingWords : List String := [
  "case", "default", "else", "elseif", "endif", "endwhile", "endfor", "endforeach", "endswitch",
  "enddeclare", "catch", "finally"]

/-- Whether a label for jumps stands at a position. -/
def isLabel (input : Input) (p : Nat) : Bool :=
  let q := near input (input.wordEnd p)
  input.charAt q == ':' && input.charAt (q + 1) != ':'

/-- A declaration of a class with the words in front of it, or an expression. -/
def modifiedDeclaration (r : Goal → Rule) : Rule := alt [classDeclaration r, expressionStatement r]

/-- A declaration with attributes. -/
def attributedStatement (r : Goal → Rule) : Rule :=
  alt [functionDefinition r, classDeclaration r, interfaceDeclaration r, traitDeclaration r,
    enumDeclaration r, constDeclaration r, expressionStatement r]

/-- A statement that begins with a word. -/
def wordStatements (r : Goal → Rule) (w : String) : Rule := fun input p =>
  let q := near input (input.wordEnd p)
  let follows := input.charAt q
  match w with
  | "if" => ifStatement r input p
  | "switch" => switchStatement r input p
  | "while" =>
    withBody r "while_statement" "endwhile" [word w, field "condition" (parenthesized r)] input p
  | "do" =>
    nodeEndingIn semicolon "do_statement" [word w, field "body" (r .statement), word "while",
      field "condition" (parenthesized r)] input p
  | "for" => forStatement r input p
  | "foreach" => foreachStatement r input p
  | "try" => tryStatement r input p
  | "declare" => declareStatement r input p
  | "return" => wordStatement r "return_statement" w input p
  | "break" => wordStatement r "break_statement" w input p
  | "continue" => wordStatement r "continue_statement" w input p
  | "goto" => wordStatement r "goto_statement" w input p
  | "echo" => wordStatement r "echo_statement" w input p
  | "exit" =>
    alt [
      nodeEndingIn semicolon "exit_statement" [word w],
      nodeEndingIn semicolon "exit_statement" [word w, mark "(", opt (anyExpression r), mark ")"],
      expressionStatement r] input p
  | "unset" =>
    nodeEndingIn semicolon "unset_statement" [word w, mark "(",
      sepEndBy1 (mark ",") (anyExpression r), mark ")"] input p
  | "global" =>
    nodeEndingIn semicolon "global_declaration" [word w, sepBy1 (mark ",") (r .variable)] input p
  | "const" => constDeclaration r input p
  | "use" => useDeclaration input p
  | "namespace" =>
    if input.charAt (input.wordEnd p) == '\\' then expressionStatement r input p
    else namespaceDefinition r input p
  | "function" => alt [functionDefinition r, expressionStatement r] input p
  | "class" => classDeclaration r input p
  | "abstract" | "final" | "readonly" => modifiedDeclaration r input p
  | "interface" => alt [interfaceDeclaration r, expressionStatement r] input p
  | "trait" => alt [traitDeclaration r, expressionStatement r] input p
  | "enum" =>
    if isNameStart follows then enumDeclaration r input p else expressionStatement r input p
  | "static" =>
    if follows == '$' then staticStatement r input p else expressionStatement r input p
  | _ =>
    if w ∈ closingWords then none
    else if isLabel input p then node "named_label_statement" [name, mark ":"] input p
    else expressionStatement r input p

/-- A statement or a declaration. -/
def statement (r : Goal → Rule) : Rule := fun input p =>
  match input.charAt p with
  | '\x7b' => block r input p
  | ';' => node "empty_statement" [mark ";"] input p
  | '#' => attributedStatement r input p
  | c =>
    if isNameStart c && !(input.charAt (input.wordEnd p) == '\\' && input.wordAt p ≠ "namespace") then
      match textLiteral r input p with
      | some _ => expressionStatement r input p
      | none => wordStatements r (input.wordAt p) input p
    else expressionStatement r input p

end PluginAtlas.Php.Grammar
