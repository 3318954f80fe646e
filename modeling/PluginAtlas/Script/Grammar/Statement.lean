import PluginAtlas.Script.Grammar.Expression

/-!
# Statements and declarations of scripts

## Main definitions

* `statement`: statements and declarations.
-/

namespace PluginAtlas.Script.Grammar

open Rule

/-- A condition in parentheses. -/
def condition (r : Goal → Rule) : Rule := field "condition" (parenthesized r)

/-! ### Declarations -/

/-- A variable with the value that it is given. -/
def declarator (d : Dialect) (r : Goal → Rule) : Rule :=
  node "variable_declarator" [field "name" (r .pattern), typed d (mark "!"),
    typed d (field "type" (statedType r)),
    opt (seq [mark "=", field "value" (oneExpression r)])]

/-- A declaration of variables by a word. -/
def variableParts (d : Dialect) (r : Goal → Rule) (w : String) : List Rule :=
  [if w = "var" then word w else field "kind" (word w), sepBy1 (mark ",") (declarator d r)]

/-- The kind of node that a word for variables declares. -/
def variableKind (w : String) : String :=
  if w = "var" then "variable_declaration" else "lexical_declaration"

/-- A declaration of variables. -/
def variableDeclaration (d : Dialect) (r : Goal → Rule) (w : String) : Rule :=
  nodeEndingIn semicolon (variableKind w) (variableParts d r w)

/-- A function with a name, or, where types are written, its signature alone. -/
def functionDeclaration (d : Dialect) (r : Goal → Rule) : Rule :=
  let head (star : List Rule) : List Rule :=
    [opt (word "async"), word "function"] ++ star ++ [field "name" identifier, signature d r]
  alt [
    node "generator_function_declaration" (head [mark "*"] ++ [field "body" (block r)]),
    node "function_declaration" (head [] ++ [field "body" (block r)]),
    if d.types then nodeEndingIn semicolon "function_signature" (head [opt (mark "*")]) else fail]

/-- A class with a name. -/
def classDeclaration (d : Dialect) (r : Goal → Rule) : Rule :=
  alt [
    node "class_declaration" (many (decorator r) :: classParts d r (className d)),
    if d.types then
      node "abstract_class_declaration"
        (many (decorator r) :: word "abstract" :: classParts d r (className d))
    else fail]

/-- An enumeration. -/
def enumDeclaration (r : Goal → Rule) : Rule :=
  node "enum_declaration" [opt (word "const"), word "enum", field "name" identifier,
    field "body" (node "enum_body" [mark "\x7b",
      sepEndBy (mark ",") (node "enum_assignment" [field "name" (memberName r),
        opt (seq [mark "=", field "value" (oneExpression r)])]),
      mark "\x7d"])]

/-- An interface. -/
def interfaceDeclaration (r : Goal → Rule) : Rule :=
  node "interface_declaration" [word "interface", field "name" typeName,
    opt (field "type_parameters" (typeParameters r)),
    opt (node "extends_type_clause" [word "extends", sepBy1 (mark ",") (r .type)]),
    field "body" (bracketed "interface_body")]

/-- A name for a type. -/
def typeAlias (r : Goal → Rule) : Rule :=
  nodeEndingIn semicolon "type_alias_declaration" [word "type", field "name" typeName,
    opt (field "type_parameters" (typeParameters r)), mark "=", field "value" (r .type)]

/-- A named group of declarations. -/
def moduleDeclaration (r : Goal → Rule) (w : String) : Rule :=
  let named := field "name" (alt [quotedText, seq [identifier, many (seq [mark ".", identifier])]])
  alt [
    node "module" [word w, named, field "body" (block r)],
    nodeEndingIn semicolon "module" [word w, named]]

/-- A declaration of what exists elsewhere. -/
def ambientDeclaration (r : Goal → Rule) : Rule :=
  node "ambient_declaration" [word "declare",
    alt [seq [word "global", block r], r .statement]]

/-! ### Modules -/

/-- The name of something that is imported or exported. -/
def sharedName : Rule := alt [identifier, quotedText]

/-- An imported or exported name, possibly under another name. -/
def specifier (kind : String) : Rule :=
  let plain := seq [field "name" sharedName, opt (seq [word "as", field "alias" sharedName])]
  let marked := seq [alt [word "type", word "typeof"], plain]
  node kind [alt [
    seq [plain, check fun input p => input.nextChar p == ',' || input.nextChar p == '\x7d'],
    marked]]

/-- A list of imported or exported names. -/
def specifiers (kind item : String) : Rule :=
  node kind [mark "\x7b", sepEndBy (mark ",") (specifier item), mark "\x7d"]

/-- The attributes of an import. -/
def importAttributes : Rule :=
  opt (node "import_attribute" [alt [word "with", word "assert"], bracketed "object"])

/-- What an import binds. -/
def importClause : Rule :=
  let star := node "namespace_import" [mark "*", word "as", identifier]
  let names := alt [star, specifiers "named_imports" "import_specifier"]
  node "import_clause" [alt [names, seq [identifier, opt (seq [mark ",", names])]]]

/-- The module that something comes from. -/
def sourceModule : Rule := seq [word "from", field "source" quotedText]

/-- An import. -/
def importStatement (d : Dialect) (r : Goal → Rule) : Rule :=
  let kind := alt [word "type", word "typeof"]
  let full (start : List Rule) : Rule :=
    nodeEndingIn semicolon "import_statement"
      (word "import" :: start ++ [importClause, sourceModule, importAttributes])
  alt [
    nodeEndingIn semicolon "import_statement" [word "import", field "source" quotedText, importAttributes],
    full [], full [kind],
    if d.types then
      nodeEndingIn semicolon "import_statement" [word "import",
        node "import_require_clause" [opt kind, identifier, mark "=", word "require", mark "(",
          field "source" quotedText, mark ")"]]
    else fail,
    if d.types then
      nodeEndingIn semicolon "import_alias" [word "import", opt kind, identifier, mark "=", r (.expression 20)]
    else fail]

/-- Whether a function or class without a name stands at a position. -/
def isNameless (input : Input) (p : Nat) : Bool :=
  let q := if input.wordAt p = "async" then input.next (input.wordEnd p) else p
  let s := input.next (input.wordEnd q)
  let t := if input.charAt s == '*' then input.next (s + 1) else s
  if input.wordAt q = "function" then input.charAt t == '(' || input.charAt t == '<'
  else input.wordAt q = "class" && (input.charAt s == '\x7b' || input.wordAt s = "extends"
    || input.wordAt s = "implements" || input.charAt s == '<')

/-- What is exported by default. -/
def defaultExport (d : Dialect) (r : Goal → Rule) : Rule := fun input p =>
  let start := if input.charAt p == '@' then
      ((many (decorator r)) input p).map (·.2) |>.getD p
    else p
  let q := input.next start
  let w := input.wordAt q
  let declares := w = "function" || w = "class"
    || (w = "async" && input.wordAt (input.next (input.wordEnd q)) = "function")
    || (d.types && (w = "abstract" || w = "interface") && isNameStart (input.nextChar (input.wordEnd q)))
  if declares then
    if isNameless input q then
      field "value" (alt [functionValue d r, classValue d r]) input p
    else
      field "declaration" (alt [functionDeclaration d r, classDeclaration d r,
        if d.types then interfaceDeclaration r else fail]) input p
  else endingIn semicolon [field "value" (anyExpression r)] input p

/-- An export. -/
def exportStatement (d : Dialect) (r : Goal → Rule) : Rule :=
  let head := [many (decorator r), word "export"]
  let names := specifiers "export_clause" "export_specifier"
  let typeWord := if d.types then opt (word "type") else empty
  alt [
    node "export_statement" (head ++ [word "default", defaultExport d r]),
    nodeEndingIn semicolon "export_statement" (head ++ [typeWord, mark "*", sourceModule, importAttributes]),
    nodeEndingIn semicolon "export_statement" (head ++ [typeWord,
      node "namespace_export" [mark "*", word "as", sharedName], sourceModule, importAttributes]),
    nodeEndingIn semicolon "export_statement" (head ++ [typeWord, names, sourceModule, importAttributes]),
    nodeEndingIn semicolon "export_statement" (head ++ [typeWord, names]),
    if d.types then nodeEndingIn semicolon "export_statement" (head ++ [mark "=", anyExpression r]) else fail,
    if d.types then
      nodeEndingIn semicolon "export_statement" (head ++ [word "as", word "namespace", identifier])
    else fail,
    node "export_statement" (head ++ [field "declaration" (r .statement)])]

/-! ### Statements -/

/-- A statement that consists of expressions. -/
def expressionStatement (r : Goal → Rule) : Rule :=
  nodeEndingIn semicolon "expression_statement" [anyExpression r]

/-- A loop over keys or elements. -/
def forInStatement (d : Dialect) (r : Goal → Rule) : Rule :=
  let kind := field "kind" (alt [word "var", word "let", word "const"])
  let left := alt [seq [kind, field "left" (r .pattern), typed d (statedType r)],
    field "left" (r (.expression 20)), field "left" (r .pattern)]
  node "for_in_statement" [word "for", opt (word "await"), mark "(", left,
    field "operator" (alt [word "in", word "of"]), field "right" (anyExpression r), mark ")",
    field "body" (r .statement)]

/-- The beginning of a loop with a counter. -/
def forStart (d : Dialect) (r : Goal → Rule) : Rule :=
  let declared (w : String) : Rule := node (variableKind w) (variableParts d r w ++ [mark ";"])
  field "initializer" (alt [declared "var", declared "let", declared "const",
    seq [anyExpression r, mark ";"], mark ";"])

/-- A loop with a counter. -/
def forStatement (d : Dialect) (r : Goal → Rule) : Rule :=
  node "for_statement" [word "for", mark "(", forStart d r,
    field "condition" (seq [opt (anyExpression r), mark ";"]), opt (field "increment" (anyExpression r)),
    mark ")", field "body" (r .statement)]

/-- A condition with its branches. -/
def ifStatement (r : Goal → Rule) : Rule :=
  node "if_statement" [word "if", condition r, field "consequence" (r .statement),
    opt (field "alternative" (node "else_clause" [word "else", r .statement]))]

/-- A choice by cases. -/
def switchStatement (r : Goal → Rule) : Rule :=
  node "switch_statement" [word "switch", field "value" (parenthesized r),
    field "body" (node "switch_body" [mark "\x7b",
      many (alt [
        node "switch_case" [word "case", field "value" (anyExpression r), mark ":",
          many (field "body" (r .statement))],
        node "switch_default" [word "default", mark ":", many (field "body" (r .statement))]]),
      mark "\x7d"])]

/-- A block with handlers. -/
def tryStatement (d : Dialect) (r : Goal → Rule) : Rule :=
  node "try_statement" [word "try", field "body" (block r),
    opt (field "handler" (node "catch_clause" [word "catch",
      opt (seq [mark "(", field "parameter" (r .pattern), typed d (statedType r), mark ")"]),
      field "body" (block r)])),
    opt (field "finalizer" (node "finally_clause" [word "finally", field "body" (block r)]))]

/-- A statement of a word and at most some expressions on its line. -/
def wordStatement (r : Goal → Rule) (kind w : String) : Rule := fun input p =>
  if endImplied input (input.wordEnd p) || input.nextChar (input.wordEnd p) == ';' then
    nodeEndingIn semicolon kind [word w] input p
  else nodeEndingIn semicolon kind [word w, anyExpression r] input p

/-- Whether a label stands at a position. -/
def isLabel (input : Input) (p : Nat) : Bool :=
  isNameStart (input.charAt p) && input.nextChar (input.wordEnd p) == ':'

/-- Whether a name follows on the line of a word. -/
def nameFollows (input : Input) (p : Nat) : Bool :=
  let stop := input.wordEnd p
  isNameStart (input.nextChar stop) && !newlineFollows input stop
    && input.wordAt (input.next stop) ≠ "in" && input.wordAt (input.next stop) ≠ "instanceof"

/-- A declaration of the dialects with types. -/
def typedStatement? (d : Dialect) (r : Goal → Rule) (w : String) (input : Input) (p : Nat) :
    Option Rule :=
  let stop := input.wordEnd p
  let named := nameFollows input p
  if !d.types then none
  else
    match w with
    | "interface" => if named then some (interfaceDeclaration r) else none
    | "type" => if named then some (typeAlias r) else none
    | "enum" => if named then some (enumDeclaration r) else none
    | "namespace" => if named then some (moduleDeclaration r w) else none
    | "module" =>
      let c := input.nextChar stop
      if named || c == '\'' || c == '"' then some (moduleDeclaration r w) else none
    | "declare" => if named then some (ambientDeclaration r) else none
    | "abstract" => if named then some (classDeclaration d r) else none
    | "const" =>
      if input.wordAt (input.next stop) = "enum" then some (enumDeclaration r) else none
    | _ => none

/-- Whether a declaration of variables begins with the word at a position. -/
def isLexical (input : Input) (p : Nat) : Bool :=
  let c := input.nextChar (input.wordEnd p)
  isNameStart c || c == '[' || c == '\x7b'

/-- A statement that begins with a word of the language. -/
def plainStatement (d : Dialect) (r : Goal → Rule) (w : String) : Rule := fun input p =>
  let q := input.next (input.wordEnd p)
  let follows := input.charAt q
  match w with
  | "import" =>
    if follows == '(' || follows == '.' then expressionStatement r input p
    else importStatement d r input p
  | "export" => exportStatement d r input p
  | "var" => variableDeclaration d r w input p
  | "const" => variableDeclaration d r w input p
  | "let" => if isLexical input p then variableDeclaration d r w input p else expressionStatement r input p
  | "function" => functionDeclaration d r input p
  | "async" =>
    if input.wordAt q = "function" && !newlineFollows input (input.wordEnd p) then
      functionDeclaration d r input p
    else expressionStatement r input p
  | "class" => classDeclaration d r input p
  | "if" => ifStatement r input p
  | "switch" => switchStatement r input p
  | "for" => alt [forInStatement d r, forStatement d r] input p
  | "while" => node "while_statement" [word w, condition r, field "body" (r .statement)] input p
  | "do" =>
    node "do_statement" [word w, field "body" (r .statement), word "while", condition r,
      opt (mark ";")] input p
  | "try" => tryStatement d r input p
  | "with" =>
    node "with_statement" [word w, field "object" (parenthesized r), field "body" (r .statement)] input p
  | "return" => wordStatement r "return_statement" w input p
  | "throw" => wordStatement r "throw_statement" w input p
  | "break" => wordStatement r "break_statement" w input p
  | "continue" => wordStatement r "continue_statement" w input p
  | "debugger" => nodeEndingIn semicolon "debugger_statement" [word w] input p
  | _ =>
    if isLabel input p && w ≠ "case" && w ≠ "default" then
      node "labeled_statement" [field "label" (nameAs "statement_identifier"), mark ":",
        field "body" (r .statement)] input p
    else expressionStatement r input p

/-- A statement or a declaration. -/
def statement (d : Dialect) (r : Goal → Rule) : Rule := fun input p =>
  match input.charAt p with
  | '\x7b' => block r input p
  | ';' => node "empty_statement" [mark ";"] input p
  | '@' => alt [exportStatement d r, classDeclaration d r, expressionStatement r] input p
  | _ =>
    let w := input.wordAt p
    match typedStatement? d r w input p with
    | some rule => rule input p
    | none => plainStatement d r w input p

end PluginAtlas.Script.Grammar
