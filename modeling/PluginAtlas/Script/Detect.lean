import PluginAtlas.Script.Item
import PluginAtlas.SourceFile
import PluginAtlas.Text.Letter

/-!
# Detection of items in scripts

A script's tree is entered node by node in the order of the source, and each node
reports the items that its shape shows: components, functions and classes,
registrations of blocks and hooks, calls of the site's interface, other HTTP calls,
uses of component hooks, and imports of packages.

## Main definitions

* `dottedName?`, `stringValue?`, `objectProperty?`: what nodes say statically.
* `returnsMarkup`: whether a function is a component.
* `itemsAt`, `detect`: the items of a node and of a tree.
-/

namespace PluginAtlas.Script

/-! ### What nodes say -/

mutual

/-- The name of an identifier, or of members joined by dots. Behind an object without
a name only the member's own name is left. -/
def dottedName? (f : SourceFile) : Tree → Option String
  | t@(.node kind _ _ _ _ children) =>
    if kind = "identifier" || kind = "property_identifier" || kind = "type_identifier" then
      some (f.textOf t)
    else if kind = "member_expression" then
      (t.byField? "property").map fun property =>
        let own := f.textOf property
        match dottedNameOfObject? f children with
        | none | some "" => own
        | some object => object ++ "." ++ own
    else none

/-- The name of the object among the children of a member. -/
def dottedNameOfObject? (f : SourceFile) : List Tree → Option String
  | [] => none
  | t :: ts => if t.field = some "object" then dottedName? f t else dottedNameOfObject? f ts

end

/-- The text without its first and its last character. -/
def dropEnds (s : String) : String := String.ofList s.toList.tail.dropLast

/-- The text between the quotes of a literal, or of a template without substitutions. -/
def stringValue? (f : SourceFile) (t : Option Tree) : Option String := do
  let t ← (← t).unwrap?
  if t.kind = "string" then some (dropEnds (f.textOf t))
  else if t.kind = "template_string" then
    if t.namedChildren.any fun child => child.kind = "template_substitution" then none
    else some (dropEnds (f.textOf t))
  else none

/-- A literal that is not empty. -/
def literal? (f : SourceFile) (t : Option Tree) : Option String :=
  match stringValue? f t with
  | none | some "" => none
  | some text => some text

/-- The name that a key of an object literal gives. -/
def keyName? (f : SourceFile) (key : Tree) : Option String :=
  if key.kind = "string" then stringValue? f key else some (f.textOf key)

/-- Whether a node is an entry of an object literal under a key. -/
def isEntryFor (f : SourceFile) (key : String) (t : Tree) : Bool :=
  t.kind = "pair" && ((t.byField? "key").bind (keyName? f)) == some key

/-- The value under a key of an object literal. -/
def objectProperty? (f : SourceFile) (t : Option Tree) (key : String) : Option Tree := do
  let t ← (← t).unwrap?
  if t.kind = "object" then
    let entry ← t.namedChildren.find? (isEntryFor f key)
    entry.byField? "value"
  else none

/-- The arguments of a call. -/
def callArguments (call : Tree) : List Tree :=
  match call.byField? "arguments" with
  | none => []
  | some arguments => arguments.parts

/-- Whether a kind of node is markup. -/
def isMarkup (kind : String) : Bool :=
  kind == "jsx_element" || kind == "jsx_self_closing_element" || kind == "jsx_fragment"

/-- Whether a kind of node is a function as a value. -/
def isFunctionValue (kind : String) : Bool :=
  kind == "arrow_function" || kind == "function_expression" || kind == "function"
    || kind == "generator_function"

/-- Whether a statement returns markup or a choice. -/
def returnsMarkupStatement (t : Tree) : Bool :=
  t.kind = "return_statement" &&
    match t.parts.head?.bind Tree.unwrap? with
    | some value => isMarkup value.kind || value.kind = "ternary_expression"
    | none => false

/-- Whether a function returns markup: as the value of its expression, or by a return
statement of its block. -/
def returnsMarkup (function : Tree) : Bool :=
  match function.byField? "body" with
  | none => false
  | some body =>
    if body.kind = "statement_block" then body.namedChildren.any returnsMarkupStatement
    else
      match body.unwrap? with
      | some value => isMarkup value.kind
      | none => false

/-- The class that the clauses of a heritage extend; `none` if none of them says. -/
def heritageClass? (f : SourceFile) : List Tree → Option (Option String)
  | [] => none
  | clause :: rest =>
    if clause.kind = "extends_clause" then
      let value := clause.byField? "value" <|> clause.namedChildren.head?
      some (value.bind (dottedName? f))
    else if clause.kind = "implements_clause" then heritageClass? f rest
    else some (dottedName? f clause)

/-- The name of the class that a class extends. -/
def superclass? (f : SourceFile) (t : Tree) : Option String :=
  let heritages := t.namedChildren.filter fun child => child.kind = "class_heritage"
  (heritages.findSome? fun heritage => heritageClass? f heritage.namedChildren).join

/-! ### Declarations -/

/-- The name of a declaration. -/
def nameOf (f : SourceFile) (t : Tree) : String := f.textOf? (t.byField? "name")

/-- The item of a declared function. -/
def functionItems (f : SourceFile) (t : Tree) : List Item :=
  let name := nameOf f t
  if name = "" then []
  else
    [{ kind := if returnsMarkup t then .component else .function, name := .str name
       line := f.lineOf t }]

/-- The item of a declared class. -/
def classItems (f : SourceFile) (t : Tree) : List Item :=
  let name := nameOf f t
  if name = "" then []
  else
    [{ kind := .classKind, name := .str name, line := f.lineOf t
       extras := [("extends", .ofText? (superclass? f t))] }]

/-- The item of a variable that holds a component. -/
def declaratorItem? (f : SourceFile) (t : Tree) : Option Item := do
  if t.kind ≠ "variable_declarator" then none
  else
    let name ← t.byField? "name"
    let value ← (← t.byField? "value").unwrap?
    if name.kind = "identifier" && isFunctionValue value.kind && returnsMarkup value then
      some { kind := .component, name := .str (f.textOf name), line := f.lineOf t }
    else none

/-- The name of a component that is exported by default without a name. -/
def defaultExportName : String := "(default export)"

/-- The item of a component without a name that is exported by default. -/
def defaultExportItem? (f : SourceFile) (t : Tree) : Option Item := do
  if t.children.any fun child => !child.isNamed && child.kind = "default" then
    let value ← (← t.byField? "value" <|> t.byField? "declaration").unwrap?
    if isFunctionValue value.kind && (value.byField? "name").isNone && returnsMarkup value then
      some { kind := .component, name := .str defaultExportName, line := f.lineOf t }
    else none
  else none

/-! ### Imports -/

/-- The endings of imported files that are no packages. -/
def assetEndings : List String := [
  ".css", ".scss", ".sass", ".less", ".svg", ".png", ".jpg", ".jpeg", ".gif", ".webp", ".json"]

/-- The text without a line feed at its very end. -/
def dropFinalNewline (s : String) : String :=
  if Text.endsWith "\n" s then String.ofList s.toList.dropLast else s

/-- Whether an import names a file by its ending. -/
def isAsset (name : String) : Bool :=
  assetEndings.any fun ending => Text.endsWith ending (dropFinalNewline name)

/-- The item of an imported package. -/
def importItem? (f : SourceFile) (t : Tree) : Option Item := do
  let name ← literal? f (t.byField? "source")
  if Text.startsWith "." name || Text.startsWith "/" name || isAsset name then none
  else
    some { kind := .import, name := .str name, line := f.lineOf t
           extras := [("source", .str name)] }

/-! ### Calls -/

/-- Whether a call registers a block. -/
def isBlockRegistration (name : String) : Bool :=
  name == "registerBlockType" || name == "wp.blocks.registerBlockType"

/-- The kind of hook that a call registers. -/
def hookRegistration? (name : String) : Option String :=
  if name = "addAction" || name = "wp.hooks.addAction" then some "action"
  else if name = "addFilter" || name = "wp.hooks.addFilter" then some "filter"
  else none

/-- Whether a call is one of the site's own interface. -/
def isApiFetch (name : String) : Bool := name == "apiFetch" || name == "wp.apiFetch"

/-- The methods of the HTTP client. -/
def clientVerbs : List String := ["get", "post", "put", "delete", "patch", "request", "head"]

/-- The method of the HTTP client that a call names, as written. -/
def clientVerb? (name : String) : Option String := do
  let (client, verb) := Text.cut "." name
  let verb ← verb
  if Text.isWord "axios" client && clientVerbs.any fun v => Text.isWord v (dropFinalNewline verb) then
    some verb
  else none

/-- The HTTP method that options state, in upper case. -/
def statedMethod (f : SourceFile) (options : Option Tree) : String :=
  Text.upper ((literal? f (objectProperty? f options "method")).getD "GET")

/-- The item of an HTTP call. -/
def httpItem (kind : ItemKind) (method : String) (url : Option String) (line : Nat)
    (subtype : Option String) : Item where
  kind := kind
  name := .str (method ++ " " ++ match url with
    | none | some "" => "(dynamic)"
    | some url => url)
  line := line
  subtype := subtype
  extras := [("http_method", .str method), ("route", .ofText? url)]

/-- The component hooks that every program has. -/
def builtinHooks : List String := [
  "useState", "useEffect", "useContext", "useReducer", "useRef", "useMemo", "useCallback",
  "useLayoutEffect"]

/-- Whether a name follows the naming of component hooks. -/
def isCustomHook (name : String) : Bool :=
  match Text.dropStart? "use" name with
  | some rest => (rest.toList.head?.map Char.isUpper).getD false
  | none => false

/-- The item of the use of a component hook. -/
def reactHookItem? (f : SourceFile) (name : String) (first : Option Tree) (line : Nat) :
    Option Item :=
  let hook := Text.lastSegment '.' name
  if hook = "useContext" then
    let context := match first.bind (dottedName? f) with
      | none | some "" => (literal? f first).getD "unknown"
      | some context => context
    some { kind := .reactHook, name := .str ("useContext(" ++ context ++ ")"), line
           subtype := hook }
  else if hook ∈ builtinHooks then
    some { kind := .reactHook, name := .str hook, line, subtype := hook }
  else if isCustomHook hook then
    some { kind := .reactHook, name := .str hook, line, subtype := "custom" }
  else none

/-- The item of a call under a name. -/
def namedCallItem? (f : SourceFile) (name : String) (arguments : List Tree) (line : Nat) :
    Option Item :=
  let first := arguments[0]?
  if isBlockRegistration name then
    (literal? f first).map fun block =>
      { kind := .block, name := .str block, line, extras := [("block_name", .str block)] }
  else
    match hookRegistration? name with
    | some kind =>
      (literal? f first).map fun hook =>
        { kind := .hook, name := .str hook, line, subtype := kind
          extras := [("hook_name", .str hook)] }
    | none =>
      if isApiFetch name then
        let method := statedMethod f first
        (literal? f (objectProperty? f first "path")).map fun path =>
          { kind := .apiCall, name := .str (method ++ " " ++ path), line
            extras := [("http_method", .str method), ("route", .str path)] }
      else if name = "fetch" then
        some (httpItem .fetchCall (statedMethod f arguments[1]?) (stringValue? f first) line none)
      else
        match clientVerb? name with
        | some verb =>
          let method := Text.upper verb
          some (httpItem .axiosCall method (stringValue? f first) line (Text.lower method))
        | none =>
          if name = "axios" then
            let method := statedMethod f first
            some (httpItem .axiosCall method (stringValue? f (objectProperty? f first "url")) line
              (Text.lower method))
          else reactHookItem? f name first line

/-- The item of a call. -/
def callItem? (f : SourceFile) (t : Tree) : Option Item := do
  let name ← dottedName? f (← t.byField? "function")
  if name = "" then none else namedCallItem? f name (callArguments t) (f.lineOf t)

/-! ### Trees -/

/-- The items that a node shows by itself. -/
def itemsAt (f : SourceFile) (t : Tree) : List Item :=
  let kind := t.kind
  if kind = "function_declaration" || kind = "generator_function_declaration" then
    functionItems f t
  else if kind = "class_declaration" || kind = "abstract_class_declaration" then classItems f t
  else if kind = "lexical_declaration" || kind = "variable_declaration" then
    t.namedChildren.filterMap (declaratorItem? f)
  else if kind = "call_expression" then (callItem? f t).toList
  else if kind = "import_statement" then (importItem? f t).toList
  else if kind = "export_statement" then (defaultExportItem? f t).toList
  else []

/-- The items of a tree in the order of the source. -/
def detect (f : SourceFile) (root : Tree) : List Item :=
  (Walk.foldNodes (fun found t => (itemsAt f t).reverse ++ found) [] [root]).reverse

end PluginAtlas.Script
