import PluginAtlas.Failure
import PluginAtlas.SourceFile
import PluginAtlas.Text.Blank
import PluginAtlas.Text.Digit

/-!
# Values in PHP syntax

What a syntax node says statically: the value of a text or number literal, the
arguments of a call, the elements of an array literal, the types of parameters. A node
of another shape says nothing.

## Main definitions

* `stringValue?`, `integerValue`: literals.
* `callArguments`, `functionName?`, `memberName?`: calls.
* `arrayElements`, `arrayLookup?`: array literals.
* `classReference?`, `isMagicConstant`, `isClosure`.
* `renderType`, `parameters`, `returnType?`: declarations.
-/

namespace PluginAtlas.Php

/-! ### Text literals -/

/-- The value of the body of a single-quoted literal: pairs of backslashes are set
aside as NUL, then escaped apostrophes are opened, then the pairs return as single
backslashes. -/
def unescapeSingle (body : String) : String :=
  let nul := String.ofList [Char.ofNat 0]
  Text.substitute nul "\\" (Text.substitute "\\'" "'" (Text.substitute "\\\\" nul body))

/-- The character that an escape in a double-quoted literal stands for. -/
def doubleEscape? : Char → Option Char
  | 'n' => some '\n'
  | 't' => some '\t'
  | 'r' => some '\r'
  | '\\' => some '\\'
  | '"' => some '"'
  | '$' => some '$'
  | '0' => some (Char.ofNat 0)
  | _ => none

/-- Opens the escapes of a double-quoted literal; a backslash before any other
character stands for itself. -/
def unescapeDoubleList : List Char → List Char
  | [] => []
  | [c] => [c]
  | c :: d :: rest =>
    match if c == '\\' then doubleEscape? d else none with
    | some e => e :: unescapeDoubleList rest
    | none => c :: unescapeDoubleList (d :: rest)

/-- The value of the body of a double-quoted literal. -/
def unescapeDouble (body : String) : String :=
  String.ofList (unescapeDoubleList body.toList)

/-- The text between two equal marks, if it stands between them. -/
def between? (mark : Char) (s : String) : Option String :=
  match s.toList with
  | c :: rest =>
    if c == mark && rest.getLast? == some mark then some (String.ofList rest.dropLast) else none
  | [] => none

/-- The text without the mark of a binary literal. -/
def dropBinaryMark (s : String) : String :=
  match s.toList with
  | c :: rest => if c == 'b' || c == 'B' then String.ofList rest else s
  | [] => s

/-- The parts of a double-quoted literal that are plain text. -/
def isLiteralPart (kind : String) : Bool :=
  kind == "string" || kind == "string_content" || kind == "string_value" || kind == "escape_sequence"

/-- The value of a text literal without interpolation, inside any parentheses. -/
def stringValue? (f : SourceFile) (t : Option Tree) : Option String := do
  let t ← (← t).unwrap?
  let text := dropBinaryMark (f.textOf t)
  if t.kind = "string" then
    match between? '\'' text with
    | some body => some (unescapeSingle body)
    | none => (between? '"' text).map unescapeDouble
  else if t.kind = "encapsed_string" then
    if t.namedChildren.any fun child => !isLiteralPart child.kind then none
    else (between? '"' text).map unescapeDouble
  else none

/-! ### Numbers -/

/-- The number that digits write; digits of any script count, characters that only
show a digit do not. -/
def decimalValue (text : String) : Except Failure Nat :=
  let leading := text.toList.takeWhile fun c => (Text.digitValue? c).isSome
  if Json.maxDigits < leading.length then .error (.tooManyDigits leading.length)
  else if leading.length < text.length then .error (.notDecimal text)
  else .ok (leading.foldl (fun n c => n * 10 + (Text.digitValue? c).getD 0) 0)

/-- Whether a text consists of characters that show digits. -/
def isDigits (text : String) : Bool :=
  text != "" && text.toList.all Text.isDigit

/-- The value of a decimal number literal, with a leading minus if it has one. -/
def integerValue (f : SourceFile) (t : Option Tree) : Except Failure (Option Int) :=
  match t.bind Tree.unwrap? with
  | none => .ok none
  | some t =>
    let text := String.ofList ((f.textOf t).toList.filter fun c => c != ' ' && c != '_')
    let signed := if t.kind = "unary_op_expression" then Text.dropStart? "-" text else none
    match signed with
    | some digits =>
      if isDigits digits then (decimalValue digits).map fun n => some (-(n : Int)) else .ok none
    | none =>
      if t.kind = "integer" && isDigits text then (decimalValue text).map fun n => some (n : Int)
      else .ok none

/-! ### Calls -/

/-- The value that an argument of a call passes: what stands last in it, after a name
or a mark. Other nodes in its place pass themselves. -/
def argumentValue? (t : Tree) : Option Tree :=
  if t.isComment then none
  else if t.kind = "argument" then t.parts.getLast?
  else some t

/-- The values passed to a call, in order. -/
def callArguments (call : Tree) : List Tree :=
  match call.byField? "arguments" with
  | none => []
  | some arguments => arguments.namedChildren.filterMap argumentValue?

/-- Whether a node is a name that can be resolved. -/
def isNameKind (kind : String) : Bool := kind == "name" || kind == "qualified_name"

/-- The name of the called function in lower case, without leading backslashes. -/
def functionName? (f : SourceFile) (call : Tree) : Option String := do
  let callee ← call.byField? "function"
  if isNameKind callee.kind then
    some (Text.lower (Text.trimStart (· == '\\') (f.textOf callee)))
  else none

/-- The name of the called method. -/
def memberName? (f : SourceFile) (call : Tree) : Option String := do
  let name ← call.byField? "name"
  if name.kind = "name" then some (f.textOf name) else none

/-! ### Array literals -/

/-- The key, if any, and the value of an element of an array literal. -/
def arrayElement? (t : Tree) : Option (Option Tree × Tree) :=
  if t.kind ≠ "array_element_initializer" then none
  else
    match t.parts with
    | [key, value] => some (some key, value)
    | [value] => some (none, value)
    | _ => none

/-- The elements of an array literal, inside any parentheses. -/
def arrayElements (t : Option Tree) : List (Option Tree × Tree) :=
  match t.bind Tree.unwrap? with
  | some t =>
    if t.kind = "array_creation_expression" then t.namedChildren.filterMap arrayElement? else []
  | none => []

/-- The first value under a text key of an array literal. -/
def arrayLookup? (f : SourceFile) (t : Option Tree) (key : String) : Option Tree :=
  ((arrayElements t).find? fun (k, _) => k.isSome && stringValue? f k == some key).map (·.2)

/-! ### Other expressions -/

/-- The class named by an expression such as `Foo::class`, as it is written. -/
def classReference? (f : SourceFile) (t : Option Tree) : Option String := do
  let t ← (← t).unwrap?
  if t.kind ≠ "class_constant_access_expression" then none
  else
    match t.namedChildren with
    | [scope, constant] =>
      if Text.lower (f.textOf constant) = "class" then some (f.textOf scope) else none
    | _ => none

/-- Whether an expression is a constant of the language, in any letter case. -/
def isMagicConstant (f : SourceFile) (t : Option Tree) (name : String) : Bool :=
  match t.bind Tree.unwrap? with
  | some t => Text.upper (f.textOf t) = name
  | none => false

/-- The kinds of functions without a name. -/
def isClosureKind (kind : String) : Bool :=
  kind == "anonymous_function" || kind == "anonymous_function_creation_expression"
    || kind == "arrow_function"

/-- Whether an expression is a function without a name. -/
def isClosure (t : Option Tree) : Bool :=
  match t.bind Tree.unwrap? with
  | some t => isClosureKind t.kind
  | none => false

/-! ### Declarations -/

mutual

/-- A type as it is written, without the blanks inside. -/
def renderType (f : SourceFile) : Tree → String
  | t@(.node kind _ _ _ _ children) =>
    if kind = "optional_type" then
      match renderFirstType? f children with
      | some inner => "?" ++ inner
      | none => f.textOf t
    else if kind = "union_type" then
      Text.join "|" (renderTypes f children)
    else if kind = "intersection_type" then
      Text.join "&" (renderTypes f children)
    else if kind = "disjunctive_normal_form_type" then
      String.join (Text.words (f.textOf t))
    else f.textOf t

/-- The first named type among children. -/
def renderFirstType? (f : SourceFile) : List Tree → Option String
  | [] => none
  | t :: ts => if t.isNamed then some (renderType f t) else renderFirstType? f ts

/-- The alternatives of a type. -/
def renderTypes (f : SourceFile) : List Tree → List String
  | [] => []
  | t :: ts =>
    let text := if t.isNamed && !t.isComment then renderType f t else ""
    if text = "" then renderTypes f ts else text :: renderTypes f ts

end

/-- The kinds of parameters. -/
def isParameterKind (kind : String) : Bool :=
  kind == "simple_parameter" || kind == "variadic_parameter" || kind == "property_promotion_parameter"

/-- A parameter's name and type. -/
def parameterInfo (f : SourceFile) (t : Tree) : Json :=
  .obj [
    ("name", .str (f.textOf? (t.byField? "name"))),
    ("type", .ofText? ((t.byField? "type").map (renderType f)))]

/-- The parameters of a declaration, in order. -/
def parameters (f : SourceFile) (declaration : Tree) : Json :=
  match declaration.byField? "parameters" with
  | none => .arr []
  | some list =>
    .arr ((list.namedChildren.filter fun t => isParameterKind t.kind).map (parameterInfo f))

/-- The declared type of the result. -/
def returnType? (f : SourceFile) (declaration : Tree) : Option String :=
  (declaration.byField? "return_type").map (renderType f)

/-- The names that a clause of a class declaration lists. -/
def declaredNames (f : SourceFile) (clause : Option Tree) : List String :=
  match clause with
  | none => []
  | some clause => (clause.namedChildren.filter fun t => isNameKind t.kind).map f.textOf

end PluginAtlas.Php
