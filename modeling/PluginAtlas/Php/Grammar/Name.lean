import PluginAtlas.Php.Grammar.Lexicon

/-!
# Names and types in PHP

## Main definitions

* `name`, `classRef`, `namespaceName`: names with and without segments.
* `typeRule`: types as they are written in declarations.
-/

namespace PluginAtlas.Php.Grammar

open Rule

/-- The goals of the grammar. -/
inductive Goal where
  | statement
  /-- An expression of operators that bind at least as tightly as a level. -/
  | expression (level : Nat)
  | variable
  | type
  | member

/-- The end of the name at a position. -/
def nameEnd? (input : Input) (p : Nat) : Option Nat :=
  if isNameStart (input.charAt p) then some (input.wordEnd p) else none

/-- A name without segments. -/
def name : Rule := leaf "name" nameEnd?

/-- A name whose segments are divided by backslashes. -/
def namespaceName : Rule := node "namespace_name" [sepBy1 (mark "\\") name]

/-- The start of the last segment of the name at a position. -/
def lastSegmentFrom (input : Input) : Nat → Nat → Nat
  | 0, p => p
  | fuel + 1, p =>
    let q := input.wordEnd p
    if input.charAt q == '\\' && isNameStart (input.charAt (q + 1)) then
      lastSegmentFrom input fuel (q + 1)
    else p

/-- A name with segments: after a leading backslash, relative to the namespace, or of
at least two segments. -/
def segmentedName : Rule := fun input p =>
  let start := if input.charAt p == '\\' then p + 1 else p
  let last := lastSegmentFrom input (input.size + 1) start
  if !isNameStart (input.charAt start) || last = p then none
  else
    let lead := if start = p then [] else [input.leaf "\\" false p start]
    let stop := input.wordEnd last
    let final := input.leaf "name" true last stop
    let kind := if start = p && input.wordAt p = "namespace" then "relative_name"
      else "qualified_name"
    let between := if last = start then []
      else [input.leaf "namespace_name" true start (last - 1), input.leaf "\\" false (last - 1) last]
    some ([.node kind true (input.offset p) (input.offset stop) none
      ((lead ++ between).map (intoField "prefix") ++ [final])], stop)

/-- A name of a class, a function or a constant. -/
def classRef : Rule := alt [segmentedName, name]

/-! ### Types -/

/-- The types that the language itself names. -/
def primitiveTypes : List String := [
  "array", "callable", "iterable", "bool", "float", "int", "string", "void", "mixed", "false",
  "null", "true", "object"]

/-- A type without operators. -/
def simpleType : Rule := fun input p =>
  let w := input.wordAt p
  if w ∈ primitiveTypes && input.charAt (input.wordEnd p) != '\\' then
    node "primitive_type" [word w] input p
  else if w = "never" then node "bottom_type" [word w] input p
  else node "named_type" [classRef] input p

/-- The mark of an intersection, and not of a reference. -/
def intersectionMark : Rule :=
  when (fun input p =>
    let c := input.nextChar (p + 1)
    isNameStart c || c == '\\') (mark "&")

/-- Several types joined by a mark, or a single one. -/
def joined (kind : String) (operator single : Rule) : Rule := fun input p => do
  let (first, q) ← single input p
  match seq [operator, sepBy1 operator single] input q with
  | some _ => extend kind first [operator, sepBy1 operator single] input q
  | none => some (first, q)

/-- A type in parentheses. -/
def groupedType : Rule :=
  seq [mark "(", joined "intersection_type" intersectionMark simpleType, mark ")"]

/-- A type as it is written in a declaration. -/
def typeRule : Rule := fun input p =>
  if input.charAt p == '?' then node "optional_type" [mark "?", simpleType] input p
  else
    let part := alt [groupedType, joined "intersection_type" intersectionMark simpleType]
    match node "disjunctive_normal_form_type" [sepBy1 (mark "|") part] input p with
    | some ([.node kind named start stop field children], q) =>
      let parts := children.filter Tree.isNamed
      if children.any fun t => t.kind = "(" then
        some ([.node kind named start stop field children], q)
      else if parts.length = 1 then some (children, q)
      else some ([.node "union_type" named start stop field children], q)
    | other => other

/-- The type of a result. -/
def returnType : Rule := seq [mark ":", field "return_type" typeRule]

end PluginAtlas.Php.Grammar
