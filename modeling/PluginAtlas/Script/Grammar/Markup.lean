import PluginAtlas.Script.Grammar.Types

/-!
# Markup in scripts

Elements with attributes and children. Between the tags stands text, in which blanks
count, and expressions in braces.

## Main definitions

* `markupRule`: an element.
-/

namespace PluginAtlas.Script.Grammar

open Rule

/-- The end of a name in markup, which may hold hyphens. -/
def markupNameEnd? (input : Input) (p : Nat) : Option Nat :=
  if isNameStart (input.charAt p) then
    some (input.skipWhile (fun c => isNameChar c || c == '-') p)
  else none

/-- A name in markup as a leaf of a kind. -/
def markupName (kind : String) : Rule := leaf kind markupNameEnd?

/-- A name behind a colon, or the name alone. -/
def spacedName (kind : String) : Rule := fun input p => do
  let stop ← markupNameEnd? input p
  if input.nextChar stop == ':' then
    node "jsx_namespace_name" [markupName "identifier", mark ":", markupName "identifier"] input p
  else markupName kind input p

/-- The members that follow the name of an element. -/
def elementNameTail (input : Input) : Nat → List Tree → Nat → List Tree × Nat
  | 0, base, p => (base, p)
  | fuel + 1, base, p =>
    if input.nextChar p == '.' then
      match extend "member_expression" (base.map (intoField "object"))
          [mark ".", field "property" (nameAs "property_identifier")] input p with
      | some (trees, q) => elementNameTail input fuel trees q
      | none => (base, p)
    else (base, p)

/-- The name of an element. -/
def elementName : Rule := field "name" fun input p => do
  let (base, q) ← spacedName "identifier" input p
  some (elementNameTail input (input.size + 1 - q) base q)

/-- An expression in braces, which may be left out or spread. -/
def bracedExpression (r : Goal → Rule) : Rule :=
  node "jsx_expression" [mark "\x7b",
    opt (alt [node "spread_element" [mark "...", r (.expression 2)], r (.expression 0)]),
    mark "\x7d"]

/-- An attribute of an element. -/
def markupAttribute (r : Goal → Rule) : Rule := field "attribute" (alt [
  bracedExpression r,
  node "jsx_attribute" [spacedName "property_identifier",
    opt (seq [mark "=", alt [textBetween false, bracedExpression r, r .markup]])]])

/-- The children of an element, latest first, up to its closing tag. -/
def children (r : Goal → Rule) (input : Input) : Nat → List Tree → Nat → Option (List Tree × Nat)
  | 0, _, _ => none
  | fuel + 1, done, p =>
    if input.atEnd p then none
    else if input.charAt p == '<' then
      if input.nextChar (p + 1) == '/' then some (done, p)
      else do
        let (trees, q) ← r .markup input p
        children r input fuel (trees.reverse ++ done) q
    else if input.charAt p == '\x7b' then do
      let (trees, q) ← bracedExpression r input p
      children r input fuel (trees.reverse ++ done) q
    else
      let q := input.skipWhile (fun c => c != '<' && c != '\x7b') p
      children r input fuel (input.leaf "jsx_text" true p q :: done) q

/-- The parts of an opening tag before its end. -/
def tagParts (r : Goal → Rule) : List Rule :=
  [mark "<", opt (seq [elementName, opt (typeArguments r), many (markupAttribute r)])]

/-- The closing tag of an element. -/
def closingTag : Rule :=
  node "jsx_closing_element" [alt [mark "</", seq [mark "<", mark "/"]], opt elementName, mark ">"]

/-- An element with children. -/
def pairedElement (r : Goal → Rule) : Rule := fun input p => do
  let (opening, q) ← node "jsx_opening_element" (tagParts r ++ [mark ">"]) input p
  let (inner, s) ← children r input (input.size + 1) [] q
  let (closing, stop) ← closingTag input s
  some ([.node "jsx_element" true (input.offset p) (input.offset stop) none
    (opening.map (intoField "open_tag") ++ (inner.reverse ++ closing.map (intoField "close_tag")))], stop)

/-- An element. -/
def markupRule (r : Goal → Rule) : Rule := fun input p => do
  let (_, q) ← seq (tagParts r) input p
  if input.nextChar q == '/' then
    node "jsx_self_closing_element" (tagParts r ++ [alt [mark "/>", seq [mark "/", mark ">"]]]) input p
  else pairedElement r input p

end PluginAtlas.Script.Grammar
