/-!
# Syntax trees

A concrete syntax tree names the kind of every node, marks the nodes that the grammar
names, and places every node by byte offsets into the source. A node may fill a field
of its parent. No grammar is assumed: any tree can be walked and asked.

## Main definitions

* `Tree` and its accessors.
* `Tree.namedChildren`, `Tree.byField?`, `Tree.ofKind?`: parts of a node.
* `Tree.unwrap?`: the expression inside any number of parentheses.
* `Parsed`: what a parser makes of a text.
-/

namespace PluginAtlas

/-- A node of a syntax tree with its subtrees. -/
inductive Tree where
  | node (kind : String) (named : Bool) (start stop : Nat) (field : Option String)
      (children : List Tree)
deriving Repr, Inhabited

namespace Tree

/-- The kind of a node. -/
def kind : Tree → String
  | node kind .. => kind

/-- Whether the grammar names the node; the others are its fixed words and marks. -/
def isNamed : Tree → Bool
  | node _ named .. => named

/-- The offset of the first byte. -/
def start : Tree → Nat
  | node _ _ start .. => start

/-- The offset after the last byte. -/
def stop : Tree → Nat
  | node _ _ _ stop .. => stop

/-- The field of its parent that the node fills. -/
def field : Tree → Option String
  | node _ _ _ _ field _ => field

/-- All children in order. -/
def children : Tree → List Tree
  | node _ _ _ _ _ children => children

/-- The children that the grammar names. -/
def namedChildren (t : Tree) : List Tree := t.children.filter isNamed

/-- The first child that fills a field. -/
def byField? (t : Tree) (name : String) : Option Tree :=
  t.children.find? fun child => child.field = some name

/-- The first named child of a kind. -/
def ofKind? (t : Tree) (kind : String) : Option Tree :=
  t.namedChildren.find? fun child => child.kind = kind

/-- Whether a node is a comment. -/
def isComment (t : Tree) : Bool := t.kind = "comment"

/-- The named children without the comments. -/
def parts (t : Tree) : List Tree := t.namedChildren.filter (!·.isComment)

mutual

/-- The number of nodes of a tree. -/
def size : Tree → Nat
  | node _ _ _ _ _ children => 1 + sizes children

/-- The number of nodes of several trees. -/
def sizes : List Tree → Nat
  | [] => 0
  | t :: ts => t.size + sizes ts

end

mutual

/-- The first node inside any number of parentheses that is no pair of parentheses;
empty parentheses hold none. A comment that comes first stands for the content. -/
def unwrap? : Tree → Option Tree
  | t@(node kind _ _ _ _ children) =>
    if kind = "parenthesized_expression" then unwrapFirst? children else some t

/-- The content of parentheses with the given children. -/
def unwrapFirst? : List Tree → Option Tree
  | [] => none
  | t :: ts => if t.isNamed then t.unwrap? else unwrapFirst? ts

end

end Tree

/-- What a parser makes of a text. A text with errors has a tree as well. -/
structure Parsed where
  root : Tree
  hasErrors : Bool := false

end PluginAtlas
