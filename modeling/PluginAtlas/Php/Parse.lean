import PluginAtlas.Php.Grammar.Statement

/-!
# Reading PHP files

A file begins with plain text up to the first opening tag; from there on it is code.

## Main definitions

* `parsed`, `parse`: the syntax tree of a file.
* `firstExpression?`: the expression that the first statement of a file consists of.
-/

namespace PluginAtlas.Php

open Rule Grammar

/-- The rules of the grammar. -/
def Grammar.rules (r : Goal → Rule) : Goal → Rule
  | .statement => Grammar.statement r
  | .expression level => Grammar.expression r level
  | .variable => Grammar.variableRule r
  | .type => Grammar.typeRule
  | .member => Grammar.member r

/-- A bound on the depth of the grammar's recursion. -/
def Grammar.depth (input : Input) : Nat := 8 * input.size + 64

/-- The rule for a goal. -/
def Grammar.rule (goal : Goal) : Rule := fun input p =>
  fix Grammar.rules (Grammar.depth input) goal input p

/-- The syntax tree of a file. What cannot be read any more is left out, as an error. -/
def parsed (source : String) : Parsed :=
  let input : Input := { Source.ofText source with lexicon := Grammar.lexicon }
  let tag := input.skipUntil (input.holdsText · "<?") 0
  let text := if 0 < tag then [input.leaf "text" true 0 tag] else []
  let stop := input.offset input.size
  if input.atEnd tag then { root := .node "program" true 0 stop none text }
  else
    let start := openTagEnd input.toSource tag
    let (statements, q) := ((many (Grammar.rule .statement)) input start).getD ([], start)
    let (rest, last) := input.trivia q
    { root := .node "program" true (input.offset (if 0 < tag then 0 else tag)) stop none
        (text ++ input.leaf "php_tag" true tag start :: (statements ++ rest))
      hasErrors := !input.atEnd last }

@[inherit_doc parsed]
def parse (source : String) : Tree := (parsed source).root

/-- The expression that the first statement of a file consists of. -/
def firstExpression? (root : Tree) : Option Tree := do
  let statement ← root.namedChildren.find? fun t => t.kind = "expression_statement"
  statement.namedChildren.head?

end PluginAtlas.Php
