import PluginAtlas.Path
import PluginAtlas.Script.Grammar.Statement
import PluginAtlas.Text.Casing

/-!
# Reading scripts

The dialect follows from the suffix of a script: types can be written in `.ts` and
`.tsx` files, and markup everywhere but in `.ts` files. Any other suffix stands for
plain JavaScript.

## Main definitions

* `Dialect.ofPath`: the dialect of a script.
* `Parser`: a way to parse scripts of every dialect.
* `parsed`, `parse`: the syntax tree of a script.
-/

namespace PluginAtlas.Script

open Rule Grammar

/-- The dialect of a script, by its suffix. -/
def Grammar.Dialect.ofPath (path : String) : Dialect :=
  let suffix := Text.lower (Path.parse path).suffix
  ⟨suffix = ".ts" || suffix = ".tsx", suffix ≠ ".ts"⟩

/-- The rules of the grammar. -/
def Grammar.rules (d : Dialect) (r : Goal → Rule) : Goal → Rule
  | .statement => Grammar.statement d r
  | .expression level => Grammar.expression d r level
  | .pattern => Grammar.pattern r
  | .type => Grammar.typeRule r
  | .markup => Grammar.markupRule r

/-- A bound on the depth of the grammar's recursion. -/
def Grammar.depth (input : Input) : Nat := 8 * input.size + 64

/-- The rule for a goal. -/
def Grammar.rule (d : Dialect) (goal : Goal) : Rule := fun input p =>
  fix (Grammar.rules d) (Grammar.depth input) goal input p

/-- The line with which a script that can be run by itself begins. -/
def hashBang (input : Input) : List Tree × Nat :=
  if input.holdsText 0 "#!" then
    let stop := input.skipWhile (· != '\n') 0
    ([input.leaf "hash_bang_line" true 0 stop], stop)
  else ([], 0)

/-- A way to parse scripts of every dialect. -/
abbrev Parser := Dialect → String → Parsed

/-- The syntax tree of a script. What cannot be read any more is left out, as an error. -/
def parsed : Parser := fun d source =>
  let input : Input := { Source.ofText source with lexicon := Grammar.lexicon }
  let (bang, start) := hashBang input
  let (statements, q) := ((many (Grammar.rule d .statement)) input start).getD ([], start)
  let (rest, last) := input.trivia q
  let first := if bang.isEmpty then input.offset (input.skipWhile isSpace 0) else 0
  { root := .node "program" true first (input.offset input.size) none (bang ++ (statements ++ rest))
    hasErrors := !input.atEnd last }

@[inherit_doc parsed]
def parse (d : Dialect) (source : String) : Tree := (parsed d source).root

end PluginAtlas.Script
