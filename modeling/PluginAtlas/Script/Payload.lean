import PluginAtlas.Json.Reader
import PluginAtlas.Script.Item
import PluginAtlas.Text.Blank

/-!
# The output of an extractor

An extractor program prints its items as a JSON array on one line. The last line that
is an array counts; the lines before it are diagnostics, and blank lines are nothing.

## Main definitions

* `Payload`, `Payload.ofOutput`: the array and the diagnostics of an output.
* `Item.ofJson?`: the item that an object describes.
-/

namespace PluginAtlas.Script

/-- What an extractor printed. -/
structure Payload where
  /-- The items, if any line holds them. -/
  items : Option (List Json)
  diagnostics : List String
deriving Inhabited

namespace Payload

/-- The lines of an output without white space around them, blank lines left out. -/
def contentLines (output : String) : List String :=
  ((Text.lines output).map Text.strip).filter (· != "")

/-- The first line that is an array, of lines that come last first, with the lines
after it in their order. A number with too many digits ends the search. -/
def search : List String → Except Json.ParseError (Option (List Json × List String))
  | [] => .ok none
  | line :: before =>
    if Text.startsWith "[" line then
      match Json.parse line with
      | .ok (.arr items) => .ok (some (items, before.reverse))
      | .ok _ => search before
      | .error e => if e.isMalformed then search before else .error e
    else search before

/-- Reads an output. -/
def ofOutput (output : String) : Except Json.ParseError Payload := do
  let lines := contentLines output
  match ← search lines.reverse with
  | some (items, before) => return ⟨some items, before⟩
  | none => return ⟨none, lines⟩

end Payload

/-- The item that a value describes: an object whose kind and name are texts. Other
parts that are not of their type count as absent. -/
def Item.ofJson? : Json → Option Item
  | .obj fields =>
    match fields.lookup "type", fields.lookup "name" with
    | some (.str kind), some (.str name) => some {
        kind := .ofWord kind
        name := .str name
        line := match fields.lookup "line" with
          | some (.int n) => .number n
          | some (.bool b) => .flag b
          | _ => .number 0
        subtype := match fields.lookup "subtype" with
          | some (.str s) => some s
          | _ => none
        extras := match fields.lookup "meta" with
          | some (.obj extras) => extras
          | _ => [] }
    | _, _ => none
  | _ => none

end PluginAtlas.Script
