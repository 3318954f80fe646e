import PluginAtlas.Ident
import PluginAtlas.Json.Basic

/-!
# Items reported from scripts

What a script extractor reports about one script: a list of items, each of a kind,
with a name, a line and extras that depend on the kind. An extractor may report kinds
that nobody knows; they are kept by their word and ignored later.

## Main definitions

* `ItemKind`: the kinds and their words.
* `Item`: a reported item.
-/

namespace PluginAtlas.Script

/-- The kinds of items. -/
inductive ItemKind where
  | block | hook | apiCall | fetchCall | axiosCall | component | function | classKind
  | reactHook | import
  /-- A kind that has no meaning here. -/
  | other (word : String)
deriving DecidableEq, Repr

namespace ItemKind

/-- The kinds that have a meaning, with their words. -/
def words : List (ItemKind × String) := [
  (.block, "gutenberg_block"), (.hook, "js_hook"), (.apiCall, "js_api_call"),
  (.fetchCall, "fetch_call"), (.axiosCall, "axios_call"), (.component, "react_component"),
  (.function, "js_function"), (.classKind, "js_class"), (.reactHook, "react_hook"),
  (.import, "js_import")]

/-- The word of a kind. -/
def word : ItemKind → String
  | .other word => word
  | kind => (words.lookup kind).getD ""

/-- The kind that a word names. -/
def ofWord (word : String) : ItemKind :=
  ((words.find? fun (_, w) => w = word).map (·.1)).getD (.other word)

end ItemKind

/-- An item that an extractor reports. -/
structure Item where
  kind : ItemKind
  /-- The name; extractors that are given from outside may use any value. -/
  name : Json
  line : LineMark
  subtype : Option String := none
  extras : List (String × Json) := []

/-- The value of an extra; a missing one is null. -/
def Item.extra (item : Item) (key : String) : Json := (item.extras.lookup key).getD .null

/-- An item as data. -/
def Item.toJson (item : Item) : Json :=
  .obj [
    ("type", .str item.kind.word),
    ("name", item.name),
    ("line", match item.line with
      | .number line => .int line
      | .flag holds => .bool holds),
    ("subtype", .ofText? item.subtype),
    ("meta", .obj item.extras)]

end PluginAtlas.Script
