import PluginAtlas.Failure
import PluginAtlas.Script.Item
import PluginAtlas.SourceFile

/-!
# Entities of scripts

Every item that is reported from a script becomes an entity that hangs below the
script's file. Imports and kinds without a meaning add nothing.

## Main definitions

* `itemFindings`: the entity and relation of an item.
* `findings`: those of a whole report.
-/

namespace PluginAtlas.Script

/-- The name of the script's module. -/
def moduleOf (f : SourceFile) : Except Failure String :=
  match moduleName? f.relativePath with
  | some name => .ok name
  | none => .error (.emptyName (Path.parse f.relativePath).render)

/-- The text of a label, if the value is one. -/
def labelOf : Json → Except Failure String
  | .str s => .ok s
  | _ => .error (.notText "label")

/-- The entity of the script's file. -/
def fileEntity (f : SourceFile) : Entity where
  id := f.id
  label := f.baseName
  kind := .file
  file := f.path

/-- An entity below the script's file. -/
def below (f : SourceFile) (entity : Entity) (kind : RelationKind) (label : String) :
    List Finding :=
  [.entity entity, .entity (fileEntity f), .relation (.between f.id kind entity.id label)]

/-- The entity of an item with its own name as label. -/
def labelled (f : SourceFile) (item : Item) (id : Ident) (kind : EntityKind) :
    Except Failure Entity := do
  let label ← labelOf item.name
  return { id, label, kind, file := f.path, line := item.line.line }

/-- The method and route that an HTTP call states. -/
def httpMetadata (item : Item) : List (String × Json) :=
  [("http_method", item.extra "http_method"), ("route", item.extra "route")]

/-- The first value if it counts as present, otherwise the second. -/
def orElse (first second : Json) : Json := if first.isTruthy then first else second

/-- What a call of the site's own interface adds. -/
def apiCallFindings (f : SourceFile) (item : Item) : List Finding :=
  let method := Text.upper (orElse (item.extra "http_method") (.str "GET")).display
  let route := orElse (item.extra "route") item.name
  let entity : Entity :=
    { id := Ident.ofScriptApiCall method route.display, label := method ++ " " ++ route.display
      kind := .jsApiCall, file := f.path, line := item.line.line
      metadata := [("http_method", .str method), ("route", route)] }
  below f entity .jsApiCall "calls"

/-- A subtype that is not empty. -/
def statedSubtype? (item : Item) : Option String :=
  item.subtype.filter (· != "")

/-- What an item adds. -/
def itemFindings (f : SourceFile) (item : Item) : Except Failure (List Finding) := do
  let name := item.name.display
  match item.kind with
  | .block =>
    let e ← labelled f item (Ident.ofBlock name) .block
    return below f { e with metadata := [("block_name", item.name)] } .registersBlock "registers"
  | .hook =>
    let kind := (statedSubtype? item).getD "action"
    let e ← labelled f item (Ident.ofScriptHook kind name) .jsHook
    return below f { e with subtype := kind, metadata := [("hook_name", item.name)] }
      .jsRegistersHook "registers"
  | .apiCall => return apiCallFindings f item
  | .fetchCall =>
    let e ← labelled f item (Ident.ofCallSite "fetch" f.relativePath item.line) .fetchCall
    return below f { e with metadata := httpMetadata item } .calls "calls"
  | .axiosCall =>
    let e ← labelled f item (Ident.ofCallSite "axios" f.relativePath item.line) .axiosCall
    return below f { e with subtype := item.subtype, metadata := httpMetadata item } .calls "calls"
  | .component =>
    let own := if name = "(default export)" then "default" else name
    let e ← labelled f item (Ident.ofComponent (← moduleOf f) own) .reactComponent
    return below f e .defines "defines"
  | .function =>
    let e ← labelled f item (Ident.ofScriptFunction (← moduleOf f) name) .jsFunction
    return below f e .defines "defines"
  | .classKind =>
    let e ← labelled f item (Ident.ofScriptClass (← moduleOf f) name) .jsClass
    return below f { e with metadata := [("extends", item.extra "extends")] } .defines "defines"
  | .reactHook =>
    let e ← labelled f item
      (Ident.ofReactHook ((statedSubtype? item).getD name) f.relativePath item.line) .reactHook
    return below f { e with subtype := item.subtype } .usesHook "uses"
  | .import | .other _ => return []

/-- What a report adds, up to the first item that fails. -/
def findings (f : SourceFile) (items : List Item) : Outcome :=
  Outcome.sequence (items.map fun item => Outcome.attempt (itemFindings f item) .found)

end PluginAtlas.Script
