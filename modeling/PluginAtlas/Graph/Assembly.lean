import PluginAtlas.Graph.Store

/-!
# The assembled graph

The graph of a plugin holds the entities of a store and those of its relations whose
two ends are registered, numbered in their order. Its document lists every metadata
key for every entity.

## Main definitions

* `Graph`, `Graph.assemble`: the graph of a store.
* `Entity.exportedMetadata`: the metadata of the document.
* `Graph.document`: the document, as a JSON value.
-/

namespace PluginAtlas

/-- The graph of a plugin. -/
structure Graph where
  entities : List Entity
  relations : List Relation
  plugin : PluginInfo
deriving Inhabited

/-- Numbers relations from a number on. -/
def renumber : Nat → List Relation → List Relation
  | _, [] => []
  | n, r :: rest => { r with id := "e_" ++ Text.ofNat n } :: renumber (n + 1) rest

/-- The graph of a store: relations with an unregistered end are dropped, and the
others are numbered. -/
def Graph.assemble (s : Store) (plugin : PluginInfo) : Graph where
  entities := s.entities
  relations := renumber 0 (s.relations.filter fun r => s.has r.source && s.has r.target)
  plugin := plugin

/-- The metadata keys that every exported entity has, in their order. -/
def metadataKeys : List String := [
  "namespace", "extends", "implements", "visibility", "params", "return_type", "priority",
  "hook_name", "http_method", "route", "operation", "key", "block_name", "block_category",
  "block_attributes", "render_template", "js_assets"]

/-- The metadata of an entity in the document: the common keys first, null where unset,
then the other keys as they are stored. -/
def Entity.exportedMetadata (e : Entity) : List (String × Json) :=
  e.metadata.foldl (fun fields (key, value) => Json.insertField key value fields)
    (metadataKeys.map fun key => (key, .null))

/-- An entity with the given metadata, as a JSON object. -/
def Entity.toJson (e : Entity) (metadata : List (String × Json)) : Json :=
  .obj [
    ("id", .str e.id.text), ("label", .str e.label), ("type", .str e.kind.word),
    ("subtype", .ofText? e.subtype), ("file", .str e.file), ("line", .int e.line),
    ("metadata", .obj metadata), ("docblock", .ofText? e.docblock),
    ("description", .ofText? e.description), ("source_preview", .ofText? e.sourcePreview)]

/-- A relation as a JSON object. -/
def Relation.toJson (r : Relation) : Json :=
  .obj [
    ("id", .str r.id), ("source", .str r.source.text), ("target", .str r.target.text),
    ("type", .str r.kind.word), ("label", .str r.label)]

/-- The head of a plugin as a JSON object. -/
def PluginInfo.toJson (p : PluginInfo) : Json :=
  .obj [
    ("name", .str p.name), ("version", .str p.version), ("description", .str p.description),
    ("main_file", .str p.mainFile), ("total_files", .int p.totalFiles),
    ("total_entities", .int p.totalEntities), ("analyzed_at", .str p.analyzedAt),
    ("analyzer_version", .str p.analyzerVersion), ("host_path", .str p.hostPath)]

/-- The document of a graph. -/
def Graph.document (g : Graph) : Json :=
  .obj [
    ("plugin", g.plugin.toJson),
    ("nodes", .arr (g.entities.map fun e => .obj [("data", e.toJson e.exportedMetadata)])),
    ("edges", .arr (g.relations.map fun r => .obj [("data", r.toJson)]))]

end PluginAtlas
