import PluginAtlas.Ident
import PluginAtlas.Json.Basic

/-!
# Entities and relations

The records that an analysis produces: an entity of the plugin, a directed relation
between two entities, and the descriptive head of the plugin. Both kinds of record
are typed by a closed list of kinds, each with the word it is written as.

## Main definitions

* `EntityKind`, `RelationKind`: the kinds and their words.
* `Entity`, `Relation`: the records.
* `Relation.between`: a relation whose identifier is made from its ends and its kind.
* `PluginInfo`: the head of an analysed plugin.
-/

namespace PluginAtlas

/-- The kinds of entities found in a plugin. -/
inductive EntityKind where
  | classKind | interface | trait | enum | method | function | file
  | hook | dataSource | restEndpoint | ajaxHandler | shortcode | adminPage | cronJob
  | postType | taxonomy | httpCall | block
  | jsHook | jsApiCall | reactComponent | reactHook | jsFunction | jsClass
  | fetchCall | axiosCall
deriving DecidableEq, Repr, Inhabited

namespace EntityKind

/-- All kinds with the words they are written as. -/
def words : List (EntityKind × String) := [
  (.classKind, "class"), (.interface, "interface"), (.trait, "trait"), (.enum, "enum"),
  (.method, "method"), (.function, "function"), (.file, "file"), (.hook, "hook"),
  (.dataSource, "data_source"), (.restEndpoint, "rest_endpoint"),
  (.ajaxHandler, "ajax_handler"), (.shortcode, "shortcode"), (.adminPage, "admin_page"),
  (.cronJob, "cron_job"), (.postType, "post_type"), (.taxonomy, "taxonomy"),
  (.httpCall, "http_call"), (.block, "gutenberg_block"), (.jsHook, "js_hook"),
  (.jsApiCall, "js_api_call"), (.reactComponent, "react_component"),
  (.reactHook, "react_hook"), (.jsFunction, "js_function"), (.jsClass, "js_class"),
  (.fetchCall, "fetch_call"), (.axiosCall, "axios_call")]

/-- The word of a kind. -/
def word (kind : EntityKind) : String := (words.lookup kind).getD ""

/-- The kind that a word names. -/
def ofWord? (word : String) : Option EntityKind :=
  (words.find? fun (_, w) => w = word).map (·.1)

end EntityKind

/-- The kinds of relations between entities. -/
inductive RelationKind where
  | extends | implements | hasMethod | calls | registersHook | triggersHook | triggersHandler
  | readsData | writesData | includes | rendersBlock | enqueuesScript | registersBlock
  | jsRegistersHook | jsApiCall | defines | usesHook
deriving DecidableEq, Repr, Inhabited

namespace RelationKind

/-- All kinds with the words they are written as. -/
def words : List (RelationKind × String) := [
  (.extends, "extends"), (.implements, "implements"), (.hasMethod, "has_method"),
  (.calls, "calls"), (.registersHook, "registers_hook"), (.triggersHook, "triggers_hook"),
  (.triggersHandler, "triggers_handler"), (.readsData, "reads_data"),
  (.writesData, "writes_data"), (.includes, "includes"), (.rendersBlock, "renders_block"),
  (.enqueuesScript, "enqueues_script"), (.registersBlock, "registers_block"),
  (.jsRegistersHook, "js_registers_hook"), (.jsApiCall, "js_api_call"),
  (.defines, "defines"), (.usesHook, "uses_hook")]

/-- The word of a kind. -/
def word (kind : RelationKind) : String := (words.lookup kind).getD ""

/-- The kind that a word names. -/
def ofWord? (word : String) : Option RelationKind :=
  (words.find? fun (_, w) => w = word).map (·.1)

end RelationKind

/-- An entity of a plugin. -/
structure Entity where
  id : Ident
  label : String
  kind : EntityKind
  /-- A finer classification within the kind. -/
  subtype : Option String := none
  /-- The file that the entity was found in. -/
  file : String := ""
  /-- The line of the entity, counted from one; zero where lines do not apply. -/
  line : Nat := 0
  metadata : List (String × Json) := []
  docblock : Option String := none
  description : Option String := none
  /-- The first lines of the declaration. -/
  sourcePreview : Option String := none
deriving Inhabited

/-- A directed relation between two entities. Its ends may name entities that are
never registered. -/
structure Relation where
  id : String
  source : Ident
  target : Ident
  kind : RelationKind
  label : String := ""
deriving DecidableEq, Inhabited

/-- The relation of a kind between two entities, identified by these three. -/
def Relation.between (source : Ident) (kind : RelationKind) (target : Ident) (label : String) :
    Relation :=
  ⟨"e_" ++ source.text ++ "_" ++ kind.word ++ "_" ++ target.text, source, target, kind, label⟩

/-- The head of an analysed plugin. -/
structure PluginInfo where
  name : String
  version : String := "0.0.0"
  description : String := ""
  mainFile : String := ""
  totalFiles : Nat := 0
  totalEntities : Nat := 0
  /-- The time of the analysis, in ISO form. -/
  analyzedAt : String
  analyzerVersion : String
  hostPath : String := ""
deriving DecidableEq, Inhabited

end PluginAtlas
