import PluginAtlas.Graph.Basic
import PluginAtlas.Timestamp

/-!
# Records read from fields

Entities, relations and plugin heads that come as JSON objects. Identifiers are made
safe as they are read; fields that are not known are ignored.

## Main definitions

* `Entity.ofFields`, `Relation.ofFields`, `PluginInfo.ofFields`: records.
* `Relation.ofWord`: a relation whose kind is given by a word.
-/

namespace PluginAtlas

open Schema

/-- Reads an entity. -/
def Entity.ofFields (fields : List (String × Json)) : Checked Entity :=
  Entity.mk
    <$> Ident.sanitize <$> required fields "id" text
    <*> required fields "label" text
    <*> required fields "type" (oneOf EntityKind.ofWord?)
    <*> optional fields "subtype" none (orNull text)
    <*> optional fields "file" "" text
    <*> optional fields "line" 0 natural
    <*> optional fields "metadata" [] object
    <*> optional fields "docblock" none (orNull text)
    <*> optional fields "description" none (orNull text)
    <*> optional fields "source_preview" none (orNull text)

/-- Reads a relation. -/
def Relation.ofFields (fields : List (String × Json)) : Checked Relation :=
  Relation.mk
    <$> required fields "id" text
    <*> Ident.sanitize <$> required fields "source" text
    <*> Ident.sanitize <$> required fields "target" text
    <*> required fields "type" (oneOf RelationKind.ofWord?)
    <*> optional fields "label" "" text

/-- A value that names no kind of relation. -/
structure UnknownRelation where
  value : Json

/-- The wording for a value that names no kind of relation. -/
def UnknownRelation.message (e : UnknownRelation) : String :=
  e.value.inspect ++ " is not a valid EdgeType"

/-- The relation of the kind that a word names, between two names that are made safe. -/
def Relation.ofWord (source target : String) (kind : Json) (label : String) :
    Except UnknownRelation Relation :=
  match kind.text?.bind RelationKind.ofWord? with
  | some word => .ok (.between (.sanitize source) word (.sanitize target) label)
  | none => .error ⟨kind⟩

/-- Reads the head of a plugin. -/
def PluginInfo.ofFields (fields : List (String × Json)) : Checked PluginInfo :=
  PluginInfo.mk
    <$> required fields "name" text
    <*> optional fields "version" "0.0.0" text
    <*> optional fields "description" "" text
    <*> optional fields "main_file" "" text
    <*> optional fields "total_files" 0 natural
    <*> optional fields "total_entities" 0 natural
    <*> Timestamp.iso <$> required fields "analyzed_at" time
    <*> required fields "analyzer_version" text
    <*> optional fields "host_path" "" text

end PluginAtlas
