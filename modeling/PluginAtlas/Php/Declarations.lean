import PluginAtlas.Php.Scope

/-!
# Declared classes

Every class, interface, trait and enumeration with a name is an entity, related to
what it extends and implements. The target of such a relation may be declared in
another file or nowhere.

## Main definitions

* `declarations`: what a node declares.
-/

namespace PluginAtlas.Php

/-- The kind of entity that a node declares. -/
def declaredKind? (kind : String) : Option EntityKind :=
  if kind = "class_declaration" then some .classKind
  else if kind = "interface_declaration" then some .interface
  else if kind = "trait_declaration" then some .trait
  else if kind = "enum_declaration" then some .enum
  else none

/-- The text without leading backslashes. -/
def trimLeadingSeparators (s : String) : String := Text.trimStart (· == '\\') s

/-- A name as a text, where the empty name is none. -/
def namespaceValue (name : String) : Json := if name = "" then .null else .str name

/-- The metadata of a declared class: its namespace, for a class its parent, and for
classes and enumerations what they implement. -/
def classMetadata (s : Scope) (kind : EntityKind) (parents interfaces : List String) :
    List (String × Json) :=
  let own := [("namespace", namespaceValue s.namespaceName)]
  let parent := ("extends", Json.ofText? (parents.head?.map trimLeadingSeparators))
  let contract := ("implements", Json.arr (interfaces.map fun i => .str (trimLeadingSeparators i)))
  match kind with
  | .classKind => own ++ [parent, contract]
  | .enum => own ++ [contract]
  | _ => own

/-- Relations from a class to the classes named in one of its clauses. -/
def classRelations (s : Scope) (source : Ident) (kind : RelationKind) (names : List String) :
    Outcome :=
  Outcome.sequence (names.map fun name =>
    Outcome.attempt (s.classId name) fun target =>
      .found [.relation (.between source kind target kind.word)])

/-- The class that a node declares, with its relations. -/
def declarations (f : SourceFile) (s : Scope) (v : Visit) : Outcome :=
  match declaredKind? v.tree.kind with
  | none => .nothing
  | some kind =>
    let name := Scope.nameOf f v.tree
    if name = "" then .nothing
    else
      Outcome.attempt (s.classId name) fun id =>
        let parents := declaredNames f (v.tree.ofKind? "base_clause")
        let interfaces := declaredNames f (v.tree.ofKind? "class_interface_clause")
        let entity : Entity :=
          { id, label := name, kind, file := f.path, line := f.lineOf v.tree
            metadata := classMetadata s kind parents interfaces
            docblock := f.docblock? v
            sourcePreview := f.previewOf v.tree }
        Outcome.after [.entity entity]
          ((classRelations s id .extends parents).followedBy
            (classRelations s id .implements interfaces))

end PluginAtlas.Php
