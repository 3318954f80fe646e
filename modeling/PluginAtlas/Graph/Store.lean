import PluginAtlas.Graph.Basic

/-!
# The store of an analysis

All extractors write into one store. The first record of an entity stays: a later
record with the same identifier changes nothing. A relation found again keeps its
place and takes the later content. What an extractor finds is a list of findings,
which the store records one after the other; only one of them looks at what is stored.

## Main definitions

* `Store`, `Store.addEntity`, `Store.addRelation`: the store and its two writes.
* `Finding`, `Store.record`: what extractors report, and its effect.
-/

namespace PluginAtlas

/-- The entities and relations found so far, each in the order of its first report. -/
structure Store where
  entities : List Entity := []
  relations : List Relation := []
deriving Inhabited

namespace Store

/-- The store before anything is found. -/
def empty : Store := {}

/-- The entity with an identifier. -/
def find? (s : Store) (id : String) : Option Entity :=
  s.entities.find? fun entity => entity.id.text = id

/-- Whether an entity with an identifier is registered. -/
def has (s : Store) (id : Ident) : Bool :=
  s.entities.any fun entity => entity.id = id

/-- Registers an entity, unless its identifier is taken. -/
def addEntity (s : Store) (entity : Entity) : Store :=
  if s.has entity.id then s else { s with entities := s.entities ++ [entity] }

/-- The relations with one more; a relation with the same identifier is replaced in
its place. -/
def upsert (relation : Relation) : List Relation → List Relation
  | [] => [relation]
  | r :: rest => if r.id = relation.id then relation :: rest else r :: upsert relation rest

/-- Records a relation. -/
def addRelation (s : Store) (relation : Relation) : Store :=
  { s with relations := upsert relation s.relations }

/-- The number of entities. -/
def size (s : Store) : Nat := s.entities.length

end Store

/-- What an extractor reports. -/
inductive Finding where
  | entity (entity : Entity)
  | relation (relation : Relation)
  /-- A relation that is drawn only if its target is registered already. -/
  | relationIfKnown (relation : Relation)
deriving Inhabited

/-- Records a finding. -/
def Store.record (s : Store) : Finding → Store
  | .entity entity => s.addEntity entity
  | .relation relation => s.addRelation relation
  | .relationIfKnown relation =>
    if s.has relation.target then s.addRelation relation else s

/-- Records findings in order. -/
def Store.recordAll (s : Store) (findings : List Finding) : Store :=
  findings.foldl Store.record s

end PluginAtlas
