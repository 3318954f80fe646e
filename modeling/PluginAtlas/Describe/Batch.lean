import PluginAtlas.Describe.Reply
import PluginAtlas.Graph.Assembly

/-!
# Describing a graph in batches

The entities of a graph are described in batches, in their order. Each entity is sent
with its identity, the metadata that says what it does, its first outgoing connections
and its first lines. A batch that fails leaves its entities as they are.

## Main definitions

* `payload`: what is sent about an entity.
* `Describer`: whoever describes batches.
* `batches`: the entities in batches.
* `describe`: the graph with its descriptions.
-/

namespace PluginAtlas.Describe

/-- The metadata that is sent, if it is there and not empty. -/
def payloadKeys : List String := [
  "namespace", "extends", "implements", "hook_name", "http_method", "route", "operation", "key",
  "block_name"]

/-- The most connections that are sent. -/
def maxConnections : Nat := 10

/-- The most lines that are sent. -/
def maxLines : Nat := 10

/-- The outgoing connections of an entity, in the order of the graph. -/
def connections (g : Graph) (id : Ident) : List String :=
  (g.relations.filter fun r => r.source = id).map fun r =>
    r.target.text ++ " (" ++ r.kind.word ++ ")"

/-- What is sent about an entity with some connections. -/
def payload (e : Entity) (connections : List String) : Json :=
  let metadata := payloadKeys.filterMap fun key =>
    (e.metadata.lookup key).bind fun value => if value.isTruthy then some (key, value) else none
  let connected := if connections.isEmpty then [] else
    [("connections", Json.arr ((connections.take maxConnections).map .str))]
  let snippet := match e.sourcePreview with
    | none | some "" => []
    | some lines =>
      [("code_snippet", Json.str (Text.join "\n" ((Text.split '\n' lines).take maxLines)))]
  .obj ([("id", .str e.id.text), ("type", .str e.kind.word), ("label", .str e.label)] ++
    metadata ++ connected ++ snippet)

/-- Describes batches, each by its number and what is sent about its entities; or fails
with a message. -/
abbrev Describer := Nat → List Json → Traced (Except String Descriptions)

/-- The items in consecutive batches; a size of zero counts as one. -/
def batches {α : Type} (size : Nat) : List α → List (List α)
  | [] => []
  | x :: xs => (x :: xs.take (size - 1)) :: batches size (xs.drop (size - 1))
termination_by xs => xs.length
decreasing_by simp only [List.length_drop, List.length_cons]; omega

/-- The size of batches: the stated one unless it is zero or none, and at least one. -/
def batchSize (settings : Settings) (stated : Option Int) : Nat :=
  match stated with
  | none | some 0 => max 1 settings.llmBatchSize.toNat
  | some n => max 1 n.toNat

/-- The description that a reply gives an entity; an empty one is none. -/
def newDescription? (descriptions : Descriptions) (e : Entity) : Option String :=
  match descriptions.lookup e.id.text with
  | none | some "" => none
  | some text => some text

/-- An entity with the description that a reply gives it. -/
def applyTo (descriptions : Descriptions) (e : Entity) : Entity :=
  match newDescription? descriptions e with
  | some text => { e with description := some text }
  | none => e

/-- Entities after a run, how many of them were described, and the entities done after
each batch. -/
structure Progress where
  entities : List Entity := []
  described : Nat := 0
  done : List Nat := []
deriving Inhabited

/-- Describes batches from a number and a starting place on. -/
def describeFrom (ask : Describer) (sent : Entity → Json) :
    Nat → Nat → List (List Entity) → Traced Progress
  | _, _, [] => pure {}
  | number, start, batch :: rest => do
    let descriptions ← match ← ask number (batch.map sent) with
      | .ok descriptions => pure descriptions
      | .error message => do
        Traced.notify (.batchFailed start batch.length message)
        pure []
    let later ← describeFrom ask sent (number + 1) (start + batch.length) rest
    return {
      entities := batch.map (applyTo descriptions) ++ later.entities
      described := batch.countP (fun e => (newDescription? descriptions e).isSome) + later.described
      done := (start + batch.length) :: later.done }

/-- Describes the entities of a graph in batches of a size. -/
def describe (ask : Describer) (size : Nat) (g : Graph) : Traced (Graph × Progress) := do
  let sent (e : Entity) : Json := payload e (connections g e.id)
  let progress ← describeFrom ask sent 0 0 (batches size g.entities)
  return ({ g with entities := progress.entities }, progress)

end PluginAtlas.Describe
