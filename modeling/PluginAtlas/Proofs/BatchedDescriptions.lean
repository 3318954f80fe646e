import PluginAtlas.Describe.Batch
import Mathlib.Data.List.Basic

/-!
# Descriptions in batches

The entities of a graph are sent to be described in consecutive batches, and whoever
describes them may answer with any texts for any identifiers, or fail, batch by batch. The
batches are told here by arithmetic: the batch of a number begins at that many times the
size. Each entity lies in the one batch that its place belongs to, and only the reply to
that batch can change it, in nothing but its description.

## Main definitions

* `batchCount`, `batchAt`: the number of batches, and the batch of a number.
* `replyTexts`, `replyWarnings`: what a reply gives, and what it warns of.
* `replyAt`: the reply to the batch of a number.

## Main results

* `flatMap_batchAt`: the batches in a row are the items.
* `describeFrom_cons`: what one batch does.
* `describeFrom_entities`, `describeFrom_described`, `describeFrom_done`,
  `describeFrom_notices`, `describeFrom_calls`: what a run over all batches does.
* `describe_in_batches`: a graph described in batches.
-/

namespace PluginAtlas.Describe

/-! ### Batches by their numbers -/

/-- The number of batches of a size that a number of items takes. -/
def batchCount (size total : Nat) : Nat := (total + size - 1) / size

section Batches

variable {α : Type} {size : Nat}

/-- The batch of a number, counted from zero. -/
def batchAt (size : Nat) (items : List α) (number : Nat) : List α :=
  (items.drop (number * size)).take size

theorem batches_of_ne_nil (hsize : 0 < size) {items : List α} (hne : items ≠ []) :
    batches size items = items.take size :: batches size (items.drop size) := by
  obtain ⟨size, rfl⟩ := Nat.exists_eq_add_one.mpr hsize
  obtain ⟨x, xs, rfl⟩ := List.exists_cons_of_ne_nil hne
  rw [batches]
  simp

/-- Items are dealt with batch by batch: what holds of no items, and of items if it holds of
those behind their first batch, holds of all. -/
theorem batch_induction (hsize : 0 < size) {motive : List α → Prop} (nil : motive [])
    (batch : ∀ items, items ≠ [] → motive (items.drop size) → motive items) :
    ∀ items, motive items := by
  intro items
  induction hlen : items.length using Nat.strongRecOn generalizing items with
  | ind n ih =>
    by_cases hne : items = []
    · rwa [hne]
    · refine batch items hne (ih _ ?_ _ rfl)
      have hpos := List.length_pos_iff.mpr hne
      rw [List.length_drop]
      omega

theorem batchCount_zero (hsize : 0 < size) : batchCount size 0 = 0 := by
  rw [batchCount]
  exact Nat.div_eq_of_lt (by omega)

/-- The first batch is one of the batches, and the others are those of what it leaves. -/
theorem batchCount_of_pos (hsize : 0 < size) {total : Nat} (htotal : 0 < total) :
    batchCount size total = batchCount size (total - size) + 1 := by
  have hstep : total + size - 1 = total - 1 + size := by omega
  rw [batchCount, batchCount, hstep, Nat.add_div_right _ hsize]
  rcases Nat.lt_or_ge total (size + 1) with hsmall | hlarge
  · -- What is left is nothing, and both quotients are zero.
    rw [Nat.div_eq_of_lt (by omega), Nat.div_eq_of_lt (by omega)]
  · congr 2
    omega

theorem batchAt_zero (items : List α) : batchAt size items 0 = items.take size := by
  simp [batchAt]

theorem batchAt_succ (items : List α) (number : Nat) :
    batchAt size items (number + 1) = batchAt size (items.drop size) number := by
  rw [batchAt, batchAt, List.drop_drop, Nat.succ_mul, Nat.add_comm]

/-- The numbers of the batches, the first apart from those of what it leaves. -/
theorem range_batchCount (hsize : 0 < size) {items : List α} (hne : items ≠ []) :
    List.range (batchCount size items.length) =
      0 :: (List.range (batchCount size (items.drop size).length)).map (· + 1) := by
  rw [batchCount_of_pos hsize (List.length_pos_iff.mpr hne), List.length_drop,
    List.range_succ_eq_map]

/-- Every item lies in one batch, in order. -/
theorem flatMap_batchAt (hsize : 0 < size) (items : List α) :
    (List.range (batchCount size items.length)).flatMap (batchAt size items) = items := by
  induction items using batch_induction hsize with
  | nil => simp [batchCount_zero hsize]
  | batch items hne ih =>
    rw [range_batchCount hsize hne, List.flatMap_cons, batchAt_zero, List.flatMap_map]
    simp only [batchAt_succ]
    rw [ih, List.take_append_drop]

/-- A batch of the count begins before the items end. -/
theorem mul_lt_of_lt_batchCount (hsize : 0 < size) {number total : Nat}
    (h : number < batchCount size total) : number * size < total := by
  have hle := (Nat.le_div_iff_mul_le hsize).mp h
  rw [Nat.succ_mul] at hle
  omega

theorem length_batchAt (items : List α) (number : Nat) :
    (batchAt size items number).length = min size (items.length - number * size) := by
  rw [batchAt, List.length_take, List.length_drop]

/-- Items that are treated by the number of their batch can be treated batch by batch. -/
theorem mapIdx_batches {β : Type} (hsize : 0 < size) (items : List α) (treat : Nat → α → β) :
    items.mapIdx (fun place => treat (place / size)) =
      (items.take size).map (treat 0) ++
        (items.drop size).mapIdx fun place => treat (place / size + 1) := by
  apply List.ext_getElem?
  intro place
  rw [List.getElem?_mapIdx, List.getElem?_append, List.length_map, List.length_take]
  rcases Nat.lt_or_ge place items.length with hplace | hbeyond
  · rcases Nat.lt_or_ge place size with hfirst | hlater
    · rw [if_pos (by omega), List.getElem?_map, List.getElem?_take_of_lt hfirst,
        Nat.div_eq_of_lt hfirst]
    · obtain ⟨later, rfl⟩ := Nat.exists_eq_add_of_le hlater
      have hmin : min size items.length = size := by omega
      rw [if_neg (by omega), List.getElem?_mapIdx, List.getElem?_drop, hmin,
        Nat.add_sub_cancel_left, Nat.add_div_left _ hsize]
  · -- Both lists have ended.
    rw [if_neg (by omega), List.getElem?_mapIdx, List.getElem?_eq_none hbeyond,
      List.getElem?_eq_none (by rw [List.length_drop]; omega)]
    rfl

end Batches

/-! ### Replies -/

/-- The texts that a reply gives; a failed one gives none. -/
def replyTexts (reply : Traced (Except String Descriptions)) : Descriptions :=
  match reply.value with
  | .ok texts => texts
  | .error _ => []

/-- What a reply warns of: its own warnings, and its failure if it fails. -/
def replyWarnings (start length : Nat) (reply : Traced (Except String Descriptions)) :
    List Notice :=
  reply.notices ++ match reply.value with
    | .ok _ => []
    | .error message => [.batchFailed start length message]

/-- What one batch does. The entities of the batch take the texts of the reply to it. -/
theorem describeFrom_cons (ask : Describer) (sent : Entity → Json) (number start : Nat)
    (batch : List Entity) (rest : List (List Entity)) :
    describeFrom ask sent number start (batch :: rest) =
      let reply := ask number (batch.map sent)
      let later := describeFrom ask sent (number + 1) (start + batch.length) rest
      { value :=
          { entities := batch.map (applyTo (replyTexts reply)) ++ later.value.entities
            described := batch.countP (fun e => (newDescription? (replyTexts reply) e).isSome) +
              later.value.described
            done := (start + batch.length) :: later.value.done }
        notices := replyWarnings start batch.length reply ++ later.notices
        calls := reply.calls ++ later.calls } := by
  rw [describeFrom]
  cases hreply : ask number (batch.map sent) with
  | mk value notices calls =>
    cases value with
    | ok texts => simp [bind, pure, replyTexts, replyWarnings]
    | error message => simp [bind, pure, replyTexts, replyWarnings, Traced.notify]

/-- The description that a reply has for an entity: its text for the identifier, unless that
is empty. -/
theorem newDescription?_eq (texts : Descriptions) (e : Entity) :
    newDescription? texts e = (texts.lookup e.id.text).filter (· ≠ "") := by
  unfold newDescription?
  cases texts.lookup e.id.text with
  | none => rfl
  | some text =>
    by_cases hempty : text = ""
    · simp [hempty, Option.filter]
    · simp [hempty, Option.filter]

theorem applyTo_eq (texts : Descriptions) (e : Entity) :
    applyTo texts e =
      { e with description := ((texts.lookup e.id.text).filter (· ≠ "")).or e.description } := by
  rw [applyTo, newDescription?_eq]
  cases (texts.lookup e.id.text).filter (· ≠ "") <;> rfl

/-! ### Runs over all batches -/

section Run

variable (ask : Describer) (sent : Entity → Json) {size : Nat} (hsize : 0 < size)

/-- The reply to the batch of a number, where the first batch has the number `first`. -/
def replyAt (ask : Describer) (sent : Entity → Json) (size : Nat) (items : List Entity)
    (first number : Nat) : Traced (Except String Descriptions) :=
  ask (first + number) ((batchAt size items number).map sent)

theorem replyAt_zero (items : List Entity) (first : Nat) :
    replyAt ask sent size items first 0 = ask first ((items.take size).map sent) := by
  rw [replyAt, batchAt_zero, Nat.add_zero]

theorem replyAt_succ (items : List Entity) (first number : Nat) :
    replyAt ask sent size items first (number + 1) =
      replyAt ask sent size (items.drop size) (first + 1) number := by
  rw [replyAt, replyAt, batchAt_succ, Nat.add_right_comm, Nat.add_assoc]

include hsize

/-- Every entity takes the texts of the reply to its own batch. -/
theorem describeFrom_entities (items : List Entity) (first start : Nat) :
    (describeFrom ask sent first start (batches size items)).value.entities =
      items.mapIdx fun place =>
        applyTo (replyTexts (replyAt ask sent size items first (place / size))) := by
  induction items using batch_induction hsize generalizing first start with
  | nil => simp [batches, describeFrom, pure]
  | batch items hne ih =>
    rw [batches_of_ne_nil hsize hne, describeFrom_cons,
      mapIdx_batches hsize items fun number =>
        applyTo (replyTexts (replyAt ask sent size items first number))]
    simp only [ih, replyAt_zero, replyAt_succ]

theorem describeFrom_described (items : List Entity) (first start : Nat) :
    (describeFrom ask sent first start (batches size items)).value.described =
      (items.mapIdx fun place =>
        newDescription? (replyTexts (replyAt ask sent size items first (place / size)))).countP
          Option.isSome := by
  induction items using batch_induction hsize generalizing first start with
  | nil => simp [batches, describeFrom, pure]
  | batch items hne ih =>
    rw [batches_of_ne_nil hsize hne, describeFrom_cons,
      mapIdx_batches hsize items fun number =>
        newDescription? (replyTexts (replyAt ask sent size items first number))]
    simp only [ih, replyAt_zero, replyAt_succ, List.countP_append, List.countP_map]
    rfl

theorem describeFrom_done (items : List Entity) (first start : Nat) :
    (describeFrom ask sent first start (batches size items)).value.done =
      (List.range (batchCount size items.length)).map fun number =>
        start + min ((number + 1) * size) items.length := by
  induction items using batch_induction hsize generalizing first start with
  | nil => simp [batches, describeFrom, pure, batchCount_zero hsize]
  | batch items hne ih =>
    rw [batches_of_ne_nil hsize hne, describeFrom_cons, range_batchCount hsize hne, List.map_cons,
      List.map_map]
    simp only [ih, List.length_take, List.length_drop, Nat.zero_add, Nat.one_mul]
    congr 2
    funext number
    simp only [Function.comp_apply, Nat.succ_mul]
    omega

theorem describeFrom_calls (items : List Entity) (first start : Nat) :
    (describeFrom ask sent first start (batches size items)).calls =
      (List.range (batchCount size items.length)).flatMap fun number =>
        (replyAt ask sent size items first number).calls := by
  induction items using batch_induction hsize generalizing first start with
  | nil => simp [batches, describeFrom, pure, batchCount_zero hsize]
  | batch items hne ih =>
    rw [batches_of_ne_nil hsize hne, describeFrom_cons, range_batchCount hsize hne,
      List.flatMap_cons, List.flatMap_map]
    simp only [ih, replyAt_zero, replyAt_succ]

theorem describeFrom_notices (items : List Entity) (first start : Nat) :
    (describeFrom ask sent first start (batches size items)).notices =
      (List.range (batchCount size items.length)).flatMap fun number =>
        replyWarnings (start + number * size) (batchAt size items number).length
          (replyAt ask sent size items first number) := by
  induction items using batch_induction hsize generalizing first start with
  | nil => simp [batches, describeFrom, pure, batchCount_zero hsize]
  | batch items hne ih =>
    rw [batches_of_ne_nil hsize hne, describeFrom_cons, range_batchCount hsize hne,
      List.flatMap_cons, List.flatMap_map]
    simp only [ih, replyAt_zero, replyAt_succ, batchAt_zero, batchAt_succ, Nat.zero_mul,
      Nat.add_zero]
    congr 1
    refine List.flatMap_congr fun number hnumber => ?_
    -- There is a later batch, so the first one is full.
    have hbelow := mul_lt_of_lt_batchCount hsize (List.mem_range.mp hnumber)
    rw [List.length_drop] at hbelow
    have hfull : (items.take size).length = size := by
      rw [List.length_take]
      omega
    rw [hfull, Nat.succ_mul, Nat.add_assoc, Nat.add_comm size]

end Run

/-! ### What is sent about an entity -/

/-- The first connections are sent, if there are any; no metadata is sent under that name. -/
theorem payload_connections (e : Entity) (connections : List String) :
    (payload e connections).field? "connections" =
      if connections = [] then none
      else some (.arr ((connections.take maxConnections).map .str)) := by
  have hmetadata : (payloadKeys.filterMap fun key => (e.metadata.lookup key).bind fun value =>
      if value.isTruthy then some (key, value) else none).lookup "connections" = none := by
    rw [List.lookup_eq_none_iff]
    rintro ⟨key, value⟩ hmem
    obtain ⟨other, hother, hfield⟩ := List.mem_filterMap.mp hmem
    have hkey : other = key := by
      cases hvalue : e.metadata.lookup other with
      | none => simp [hvalue] at hfield
      | some stored => simp_all
    subst hkey
    have hkeys : ∀ key ∈ payloadKeys, ("connections" != key) = true := by decide
    exact hkeys other hother
  simp only [payload, Json.field?, List.lookup_append, hmetadata]
  by_cases hempty : connections = []
  · -- Behind the connections stands at most the snippet, under another name.
    rw [if_pos hempty, hempty, List.isEmpty_nil, if_pos rfl]
    split <;> rfl
  · have hfront : [("id", Json.str e.id.text), ("type", .str e.kind.word),
        ("label", .str e.label)].lookup "connections" = none := rfl
    simp [hempty, hfront]

/-! ### A described graph -/

/-- The counts after the batches grow, and the last one is the total. -/
theorem done_increasing {size : Nat} (hsize : 0 < size) (total : Nat) :
    let done := (List.range (batchCount size total)).map fun number =>
      min ((number + 1) * size) total
    done.Pairwise (· < ·) ∧ (total ≠ 0 → done.getLast? = some total) := by
  constructor
  · rw [List.pairwise_map]
    refine List.pairwise_lt_range.imp_of_mem fun {early late} _ hlate hlt => ?_
    -- The earlier batch ends where the later one begins, or before.
    have hbelow := mul_lt_of_lt_batchCount hsize (List.mem_range.mp hlate)
    have hends : (early + 1) * size ≤ late * size := Nat.mul_le_mul_right size hlt
    rw [Nat.succ_mul late]
    omega
  · intro htotal
    have hcount := batchCount_of_pos hsize (Nat.pos_of_ne_zero htotal)
    rw [List.getLast?_map, List.getLast?_range, if_neg (by omega), Option.map_some]
    have hreach : total ≤ batchCount size total * size := by
      have hstep := Nat.lt_div_mul_add hsize (a := total + size - 1)
      rw [batchCount]
      omega
    rw [Nat.sub_add_cancel (by omega), Nat.min_eq_right hreach]

/-- The size of batches is the stated one, or the one of the settings if none is stated or
zero is; but never less than one. -/
theorem batchSize_eq (settings : Settings) (stated : Option Int) :
    (batchSize settings stated : Int) =
      max 1 ((stated.filter (· ≠ 0)).getD settings.llmBatchSize) := by
  unfold batchSize
  split
  · simp
    omega
  · simp [Option.filter]
    omega
  · next n hzero =>
    have hn : n ≠ 0 := fun h => hzero (by rw [h])
    simp [Option.filter, hn]
    omega

/-- Describing a graph is a run over its batches, put back into the graph. -/
theorem describe_eq (ask : Describer) (size : Nat) (g : Graph) :
    let progress := describeFrom ask (fun e => payload e (connections g e.id)) 0 0
      (batches size g.entities)
    describe ask size g =
      { value := ({ g with entities := progress.value.entities }, progress.value)
        notices := progress.notices
        calls := progress.calls } := by
  simp [describe, bind, pure]

/-- Descriptions in batches. Whatever is asked for descriptions, and whatever it answers to
each batch, or fails with, the entities of a graph are sent in consecutive batches of the
size, each entity once and in order, and only the last batch may be shorter. About each
entity its first ten connections are sent, in the order of the graph. Afterwards the
description of an entity is the text that the reply to its own batch has for its identifier,
if there is one and it is not empty, and what it was before otherwise; nothing else of the
graph has changed. The entities so described are counted, and the entities done are reported
after each batch, in growing numbers up to the total. -/
theorem describe_in_batches (ask : Describer) (settings : Settings) (stated : Option Int)
    (g : Graph) :
    let size := batchSize settings stated
    let total := g.entities.length
    let count := batchCount size total
    let batch := batchAt size g.entities
    let sent (e : Entity) : Json := payload e (connections g e.id)
    let reply (number : Nat) := ask number ((batch number).map sent)
    let given (place : Nat) (e : Entity) : Option String :=
      ((replyTexts (reply (place / size))).lookup e.id.text).filter (· ≠ "")
    let run := describe ask size g
    (size : Int) = max 1 ((stated.filter (· ≠ 0)).getD settings.llmBatchSize) ∧
    ((List.range count).flatMap batch = g.entities ∧
      (∀ number < count, batch number ≠ [] ∧ (batch number).length ≤ size) ∧
      ∀ number, number + 1 < count → (batch number).length = size) ∧
    (run.calls = (List.range count).flatMap (fun number => (reply number).calls) ∧
      run.notices = (List.range count).flatMap fun number =>
        replyWarnings (number * size) (batch number).length (reply number)) ∧
    (∀ e, (sent e).field? "id" = some (.str e.id.text) ∧
      let outgoing := g.relations.filter fun r => r.source = e.id
      (sent e).field? "connections" = if outgoing = [] then none else
        some (.arr ((outgoing.take 10).map fun r =>
          .str (r.target.text ++ " (" ++ r.kind.word ++ ")")))) ∧
    run.value.1 = { g with
      entities := g.entities.mapIdx fun place e =>
        { e with description := (given place e).or e.description } } ∧
    run.value.2.described = (g.entities.mapIdx given).countP Option.isSome ∧
    (run.value.2.done.length = count ∧ run.value.2.done.Pairwise (· < ·) ∧
      (total ≠ 0 → run.value.2.done.getLast? = some total)) := by
  intro size total count batch sent reply given run
  have hsize : 0 < size := by
    have := batchSize_eq settings stated
    omega
  have hreply : ∀ number,
      replyAt ask (fun e => payload e (connections g e.id)) size g.entities 0 number =
        reply number := by
    intro number
    rw [replyAt, Nat.zero_add]
  have hbelow : ∀ number < count, number * size < total := fun number =>
    mul_lt_of_lt_batchCount hsize
  have hlength : ∀ number, (batch number).length = min size (total - number * size) :=
    length_batchAt g.entities
  refine ⟨batchSize_eq settings stated, ⟨flatMap_batchAt hsize g.entities, ?_, ?_⟩, ⟨?_, ?_⟩,
    fun e => ⟨rfl, ?_⟩, ?_, ?_, ?_⟩
  · intro number hnumber
    have := hbelow number hnumber
    rw [← List.length_pos_iff, hlength]
    omega
  · intro number hnumber
    have := hbelow (number + 1) hnumber
    rw [Nat.succ_mul] at this
    rw [hlength]
    omega
  · simp only [run, describe_eq, describeFrom_calls _ _ hsize, hreply, total, count]
  · simp only [run, describe_eq, describeFrom_notices _ _ hsize, hreply, total, count, Nat.zero_add,
      batch]
  · intro outgoing
    rw [payload_connections]
    simp only [connections, List.map_eq_nil_iff, List.map_take, List.map_map]
    rfl
  · simp only [run, describe_eq, describeFrom_entities _ _ hsize, hreply]
    congr 2
    funext place e
    exact applyTo_eq _ e
  · simp only [run, describe_eq, describeFrom_described _ _ hsize, hreply]
    congr 2
    funext place e
    exact newDescription?_eq _ e
  · have hdone : run.value.2.done =
        (List.range count).map fun number => min ((number + 1) * size) total := by
      simp only [run, describe_eq, describeFrom_done _ _ hsize, Nat.zero_add, total, count]
    rw [hdone]
    exact ⟨by rw [List.length_map, List.length_range], done_increasing hsize total⟩

/-- A stated size of zero is not a size of one: the settings take its place, so both of two
entities are sent in one batch. -/
theorem zero_size_sends_together :
    let g : Graph := {
      entities := [{ id := .ofFunction "a", label := "a", kind := .function },
        { id := .ofFunction "b", label := "b", kind := .function }]
      relations := []
      plugin := default }
    let silent : Describer := fun _ _ => pure (.ok [])
    (describe silent (batchSize {} (some 0)) g).value.2.done = [2] ∧
      (describe silent (max 1 0) g).value.2.done = [1, 2] := by
  intro g silent
  simp only [describe_eq]
  rw [describeFrom_done _ _ (by decide), describeFrom_done _ _ (by decide)]
  decide

end PluginAtlas.Describe
