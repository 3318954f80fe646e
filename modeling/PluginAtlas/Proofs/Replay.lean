import PluginAtlas.Graph.Assembly
import PluginAtlas.Proofs.Recording
import Mathlib.Data.List.Induction
import Mathlib.Data.List.Nodup

/-!
# Replaying the writes of an analysis

A store is the result of writes that come in any order: entities and relations, with
identifiers repeated at will, relations before their ends or after them. The graph of
the store is a function of the two subsequences alone. Of entities with one identifier
the first is kept; of relations with one identifier the place of the first and the
content of the last. Relations with an unregistered end are dropped, and the rest is
numbered without gaps.

## Main definitions

* `Write`, `Store.replay`: writes, and the store that they lead to.
* `firstPerKey`: the first item of every key, in order.
* `latest`: the last item with the key of a given one.

## Main results

* `Store.replay_entities`, `Store.replay_relations`: the store as a function of the writes.
* `Graph.assemble_replay`: the graph as a function of the writes.
-/

namespace PluginAtlas

/-- A write to a store. -/
inductive Write where
  | entity (entity : Entity)
  | relation (relation : Relation)

namespace Write

/-- The entity that a write adds. -/
def entity? : Write → Option Entity
  | entity e => some e
  | relation _ => none

/-- The relation that a write adds. -/
def relation? : Write → Option Relation
  | entity _ => none
  | relation r => some r

end Write

/-- The entity that a finding reports. -/
def Finding.entity? : Finding → Option Entity
  | entity e => some e
  | relation _ | relationIfKnown _ => none

namespace Store

/-- Makes a write. -/
def write (s : Store) : Write → Store
  | .entity e => s.addEntity e
  | .relation r => s.addRelation r

/-- The store after writes to the empty one. -/
def replay (writes : List Write) : Store := writes.foldl write .empty

end Store

/-! ### First and last items of a key -/

section Keys

variable {α κ : Type} [DecidableEq κ] {key : α → κ} {a : α} {l : List α}

/-- Of all items with one key, only the first; the order stays. -/
def firstPerKey (key : α → κ) : List α → List α
  | [] => []
  | a :: rest => a :: (firstPerKey key rest).filter fun b => key b ≠ key a

/-- The last item of a list with the key of a given item. -/
def latest (key : α → κ) (l : List α) (a : α) : α :=
  ((l.filter fun b => key b = key a).getLast?).getD a

theorem key_mem_firstPerKey {k : κ} :
    k ∈ (firstPerKey key l).map key ↔ k ∈ l.map key := by
  induction l with
  | nil => rfl
  | cons b rest ih =>
    simp only [List.mem_map] at ih
    simp only [firstPerKey, List.map_cons, List.mem_cons, List.mem_map, List.mem_filter,
      decide_eq_true_eq]
    by_cases hk : k = key b
    · simp [hk]
    · constructor
      · rintro (h | ⟨c, ⟨hc, -⟩, rfl⟩)
        · exact absurd h hk
        · exact Or.inr (ih.mp ⟨c, hc, rfl⟩)
      · rintro (h | h)
        · exact absurd h hk
        · obtain ⟨c, hc, rfl⟩ := ih.mpr h
          exact Or.inr ⟨c, ⟨hc, hk⟩, rfl⟩

theorem firstPerKey_nodup : ((firstPerKey key l).map key).Nodup := by
  induction l with
  | nil => exact List.nodup_nil
  | cons b rest ih =>
    rw [firstPerKey, List.map_cons, List.nodup_cons]
    refine ⟨?_, ih.sublist ((List.filter_sublist).map key)⟩
    simp [List.mem_map, List.mem_filter]

theorem mem_of_mem_firstPerKey (h : a ∈ firstPerKey key l) : a ∈ l := by
  induction l with
  | nil => exact h
  | cons b rest ih =>
    rcases List.mem_cons.mp h with rfl | h
    · exact List.mem_cons_self
    · exact List.mem_cons_of_mem b (ih (List.mem_filter.mp h).1)

/-- A selection that looks only at keys can be made before or after. -/
theorem filter_firstPerKey {p : α → Bool}
    (hp : ∀ a ∈ l, ∀ b ∈ l, key a = key b → p a = p b) :
    (firstPerKey key l).filter p = firstPerKey key (l.filter p) := by
  induction l with
  | nil => rfl
  | cons b rest ih =>
    have hrest := ih fun a ha c hc =>
      hp a (List.mem_cons_of_mem b ha) c (List.mem_cons_of_mem b hc)
    rw [firstPerKey, List.filter_cons, List.filter_comm, hrest, List.filter_cons]
    cases hb : p b with
    | true => rw [if_pos rfl, if_pos rfl, firstPerKey]
    | false =>
      rw [if_neg (by simp), if_neg (by simp), List.filter_eq_self]
      intro a ha
      -- What is selected cannot have the key of an item that is not.
      obtain ⟨hmem, hselected⟩ := List.mem_filter.mp (mem_of_mem_firstPerKey ha)
      refine decide_eq_true fun hkey => ?_
      have hsame := hp a (List.mem_cons_of_mem b hmem) b List.mem_cons_self hkey
      rw [hselected, hb] at hsame
      cases hsame

/-- An item at the end is kept exactly if its key is new. -/
theorem firstPerKey_concat :
    firstPerKey key (l ++ [a]) =
      if key a ∈ l.map key then firstPerKey key l else firstPerKey key l ++ [a] := by
  induction l with
  | nil => simp [firstPerKey]
  | cons b rest ih =>
    rw [List.cons_append, firstPerKey, ih, firstPerKey]
    simp only [List.map_cons, List.mem_cons]
    by_cases hr : key a ∈ rest.map key
    · rw [if_pos hr, if_pos (Or.inr hr)]
    · by_cases hab : key a = key b
      · rw [if_neg hr, if_pos (Or.inl hab), List.filter_append]
        simp [hab]
      · rw [if_neg hr, if_neg (not_or_intro hab hr), List.filter_append]
        simp [hab]

theorem latest_concat_of_eq {b : α} (h : key a = key b) : latest key (l ++ [a]) b = a := by
  simp [latest, List.filter_append, h]

theorem latest_concat_of_ne {b : α} (h : key a ≠ key b) :
    latest key (l ++ [a]) b = latest key l b := by
  simp [latest, List.filter_append, h]

theorem key_latest : key (latest key l a) = key a := by
  unfold latest
  cases h : (l.filter fun b => key b = key a).getLast? with
  | none => rfl
  | some b =>
    have hb := (List.mem_filter.mp (List.mem_of_getLast? h)).2
    simpa using hb

theorem latest_mem (h : key a ∈ l.map key) : latest key l a ∈ l := by
  unfold latest
  cases hlast : (l.filter fun b => key b = key a).getLast? with
  | some last => exact (List.mem_filter.mp (List.mem_of_getLast? hlast)).1
  | none =>
    -- There is an item with the key, so there is a last one.
    obtain ⟨held, hheld, hkey⟩ := List.mem_map.mp h
    have hnone := List.getLast?_eq_none_iff.mp hlast
    exact absurd (List.mem_filter.mpr ⟨hheld, decide_eq_true hkey⟩) (by rw [hnone]; simp)

end Keys

/-! ### The store as a function of the writes -/

namespace Store

theorem upsert_of_not_mem {r : Relation} {l : List Relation} (h : r.id ∉ l.map Relation.id) :
    upsert r l = l ++ [r] := by
  induction l with
  | nil => rfl
  | cons b rest ih =>
    rw [List.map_cons, List.mem_cons, not_or] at h
    rw [upsert, if_neg (Ne.symm h.1), ih h.2, List.cons_append]

/-- Where identifiers do not repeat, replacing the one holder of an identifier is
replacing every holder of it. -/
theorem upsert_of_mem {r : Relation} {l : List Relation} (hn : (l.map Relation.id).Nodup)
    (h : r.id ∈ l.map Relation.id) :
    upsert r l = l.map fun b => if b.id = r.id then r else b := by
  induction l with
  | nil => simp at h
  | cons b rest ih =>
    rw [List.map_cons, List.nodup_cons] at hn
    by_cases hb : b.id = r.id
    · have hrest : ∀ c ∈ rest, (if c.id = r.id then r else c) = c := by
        intro c hc
        rw [if_neg]
        intro hcr
        exact hn.1 (hb ▸ hcr ▸ List.mem_map_of_mem hc)
      rw [upsert, if_pos hb, List.map_cons, if_pos hb, List.map_congr_left hrest, List.map_id']
    · have hr : r.id ∈ rest.map Relation.id := by
        rw [List.map_cons, List.mem_cons] at h
        exact h.resolve_left (Ne.symm hb)
      rw [upsert, if_neg hb, ih hn.2 hr, List.map_cons, if_neg hb]

/-- The relations that a sequence of writes of relations leaves: every identifier at
its first place, with its last content. -/
def settled (rs : List Relation) : List Relation :=
  (firstPerKey Relation.id rs).map (latest Relation.id rs)

theorem settled_ids (rs : List Relation) :
    (settled rs).map Relation.id = (firstPerKey Relation.id rs).map Relation.id := by
  simp only [settled, List.map_map]
  exact List.map_congr_left fun r _ => key_latest

theorem settled_ids_nodup (rs : List Relation) : ((settled rs).map Relation.id).Nodup := by
  rw [settled_ids]
  exact firstPerKey_nodup

theorem upsert_settled (r : Relation) (rs : List Relation) :
    upsert r (settled rs) = settled (rs ++ [r]) := by
  have hmem : r.id ∈ (settled rs).map Relation.id ↔ r.id ∈ rs.map Relation.id := by
    rw [settled_ids, key_mem_firstPerKey]
  by_cases h : r.id ∈ rs.map Relation.id
  · rw [upsert_of_mem (settled_ids_nodup rs) (hmem.mpr h), settled, settled, firstPerKey_concat,
      if_pos h, List.map_map]
    refine List.map_congr_left fun b _ => ?_
    by_cases hb : b.id = r.id
    · rw [latest_concat_of_eq hb.symm, Function.comp_apply, if_pos (key_latest.trans hb)]
    · rw [latest_concat_of_ne (Ne.symm hb), Function.comp_apply,
        if_neg fun hr => hb (key_latest.symm.trans hr)]
  · rw [upsert_of_not_mem (mt hmem.mp h), settled, settled, firstPerKey_concat, if_neg h,
      List.map_append, List.map_singleton, latest_concat_of_eq rfl]
    congr 1
    refine List.map_congr_left fun b hb => (latest_concat_of_ne fun hr => h ?_).symm
    exact hr ▸ key_mem_firstPerKey.mp (List.mem_map_of_mem hb)

theorem addEntity_entities (s : Store) (e : Entity) (es : List Entity)
    (h : s.entities = firstPerKey Entity.id es) :
    (s.addEntity e).entities = firstPerKey Entity.id (es ++ [e]) := by
  have hmem : s.has e.id ↔ e.id ∈ es.map Entity.id := by
    rw [has_iff, h, key_mem_firstPerKey]
  rw [firstPerKey_concat, addEntity]
  by_cases he : e.id ∈ es.map Entity.id
  · rw [if_pos he, if_pos (hmem.mpr he), h]
  · rw [if_neg he, if_neg (mt hmem.mp he), h]

theorem replay_concat (writes : List Write) (w : Write) :
    replay (writes ++ [w]) = (replay writes).write w := by
  simp [replay]

/-- The entities of a store are the first ones of their identifiers. -/
theorem replay_entities (writes : List Write) :
    (replay writes).entities = firstPerKey Entity.id (writes.filterMap Write.entity?) := by
  induction writes using List.reverseRecOn with
  | nil => rfl
  | append_singleton writes w ih =>
    rw [replay_concat, List.filterMap_append]
    cases w with
    | entity e => exact addEntity_entities _ e _ ih
    | relation r =>
      rw [show [Write.relation r].filterMap Write.entity? = [] from rfl, List.append_nil]
      exact ih

/-- The relations of a store hold the first places and the last contents of their
identifiers. -/
theorem replay_relations (writes : List Write) :
    (replay writes).relations = settled (writes.filterMap Write.relation?) := by
  induction writes using List.reverseRecOn with
  | nil => rfl
  | append_singleton writes w ih =>
    rw [replay_concat, List.filterMap_append]
    cases w with
    | entity e =>
      rw [show [Write.entity e].filterMap Write.relation? = [] from rfl, List.append_nil]
      exact (addEntity_relations _ e).trans ih
    | relation r =>
      change upsert r (replay writes).relations = _
      rw [ih]
      exact upsert_settled r _

/-- Recording findings makes writes: one for every entity, and some for relations. -/
theorem exists_replay (xs : List Finding) :
    ∃ writes, empty.recordAll xs = replay writes ∧
      writes.filterMap Write.entity? = xs.filterMap Finding.entity? := by
  induction xs using List.reverseRecOn with
  | nil => exact ⟨[], rfl, rfl⟩
  | append_singleton xs x ih =>
    obtain ⟨writes, hwrites, hentities⟩ := ih
    have hrecord : empty.recordAll (xs ++ [x]) = (replay writes).record x := by
      rw [recordAll_append, hwrites]
      rfl
    rw [hrecord, List.filterMap_append, ← hentities]
    cases x with
    | entity e =>
      refine ⟨writes ++ [.entity e], by rw [replay_concat]; rfl, ?_⟩
      rw [List.filterMap_append]
      rfl
    | relation r =>
      refine ⟨writes ++ [.relation r], by rw [replay_concat]; rfl, ?_⟩
      rw [List.filterMap_append]
      rfl
    | relationIfKnown r =>
      rw [record]
      split
      · refine ⟨writes ++ [.relation r], by rw [replay_concat]; rfl, ?_⟩
        rw [List.filterMap_append]
        rfl
      · exact ⟨writes, rfl, (List.append_nil _).symm⟩

/-- The entities that findings lead to are the first ones of their identifiers. -/
theorem recordAll_entities (xs : List Finding) :
    (empty.recordAll xs).entities = firstPerKey Entity.id (xs.filterMap Finding.entity?) := by
  obtain ⟨writes, hwrites, hentities⟩ := exists_replay xs
  rw [hwrites, replay_entities, hentities]

/-- No identifier of a relation repeats. -/
theorem recordAll_relations_nodup (xs : List Finding) :
    ((empty.recordAll xs).relations.map Relation.id).Nodup := by
  obtain ⟨writes, hwrites, -⟩ := exists_replay xs
  rw [hwrites, replay_relations]
  exact settled_ids_nodup _

end Store

/-! ### The graph as a function of the writes -/

theorem renumber_eq_mapIdx (n : Nat) (rs : List Relation) :
    renumber n rs = rs.mapIdx fun i r => { r with id := "e_" ++ toString (n + i) } := by
  induction rs generalizing n with
  | nil => rfl
  | cons r rest ih =>
    rw [renumber, ih, List.mapIdx_cons]
    have shift : ∀ i, n + 1 + i = n + (i + 1) := by omega
    simp only [shift]
    rfl

/-- A text of ASCII letters, digits, underscores and hyphens. -/
def IsPlainName (s : String) : Prop := ∀ c ∈ s.toList, c.isAlphanum ∨ c = '_' ∨ c = '-'

theorem Ident.isPlainName (id : Ident) : IsPlainName id.text := by
  intro c hc
  simpa [isIdentChar, or_assoc] using id.safe c hc

theorem isPlainName_number (n : Nat) : IsPlainName ("e_" ++ toString n) := by
  intro c hc
  rw [String.toList_append, List.mem_append] at hc
  rcases hc with hc | hc
  · have : c = 'e' ∨ c = '_' := by simpa using hc
    rcases this with rfl | rfl
    · exact Or.inl (by decide)
    · exact Or.inr (Or.inl rfl)
  · have hdigit : c.isDigit := by
      refine Nat.isDigit_of_mem_toDigits (b := 10) (n := n) (by decide) (by decide) ?_
      simpa using hc
    exact Or.inl (by simp [Char.isAlphanum, hdigit])

namespace Graph

/-- The graph of the store that any writes lead to. It depends on the entities and on
the relations of the writes, not on how the two are interleaved: the entities are the
first ones of their identifiers; the relations stand at the first places of their
identifiers with the last contents, restricted to those with both ends among the
entities, and numbered in order. So no identifier of an entity repeats, every
identifier is a plain name, and no relation dangles. -/
theorem assemble_replay (writes : List Write) (plugin : PluginInfo) :
    let g := Graph.assemble (Store.replay writes) plugin
    let es := writes.filterMap Write.entity?
    let rs := writes.filterMap Write.relation?
    g.plugin = plugin ∧
    g.entities = firstPerKey Entity.id es ∧
    g.relations =
      (((firstPerKey Relation.id rs).map (latest Relation.id rs)).filter fun r =>
        r.source ∈ g.entities.map Entity.id ∧ r.target ∈ g.entities.map Entity.id).mapIdx
          (fun i r => { r with id := "e_" ++ toString i }) ∧
    (g.entities.map Entity.id).Nodup ∧
    (∀ e ∈ g.entities, IsPlainName e.id.text) ∧
    (∀ r ∈ g.relations,
      IsPlainName r.id ∧ IsPlainName r.source.text ∧ IsPlainName r.target.text ∧
      r.source ∈ g.entities.map Entity.id ∧ r.target ∈ g.entities.map Entity.id) := by
  intro g es rs
  have hentities : g.entities = firstPerKey Entity.id es := Store.replay_entities writes
  have hrelations : g.relations =
      (((firstPerKey Relation.id rs).map (latest Relation.id rs)).filter fun r =>
        r.source ∈ g.entities.map Entity.id ∧ r.target ∈ g.entities.map Entity.id).mapIdx
          (fun i r => { r with id := "e_" ++ toString i }) := by
    have hkept : (Store.replay writes).relations.filter
          (fun r => (Store.replay writes).has r.source && (Store.replay writes).has r.target) =
        ((firstPerKey Relation.id rs).map (latest Relation.id rs)).filter fun r =>
          r.source ∈ g.entities.map Entity.id ∧ r.target ∈ g.entities.map Entity.id := by
      rw [Store.replay_relations]
      refine List.filter_congr fun r _ => ?_
      rw [Bool.eq_iff_iff, Bool.and_eq_true, Store.has_iff, Store.has_iff, decide_eq_true_eq]
      rfl
    change renumber 0 _ = _
    rw [hkept, renumber_eq_mapIdx]
    simp only [Nat.zero_add]
  refine ⟨rfl, hentities, hrelations, ?_, fun e _ => e.id.isPlainName, ?_⟩
  · rw [hentities]
    exact firstPerKey_nodup
  · intro r hr
    rw [hrelations, List.mem_mapIdx] at hr
    obtain ⟨i, hi, rfl⟩ := hr
    have hends := List.of_mem_filter (List.getElem_mem hi)
    rw [decide_eq_true_eq] at hends
    exact ⟨isPlainName_number i, Ident.isPlainName _, Ident.isPlainName _, hends.1, hends.2⟩

/-- A relation that is written before its ends and again after them is kept with its later
label, an entity that is written again keeps its first one, and a relation to nowhere is
dropped. -/
theorem assemble_replay_rewritten :
    let a : Entity := { id := Ident.ofFunction "a", label := "first", kind := .function }
    let b : Entity := { id := Ident.ofFunction "b", label := "second", kind := .function }
    let writes : List Write := [
      .relation (.between a.id .calls b.id "early"), .entity a,
      .entity { a with label := "again" }, .relation (.between a.id .extends (.ofClass "C") "gone"),
      .entity b, .relation (.between a.id .calls b.id "late")]
    let g := Graph.assemble (Store.replay writes) default
    g.entities.map Entity.label = ["first", "second"] ∧
    g.relations.map (fun r => (r.id, r.label)) = [("e_0", "late")] ∧
    (∀ e ∈ g.entities, IsPlainName e.id.text) ∧
    (∀ r ∈ g.relations,
      IsPlainName r.id ∧ IsPlainName r.source.text ∧ IsPlainName r.target.text ∧
      r.source ∈ g.entities.map Entity.id ∧ r.target ∈ g.entities.map Entity.id) :=
  ⟨by decide +kernel, by decide +kernel, (assemble_replay _ default).2.2.2.2⟩

end Graph

end PluginAtlas
