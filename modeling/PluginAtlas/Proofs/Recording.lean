import PluginAtlas.Manifest
import PluginAtlas.Proofs.SharedScope
import PluginAtlas.Script.Findings

/-!
# Recording findings

What a store holds after findings are recorded: nothing but what was found, and
everything that it held before. A relation is drawn at a moment, with a part of the
findings recorded and the others not, and only a relation that was drawn is stored.

## Main definitions

* `Store.Draws`: a finding that draws a relation, in a given store.
* `Store.DrawsOnly`: a property of all relations that findings draw, at their moments.
* `Outcome.All`: a property of all findings of an outcome.
* `FileStep`, `Store.readAll`: files with what their extractors are given, and the store
  that reading them leads to.

## Main results

* `Store.mem_relations_recordAll`, `Store.mem_relations_readAll`: stored relations were
  drawn.
* `Store.has_recordAll_of_mem`, `Store.has_recordAll`: found entities are registered, and
  stay so; `Store.has_recordAll_iff`: no others are.
* `Store.hasRelation_recordAll_of_mem`: the identifier of a found relation stays taken.
* `Store.readAll_eq_recordAll`: reading files is recording all that they find.
-/

namespace PluginAtlas

namespace Store

variable {s : Store} {id : Ident} {x : Finding} {xs ys : List Finding} {r : Relation}

theorem has_iff : s.has id ↔ id ∈ s.entities.map Entity.id := by
  simp [has, List.any_eq_true]

@[simp] theorem addEntity_relations (s : Store) (e : Entity) :
    (s.addEntity e).relations = s.relations := by
  unfold addEntity
  split <;> rfl

theorem entities_record (s : Store) (x : Finding) :
    (s.record x).entities = s.entities ∨ ∃ e, x = .entity e ∧ s.record x = s.addEntity e := by
  cases x with
  | entity e => exact Or.inr ⟨e, rfl, rfl⟩
  | relation r => exact Or.inl rfl
  | relationIfKnown r =>
    left
    simp only [record]
    split <;> rfl

theorem mem_entities_addEntity {e e' : Entity} (h : e ∈ (s.addEntity e').entities) :
    e ∈ s.entities ∨ e = e' := by
  unfold addEntity at h
  split at h
  · exact Or.inl h
  · simpa using h

theorem has_addEntity_self (s : Store) (e : Entity) : (s.addEntity e).has e.id := by
  unfold addEntity
  split
  · assumption
  · simp [has_iff]

theorem has_addEntity (h : s.has id) (e : Entity) : (s.addEntity e).has id := by
  unfold addEntity
  split
  · exact h
  · rw [has_iff] at h ⊢
    simp only [List.map_append, List.mem_append]
    exact Or.inl h

/-! ### Several findings -/

theorem recordAll_append (s : Store) (xs ys : List Finding) :
    s.recordAll (xs ++ ys) = (s.recordAll xs).recordAll ys := List.foldl_append

theorem has_record (h : s.has id) (x : Finding) : (s.record x).has id := by
  rcases entities_record s x with hx | ⟨e, -, hx⟩
  · rwa [has_iff, hx, ← has_iff]
  · rw [hx]
    exact has_addEntity h e

/-- What is registered stays registered. -/
theorem has_recordAll (h : s.has id) (xs : List Finding) : (s.recordAll xs).has id := by
  induction xs generalizing s with
  | nil => exact h
  | cons x xs ih => exact ih (has_record h x)

/-- What is found is registered. -/
theorem has_recordAll_of_mem {e : Entity} (h : Finding.entity e ∈ xs) :
    (s.recordAll xs).has e.id := by
  induction xs generalizing s with
  | nil => simp at h
  | cons x xs ih =>
    rcases List.mem_cons.mp h with rfl | h
    · exact has_recordAll (has_addEntity_self s e) xs
    · exact ih h

theorem mem_entities_recordAll {e : Entity} (h : e ∈ (s.recordAll xs).entities) :
    e ∈ s.entities ∨ Finding.entity e ∈ xs := by
  induction xs generalizing s with
  | nil => exact Or.inl h
  | cons x xs ih =>
    rcases ih h with hrest | hrest
    · rcases entities_record s x with hx | ⟨e', rfl, hx⟩
      · exact Or.inl (hx ▸ hrest)
      · rcases mem_entities_addEntity (hx ▸ hrest) with hs | rfl
        · exact Or.inl hs
        · exact Or.inr List.mem_cons_self
    · exact Or.inr (List.mem_cons_of_mem _ hrest)

/-- What is registered in the end was so before, or was found. -/
theorem has_recordAll_iff :
    (s.recordAll xs).has id ↔ s.has id ∨ ∃ e, Finding.entity e ∈ xs ∧ e.id = id := by
  constructor
  · intro h
    obtain ⟨e, he, rfl⟩ := List.mem_map.mp (has_iff.mp h)
    rcases mem_entities_recordAll he with hs | hx
    · exact Or.inl (has_iff.mpr (List.mem_map_of_mem hs))
    · exact Or.inr ⟨e, hx, rfl⟩
  · rintro (h | ⟨e, he, rfl⟩)
    · exact has_recordAll h xs
    · exact has_recordAll_of_mem he

/-! ### Drawn relations -/

/-- A finding draws a relation in a store. -/
def Draws (s : Store) (x : Finding) (r : Relation) : Prop :=
  x = .relation r ∨ x = .relationIfKnown r ∧ s.has r.target

theorem mem_upsert {r r' : Relation} {l : List Relation} (h : r ∈ upsert r' l) :
    r ∈ l ∨ r = r' := by
  induction l with
  | nil => exact Or.inr (List.mem_singleton.mp h)
  | cons a rest ih =>
    rw [upsert] at h
    split at h
    · rcases List.mem_cons.mp h with h | h
      · exact Or.inr h
      · exact Or.inl (List.mem_cons_of_mem _ h)
    · rcases List.mem_cons.mp h with rfl | h
      · exact Or.inl List.mem_cons_self
      · exact (ih h).imp_left (List.mem_cons_of_mem _)

theorem mem_relations_record (h : r ∈ (s.record x).relations) :
    r ∈ s.relations ∨ s.Draws x r := by
  cases x with
  | entity e =>
    left
    simpa [record] using h
  | relation r' =>
    rcases mem_upsert h with h | rfl
    · exact Or.inl h
    · exact Or.inr (Or.inl rfl)
  | relationIfKnown r' =>
    simp only [record] at h
    split at h
    · rename_i hknown
      rcases mem_upsert h with h | rfl
      · exact Or.inl h
      · exact Or.inr (Or.inr ⟨rfl, hknown⟩)
    · exact Or.inl h

/-- A stored relation was there before, or was drawn when the findings before it were
recorded. -/
theorem mem_relations_recordAll (h : r ∈ (s.recordAll xs).relations) :
    r ∈ s.relations ∨
      ∃ before x rest, xs = before ++ x :: rest ∧ (s.recordAll before).Draws x r := by
  induction xs generalizing s with
  | nil => exact Or.inl h
  | cons x xs ih =>
    rcases ih h with hrest | ⟨before, y, rest, rfl, hy⟩
    · rcases mem_relations_record hrest with hs | hx
      · exact Or.inl hs
      · exact Or.inr ⟨[], x, xs, rfl, hx⟩
    · exact Or.inr ⟨x :: before, y, rest, rfl, hy⟩

theorem not_draws_entity {e : Entity} : ¬ s.Draws (.entity e) r := by
  rintro (h | ⟨h, -⟩) <;> cases h

theorem draws_relation_iff {r' : Relation} : s.Draws (.relation r') r ↔ r = r' := by
  constructor
  · rintro (h | ⟨h, -⟩) <;> cases h
    rfl
  · rintro rfl
    exact Or.inl rfl

theorem draws_relationIfKnown_iff {r' : Relation} :
    s.Draws (.relationIfKnown r') r ↔ r = r' ∧ s.has r'.target := by
  constructor
  · rintro (h | ⟨h, hknown⟩) <;> cases h
    exact ⟨rfl, hknown⟩
  · rintro ⟨rfl, hknown⟩
    exact Or.inr ⟨rfl, hknown⟩

/-- A relation is stored under an identifier. -/
def HasRelation (s : Store) (id : String) : Prop := id ∈ s.relations.map Relation.id

theorem mem_ids_upsert {l : List Relation} {id : String} :
    id ∈ (upsert r l).map Relation.id ↔ id ∈ l.map Relation.id ∨ id = r.id := by
  induction l with
  | nil => simp [upsert]
  | cons first rest ih =>
    rw [upsert]
    split
    · rename_i heq
      simp only [List.map_cons, List.mem_cons, heq, or_right_comm, or_self]
    · simp only [List.map_cons, List.mem_cons, ih, or_assoc]

/-- Recording a finding adds the identifier of the relation that it draws, and no other. -/
theorem hasRelation_record {id : String} :
    (s.record x).HasRelation id ↔ s.HasRelation id ∨ ∃ r, s.Draws x r ∧ r.id = id := by
  cases x with
  | entity e => simp [record, HasRelation, not_draws_entity]
  | relation r' =>
    simp only [record, HasRelation, addRelation, mem_ids_upsert, draws_relation_iff]
    simp [eq_comm]
  | relationIfKnown r' =>
    simp only [draws_relationIfKnown_iff, record]
    split
    · rename_i hknown
      simp only [HasRelation, addRelation, mem_ids_upsert, hknown]
      simp [eq_comm]
    · rename_i hunknown
      simp [hunknown]

/-- A relation that is stored stays stored under its identifier. -/
theorem hasRelation_recordAll {id : String} (h : s.HasRelation id) (xs : List Finding) :
    (s.recordAll xs).HasRelation id := by
  induction xs generalizing s with
  | nil => exact h
  | cons x xs ih => exact ih (hasRelation_record.mpr (Or.inl h))

/-- A relation that is found is stored under its identifier. -/
theorem hasRelation_recordAll_of_mem (h : Finding.relation r ∈ xs) :
    (s.recordAll xs).HasRelation r.id := by
  induction xs generalizing s with
  | nil => cases h
  | cons x xs ih =>
    rcases List.mem_cons.mp h with rfl | h
    · refine hasRelation_recordAll (hasRelation_record.mpr (Or.inr ⟨r, ?_, rfl⟩)) xs
      exact draws_relation_iff.mpr rfl
    · exact ih h

/-- Every relation that findings draw, one after the other, has a property in the store
of that moment. -/
def DrawsOnly (P : Store → Relation → Prop) : Store → List Finding → Prop
  | _, [] => True
  | s, x :: xs => (∀ r, s.Draws x r → P s r) ∧ DrawsOnly P (s.record x) xs

namespace DrawsOnly

variable {P : Store → Relation → Prop}

@[simp] theorem nil : DrawsOnly P s [] := trivial

theorem append (hxs : DrawsOnly P s xs) (hys : DrawsOnly P (s.recordAll xs) ys) :
    DrawsOnly P s (xs ++ ys) := by
  induction xs generalizing s with
  | nil => exact hys
  | cons x xs ih => exact ⟨hxs.1, ih hxs.2 hys⟩

theorem entity {e : Entity} (h : DrawsOnly P (s.addEntity e) xs) :
    DrawsOnly P s (.entity e :: xs) :=
  ⟨fun _ hdraws => absurd hdraws not_draws_entity, h⟩

theorem relation (h : P s r) : DrawsOnly P s [.relation r] := by
  refine ⟨fun r' hdraws => ?_, nil⟩
  obtain rfl := draws_relation_iff.mp hdraws
  exact h

theorem relationIfKnown (h : s.has r.target → P s r) : DrawsOnly P s [.relationIfKnown r] := by
  refine ⟨fun r' hdraws => ?_, nil⟩
  obtain ⟨rfl, hknown⟩ := draws_relationIfKnown_iff.mp hdraws
  exact h hknown

/-- A property that does not look at the store needs no moment. -/
theorem of_all (h : ∀ x ∈ xs, ∀ s r, Draws s x r → P s r) : DrawsOnly P s xs := by
  induction xs generalizing s with
  | nil => exact nil
  | cons x xs ih =>
    exact ⟨h x List.mem_cons_self s, ih fun y hy => h y (List.mem_cons_of_mem _ hy)⟩

theorem at_moment {before rest : List Finding} (h : DrawsOnly P s (before ++ x :: rest))
    (hdraws : (s.recordAll before).Draws x r) : P (s.recordAll before) r := by
  induction before generalizing s with
  | nil => exact h.1 r hdraws
  | cons y before ih => exact ih h.2 hdraws

end DrawsOnly

end Store

/-! ### Outcomes -/

namespace Outcome

variable {P : Finding → Prop} {o next : Outcome}

/-- A property of all findings of an outcome. -/
def All (P : Finding → Prop) (o : Outcome) : Prop := ∀ x ∈ o.findings, P x

theorem All.nothing : nothing.All P := fun _ h => by cases h

theorem All.failed (failure : Failure) : (failed failure).All P := fun _ h => by cases h

theorem All.found {xs : List Finding} (h : ∀ x ∈ xs, P x) : (found xs).All P := h

theorem All.after {xs : List Finding} (h : ∀ x ∈ xs, P x) (ho : o.All P) : (after xs o).All P :=
  fun x hx => (List.mem_append.mp hx).elim (h x) (ho x)

theorem All.followedBy (ho : o.All P) (hnext : next.All P) : (o.followedBy next).All P := by
  unfold Outcome.followedBy
  split
  · exact ho
  · exact fun x hx => (List.mem_append.mp hx).elim (ho x) (hnext x)

theorem All.attempt {α : Type} {value : Except Failure α} {next : α → Outcome}
    (h : ∀ a, value = .ok a → (next a).All P) : (attempt value next).All P := by
  cases value with
  | error failure => exact .failed failure
  | ok a => exact h a rfl

theorem All.reaching {α : Type} {answer : Except DiskError α} {next : α → Outcome}
    (h : ∀ a, answer = .ok a → (next a).All P) : (reaching answer next).All P := by
  cases answer with
  | error error => exact .failed _
  | ok a => exact h a rfl

theorem All.sequence {os : List Outcome} (h : ∀ o ∈ os, o.All P) : (sequence os).All P := by
  induction os with
  | nil => exact .nothing
  | cons o os ih =>
    exact .followedBy (h o List.mem_cons_self) (ih fun o' ho' => h o' (List.mem_cons_of_mem _ ho'))

@[simp] theorem nothing_followedBy (o : Outcome) : nothing.followedBy o = o := rfl

@[simp] theorem followedBy_nothing (o : Outcome) : o.followedBy nothing = o := by
  unfold followedBy
  split
  · rfl
  · rename_i hok
    simp [nothing, ← hok]

/-- If one outcome followed by another does not fail, neither of them does, and all is
found. -/
theorem of_followedBy (hok : (o.followedBy next).failure = none) :
    o.failure = none ∧ next.failure = none ∧
      (o.followedBy next).findings = o.findings ++ next.findings := by
  unfold followedBy at hok ⊢
  cases ho : o.failure with
  | some failure =>
    rw [ho] at hok
    cases ho.symm.trans hok
  | none =>
    rw [ho] at hok
    exact ⟨rfl, hok, rfl⟩

theorem drawsOnly_reaching {P : Store → Relation → Prop} {s : Store} {α : Type}
    {answer : Except DiskError α} {next : α → Outcome}
    (h : ∀ a, answer = .ok a → s.DrawsOnly P (next a).findings) :
    s.DrawsOnly P (reaching answer next).findings := by
  cases answer with
  | error error => exact .nil
  | ok a => exact h a rfl

/-- Outcomes in sequence draw what they draw one by one, each in a store that the earlier
ones have added to. -/
theorem drawsOnly_sequence {P : Store → Relation → Prop} {s : Store} {os : List Outcome}
    (h : ∀ o ∈ os, ∀ earlier, (s.recordAll earlier).DrawsOnly P o.findings) :
    s.DrawsOnly P (sequence os).findings := by
  induction os generalizing s with
  | nil => exact .nil
  | cons o os ih =>
    have hfirst : s.DrawsOnly P o.findings := h o List.mem_cons_self []
    rw [sequence, Outcome.followedBy]
    split
    · -- The first outcome failed, so the others are not reached.
      exact hfirst
    · refine hfirst.append (ih fun o' ho' earlier => ?_)
      rw [← Store.recordAll_append]
      exact h o' (List.mem_cons_of_mem _ ho') _

/-- A sequence that does not fail reaches all its outcomes. -/
theorem of_mem_sequence {os : List Outcome} (hok : (sequence os).failure = none) (ho : o ∈ os) :
    o.failure = none ∧ o.findings ⊆ (sequence os).findings := by
  induction os with
  | nil => cases ho
  | cons first rest ih =>
    rw [sequence] at hok ⊢
    obtain ⟨hfirst, hnext, hfindings⟩ := of_followedBy hok
    rw [hfindings]
    rcases List.mem_cons.mp ho with rfl | ho
    · exact ⟨hfirst, List.subset_append_left _ _⟩
    · obtain ⟨hrest, hsubset⟩ := ih hnext ho
      exact ⟨hrest, fun x hx => List.mem_append_right _ (hsubset hx)⟩

/-- A sequence that does not fail finds what its outcomes find, in order. -/
theorem findings_sequence {os : List Outcome} (hok : (sequence os).failure = none) :
    (sequence os).findings = os.flatMap findings := by
  induction os with
  | nil => rfl
  | cons first rest ih =>
    rw [sequence] at hok ⊢
    obtain ⟨-, hnext, hfindings⟩ := of_followedBy hok
    rw [hfindings, ih hnext, List.flatMap_cons]

end Outcome

/-! ### References to files -/

/-- What holds of the file itself, of every file that it can include and of the relation between
them holds of all that an include finds. -/
theorem Php.includes_all {P : Finding → Prop} {f : SourceFile} {s : Php.Scope} {v : Visit}
    (hown : P (.entity (Php.ownEntity f)))
    (hincluded : ∀ line path?, P (.entity (Php.includedEntity f line path?)) ∧
      P (.relation (.between f.id .includes (Php.includedEntity f line path?).id "includes"))) :
    (Php.includes f s v).All P := by
  unfold Php.includes
  split
  · exact .nothing
  · split
    · exact .nothing
    · refine .after (by simpa using hown) (.reaching fun path? _ => .found ?_)
      simpa using hincluded (f.lineOf v.tree) path?

namespace Manifest

theorem kind_of_mem_loads {fields : List (String × Json)} {load : Load} (h : load ∈ loads fields) :
    load.kind ∈ [RelationKind.rendersBlock, .enqueuesScript] := by
  simp only [loads, List.mem_append, List.mem_map] at h
  rcases h with ⟨reference, -, rfl⟩ | ⟨reference, -, rfl⟩
  · exact List.mem_cons_self
  · exact List.mem_cons_of_mem _ List.mem_cons_self

/-- What holds of blocks, of the files that they can load and of the relations between them
holds of all that a manifest adds. -/
theorem extract_all {P : Finding → Prop} {f : SourceFile}
    (hblock : ∀ name fields, P (.entity (blockEntity f name fields)))
    (hfile : ∀ target, P (.entity (fileEntity f target)))
    (hrelation : ∀ name kind target label, kind ∈ [RelationKind.rendersBlock, .enqueuesScript] →
      P (.relation (.between (Ident.ofBlock name) kind (fileEntity f target).id label))) :
    (extract f).2.All P := by
  have hfound : ∀ name fields, (findings f name fields).All P := by
    intro name fields
    refine .after (by simpa using hblock name fields) (.sequence fun o ho => ?_)
    obtain ⟨load, hload, rfl⟩ := List.mem_map.mp ho
    refine .reaching fun target _ => .found ?_
    have hdrawn := hrelation name load.kind target load.label (kind_of_mem_loads hload)
    simpa using ⟨hfile target, hdrawn⟩
  unfold extract
  split
  · split
    · exact .failed _
    · exact .nothing
  · split
    · split
      · exact .nothing
      · exact hfound _ _
    · exact .nothing
  · exact .nothing

end Manifest

/-! ### Files -/

/-- A file with what its extractor is given: the syntax tree of PHP code, the items that
a script reader reports, or nothing but the text of a manifest. -/
inductive FileStep where
  | php (f : SourceFile) (root : Tree)
  | script (f : SourceFile) (items : List Script.Item)
  | manifest (f : SourceFile)

/-- What the extractor finds. -/
def FileStep.outcome : FileStep → Outcome
  | php f root => Php.extract Php.Family.all f root
  | script f items => Script.findings f items
  | manifest f => (Manifest.extract f).2

/-- What is found in a file by visitors that come from other files, and the visitors behind
it. -/
def FileStep.meet (visitors : List Php.Visitor) : FileStep → Outcome × List Php.Visitor
  | php f root => ((Php.visit f root visitors).outcome, (Php.visit f root visitors).visitors)
  | script f items => (Script.findings f items, visitors)
  | manifest f => ((Manifest.extract f).2, visitors)

/-- Reads files with visitors that go on from each file to the next. -/
def Store.readFrom (visitors : List Php.Visitor) (s : Store) : List FileStep → Store
  | [] => s
  | step :: rest =>
    let met := step.meet visitors
    (s.recordAll met.1.findings).readFrom met.2 rest

/-- The store after files are read; what was found before a failure stays. -/
def Store.readAll (s : Store) (steps : List FileStep) : Store :=
  s.readFrom (Php.Visitor.ofFamilies Php.Family.all) steps

/-- In a file visitors find what they would find if it were the first, and they stay of the same
families. -/
theorem FileStep.meet_eq {visitors : List Php.Visitor}
    (h : visitors.map Php.Visitor.family = Php.Family.all) (step : FileStep) :
    (step.meet visitors).1 = step.outcome ∧
      (step.meet visitors).2.map Php.Visitor.family = Php.Family.all := by
  cases step with
  | php f root =>
    rw [meet, outcome, ← h]
    exact ⟨Php.visit_outcome f root visitors, Php.families_visit f root visitors⟩
  | script f items => exact ⟨rfl, h⟩
  | manifest f => exact ⟨rfl, h⟩

theorem Store.readFrom_eq_recordAll {visitors : List Php.Visitor}
    (h : visitors.map Php.Visitor.family = Php.Family.all) (s : Store) (steps : List FileStep) :
    s.readFrom visitors steps = s.recordAll (steps.flatMap fun step => step.outcome.findings) := by
  induction steps generalizing s visitors with
  | nil => rfl
  | cons step steps ih =>
    obtain ⟨hfound, hfamilies⟩ := step.meet_eq h
    rw [List.flatMap_cons, recordAll_append, ← ih hfamilies, readFrom, hfound]

/-- Reading files records what they find, one after the other. -/
theorem Store.readAll_eq_recordAll (s : Store) (steps : List FileStep) :
    s.readAll steps = s.recordAll (steps.flatMap fun step => step.outcome.findings) :=
  readFrom_eq_recordAll (Php.families_ofFamilies _) s steps

theorem Store.readAll_cons (s : Store) (step : FileStep) (steps : List FileStep) :
    s.readAll (step :: steps) = (s.recordAll step.outcome.findings).readAll steps := by
  rw [readAll_eq_recordAll, readAll_eq_recordAll, List.flatMap_cons, recordAll_append]

theorem Store.has_readAll {s : Store} {id : Ident} (h : s.has id) (steps : List FileStep) :
    (s.readAll steps).has id := by
  rw [readAll_eq_recordAll]
  exact has_recordAll h _

/-- A relation that files lead to was there before, or one of the files drew it. What
was registered at that moment still is. -/
theorem Store.mem_relations_readAll {s : Store} {steps : List FileStep} {r : Relation}
    (h : r ∈ (s.readAll steps).relations) :
    r ∈ s.relations ∨ ∃ step ∈ steps, ∃ (t : Store) (before : List Finding) (x : Finding)
      (rest : List Finding), step.outcome.findings = before ++ x :: rest ∧
        (t.recordAll before).Draws x r ∧
        ∀ id, (t.recordAll before).has id → (s.readAll steps).has id := by
  induction steps generalizing s with
  | nil => exact Or.inl h
  | cons step steps ih =>
    rw [readAll_cons] at h ⊢
    rcases ih h with hrest | ⟨later, hlater, hdrawn⟩
    · rcases mem_relations_recordAll hrest with hs | ⟨before, x, rest, hsplit, hdraws⟩
      · exact Or.inl hs
      · refine Or.inr ⟨step, List.mem_cons_self, s, before, x, rest, hsplit, hdraws, ?_⟩
        intro id hid
        have hfile : (s.recordAll step.outcome.findings).has id := by
          rw [hsplit, recordAll_append]
          exact has_recordAll hid _
        exact has_readAll hfile steps
    · exact Or.inr ⟨later, List.mem_cons_of_mem _ hlater, hdrawn⟩

end PluginAtlas
