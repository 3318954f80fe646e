import PluginAtlas.Proofs.Contributions
import PluginAtlas.Proofs.Hazards
import PluginAtlas.Proofs.WalkSchedule

/-!
# One walk for all families

An extraction leads several families of rules through a tree at once, and they write into
one store, node by node. Since no finding depends on the store, and the scope at a node on
the file alone, the families do not see each other: one walk finds what walks for the single
families find, only in another order. What an order can decide is which of two records with
one identifier is stored, and whether a handler is known when its hook is met, but not which
entities and which steady relations are added.

## Main definitions

* `Php.visitsOf`: the nodes of a walk with the scopes that hold inside them.
* `Store.relation?`: the relation that is stored under an identifier.
* `Store.GainsEntity`, `Store.GainsSteady`: what a later store has and an earlier has not.

## Main results

* `Php.extract_eq_sequence`: an extraction as a sequence of outcomes.
* `Php.mem_extract_iff`: what several families find, one of them finds.
* `Store.gainsEntity_recordAll_iff`, `Store.gainsSteady_recordAll_iff`: what findings add to
  any store.
* `Php.extract_union`: one walk adds what single walks add.
-/

namespace PluginAtlas

/-! ### Extractions as sequences -/

namespace Php

/-- The nodes that steps enter, each with the scope that holds inside it. -/
def Scope.visits (f : SourceFile) (s : Scope) : List Step → List (Scope × Visit)
  | [] => []
  | .enter v :: rest => (s.enter f v.tree, v) :: visits f (s.enter f v.tree) rest
  | .leave v :: rest => visits f (s.leave v.tree) rest

/-- The nodes of a walk, each with the scope that holds inside it. -/
def visitsOf (f : SourceFile) (root : Tree) : List (Scope × Visit) :=
  Scope.visits f {} (root.schedule none)

/-- What was found up to a place of a walk. -/
def Progress.outcome (p : Progress) : Outcome := ⟨p.found.reverse.flatten, p.failure⟩

section Steps

variable {families : List Family} {f : SourceFile} {p : Progress}

theorem Progress.foldl_step_of_failure {failure : Failure} (h : p.failure = some failure)
    (steps : List Step) : steps.foldl (Progress.step families f) p = p := by
  induction steps with
  | nil => rfl
  | cons step rest ih =>
    have hstay : p.step families f step = p := by cases step <;> simp [Progress.step, h]
    rw [List.foldl_cons, hstay, ih]

/-- Steps add what the families find at the nodes that are entered. -/
theorem Progress.outcome_foldl_step (h : p.failure = none) (steps : List Step) :
    (steps.foldl (Progress.step families f) p).outcome =
      .after p.found.reverse.flatten
        (.sequence ((p.scope.visits f steps).map fun visit =>
          findAt families f visit.1 visit.2)) := by
  induction steps generalizing p with
  | nil => simp [Scope.visits, Outcome.sequence, Outcome.after, Outcome.nothing, outcome, h]
  | cons step rest ih =>
    cases step with
    | leave v =>
      have hrest := ih (p := { p with scope := p.scope.leave v.tree }) h
      rw [List.foldl_cons, step_leave h, hrest]
      rfl
    | enter v =>
      rw [List.foldl_cons, step_enter h, Scope.visits, List.map_cons, Outcome.sequence]
      -- a failure here keeps the steps behind it from adding anything
      cases hhere : (findAt families f (p.scope.enter f v.tree) v).failure with
      | some failure =>
        rw [foldl_step_of_failure rfl]
        simp [outcome, Outcome.followedBy, Outcome.after, hhere]
      | none =>
        rw [ih rfl]
        simp [Outcome.followedBy, Outcome.after, hhere]

end Steps

/-- An extraction is what the families find at one node after the other, up to the first
failure. -/
theorem extract_eq_sequence (families : List Family) (f : SourceFile) (root : Tree) :
    extract families f root =
      .sequence ((visitsOf f root).map fun visit => findAt families f visit.1 visit.2) := by
  rw [extract_eq_fold, Walk.fold_eq_foldl]
  exact Progress.outcome_foldl_step rfl _

theorem findAt_singleton (family : Family) (f : SourceFile) (s : Scope) (v : Visit) :
    findAt [family] f s v = family.apply f s v :=
  Outcome.followedBy_nothing _

/-- A family that does not fail alone fails at no node. -/
theorem apply_failure_of_extract {family : Family} {f : SourceFile} {root : Tree}
    (hok : (extract [family] f root).failure = none) {visit : Scope × Visit}
    (hvisit : visit ∈ visitsOf f root) : (family.apply f visit.1 visit.2).failure = none := by
  rw [extract_eq_sequence] at hok
  have hhere := (Outcome.of_mem_sequence hok (List.mem_map_of_mem hvisit)).1
  rwa [findAt_singleton] at hhere

section Together

variable {families : List Family} {f : SourceFile} {root : Tree}
  (hok : ∀ family ∈ families, (extract [family] f root).failure = none)

include hok

theorem findAt_failure_of_alone {visit : Scope × Visit} (hvisit : visit ∈ visitsOf f root) :
    (findAt families f visit.1 visit.2).failure = none := by
  refine Outcome.failure_sequence_eq_none fun o ho => ?_
  obtain ⟨family, hfamily, rfl⟩ := List.mem_map.mp ho
  exact apply_failure_of_extract (hok family hfamily) hvisit

/-- Families none of which fails alone do not fail together. -/
theorem extract_failure_of_alone : (extract families f root).failure = none := by
  rw [extract_eq_sequence]
  refine Outcome.failure_sequence_eq_none fun o ho => ?_
  obtain ⟨visit, hvisit, rfl⟩ := List.mem_map.mp ho
  exact findAt_failure_of_alone hok hvisit

/-- What families find together is what they find at the single nodes. -/
theorem mem_extract_iff_exists_visit {x : Finding} :
    x ∈ (extract families f root).findings ↔
      ∃ visit ∈ visitsOf f root, ∃ family ∈ families,
        x ∈ (family.apply f visit.1 visit.2).findings := by
  have hwhole := extract_failure_of_alone hok
  rw [extract_eq_sequence] at hwhole ⊢
  rw [Outcome.findings_sequence hwhole]
  constructor
  · intro hx
    obtain ⟨o, ho, hx⟩ := List.mem_flatMap.mp hx
    obtain ⟨visit, hvisit, rfl⟩ := List.mem_map.mp ho
    rw [findAt, Outcome.findings_sequence (findAt_failure_of_alone hok hvisit)] at hx
    obtain ⟨o, ho, hx⟩ := List.mem_flatMap.mp hx
    obtain ⟨family, hfamily, rfl⟩ := List.mem_map.mp ho
    exact ⟨visit, hvisit, family, hfamily, hx⟩
  · rintro ⟨visit, hvisit, family, hfamily, hx⟩
    refine List.mem_flatMap.mpr ⟨_, List.mem_map_of_mem hvisit, ?_⟩
    have hhere := findAt_failure_of_alone hok hvisit
    exact (Outcome.of_mem_sequence hhere (List.mem_map_of_mem hfamily)).2 hx

/-- What families find together, one of them finds alone. -/
theorem mem_extract_iff {x : Finding} :
    x ∈ (extract families f root).findings ↔
      ∃ family ∈ families, x ∈ (extract [family] f root).findings := by
  -- the case of a single family, to be read from right to left
  have halone : ∀ family ∈ families, (x ∈ (extract [family] f root).findings ↔
      ∃ visit ∈ visitsOf f root, x ∈ (family.apply f visit.1 visit.2).findings) := by
    intro family hfamily
    have hone : ∀ other ∈ [family], (extract [other] f root).failure = none := by
      simpa using hok family hfamily
    rw [mem_extract_iff_exists_visit hone]
    simp
  rw [mem_extract_iff_exists_visit hok]
  constructor
  · rintro ⟨visit, hvisit, family, hfamily, hx⟩
    exact ⟨family, hfamily, (halone family hfamily).mpr ⟨visit, hvisit, hx⟩⟩
  · rintro ⟨family, hfamily, hx⟩
    obtain ⟨visit, hvisit, hx⟩ := (halone family hfamily).mp hx
    exact ⟨visit, hvisit, family, hfamily, hx⟩

end Together

/-- All findings of an extraction are as extractors make them. -/
theorem extract_isProper (families : List Family) (f : SourceFile) (root : Tree) :
    (extract families f root).All Finding.IsProper :=
  fun x hx => ⟨extract_fits families f root x hx, extract_isRegular families f root x hx⟩

end Php

/-! ### What findings add to a store -/

namespace Store

/-- The relation that is stored under an identifier. -/
def relation? (s : Store) (id : String) : Option Relation :=
  s.relations.find? fun r => r.id = id

/-- An entity is registered later and was not so before. -/
def GainsEntity (before after : Store) (id : Ident) : Prop := after.has id ∧ ¬ before.has id

/-- A relation of a steady kind is stored later under an identifier, and none was so
before. -/
def GainsSteady (before after : Store) (id : String) : Prop :=
  after.HasSteady id ∧ ¬ before.HasSteady id

variable {s : Store} {xs : List Finding} {r : Relation} {id : String}

theorem find?_upsert (r : Relation) (id : String) (l : List Relation) :
    (upsert r l).find? (fun r' => r'.id = id) =
      if r.id = id then some r else l.find? fun r' => r'.id = id := by
  induction l with
  | nil => by_cases hid : r.id = id <;> simp [upsert, hid]
  | cons first rest ih =>
    rw [upsert]
    by_cases hfirst : first.id = r.id
    · by_cases hid : r.id = id <;> simp [hfirst, hid]
    · by_cases hid : r.id = id
      · have hother : first.id ≠ id := fun h => hfirst (h.trans hid.symm)
        rw [if_neg hfirst, List.find?_cons_of_neg (by simpa using hother), ih, if_pos hid,
          if_pos hid]
      · rw [if_neg hfirst, if_neg hid, List.find?_cons, List.find?_cons, ih, if_neg hid]

theorem relation?_addRelation (s : Store) (r : Relation) (id : String) :
    (s.addRelation r).relation? id = if r.id = id then some r else s.relation? id :=
  find?_upsert r id s.relations

/-- Whatever the store, the relation under an identifier is the last one that was drawn. -/
theorem relation?_record (s : Store) (x : Finding) (id : String) :
    (s.record x).relation? id = s.relation? id ∨
      ∃ r, s.Draws x r ∧ (s.record x).relation? id = some r := by
  have hadd : ∀ r, (s.addRelation r).relation? id = s.relation? id ∨
      (s.addRelation r).relation? id = some r := by
    intro r
    rw [relation?_addRelation]
    split
    · exact Or.inr rfl
    · exact Or.inl rfl
  cases x with
  | entity e =>
    left
    simp [record, relation?]
  | relation r =>
    exact (hadd r).imp_right fun hstored => ⟨r, draws_relation_iff.mpr rfl, hstored⟩
  | relationIfKnown r =>
    simp only [record]
    split
    · rename_i hknown
      refine (hadd r).imp_right fun hstored => ⟨r, ?_, hstored⟩
      exact draws_relationIfKnown_iff.mpr ⟨rfl, hknown⟩
    · exact Or.inl rfl

/-- A relation that is drawn stays under its identifier, or another that is drawn takes its
place. -/
theorem relation?_recordAll (h : s.relation? id = some r) (xs : List Finding) :
    ∃ r', (s.recordAll xs).relation? id = some r' ∧
      (r' = r ∨ .relation r' ∈ xs ∨ .relationIfKnown r' ∈ xs) := by
  induction xs generalizing s r with
  | nil => exact ⟨r, h, Or.inl rfl⟩
  | cons x xs ih =>
    have hstep : ∃ r', (s.record x).relation? id = some r' ∧
        (r' = r ∨ x = .relation r' ∨ x = .relationIfKnown r') := by
      rcases relation?_record s x id with hsame | ⟨r', hdraws, hstored⟩
      · exact ⟨r, hsame.trans h, Or.inl rfl⟩
      · exact ⟨r', hstored, Or.inr (hdraws.imp_right And.left)⟩
    obtain ⟨r', hstored, horigin⟩ := hstep
    -- what is stored after this finding may be replaced by a later one
    obtain ⟨r'', hstored', horigin'⟩ := ih hstored
    refine ⟨r'', hstored', ?_⟩
    rcases horigin' with rfl | horigin' | horigin'
    · rcases horigin with rfl | rfl | rfl
      · exact Or.inl rfl
      · exact Or.inr (Or.inl List.mem_cons_self)
      · exact Or.inr (Or.inr List.mem_cons_self)
    · exact Or.inr (Or.inl (List.mem_cons_of_mem _ horigin'))
    · exact Or.inr (Or.inr (List.mem_cons_of_mem _ horigin'))

/-- Under the identifier of a relation that is found, a relation is stored that is found. -/
theorem exists_relation?_of_mem (h : .relation r ∈ xs) :
    ∃ r', (s.recordAll xs).relation? r.id = some r' ∧
      (.relation r' ∈ xs ∨ .relationIfKnown r' ∈ xs) := by
  obtain ⟨before, rest, rfl⟩ := List.append_of_mem h
  have hdrawn : ((s.recordAll before).addRelation r).relation? r.id = some r := by
    rw [relation?_addRelation, if_pos rfl]
  obtain ⟨r', hstored, horigin⟩ := relation?_recordAll hdrawn rest
  refine ⟨r', ?_, ?_⟩
  · rw [recordAll_append]
    exact hstored
  · rcases horigin with rfl | horigin | horigin
    · exact Or.inl (by simp)
    · exact Or.inl (by simp [horigin])
    · exact Or.inr (by simp [horigin])

theorem gainsEntity_recordAll_iff {id : Ident} :
    s.GainsEntity (s.recordAll xs) id ↔ (∃ e, .entity e ∈ xs ∧ e.id = id) ∧ ¬ s.has id := by
  rw [GainsEntity, has_recordAll_iff]
  constructor
  · rintro ⟨hhas | hfound, hnew⟩
    · exact absurd hhas hnew
    · exact ⟨hfound, hnew⟩
  · rintro ⟨hfound, hnew⟩
    exact ⟨Or.inr hfound, hnew⟩

/-- Findings add the steady relations among them that the store has not. A relation that
waits for its target takes the place of none of them. -/
theorem gainsSteady_recordAll_iff (hxs : ∀ x ∈ xs, x.IsProper) :
    s.GainsSteady (s.recordAll xs) id ↔
      (∃ r, .relation r ∈ xs ∧ r.id = id) ∧ ¬ s.HasSteady id := by
  rw [GainsSteady]
  refine and_congr_left fun hnew => ⟨?_, ?_⟩
  · rintro ⟨r, hr, rfl, hsteady⟩
    rcases mem_relations_recordAll hr with hold | ⟨before, x, rest, hsplit, rfl | ⟨rfl, -⟩⟩
    · exact absurd ⟨r, hold, rfl, hsteady⟩ hnew
    · exact ⟨r, by simp [hsplit], rfl⟩
    · exact absurd hsteady (hxs (.relationIfKnown r) (by simp [hsplit])).2.2
  · rintro ⟨r, hr, rfl⟩
    obtain ⟨hfits, hkeyed, hsteady⟩ := hxs _ hr
    obtain ⟨r', hstored, hfound⟩ := exists_relation?_of_mem (s := s) hr
    have hid : r'.id = r.id := by simpa using List.find?_some hstored
    refine ⟨r', List.mem_of_find?_eq_some hstored, hid, ?_⟩
    rcases hfound with hfound | hfound
    · exact (hxs _ hfound).2.2
    · -- the identifier of a handler's relation is none of a steady one
      obtain ⟨hfits', hkeyed', hwaits⟩ := hxs _ hfound
      rw [← Relation.startsWith_id_iff hfits' hkeyed', hid,
        Relation.startsWith_id_iff hfits hkeyed] at hwaits
      exact absurd hsteady hwaits

end Store

/-! ### One walk and single walks -/

namespace Php

section Gains

variable {s : Store} {families more : List Family} {f : SourceFile} {root : Tree}

/-- The entities that families add together, one of them adds alone. -/
theorem gainsEntity_extract_iff
    (hok : ∀ family ∈ families, (extract [family] f root).failure = none) {id : Ident} :
    s.GainsEntity (s.recordAll (extract families f root).findings) id ↔
      ∃ family ∈ families, s.GainsEntity (s.recordAll (extract [family] f root).findings) id := by
  simp only [Store.gainsEntity_recordAll_iff, mem_extract_iff hok]
  constructor
  · rintro ⟨⟨e, ⟨family, hfamily, he⟩, hid⟩, hnew⟩
    exact ⟨family, hfamily, ⟨e, he, hid⟩, hnew⟩
  · rintro ⟨family, hfamily, ⟨e, he, hid⟩, hnew⟩
    exact ⟨⟨e, ⟨family, hfamily, he⟩, hid⟩, hnew⟩

/-- The steady relations that families add together, one of them adds alone. -/
theorem gainsSteady_extract_iff
    (hok : ∀ family ∈ families, (extract [family] f root).failure = none) {id : String} :
    s.GainsSteady (s.recordAll (extract families f root).findings) id ↔
      ∃ family ∈ families, s.GainsSteady (s.recordAll (extract [family] f root).findings) id := by
  simp only [Store.gainsSteady_recordAll_iff (extract_isProper _ f root), mem_extract_iff hok]
  constructor
  · rintro ⟨⟨r, ⟨family, hfamily, hr⟩, hid⟩, hnew⟩
    exact ⟨family, hfamily, ⟨r, hr, hid⟩, hnew⟩
  · rintro ⟨family, hfamily, ⟨r, hr, hid⟩, hnew⟩
    exact ⟨⟨r, ⟨family, hfamily, hr⟩, hid⟩, hnew⟩

variable (hsub : families ⊆ more)
  (hmore : ∀ family ∈ more, (extract [family] f root).failure = none)

include hsub hmore

theorem gainsEntity_mono {id : Ident}
    (h : s.GainsEntity (s.recordAll (extract families f root).findings) id) :
    s.GainsEntity (s.recordAll (extract more f root).findings) id := by
  have hok : ∀ family ∈ families, (extract [family] f root).failure = none :=
    fun family hfamily => hmore family (hsub hfamily)
  obtain ⟨family, hfamily, hgain⟩ := (gainsEntity_extract_iff hok).mp h
  exact (gainsEntity_extract_iff hmore).mpr ⟨family, hsub hfamily, hgain⟩

theorem gainsSteady_mono {id : String}
    (h : s.GainsSteady (s.recordAll (extract families f root).findings) id) :
    s.GainsSteady (s.recordAll (extract more f root).findings) id := by
  have hok : ∀ family ∈ families, (extract [family] f root).failure = none :=
    fun family hfamily => hmore family (hsub hfamily)
  obtain ⟨family, hfamily, hgain⟩ := (gainsSteady_extract_iff hok).mp h
  exact (gainsSteady_extract_iff hmore).mpr ⟨family, hsub hfamily, hgain⟩

end Gains

/-- Families compose. Let several families, none of which fails on a tree when it is led
through it alone, be led through it together, starting from any store. They do not fail, and
the entities and the relations of steady kinds that they add, by identifiers, are those that
one of them adds when it starts from the same store alone. So their order does not matter,
and further families take nothing away. -/
theorem extract_union (s : Store) (f : SourceFile) (root : Tree) (families : List Family)
    (hok : ∀ family ∈ families, (extract [family] f root).failure = none) :
    let run (families : List Family) : Store := s.recordAll (extract families f root).findings
    (extract families f root).failure = none ∧
    (∀ id, s.GainsEntity (run families) id ↔ ∃ family ∈ families, s.GainsEntity (run [family]) id) ∧
    (∀ id, s.GainsSteady (run families) id ↔ ∃ family ∈ families, s.GainsSteady (run [family]) id) ∧
    (∀ others, others.Perm families →
      (∀ id, s.GainsEntity (run others) id ↔ s.GainsEntity (run families) id) ∧
      ∀ id, s.GainsSteady (run others) id ↔ s.GainsSteady (run families) id) ∧
    ∀ more, families ⊆ more → (∀ family ∈ more, (extract [family] f root).failure = none) →
      (∀ id, s.GainsEntity (run families) id → s.GainsEntity (run more) id) ∧
      ∀ id, s.GainsSteady (run families) id → s.GainsSteady (run more) id := by
  intro run
  refine ⟨extract_failure_of_alone hok, fun id => gainsEntity_extract_iff hok,
    fun id => gainsSteady_extract_iff hok, fun others hperm => ?_, fun more hsub hmore =>
      ⟨fun id => gainsEntity_mono hsub hmore, fun id => gainsSteady_mono hsub hmore⟩⟩
  -- families in another order contain each other
  have hothers : ∀ family ∈ others, (extract [family] f root).failure = none :=
    fun family hfamily => hok family (hperm.mem_iff.mp hfamily)
  have hforth : others ⊆ families := hperm.subset
  have hback : families ⊆ others := hperm.symm.subset
  exact ⟨fun id => ⟨gainsEntity_mono hforth hok, gainsEntity_mono hback hothers⟩,
    fun id => ⟨gainsSteady_mono hforth hok, gainsSteady_mono hback hothers⟩⟩

/-- A function reads an option. One family finds the function, another the option and the
relation between them, and the function is registered before. -/
theorem extract_union_optionProgram :
    let f : SourceFile := { path := "/q.php", source := "f_calls_class_xget_option'k'" }
    let reader : Ident := .ofFunction "f_calls_class_x"
    let s : Store := { entities := [{ id := reader, label := "", kind := .function }] }
    let run (families : List Family) : Store :=
      s.recordAll (extract families f optionProgram).findings
    (∀ family ∈ [Family.storage, .callables], (extract [family] f optionProgram).failure = none) ∧
    (run [.storage, .callables]).entities.map Entity.label = ["", "k"] ∧
    ¬ s.GainsEntity (run [.storage, .callables]) reader ∧
    s.GainsSteady (run [.callables, .storage]) "e_func_f_calls_class_x_reads_data_data_read_k" := by
  intro f reader s run
  have hok : ∀ family ∈ [Family.storage, .callables],
      (extract [family] f optionProgram).failure = none := by decide +kernel
  obtain ⟨-, hentity, hsteady, hperm, -⟩ := extract_union s f optionProgram _ hok
  refine ⟨hok, by decide +kernel, fun hgain => ?_, ?_⟩
  · obtain ⟨family, -, -, hnew⟩ := (hentity _).mp hgain
    exact hnew (by decide +kernel)
  · refine ((hperm [.callables, .storage] (.swap _ _ [])).2 _).mpr ((hsteady _).mpr ?_)
    exact ⟨.storage, List.mem_cons_self, by decide +kernel, by decide +kernel⟩

end Php

end PluginAtlas
