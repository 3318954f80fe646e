import PluginAtlas.Proofs.GraphSchema

/-!
# What files contribute

Files are read into one store, one after the other, and a file can be read again. What a
file adds depends on the file alone, with one exception: a hook is related to its handler
only if the handler is known at that moment. Such a relation can be told by its identifier
from all others, so it takes no other relation's place. Hence the order of files and their
repetition decide neither which entities are registered nor which other relations are
stored.

## Main definitions

* `RelationKind.IsSteady`: the kinds of relations that are drawn whatever is known.
* `Finding.IsRegular`: findings that are told apart by their identifiers.
* `Store.HasSteady`: a relation of a steady kind is stored under an identifier.

## Main results

* `FileStep.outcome_isRegular`: all findings of extractors are regular.
* `Relation.startsWith_id_iff`: the identifier of a relation shows whether it is steady.
* `Store.has_readAll_iff`, `Store.hasSteady_readAll_iff`: what is stored when files were
  read.
* `Store.readAll_order_free`: order and repetition do not matter.
-/

namespace PluginAtlas

/-! ### Regular findings -/

/-- A kind of relation that is drawn whatever is known. -/
def RelationKind.IsSteady (kind : RelationKind) : Prop := kind ≠ .triggersHandler

instance (kind : RelationKind) : Decidable kind.IsSteady := inferInstanceAs (Decidable (_ ≠ _))

/-- A relation whose identifier is made from its ends and its kind. -/
def Relation.IsKeyed (r : Relation) : Prop :=
  r.id = (Relation.between r.source r.kind r.target r.label).id

/-- A finding that shows by the kind of its relation whether it looks at what is known, and
whose relation has the identifier that its ends and its kind demand. -/
def Finding.IsRegular : Finding → Prop
  | entity _ => True
  | relation r => r.IsKeyed ∧ r.kind.IsSteady
  | relationIfKnown r => r.IsKeyed ∧ ¬ r.kind.IsSteady

namespace Finding

@[simp] theorem isRegular_entity (e : Entity) : (entity e).IsRegular := trivial

@[simp] theorem isRegular_relation {source target : Ident} {kind : RelationKind} {label : String} :
    (relation (.between source kind target label)).IsRegular ↔ kind.IsSteady :=
  ⟨fun h => h.2, fun h => ⟨rfl, h⟩⟩

@[simp] theorem isRegular_relationIfKnown {source target : Ident} {kind : RelationKind}
    {label : String} :
    (relationIfKnown (.between source kind target label)).IsRegular ↔ ¬ kind.IsSteady :=
  ⟨fun h => h.2, fun h => ⟨rfl, h⟩⟩

end Finding

namespace Script

/-- No kind of relation out of a file depends on what is known. -/
theorem isSteady_of_mem_ends {kind : RelationKind} {mark : String}
    (h : ("file_", mark) ∈ kind.ends) : kind.IsSteady := by
  rintro rfl
  simp [RelationKind.ends] at h

theorem findings_isRegular (f : SourceFile) (items : List Item) :
    (findings f items).All Finding.IsRegular := by
  refine .sequence fun o ho => ?_
  obtain ⟨item, -, rfl⟩ := List.mem_map.mp ho
  refine .attempt fun xs hxs => .found ?_
  rcases itemFindings_cases hxs with rfl | ⟨e, kind, label, rfl, -, hkind⟩
  · exact fun x hx => by cases hx
  · simp [below, isSteady_of_mem_ends hkind]

end Script

namespace Manifest

theorem extract_isRegular (f : SourceFile) : (extract f).2.All Finding.IsRegular := by
  refine extract_all (fun _ _ => Finding.isRegular_entity _) (fun _ => Finding.isRegular_entity _) ?_
  intro name kind target label hkind
  have hsteady : kind.IsSteady := by
    revert kind
    decide
  simpa using hsteady

end Manifest

namespace Php

variable {f : SourceFile} {s : Scope} {v : Visit}

theorem classRelations_isRegular {source : Ident} {kind : RelationKind} {names : List String}
    (hkind : kind.IsSteady) : (classRelations s source kind names).All Finding.IsRegular := by
  refine .sequence fun o ho => ?_
  obtain ⟨name, -, rfl⟩ := List.mem_map.mp ho
  exact .attempt fun target _ => .found (by simpa using hkind)

theorem declarations_isRegular : (declarations f s v).All Finding.IsRegular := by
  unfold declarations
  split
  · exact .nothing
  · dsimp only
    split_ifs
    · exact .nothing
    · refine .attempt fun id _ => .after (by simp) (.followedBy ?_ ?_)
      · exact classRelations_isRegular (by decide)
      · exact classRelations_isRegular (by decide)

theorem callables_isRegular : (callables f s v).All Finding.IsRegular := by
  unfold callables
  split_ifs
  · unfold methodDeclaration
    dsimp only
    split
    · exact .nothing
    · split
      · exact .nothing
      · exact .after (by simp) (.attempt fun _ _ => .found (by simp; decide))
  · unfold functionDeclaration
    refine .found ?_
    dsimp only
    split_ifs <;> simp
  · unfold staticCall
    split
    · dsimp only
      split_ifs
      · exact .nothing
      · exact .attempt fun _ _ => .found (by simp; decide)
    · exact .nothing
  · exact .nothing

theorem callbackFindings_isRegular (hook : Ident) (argument : Option Tree) :
    ∀ x ∈ callbackFindings f s hook argument, x.IsRegular := by
  intro x hx
  unfold callbackFindings at hx
  split at hx
  · cases hx
  · rcases List.mem_append.mp hx with hx | hx
    · obtain ⟨e, -, rfl⟩ := Option.map_eq_some_iff.mp (Option.mem_toList.mp hx)
      exact Finding.isRegular_entity e
    · obtain ⟨id, -, rfl⟩ := Option.map_eq_some_iff.mp (Option.mem_toList.mp hx)
      exact Finding.isRegular_relation.mpr (by decide)

/-- Only the relation from a hook to its handler looks at what is known. -/
theorem handlerFindings_isRegular (hook : Ident) (name : String) :
    ∀ x ∈ handlerFindings hook name, x.IsRegular := by
  intro x hx
  unfold handlerFindings at hx
  split at hx
  · cases hx
  · cases hx
  · obtain rfl := List.mem_singleton.mp hx
    exact Finding.isRegular_relationIfKnown.mpr (by decide)

theorem hooks_isRegular : (hooks f s v).All Finding.IsRegular := by
  unfold hooks
  split
  · exact .nothing
  · split
    · exact .nothing
    · split
      · unfold hookRegistration
        split
        · exact .nothing
        · refine .attempt fun priority _ => .found fun x hx => ?_
          rw [List.mem_cons, List.mem_append] at hx
          rcases hx with rfl | hx | hx
          · exact Finding.isRegular_entity _
          · exact callbackFindings_isRegular _ _ x hx
          · exact handlerFindings_isRegular _ _ x hx
      · refine .found fun x hx => ?_
        unfold hookTrigger at hx
        split at hx
        · cases hx
        · rcases List.mem_cons.mp hx with rfl | hx
          · exact Finding.isRegular_entity _
          · obtain ⟨caller, -, rfl⟩ := Option.map_eq_some_iff.mp (Option.mem_toList.mp hx)
            exact Finding.isRegular_relation.mpr (by decide)
      · exact .nothing

theorem storage_isRegular : (storage f s v).All Finding.IsRegular := by
  unfold storage
  split
  · exact .nothing
  · rename_i store operation key _
    refine .found fun x hx => ?_
    rcases List.mem_cons.mp hx with rfl | hx
    · exact Finding.isRegular_entity _
    · obtain ⟨caller, -, rfl⟩ := Option.map_eq_some_iff.mp (Option.mem_toList.mp hx)
      exact Finding.isRegular_relation.mpr (by cases operation <;> decide)

theorem entryPoints_isRegular : (entryPoints f s v).All Finding.IsRegular := by
  unfold entryPoints
  split
  · exact .nothing
  · split
    · exact .nothing
    · unfold restRoute
      split
      · exact .attempt fun methods _ => .found (by simp)
      · exact .nothing
    · exact .found (by simp)

theorem includes_isRegular : (includes f s v).All Finding.IsRegular :=
  includes_all (Finding.isRegular_entity _) fun _ _ => ⟨Finding.isRegular_entity _, by simp; decide⟩

theorem extract_isRegular (families : List Family) (f : SourceFile) (root : Tree) :
    (extract families f root).All Finding.IsRegular := by
  refine extract_all fun above v s _ => .sequence fun o ho => ?_
  obtain ⟨family, -, rfl⟩ := List.mem_map.mp ho
  cases family with
  | declarations => exact declarations_isRegular
  | callables => exact callables_isRegular
  | hooks => exact hooks_isRegular
  | storage => exact storage_isRegular
  | entryPoints => exact entryPoints_isRegular (s := s)
  | includes => exact includes_isRegular (s := s)

end Php

/-- All findings of extractors are regular. -/
theorem FileStep.outcome_isRegular (step : FileStep) : step.outcome.All Finding.IsRegular := by
  cases step with
  | php f root => exact Php.extract_isRegular _ f root
  | script f items => exact Script.findings_isRegular f items
  | manifest f => exact Manifest.extract_isRegular f

/-! ### Identifiers of relations -/

/-- The identifier of a relation begins as its source does. -/
theorem Relation.IsKeyed.startsWith {r : Relation} (h : r.IsKeyed) {mark : String}
    (hsource : r.source.Opens mark) : Text.startsWith ("e_" ++ mark) r.id := by
  have hid : r.id = "e_" ++ r.source.text ++ "_" ++ r.kind.word ++ "_" ++ r.target.text := h
  rw [Ident.Opens, Text.startsWith, List.isPrefixOf_iff_prefix] at hsource
  obtain ⟨rest, hrest⟩ := hsource
  rw [Text.startsWith, List.isPrefixOf_iff_prefix, hid]
  refine ⟨rest ++ ("_" ++ r.kind.word ++ "_" ++ r.target.text).toList, ?_⟩
  simp [← hrest]

/-- The kinds of relations that are drawn whatever is known do not start at hooks. -/
theorem RelationKind.IsSteady.source_mark {kind : RelationKind} (h : kind.IsSteady)
    {marks : String × String} (hmarks : marks ∈ kind.ends) :
    marks.1 ∈ ["class_", "func_", "method_", "file_", "block_"] := by
  cases kind <;> first | exact absurd rfl h | (revert marks; decide)

/-- The identifier of a relation shows whether its kind is steady: only a handler hangs
below a hook. -/
theorem Relation.startsWith_id_iff {r : Relation} (hfits : r.Fits) (hkeyed : r.IsKeyed) :
    Text.startsWith "e_hook_" r.id ↔ ¬ r.kind.IsSteady := by
  obtain ⟨marks, hmarks, hsource, -⟩ := hfits
  have hid := hkeyed.startsWith hsource
  constructor
  · intro hhook hsteady
    -- Two beginnings of one text would have to agree, but no other mark agrees with a hook's.
    have hapart : ∀ mark ∈ ["class_", "func_", "method_", "file_", "block_"],
        ¬ "e_hook_".toList <+: ("e_" ++ mark).toList ∧
          ¬ ("e_" ++ mark).toList <+: "e_hook_".toList := by decide
    obtain ⟨hlong, hshort⟩ := hapart marks.1 (hsteady.source_mark hmarks)
    rw [Text.startsWith, List.isPrefixOf_iff_prefix] at hhook hid
    rcases List.prefix_or_prefix_of_prefix hhook hid with h | h
    · exact hlong h
    · exact hshort h
  · intro hhandler
    have hkind : r.kind = .triggersHandler := Decidable.of_not_not hhandler
    rw [hkind] at hmarks
    obtain rfl := List.mem_singleton.mp hmarks
    exact hid

/-! ### What is stored -/

/-- A finding as extractors make it. -/
def Finding.IsProper (x : Finding) : Prop := x.Fits ∧ x.IsRegular

theorem FileStep.outcome_isProper (step : FileStep) : step.outcome.All Finding.IsProper :=
  fun x hx => ⟨step.outcome_fits x hx, step.outcome_isRegular x hx⟩

namespace Store

/-- A relation of a steady kind is stored under an identifier. -/
def HasSteady (s : Store) (id : String) : Prop := ∃ r ∈ s.relations, r.id = id ∧ r.kind.IsSteady

instance (s : Store) (id : String) : Decidable (s.HasSteady id) :=
  inferInstanceAs (Decidable (∃ r ∈ s.relations, r.id = id ∧ r.kind.IsSteady))

section Findings

variable {xs : List Finding} (hxs : ∀ x ∈ xs, x.IsProper)

include hxs

/-- A stored relation has the identifier that it should have, and it is steady exactly if
it was found without a look at what is known. -/
theorem isProper_of_mem {r : Relation} (h : r ∈ (empty.recordAll xs).relations) :
    r.Fits ∧ r.IsKeyed ∧ (r.kind.IsSteady → .relation r ∈ xs) := by
  -- A stored relation was drawn by a finding of one of the two sorts.
  rcases mem_relations_recordAll h with hempty | ⟨before, x, rest, hsplit, rfl | ⟨rfl, -⟩⟩
  · cases hempty
  · have hmem : .relation r ∈ xs := by simp [hsplit]
    obtain ⟨hfits, hkeyed, -⟩ := hxs _ hmem
    exact ⟨hfits, hkeyed, fun _ => hmem⟩
  · have hmem : .relationIfKnown r ∈ xs := by simp [hsplit]
    obtain ⟨hfits, hkeyed, hwaits⟩ := hxs _ hmem
    exact ⟨hfits, hkeyed, fun hsteady => absurd hsteady hwaits⟩

/-- The steady relations that are stored are those that were found. -/
theorem hasSteady_recordAll_iff {id : String} :
    (empty.recordAll xs).HasSteady id ↔ ∃ r, .relation r ∈ xs ∧ r.id = id := by
  constructor
  · rintro ⟨r, hr, rfl, hsteady⟩
    exact ⟨r, (isProper_of_mem hxs hr).2.2 hsteady, rfl⟩
  · rintro ⟨r, hr, rfl⟩
    obtain ⟨hfits, hkeyed, hsteady⟩ := hxs _ hr
    obtain ⟨stored, hstored, hid⟩ := List.mem_map.mp (hasRelation_recordAll_of_mem (s := empty) hr)
    obtain ⟨hfits', hkeyed', -⟩ := isProper_of_mem hxs hstored
    -- Whatever took the identifier is steady too, as the identifier shows it.
    refine ⟨stored, hstored, hid, Decidable.byContradiction fun hwaits => ?_⟩
    rw [← Relation.startsWith_id_iff hfits' hkeyed', hid,
      Relation.startsWith_id_iff hfits hkeyed] at hwaits
    exact hwaits hsteady

/-- Where all that was found under an identifier has one kind, that kind is stored. -/
theorem exists_kind_iff_hasSteady {id : String} {kind : RelationKind} (hkind : kind.IsSteady)
    (honly : ∀ r, .relation r ∈ xs → r.id = id → r.kind = kind) :
    (∃ r ∈ (empty.recordAll xs).relations, r.id = id ∧ r.kind = kind) ↔
      (empty.recordAll xs).HasSteady id := by
  constructor
  · rintro ⟨r, hr, hid, rfl⟩
    exact ⟨r, hr, hid, hkind⟩
  · rintro ⟨r, hr, hid, hsteady⟩
    exact ⟨r, hr, hid, honly r ((isProper_of_mem hxs hr).2.2 hsteady) hid⟩

end Findings

variable {steps : List FileStep}

theorem isProper_of_mem_flatMap (steps : List FileStep) :
    ∀ x ∈ steps.flatMap fun step => step.outcome.findings, x.IsProper := by
  intro x hx
  obtain ⟨step, -, hx⟩ := List.mem_flatMap.mp hx
  exact step.outcome_isProper x hx

/-- The entities that are registered are those that the files find. -/
theorem has_readAll_iff {id : Ident} :
    (empty.readAll steps).has id ↔
      ∃ step ∈ steps, ∃ e, .entity e ∈ step.outcome.findings ∧ e.id = id := by
  have hempty : ¬ empty.has id := by simp [empty, has]
  rw [readAll_eq_recordAll, has_recordAll_iff, or_iff_right hempty]
  simp only [List.mem_flatMap]
  constructor
  · rintro ⟨e, ⟨step, hstep, he⟩, hid⟩
    exact ⟨step, hstep, e, he, hid⟩
  · rintro ⟨step, hstep, e, he, hid⟩
    exact ⟨e, ⟨step, hstep, he⟩, hid⟩

/-- The steady relations that are stored are those that the files find. -/
theorem hasSteady_readAll_iff {id : String} :
    (empty.readAll steps).HasSteady id ↔
      ∃ step ∈ steps, ∃ r, .relation r ∈ step.outcome.findings ∧ r.id = id := by
  rw [readAll_eq_recordAll, hasSteady_recordAll_iff (isProper_of_mem_flatMap steps)]
  simp only [List.mem_flatMap]
  constructor
  · rintro ⟨r, ⟨step, hstep, hr⟩, hid⟩
    exact ⟨step, hstep, r, hr, hid⟩
  · rintro ⟨step, hstep, r, hr, hid⟩
    exact ⟨r, ⟨step, hstep, hr⟩, hid⟩

/-- Order and repetition do not matter. When the same files are read in any two orders, with
any repetitions and whether or not some of them end in a failure, the same entities are
registered and the same relations of steady kinds are stored, by their identifiers. The
later of two relations with one identifier takes the place of the earlier, with its kind;
where all that the files find under an identifier has one steady kind, it is stored with
that kind either way. -/
theorem readAll_order_free {first second : List FileStep}
    (hsame : ∀ step, step ∈ first ↔ step ∈ second) :
    let s := empty.readAll first
    let t := empty.readAll second
    (∀ id, s.has id ↔ t.has id) ∧
    (∀ id, (∃ r ∈ s.relations, r.id = id ∧ r.kind ≠ .triggersHandler) ↔
      ∃ r ∈ t.relations, r.id = id ∧ r.kind ≠ .triggersHandler) ∧
    ∀ id kind, kind ≠ .triggersHandler →
      (∀ step ∈ first, ∀ r, .relation r ∈ step.outcome.findings → r.id = id → r.kind = kind) →
        ((∃ r ∈ s.relations, r.id = id ∧ r.kind = kind) ↔
          ∃ r ∈ t.relations, r.id = id ∧ r.kind = kind) := by
  intro s t
  have hsteady : ∀ id, s.HasSteady id ↔ t.HasSteady id := by
    intro id
    simp only [s, t, hasSteady_readAll_iff, hsame]
  refine ⟨fun id => ?_, hsteady, fun id kind hkind honly => ?_⟩
  · simp only [s, t, has_readAll_iff, hsame]
  · -- The files are the same, so one kind for what the first sequence finds is one for both.
    have hone : ∀ {steps : List FileStep}, (∀ step ∈ steps, step ∈ first) → ∀ r,
        .relation r ∈ (steps.flatMap fun step => step.outcome.findings) → r.id = id →
          r.kind = kind := by
      intro steps hsteps r hr hid
      obtain ⟨step, hstep, hr⟩ := List.mem_flatMap.mp hr
      exact honly step (hsteps step hstep) r hr hid
    have hs := exists_kind_iff_hasSteady (isProper_of_mem_flatMap first) hkind
      (hone fun _ h => h)
    have ht := exists_kind_iff_hasSteady (isProper_of_mem_flatMap second) hkind
      (hone fun step h => (hsame step).mpr h)
    rw [← readAll_eq_recordAll] at hs ht
    exact (hs.trans (hsteady id)).trans ht.symm

end Store

namespace Php

/-- A class `A` and behind it a class that is called `self`, which ends the extraction, in
a text that holds just these names. -/
def brokenProgram : Tree :=
  .node "program" true 0 5 none
    [.node "class_declaration" true 0 1 none [.node "name" true 0 1 (some "name") []],
      .node "class_declaration" true 1 5 none [.node "name" true 1 5 (some "name") []]]

/-- A function `f` that calls a class, whose name fills the rest of the text. -/
def callingProgram : Tree :=
  .node "function_definition" true 0 25 none
    [.node "name" true 0 1 (some "name") [],
      .node "scoped_call_expression" true 1 25 none [.node "name" true 1 25 (some "scope") []]]

/-- A function with a name of fifteen letters that reads an option `k`. -/
def optionProgram : Tree :=
  .node "function_definition" true 0 28 none
    [.node "name" true 0 15 (some "name") [],
      .node "function_call_expression" true 15 28 none
        [.node "name" true 15 25 (some "function") [],
          .node "arguments" true 25 28 (some "arguments")
            [.node "argument" true 25 28 none [.node "string" true 25 28 none []]]]]

end Php

/-- A file that breaks off can be read before or after another, and again. -/
theorem Store.readAll_order_free_broken :
    let whole : FileStep := .php { path := "/p.php", source := "Am" } Php.classWithClosure
    let broken : FileStep := .php { path := "/q.php", source := "Aself" } Php.brokenProgram
    let s := Store.empty.readAll [whole, broken]
    let t := Store.empty.readAll [broken, whole, broken]
    broken.outcome.failure = some .endlessName ∧
    (∀ step, step ∈ [whole, broken] ↔ step ∈ [broken, whole, broken]) ∧
    s.entities.map Entity.file ≠ t.entities.map Entity.file ∧
    (∀ id, s.has id ↔ t.has id) ∧
    (∃ r ∈ s.relations, r.id = "e_class_A_has_method_method_A_m" ∧ r.kind = .hasMethod) ∧
    ∃ r ∈ t.relations, r.id = "e_class_A_has_method_method_A_m" ∧ r.kind = .hasMethod := by
  intro whole broken s t
  have hsame : ∀ step, step ∈ [whole, broken] ↔ step ∈ [broken, whole, broken] := by
    intro step
    simp only [List.mem_cons, List.not_mem_nil, or_false]
    rw [or_left_comm, or_self]
  have hs : ∃ r ∈ s.relations, r.id = "e_class_A_has_method_method_A_m" ∧ r.kind = .hasMethod := by
    decide +kernel
  obtain ⟨hentities, -, hkinds⟩ := Store.readAll_order_free hsame
  refine ⟨by decide +kernel, hsame, by decide +kernel, hentities, hs, ?_⟩
  refine (hkinds _ _ (by decide) fun step hstep r hr _ => ?_).mp hs
  have hall : ∀ step ∈ [whole, broken], (step.outcome.findings.all fun
      | .relation r => r.kind = .hasMethod
      | _ => true) = true := by decide +kernel
  simpa using List.all_eq_true.mp (hall step hstep) _ hr

-- Names can be such that relations of two steady kinds share an identifier.
example :
    let calling : FileStep :=
      .php { path := "/p.php", source := "fx_reads_data_data_read_k" } Php.callingProgram
    let option : FileStep :=
      .php { path := "/q.php", source := "f_calls_class_xget_option'k'" } Php.optionProgram
    (Store.empty.readAll [calling, option]).relations.map Relation.kind = [.readsData] ∧
      (Store.empty.readAll [option, calling]).relations.map Relation.kind = [.calls] := by
  decide +kernel

end PluginAtlas
