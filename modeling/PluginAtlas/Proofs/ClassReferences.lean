import PluginAtlas.Proofs.NameResolution
import PluginAtlas.Proofs.RegisteredEnds

/-!
# References to classes

A class is registered under an identifier made from its name in the scope of the
declaration. A clause of another class, or a static call, refers to it from another scope
and mostly from another file, by any of the spellings that the rules of names allow. The
two scopes know nothing of each other. Still, a reference that means a declared class gets
the identifier under which that class is registered, so its relation does not dangle. The
exception is a name that begins like an imported function or constant whose mark stands on a
clause of its own: the scope takes that import for a class, and the reference goes astray.

## Main definitions

* `Entry`: a node as a walk enters it.
* `WellScoped`: files to which the rules of names apply.
* `Declares`, `RefersTo`, `Means`: a declaration, a reference, and what it means.
* `IsTakenFor`, `IsUnshadowed`: what a scope takes a name for, and where that is what it means.
* `relationsOfKind`: the relations of one kind among findings.

## Main results

* `Entry.reached`: an extraction that does not fail finds what the rules find at a node.
* `Declares.exists_entity`, `RefersTo.exists_relation`: what the rules find at a declaration
  and at a reference.
* `Entry.exists_owner`: where a reference starts from is registered.
* `references_land_on_declarations`: references meet the classes that they mean.
* `references_miss_under_function`: they do not behind the import of a function.
-/

namespace PluginAtlas.Php

open Text (segments joined)

/-! ### Nodes that an extraction enters -/

/-- A node as a walk enters it, with the steps before and after. -/
structure Entry (root : Tree) where
  done : List (List Tree × Step)
  trail : List Tree
  visit : Visit
  rest : List (List Tree × Step)
  split : Walk.trace root = done ++ (trail, .enter visit) :: rest

namespace Entry

variable {root : Tree} {f : SourceFile}

/-- The steps up to the node, entering it included. -/
def seen (e : Entry root) : List (List Tree × Step) := e.done ++ [(e.trail, .enter e.visit)]

/-- How far the extraction is before the node. -/
def before (e : Entry root) (f : SourceFile) : Progress :=
  Walk.after (Progress.step Family.all f) {} e.done

/-- The scope in which the rules are applied to the node. -/
def scope (e : Entry root) (f : SourceFile) : Scope := (e.before f).scope.enter f e.visit.tree

/-- What the rules find at the node. -/
def outcome (e : Entry root) (f : SourceFile) : Outcome :=
  findAt Family.all f (e.scope f) e.visit

/-- There is an entry for every node of the tree. -/
theorem exists_of_isTrail {t : Tree} {above : List Tree} (h : root.IsTrail (t :: above)) :
    ∃ e : Entry root, e.trail = t :: above ∧ e.visit.tree = t := by
  obtain ⟨v, hv⟩ := Walk.isTrail_iff_mem_trace.mp h
  obtain ⟨done, rest, hsplit⟩ := List.append_of_mem hv
  obtain ⟨outer, heq⟩ := Walk.exists_trail_of_mem hv
  exact ⟨⟨done, t :: above, v, rest, hsplit⟩, rfl, (List.cons.inj heq).1.symm⟩

theorem mem_trace (e : Entry root) : (e.trail, Step.enter e.visit) ∈ Walk.trace root := by
  rw [e.split]
  exact List.mem_append_right _ List.mem_cons_self

theorem exists_above (e : Entry root) :
    ∃ above, e.trail = e.visit.tree :: above ∧ root.IsTrail (e.visit.tree :: above) := by
  obtain ⟨above, heq⟩ := Walk.exists_trail_of_mem e.mem_trace
  exact ⟨above, heq, heq ▸ Walk.isTrail_of_mem e.mem_trace⟩

end Entry

section Reached

variable {families : List Family} {f : SourceFile}

/-- A failure lasts. -/
theorem failure_eq_none_of_after {p : Progress} {steps : List (List Tree × Step)}
    (h : (Walk.after (Progress.step families f) p steps).failure = none) : p.failure = none := by
  induction steps generalizing p with
  | nil => exact h
  | cons entry steps ih => exact Progress.failure_eq_none_of_step (ih h)

/-- What was found stays found. -/
theorem found_subset_after (families : List Family) (f : SourceFile) (p : Progress)
    (steps : List (List Tree × Step)) :
    p.found ⊆ (Walk.after (Progress.step families f) p steps).found := by
  induction steps generalizing p with
  | nil => exact List.Subset.refl _
  | cons entry steps ih =>
    refine List.Subset.trans ?_ (ih (p.step families f entry.2))
    rcases Progress.found_step families f p entry.2 with hsame | ⟨v, -, -, hnew⟩
    · rw [hsame]
      exact List.Subset.refl _
    · rw [hnew]
      exact List.subset_cons_self _ _

end Reached

namespace Entry

variable {root : Tree} {f : SourceFile}

/-- An extraction that comes as far as a node finds what the rules find there. -/
theorem findings_subset (e : Entry root) (hbefore : (e.before f).failure = none) :
    (e.outcome f).findings ⊆ (extract Family.all f root).findings := by
  rw [extract_eq, e.split, Walk.after_append, Walk.after_cons, ← before,
    Progress.step_enter hbefore]
  intro x hx
  refine List.mem_flatten.mpr ⟨(e.outcome f).findings, List.mem_reverse.mpr ?_, hx⟩
  exact found_subset_after Family.all f _ e.rest List.mem_cons_self

/-- An extraction that does not fail applies the rules to every node without a failure, and
finds what they find. -/
theorem reached (e : Entry root) (hok : (extract Family.all f root).failure = none) :
    (e.before f).failure = none ∧ (e.outcome f).failure = none ∧
      (e.outcome f).findings ⊆ (extract Family.all f root).findings := by
  rw [extract_eq, e.split, Walk.after_append, Walk.after_cons, ← before] at hok
  have hnode := failure_eq_none_of_after hok
  have hbefore : (e.before f).failure = none := Progress.failure_eq_none_of_step hnode
  rw [Progress.step_enter hbefore] at hnode
  exact ⟨hbefore, hnode, e.findings_subset hbefore⟩

theorem isLexical (e : Entry root) (hok : (e.before f).failure = none) :
    IsLexical f e.trail (e.scope f) := by
  obtain ⟨above, htrail, hlexical⟩ := (scope_invariant Family.all f root).at_enter e.split
  rw [htrail]
  exact (hlexical hok).enter

end Entry

/-! ### Relations at a node -/

/-- The relations of one kind among findings, in order. -/
def relationsOfKind (kind : RelationKind) (xs : List Finding) : List Relation :=
  xs.filterMap fun
    | .relation r => if r.kind = kind then some r else none
    | _ => none

theorem relationsOfKind_append (kind : RelationKind) (xs ys : List Finding) :
    relationsOfKind kind (xs ++ ys) = relationsOfKind kind xs ++ relationsOfKind kind ys :=
  List.filterMap_append

theorem relationsOfKind_entity (kind : RelationKind) (e : Entity) (xs : List Finding) :
    relationsOfKind kind (.entity e :: xs) = relationsOfKind kind xs := rfl

theorem relationsOfKind_map {kind drawn : RelationKind} {rs : List Relation}
    (h : ∀ r ∈ rs, r.kind = drawn) :
    relationsOfKind kind (rs.map .relation) = if drawn = kind then rs else [] := by
  induction rs with
  | nil => simp [relationsOfKind]
  | cons r rs ih =>
    obtain ⟨hr, hrs⟩ := List.forall_mem_cons.mp h
    have htail := ih hrs
    simp only [relationsOfKind, List.map_cons, List.filterMap_cons, hr] at htail ⊢
    by_cases heq : drawn = kind <;> simp [heq] at htail ⊢ <;> exact htail

theorem mem_of_relationsOfKind {kind : RelationKind} {xs : List Finding} {r : Relation}
    (h : r ∈ relationsOfKind kind xs) : Finding.relation r ∈ xs := by
  obtain ⟨x, hx, hr⟩ := List.mem_filterMap.mp h
  cases x with
  | relation r' =>
    simp only [Option.ite_none_right_eq_some, Option.some.injEq] at hr
    exact hr.2 ▸ hx
  | entity e => cases hr
  | relationIfKnown r' => cases hr

section Draw

variable {f : SourceFile} {s : Scope} {v : Visit}

/-- The relations to the classes of a clause are drawn in the order of the names, each to
the class that its name means. -/
theorem classRelations_findings {source : Ident} {kind : RelationKind} {names : List String}
    (hok : (classRelations s source kind names).failure = none) :
    ∃ rs : List Relation, (classRelations s source kind names).findings = rs.map .relation ∧
      (∀ r ∈ rs, r.kind = kind) ∧
      ∀ (i : Nat) (name : String), names[i]? = some name → ∃ target, s.classId name = .ok target ∧
        rs[i]? = some (Relation.between source kind target kind.word) := by
  induction names with
  | nil => exact ⟨[], rfl, by simp, by simp⟩
  | cons name names ih =>
    rw [classRelations, List.map_cons, Outcome.sequence] at hok ⊢
    obtain ⟨hfirst, hrest, hall⟩ := Outcome.of_followedBy hok
    rw [hall]
    cases hname : s.classId name with
    | error failure => simp [hname, Outcome.attempt, Outcome.failed] at hfirst
    | ok target =>
      obtain ⟨rs, hfindings, hkinds, htargets⟩ := ih hrest
      refine ⟨Relation.between source kind target kind.word :: rs, ?_, ?_, ?_⟩
      · rw [List.map_cons, ← hfindings]
        rfl
      · exact List.forall_mem_cons.mpr ⟨rfl, hkinds⟩
      · intro i other hother
        cases i with
        | zero =>
          obtain rfl := Option.some.inj hother
          exact ⟨target, hname, rfl⟩
        | succ i => exact htargets i other hother

/-- At a class only the rules of declarations apply. -/
theorem findAt_classLike (hkind : v.tree.kind ∈ classLikeKinds) :
    findAt Family.all f s v = declarations f s v := by
  simp only [classLikeKinds, List.mem_cons, List.not_mem_nil, or_false] at hkind
  rcases hkind with h | h | h | h <;>
    simp [findAt, Family.all, Family.apply, Outcome.sequence, callables, hooks, storage,
      storageAccess?, entryPoints, includes, isIncludeKind, h]

/-- At a static call only the rules of callables apply. -/
theorem findAt_scopedCall (hkind : v.tree.kind = "scoped_call_expression") :
    findAt Family.all f s v = staticCall f s v.tree := by
  simp [findAt, Family.all, Family.apply, Outcome.sequence, declarations, declaredKind?, callables,
    hooks, storage, storageAccess?, entryPoints, includes, isIncludeKind, hkind]

/-- At a class with a name, the relations of the two kinds start at the class and follow
the names of the two clauses. -/
theorem findAt_classLike_relations (hkind : v.tree.kind ∈ classLikeKinds)
    (hname : Scope.nameOf f v.tree ≠ "")
    (hclass : s.currentClass? = some (Scope.nameOf f v.tree))
    (hok : (findAt Family.all f s v).failure = none) :
    ∃ e, Finding.entity e ∈ (findAt Family.all f s v).findings ∧
      (∀ (i : Nat) (name : String),
        (declaredNames f (v.tree.ofKind? "base_clause"))[i]? = some name →
        ∃ target, s.classId name = .ok target ∧
          (relationsOfKind .extends (findAt Family.all f s v).findings)[i]? =
            some (Relation.between e.id .extends target RelationKind.extends.word)) ∧
      ∀ (i : Nat) (name : String),
        (declaredNames f (v.tree.ofKind? "class_interface_clause"))[i]? = some name →
        ∃ target, s.classId name = .ok target ∧
          (relationsOfKind .implements (findAt Family.all f s v).findings)[i]? =
            some (Relation.between e.id .implements target RelationKind.implements.word) := by
  rw [findAt_classLike hkind] at hok ⊢
  obtain ⟨-, e, -, -, -, hparents, hcontracts, hfindings⟩ :=
    declarations_findings hkind hname hclass hok
  obtain ⟨parents, hparents, hextends, hparent⟩ := classRelations_findings hparents
  obtain ⟨contracts, hcontracts, himplements, hcontract⟩ := classRelations_findings hcontracts
  rw [hfindings, hparents, hcontracts]
  refine ⟨e, List.mem_cons_self, ?_, ?_⟩
  -- Each clause draws its own kind of relation, so it makes up the relations of that kind.
  · rw [relationsOfKind_entity, relationsOfKind_append, relationsOfKind_map hextends,
      relationsOfKind_map himplements, if_pos rfl, if_neg (by decide), List.append_nil]
    exact hparent
  · rw [relationsOfKind_entity, relationsOfKind_append, relationsOfKind_map hextends,
      relationsOfKind_map himplements, if_neg (by decide), if_pos rfl, List.nil_append]
    exact hcontract

end Draw

/-! ### Declarations and references -/

/-- A file that is read to its end, with namespaces side by side. -/
structure WellScoped (f : SourceFile) (root : Tree) : Prop where
  ok : (extract Family.all f root).failure = none
  notNested : NamespacesNotNested root

/-- A class is declared in a namespace, by a name that is no alias there. -/
structure Declares (f : SourceFile) {root : Tree} (e : Entry root) (space name : String) :
    Prop where
  classLike : e.visit.tree.kind ∈ classLikeKinds
  nameOf_eq : Scope.nameOf f e.visit.tree = name
  ne_empty : name ≠ ""
  plain : '\\' ∉ name.toList
  inForce : ∃ counted, InForce f e.trail e.seen space counted ∧
    ∀ use ∈ importedNames f counted, ¬ SameWord use.called name

/-- The node at the end of a trail refers to a class by a written name: the name is in a
clause of a class with a name, or it is the scope of a static call in code that is owned by
an entity. It is the `i`-th name that the node draws relations of a kind for. -/
inductive RefersTo (f : SourceFile) : List Tree → RelationKind → Nat → String → Prop
  | extending {t : Tree} {above : List Tree} {i : Nat} {name : String}
      (hkind : t.kind ∈ classLikeKinds) (hnamed : Scope.nameOf f t ≠ "")
      (hname : (declaredNames f (t.ofKind? "base_clause"))[i]? = some name) :
      RefersTo f (t :: above) .extends i name
  | implementing {t : Tree} {above : List Tree} {i : Nat} {name : String}
      (hkind : t.kind ∈ classLikeKinds) (hnamed : Scope.nameOf f t ≠ "")
      (hname : (declaredNames f (t.ofKind? "class_interface_clause"))[i]? = some name) :
      RefersTo f (t :: above) .implements i name
  | calling {t scope : Tree} {above : List Tree} {place : Tree × List Tree}
      (hkind : t.kind = "scoped_call_expression") (hscope : t.byField? "scope" = some scope)
      (hname : isNameKind scope.kind) (howner : ownerPlace? (t :: above) = some place)
      (hentity : IsEntityPlace f place) :
      RefersTo f (t :: above) .calls 0 (f.textOf scope)

/-- A name that is written at a node means the class with the given segments. -/
def Means (f : SourceFile) {root : Tree} (e : Entry root) (name : String) (full : List String) :
    Prop :=
  ∃ space counted, InForce f e.trail e.seen space counted ∧
    resolve (spaceSegments space) (importedClasses f counted) (segments name) = full

/-- A name that is written at a node is taken for the class with the given segments: all that
is recorded there counts as an imported class. -/
def IsTakenFor (f : SourceFile) {root : Tree} (e : Entry root) (name : String)
    (full : List String) : Prop :=
  ∃ space counted, InForce f e.trail e.seen space counted ∧
    resolve (spaceSegments space) (importedNames f counted) (segments name) = full

/-- No function or constant that is imported by a clause of its own is called like the first
segment of a name. -/
def IsUnshadowed (f : SourceFile) {root : Tree} (e : Entry root) (name : String) : Prop :=
  ∀ space counted, InForce f e.trail e.seen space counted →
    ∀ use ∈ strayImports f counted, ∀ head ∈ (segments name).head?, ¬ SameWord use.called head

section Sites

variable {f : SourceFile} {root : Tree} {e : Entry root}

theorem exists_isTakenFor (e : Entry root) (hf : WellScoped f root) (name : String) :
    ∃ full, IsTakenFor f e name full := by
  obtain ⟨counted, hforce, -⟩ := inForce_at_enter hf.notNested e.split (e.reached hf.ok).1
  exact ⟨_, _, counted, hforce, rfl⟩

/-- The scope at a node knows a class by the name that it is taken for. -/
theorem IsTakenFor.qualifyPlain_eq {name : String} {full : List String}
    (h : IsTakenFor f e name full) (hf : WellScoped f root) :
    (e.scope f).qualifyPlain name = joined full := by
  obtain ⟨space, counted, hforce, rfl⟩ := h
  exact qualifyPlain_at_enter hf.notNested e.split (e.reached hf.ok).1 hforce name

/-- Where nothing shadows it, a name is taken for what it means. -/
theorem Means.isTakenFor {name : String} {full : List String} (h : Means f e name full)
    (hname : IsUnshadowed f e name) : IsTakenFor f e name full := by
  obtain ⟨space, counted, hforce, rfl⟩ := h
  exact ⟨space, counted, hforce, resolve_importedNames (hname space counted hforce) _⟩

/-- A declared name is taken for the class in its namespace. -/
theorem Declares.isTakenFor {space name : String} (h : Declares f e space name) :
    IsTakenFor f e name (spaceSegments space ++ [name]) := by
  obtain ⟨counted, hforce, halias⟩ := h.inForce
  refine ⟨space, counted, hforce, ?_⟩
  rw [Text.segments_of_not_mem h.plain, resolve_singleton halias]

/-- A declaration is found as an entity whose identifier is made from the full name. -/
theorem Declares.exists_entity {space name : String} (h : Declares f e space name)
    (hf : WellScoped f root) :
    ∃ entity, Finding.entity entity ∈ (e.outcome f).findings ∧ entity.label = name ∧
      declaredKind? e.visit.tree.kind = some entity.kind ∧
      entity.id = Ident.ofClass (joined (spaceSegments space ++ [name])) := by
  obtain ⟨hbefore, hok, -⟩ := e.reached hf.ok
  obtain ⟨above, htrail, -⟩ := e.exists_above
  have hlexical := htrail ▸ e.isLexical hbefore
  have hnamed : Scope.nameOf f e.visit.tree ≠ "" := by
    rw [h.nameOf_eq]
    exact h.ne_empty
  rw [Entry.outcome, findAt_classLike h.classLike] at hok ⊢
  obtain ⟨-, entity, hkind, hlabel, hid, -, -, hfindings⟩ := declarations_findings h.classLike
    hnamed (hlexical.currentClass?_of_classLike h.classLike hnamed) hok
  rw [h.nameOf_eq] at hlabel hid
  rw [h.isTakenFor.qualifyPlain_eq hf] at hid
  refine ⟨entity, ?_, hlabel, hkind, hid⟩
  rw [hfindings]
  exact List.mem_cons_self

theorem exists_id_of_isEntityPlace {place : Tree × List Tree} (h : IsEntityPlace f place) :
    ∃ id, (callableAt f place).id = some id := by
  rcases h with ⟨hkind, -⟩ | ⟨hkind, -, howner⟩ | ⟨hkind, -⟩
  · exact ⟨_, by rw [callableAt, if_pos hkind]⟩
  · obtain ⟨owner, howner⟩ := Option.isSome_iff_exists.mp howner
    exact ⟨_, by rw [callableAt, if_neg (by rw [hkind]; decide), if_pos hkind, howner]; rfl⟩
  · exact ⟨_, by rw [callableAt_of_closure hkind]⟩

/-- A name that is no word for the class around it is resolved as it is written. -/
theorem qualify_of_not_relative {s : Scope} {name : String} (h : isRelativeScope name = false) :
    s.qualify name = .ok (s.qualifyPlain name) := by
  have hself : Scope.isSelfWord name = false := by
    simp only [isRelativeScope, Scope.isSelfWord] at h ⊢
    simp_all
  simp only [Scope.qualify, hself]

theorem classId_of_not_relative {s : Scope} {name : String} (h : isRelativeScope name = false) :
    s.classId name = .ok (Ident.ofClass (s.qualifyPlain name)) := by
  rw [Scope.classId, qualify_of_not_relative h]
  rfl

/-- The nodes of a trail are registered when the file is read to its end. -/
theorem Entry.nodeRegistered (e : Entry root) (hok : (extract Family.all f root).failure = none)
    {t : Tree} {above : List Tree} (hsuffix : t :: above <:+ e.trail) :
    ∃ s, NodeRegistered f (Store.empty.recordAll (extract Family.all f root).findings) s t
      above := by
  -- The node was entered before, in a scope of its own; what it registered there stays.
  obtain ⟨outer, htrail, hroot⟩ := e.exists_above
  obtain ⟨node, hnode, rfl⟩ := Entry.exists_of_isTrail (hroot.of_suffix (htrail ▸ hsuffix))
  obtain ⟨hbefore, hnodeOk, hsubset⟩ := node.reached hok
  have hregistered := NodeRegistered.of_findAt (hnode ▸ node.isLexical hbefore) hnodeOk Store.empty
  refine ⟨node.scope f, hregistered.mono (fun id hid => ?_) (fun _ _ => rfl)⟩
  rw [Store.has_recordAll_iff] at hid ⊢
  exact hid.imp_right fun ⟨entity, hentity, hentityId⟩ => ⟨entity, hsubset hentity, hentityId⟩

/-- The callable that owns the code at a node is found, if it is an entity. -/
theorem Entry.exists_owner (e : Entry root) (hok : (extract Family.all f root).failure = none)
    {place : Tree × List Tree} (howner : ownerPlace? e.trail = some place)
    (hentity : IsEntityPlace f place) :
    ∃ entity, Finding.entity entity ∈ (extract Family.all f root).findings ∧
      (e.scope f).callerId? = some entity.id := by
  have hcaller := (e.isLexical (e.reached hok).1).callerId?_eq
  obtain ⟨id, hid⟩ := exists_id_of_isEntityPlace hentity
  have hhas := has_of_nodeRegistered (fun t above hsuffix => e.nodeRegistered hok hsuffix)
    (mem_of_ownerPlace? howner) hentity hid
  rcases Store.has_recordAll_iff.mp hhas with hempty | ⟨entity, hfound, rfl⟩
  · cases hempty
  · exact ⟨entity, hfound, by rw [hcaller, howner]; exact hid⟩

/-- At a reference the relation goes from an entity of the file to the class that the scope
knows by the name. -/
theorem RefersTo.exists_relation {kind : RelationKind} {i : Nat} {name : String}
    (h : RefersTo f e.trail kind i name) (hname : isRelativeScope name = false)
    (hf : WellScoped f root) :
    ∃ entity, Finding.entity entity ∈ (extract Family.all f root).findings ∧
      (relationsOfKind kind (e.outcome f).findings)[i]? =
        some (Relation.between entity.id kind (Ident.ofClass ((e.scope f).qualifyPlain name))
          kind.word) := by
  obtain ⟨hbefore, hok, hsubset⟩ := e.reached hf.ok
  have hlexical := e.isLexical hbefore
  have htarget := classId_of_not_relative (s := e.scope f) hname
  obtain ⟨above, htrail, -⟩ := e.exists_above
  rw [htrail] at h hlexical
  cases h with
  | extending hkind hnamed hclause =>
    obtain ⟨entity, hfound, hextends, -⟩ := findAt_classLike_relations hkind hnamed
      (hlexical.currentClass?_of_classLike hkind hnamed) hok
    obtain ⟨target, htarget', hrelation⟩ := hextends i name hclause
    obtain rfl := Except.ok.inj (htarget.symm.trans htarget')
    exact ⟨entity, hsubset hfound, hrelation⟩
  | implementing hkind hnamed hclause =>
    obtain ⟨entity, hfound, -, himplements⟩ := findAt_classLike_relations hkind hnamed
      (hlexical.currentClass?_of_classLike hkind hnamed) hok
    obtain ⟨target, htarget', hrelation⟩ := himplements i name hclause
    obtain rfl := Except.ok.inj (htarget.symm.trans htarget')
    exact ⟨entity, hsubset hfound, hrelation⟩
  | @calling _ scope _ place hkind hscope hnameKind howner hentity =>
    obtain ⟨entity, hfound, hcaller⟩ := e.exists_owner hf.ok (htrail ▸ howner) hentity
    refine ⟨entity, hfound, ?_⟩
    have hfindings : (e.outcome f).findings = [.relation (Relation.between entity.id .calls
        (Ident.ofClass ((e.scope f).qualifyPlain (f.textOf scope))) "calls")] := by
      rw [Entry.outcome, findAt_scopedCall hkind, staticCall, hcaller, hscope]
      simp [hnameKind, hname, htarget, Outcome.attempt, Outcome.found]
    rw [hfindings]
    rfl

end Sites

/-! ### References across files -/

/-- References land on declarations. One file declares a class in a namespace, by a name
that is no alias there; the same or another file refers to a class by a written name that
by the rules means exactly that one. The relation for the written name goes to the class that
the scope takes the name for. If no function or constant shadows the name, that is the entity
which the declaration is found as, and then, whatever store the two files are read into, in
whatever order and with whatever others, both ends of the relation are registered; unless
another relation has taken its identifier, the relation is in the graph. -/
theorem references_land_on_declarations {f g : SourceFile} {root root' : Tree}
    (hf : WellScoped f root) (hg : WellScoped g root')
    {declared : Entry root} {referring : Entry root'} {space name written : String}
    {kind : RelationKind} {i : Nat} (hdeclares : Declares f declared space name)
    (hrefers : RefersTo g referring.trail kind i written)
    (hwritten : isRelativeScope written = false)
    (hmeans : Means g referring written (spaceSegments space ++ [name]))
    (s : Store) (steps : List FileStep) (hfile : .php f root ∈ steps)
    (hfile' : .php g root' ∈ steps) (plugin : PluginInfo) :
    ∃ entity source full,
      .entity entity ∈ (declared.outcome f).findings ∧ entity.label = name ∧
      declaredKind? declared.visit.tree.kind = some entity.kind ∧
      (declared.outcome f).findings ⊆ (extract Family.all f root).findings ∧
      IsTakenFor g referring written full ∧
      let r := Relation.between source kind (Ident.ofClass (joined full)) kind.word
      let store := s.readAll steps
      (relationsOfKind kind (referring.outcome g).findings)[i]? = some r ∧
      (referring.outcome g).findings ⊆ (extract Family.all g root').findings ∧
      store.has source ∧ store.HasRelation r.id ∧
      (IsUnshadowed g referring written →
        r.target = entity.id ∧ store.HasEnds r ∧
        (r ∈ store.relations →
          ∃ kept ∈ (Graph.assemble store plugin).relations, { kept with id := r.id } = r)) := by
  obtain ⟨entity, hentity, hlabel, hkind, hid⟩ := hdeclares.exists_entity hf
  obtain ⟨owner, howner, hrelation⟩ := hrefers.exists_relation hwritten hg
  obtain ⟨full, htaken⟩ := exists_isTakenFor referring hg written
  rw [htaken.qualifyPlain_eq hg] at hrelation
  obtain ⟨-, -, hdeclaredFound⟩ := declared.reached hf.ok
  obtain ⟨-, -, hreferringFound⟩ := referring.reached hg.ok
  -- What one of the files finds is recorded.
  have hrecorded : ∀ {h : SourceFile} {t : Tree} {x : Finding}, .php h t ∈ steps →
      x ∈ (extract Family.all h t).findings →
        x ∈ steps.flatMap fun step => step.outcome.findings :=
    fun hstep hx => List.mem_flatMap.mpr ⟨_, hstep, hx⟩
  have hsource : (s.readAll steps).has owner.id := by
    rw [Store.readAll_eq_recordAll]
    exact Store.has_recordAll_of_mem (hrecorded hfile' howner)
  have htarget : (s.readAll steps).has entity.id := by
    rw [Store.readAll_eq_recordAll]
    exact Store.has_recordAll_of_mem (hrecorded hfile (hdeclaredFound hentity))
  refine ⟨entity, owner.id, full, hentity, hlabel, hkind, hdeclaredFound, htaken, hrelation,
    hreferringFound, hsource, ?_, fun hfree => ?_⟩
  · have hdrawn := hreferringFound (mem_of_relationsOfKind (List.mem_of_getElem? hrelation))
    rw [Store.readAll_eq_recordAll]
    exact Store.hasRelation_recordAll_of_mem (hrecorded hfile' hdrawn)
  · -- The scope knows the class by one name only, and it is the one that is meant.
    have hmeant : joined full = joined (spaceSegments space ++ [name]) := by
      rw [← htaken.qualifyPlain_eq hg, (hmeans.isTakenFor hfree).qualifyPlain_eq hg]
    rw [hmeant, ← hid]
    exact ⟨rfl, ⟨hsource, htarget⟩, fun hr =>
      Graph.exists_mem_assemble hr ⟨hsource, htarget⟩ plugin⟩

/-- A class `C` in a namespace `N`, in a text that holds just these names. -/
def declaredClass : Tree :=
  .node "class_declaration" true 1 2 none [.node "name" true 1 2 (some "name") []]

@[inherit_doc declaredClass]
def declaringNamespace : Tree :=
  .node "namespace_definition" true 0 1 none [.node "namespace_name" true 0 1 (some "name") []]

@[inherit_doc declaredClass]
def declaringProgram : Tree := .node "program" true 0 2 none [declaringNamespace, declaredClass]

@[inherit_doc declaredClass]
def declaringFile : SourceFile := { path := "/p/c.php", source := "NC" }

@[inherit_doc declaredClass]
def declaredEntry : Entry declaringProgram :=
  ⟨(Walk.trace declaringProgram).take 5, [declaredClass, declaringProgram],
    ⟨declaredClass, some declaringNamespace⟩, (Walk.trace declaringProgram).drop 6, rfl⟩

/-- A class `E` outside namespaces that extends `d`, after `N\C` was imported as `D`. -/
def extendingClass : Tree :=
  .node "class_declaration" true 4 6 none
    [.node "name" true 4 5 (some "name") [],
      .node "base_clause" true 5 6 none [.node "name" true 5 6 none []]]

@[inherit_doc extendingClass]
def importingDeclaration : Tree :=
  .node "namespace_use_declaration" true 0 4 none
    [.node "namespace_use_clause" true 0 4 none
      [.node "qualified_name" true 0 3 none [],
        .node "namespace_aliasing_clause" true 3 4 none [.node "name" true 3 4 none []]]]

@[inherit_doc extendingClass]
def extendingProgram : Tree :=
  .node "program" true 0 6 none [importingDeclaration, extendingClass]

@[inherit_doc extendingClass]
def extendingFile : SourceFile := { path := "/p/e.php", source := "N\\CDEd" }

@[inherit_doc extendingClass]
def extendingEntry : Entry extendingProgram :=
  ⟨(Walk.trace extendingProgram).take 11, [extendingClass, extendingProgram],
    ⟨extendingClass, some importingDeclaration⟩, (Walk.trace extendingProgram).drop 12, rfl⟩

/-- The class that is extended under an alias is the one that the other file declares. -/
theorem references_land_on_declarations_alias :
    let store := Store.empty.readAll
      [.php extendingFile extendingProgram, .php declaringFile declaringProgram]
    Declares declaringFile declaredEntry "N" "C" ∧
    RefersTo extendingFile extendingEntry.trail .extends 0 "d" ∧
    Means extendingFile extendingEntry "d" ["N", "C"] ∧
    IsUnshadowed extendingFile extendingEntry "d" ∧
    ∃ kept ∈ (Graph.assemble store default).relations, kept.kind = .extends ∧
      kept.source = Ident.ofClass "E" ∧ kept.target = Ident.ofClass "N\\C" := by
  intro store
  have hf : WellScoped declaringFile declaringProgram := ⟨by decide +kernel, by decide +kernel⟩
  have hg : WellScoped extendingFile extendingProgram := ⟨by decide +kernel, by decide +kernel⟩
  have hdeclares : Declares declaringFile declaredEntry "N" "C" := by
    have hlast : LastNamespace declaredEntry.seen declaringNamespace [declaringProgram]
        (declaredEntry.seen.drop 2) :=
      ⟨⟨declaredEntry.seen.take 1, ⟨_, none⟩, rfl, rfl⟩, rfl, by decide +kernel⟩
    have hspace : trimSeparators (Scope.nameOf declaringFile declaringNamespace) = "N" := by
      decide +kernel
    have hforce : InForce declaringFile declaredEntry.trail declaredEntry.seen "N"
        (declaredEntry.seen.drop 2) := by
      rw [← hspace]
      exact .inside hlast (Or.inl rfl)
    exact ⟨by decide, by decide +kernel, by decide, by decide, _, hforce, by decide +kernel⟩
  have hrefers : RefersTo extendingFile extendingEntry.trail .extends 0 "d" :=
    .extending (by decide) (by decide +kernel) (by decide +kernel)
  have hforce : InForce extendingFile extendingEntry.trail extendingEntry.seen ""
      extendingEntry.seen := .globally (by decide +kernel)
  have hmeans : Means extendingFile extendingEntry "d" ["N", "C"] :=
    ⟨"", _, hforce, by decide +kernel⟩
  have hfree : IsUnshadowed extendingFile extendingEntry "d" := by
    intro space counted hcounted
    obtain ⟨-, rfl⟩ := hcounted.unique hforce
    have hnone : strayImports extendingFile extendingEntry.seen = [] := by decide +kernel
    rw [hnone]
    simp
  refine ⟨hdeclares, hrefers, hmeans, hfree, ?_⟩
  obtain ⟨entity, source, full, -, -, -, -, -, hrelation, -, -, -, hland⟩ :=
    references_land_on_declarations hf hg hdeclares hrefers (by decide +kernel) hmeans Store.empty
      [.php extendingFile extendingProgram, .php declaringFile declaringProgram]
      (by simp) (by simp) default
  obtain ⟨-, -, hkept⟩ := hland hfree
  let r : Relation := .between (Ident.ofClass "E") .extends (Ident.ofClass "N\\C") "extends"
  have hr : (relationsOfKind .extends (extendingEntry.outcome extendingFile).findings)[0]? =
      some r := by decide +kernel
  have heq := Option.some.inj (hrelation.symm.trans hr)
  have hstored : r ∈ store.relations := by decide +kernel
  rw [heq] at hkept
  obtain ⟨kept, hmem, hcontent⟩ := hkept hstored
  refine ⟨kept, hmem, ?_, ?_, ?_⟩
  · exact congrArg Relation.kind hcontent
  · exact congrArg Relation.source hcontent
  · exact congrArg Relation.target hcontent

/-- A class `y` outside namespaces, in a text that holds just its name. -/
def plainClass : Tree :=
  .node "class_declaration" true 0 1 none [.node "name" true 0 1 (some "name") []]

@[inherit_doc plainClass]
def plainProgram : Tree := .node "program" true 0 1 none [plainClass]

@[inherit_doc plainClass]
def plainFile : SourceFile := { path := "/p/y.php", source := "y" }

@[inherit_doc plainClass]
def plainEntry : Entry plainProgram :=
  ⟨(Walk.trace plainProgram).take 1, [plainClass, plainProgram], ⟨plainClass, none⟩,
    (Walk.trace plainProgram).drop 2, rfl⟩

/-- A class `E` outside namespaces that extends `y`, after the function `X\y` was imported. -/
def misledClass : Tree :=
  .node "class_declaration" true 11 13 none
    [.node "name" true 11 12 (some "name") [],
      .node "base_clause" true 12 13 none [.node "name" true 12 13 none []]]

@[inherit_doc misledClass]
def functionImport : Tree :=
  .node "namespace_use_declaration" true 0 11 none
    [.node "namespace_use_clause" true 0 11 none
      [.node "function" false 0 8 (some "type") [], .node "qualified_name" true 8 11 none []]]

@[inherit_doc misledClass]
def misledProgram : Tree := .node "program" true 0 13 none [functionImport, misledClass]

@[inherit_doc misledClass]
def misledFile : SourceFile := { path := "/p/g.php", source := "functionX\\yEy" }

@[inherit_doc misledClass]
def misledEntry : Entry misledProgram :=
  ⟨(Walk.trace misledProgram).take 7, [misledClass, misledProgram],
    ⟨misledClass, some functionImport⟩, (Walk.trace misledProgram).drop 8, rfl⟩

/-- Behind the import of a function outside any group, a name that means a declared class is
taken for the function, and the relation is lost. -/
theorem references_miss_under_function :
    let store := Store.empty.readAll [.php plainFile plainProgram, .php misledFile misledProgram]
    (WellScoped plainFile plainProgram ∧ WellScoped misledFile misledProgram ∧
      ∀ t ∈ Walk.nodes misledProgram, t.kind ≠ "namespace_use_group") ∧
    Declares plainFile plainEntry "" "y" ∧
    RefersTo misledFile misledEntry.trail .extends 0 "y" ∧
    Means misledFile misledEntry "y" ["y"] ∧
    relationsOfKind .extends (misledEntry.outcome misledFile).findings =
      [.between (Ident.ofClass "E") .extends (Ident.ofClass "X\\y") "extends"] ∧
    store.has (Ident.ofClass "y") ∧ (Graph.assemble store default).relations = [] := by
  intro store
  refine ⟨⟨⟨by decide +kernel, by decide +kernel⟩, ⟨by decide +kernel, by decide +kernel⟩,
    by decide +kernel⟩, ⟨by decide, by decide +kernel, by decide, by decide, _,
      .globally (by decide +kernel), by decide +kernel⟩,
    .extending (by decide) (by decide +kernel) (by decide +kernel),
    ⟨"", _, .globally (by decide +kernel), by decide +kernel⟩, by decide +kernel,
    by decide +kernel, by decide +kernel⟩

end PluginAtlas.Php
