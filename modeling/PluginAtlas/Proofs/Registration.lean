import PluginAtlas.Proofs.LexicalScope
import PluginAtlas.Proofs.Recording

/-!
# What a walk has registered

The source of a relation is computed by one family of rules from the scope, while another
family registers it, earlier in the same walk. Both read the trail of the node at hand, so
they agree: once a node was entered without a failure, the class, function, method or
callback that it stands for is registered under the identifier that the scope gives it,
and stays so while the node is open.

## Main definitions

* `NamespacesOutsideClasses`: trees in which a class means the same all over its body.
* `IsEntityPlace`: a callable that becomes an entity.
* `NodeRegistered`, `Registered`: what is registered of a node, and of all open nodes.

## Main results

* `NodeRegistered.of_findAt`: the rules register the node that they are applied to.
* `registered_invariant`: the open nodes are registered all along a walk.
* `Registered.isOwner`, `Registered.has_currentClass`: the owner of the code and the class
  around a method are registered.
-/

namespace PluginAtlas.Php

/-! ### What becomes an entity -/

/-- No namespace begins and no name is imported inside a class, so that a name means the
same all over the class. -/
def NamespacesOutsideClasses (root : Tree) : Prop :=
  ∀ t above, root.IsTrail (t :: above) →
    t.kind = "namespace_definition" ∨ t.kind = "namespace_use_declaration" →
      ∀ u ∈ above, u.kind ∉ classLikeKinds

instance (root : Tree) : Decidable (NamespacesOutsideClasses root) :=
  decidable_of_iff' _ Walk.forall_isTrail_iff

/-- A call that gives an expression, up to parentheses, as the callback of a hook. -/
def RegistersCallback (f : SourceFile) (call callback : Tree) : Prop :=
  call.kind = "function_call_expression" ∧
  (functionName? f call = some "add_action" ∨ functionName? f call = some "add_filter") ∧
  (callArguments call)[1]?.bind Tree.unwrap? = some callback

/-- A closure that one of the calls around it registers as the callback of a hook. -/
def IsHookCallback (f : SourceFile) (place : Tree × List Tree) : Prop :=
  place.1.kind ∈ closureKinds ∧ ∃ call ∈ place.2, RegistersCallback f call place.1

/-- A callable that becomes an entity: a function with a name, a method with a name in a
class with a name, or the callback of a hook. -/
def IsEntityPlace (f : SourceFile) (place : Tree × List Tree) : Prop :=
  place.1.kind = "function_definition" ∧ Scope.nameOf f place.1 ≠ "" ∨
  place.1.kind = "method_declaration" ∧ Scope.nameOf f place.1 ≠ "" ∧
    (classSlots f place.2).head?.join.isSome ∨
  IsHookCallback f place

/-- What is registered of a node of a trail once its rules were applied. -/
structure NodeRegistered (f : SourceFile) (store : Store) (s : Scope) (t : Tree)
    (above : List Tree) : Prop where
  classLike : t.kind ∈ classLikeKinds → Scope.nameOf f t ≠ "" →
    Scope.isSelfWord (Scope.nameOf f t) = false ∧
      store.has (Ident.ofClass (s.qualifyPlain (Scope.nameOf f t)))
  function : t.kind = "function_definition" → Scope.nameOf f t ≠ "" →
    store.has (Ident.ofFunction (Scope.nameOf f t))
  method : t.kind = "method_declaration" → Scope.nameOf f t ≠ "" →
    ∀ owner, (classSlots f above).head?.join = some owner →
      store.has (Ident.ofMethod owner (Scope.nameOf f t))
  callback : ∀ callback, RegistersCallback f t callback → callback.kind ∈ closureKinds →
    store.has (Ident.ofClosure f.relativePath (f.lineOf callback))

/-- The scope is that of the open nodes, and what the rules find of them is registered. -/
structure Registered (f : SourceFile) (store : Store) (s : Scope) (opened : List Tree) : Prop where
  lexical : IsLexical f opened s
  nodes : ∀ t above, t :: above <:+ opened → NodeRegistered f store s t above

/-! ### Entering a node -/

section Enter

variable {f : SourceFile} {s : Scope} {v : Visit}

/-- A class is known by its own name, unless that is a word for the enclosing class. -/
theorem classId_of_currentClass? {name : String} (h : s.currentClass? = some name) :
    s.classId name =
      if Scope.isSelfWord name then .error .endlessName
      else .ok (Ident.ofClass (s.qualifyPlain name)) := by
  unfold Scope.classId Scope.qualify
  cases hself : Scope.isSelfWord name with
  | true => simp only [h, hself]; rfl
  | false => rfl

/-- What a class with a name is found to be: an entity under its own name in the scope, and
relations for its two clauses. -/
theorem declarations_findings (hkind : v.tree.kind ∈ classLikeKinds)
    (hname : Scope.nameOf f v.tree ≠ "")
    (hclass : s.currentClass? = some (Scope.nameOf f v.tree))
    (hok : (declarations f s v).failure = none) :
    Scope.isSelfWord (Scope.nameOf f v.tree) = false ∧
    ∃ e, declaredKind? v.tree.kind = some e.kind ∧ e.label = Scope.nameOf f v.tree ∧
      e.id = Ident.ofClass (s.qualifyPlain (Scope.nameOf f v.tree)) ∧
      let parents := classRelations s e.id .extends (declaredNames f (v.tree.ofKind? "base_clause"))
      let contracts := classRelations s e.id .implements
        (declaredNames f (v.tree.ofKind? "class_interface_clause"))
      parents.failure = none ∧ contracts.failure = none ∧
        (declarations f s v).findings = .entity e :: (parents.findings ++ contracts.findings) := by
  obtain ⟨kind, hdeclared⟩ : ∃ kind, declaredKind? v.tree.kind = some kind := by
    simp only [classLikeKinds, List.mem_cons, List.not_mem_nil, or_false] at hkind
    rcases hkind with h | h | h | h <;> rw [h] <;> exact ⟨_, rfl⟩
  unfold declarations at hok ⊢
  simp only [hdeclared, if_neg hname, classId_of_currentClass? hclass] at hok ⊢
  cases hself : Scope.isSelfWord (Scope.nameOf f v.tree) with
  | true => simp [hself, Outcome.attempt, Outcome.failed] at hok
  | false =>
    simp only [hself, Outcome.attempt, Outcome.after, Bool.false_eq_true, if_false] at hok ⊢
    obtain ⟨hparents, hcontracts, hfindings⟩ := Outcome.of_followedBy hok
    rw [hfindings]
    -- The findings name the entity, so they come first.
    refine ⟨trivial, _, ?_, ?_, ?_, ?_, ?_, rfl⟩
    · rfl
    · rfl
    · rfl
    · exact hparents
    · exact hcontracts

theorem methodDeclaration_registers {owner : String} (howner : s.currentClass? = some owner)
    (hname : Scope.nameOf f v.tree ≠ "") :
    ∃ e, Finding.entity e ∈ (methodDeclaration f s v).findings ∧
      e.id = Ident.ofMethod owner (Scope.nameOf f v.tree) := by
  simp only [methodDeclaration, howner, if_neg hname]
  exact ⟨_, List.mem_cons_self, rfl⟩

theorem functionDeclaration_registers (hname : Scope.nameOf f v.tree ≠ "") :
    ∃ e, Finding.entity e ∈ functionDeclaration f s v ∧
      e.id = Ident.ofFunction (Scope.nameOf f v.tree) := by
  simp only [functionDeclaration, if_neg hname]
  exact ⟨_, List.mem_cons_self, rfl⟩

theorem exists_closureEntity? {argument callback : Tree} (h : argument.unwrap? = some callback)
    (hclosure : callback.kind ∈ closureKinds) :
    ∃ e, closureEntity? f argument = some e ∧
      e.id = Ident.ofClosure f.relativePath (f.lineOf callback) := by
  have hkind : isClosureKind callback.kind = true := by
    simpa [isClosureKind, closureKinds, or_assoc] using hclosure
  simp only [closureEntity?, h, Option.bind_eq_bind, Option.bind_some, if_pos hkind]
  exact ⟨_, rfl, rfl⟩

/-- A registration that does not fail registers the closure that it is given. -/
theorem hooks_registers {callback : Tree} (hcall : RegistersCallback f v.tree callback)
    (hclosure : callback.kind ∈ closureKinds) (hok : (hooks f s v).failure = none) :
    ∃ e, Finding.entity e ∈ (hooks f s v).findings ∧
      e.id = Ident.ofClosure f.relativePath (f.lineOf callback) := by
  obtain ⟨hkind, hname, hcallback⟩ := hcall
  obtain ⟨argument, hargument, hunwrap⟩ := Option.bind_eq_some_iff.mp hcallback
  have hregistration : ∃ kind, hooks f s v = hookRegistration f s v.tree kind := by
    rcases hname with hname | hname <;>
      exact ⟨_, by simp only [hooks, hkind, hname, ne_eq, not_true_eq_false, if_false]; rfl⟩
  obtain ⟨kind, hregistration⟩ := hregistration
  rw [hregistration] at hok ⊢
  unfold hookRegistration at hok ⊢
  cases harguments : callArguments v.tree with
  | nil => simp [harguments] at hargument
  | cons first rest =>
    have hsecond : rest[0]? = some argument := by simpa [harguments] using hargument
    obtain ⟨e, hentity, hid⟩ := exists_closureEntity? (f := f) hunwrap hclosure
    simp only [harguments] at hok ⊢
    cases hpriority : integerValue f rest[1]? with
    | error failure => simp [hpriority, Outcome.attempt, Outcome.failed] at hok
    | ok priority =>
      simp only [Outcome.attempt, Outcome.found, callbackFindings, hsecond, hentity]
      exact ⟨e, by simp, hid⟩

theorem of_mem_findAt {families : List Family} (family : Family) (hmem : family ∈ families)
    (hok : (findAt families f s v).failure = none) :
    (family.apply f s v).failure = none ∧
      (family.apply f s v).findings ⊆ (findAt families f s v).findings :=
  Outcome.of_mem_sequence hok (List.mem_map.mpr ⟨family, hmem, rfl⟩)

end Enter

theorem IsLexical.currentClass?_eq {f : SourceFile} {trail : List Tree} {s : Scope}
    (h : IsLexical f trail s) : s.currentClass? = (classSlots f trail).head?.join := by
  rw [Scope.currentClass?, h.classes]

/-- In a class with a name that class is the innermost one. -/
theorem IsLexical.currentClass?_of_classLike {f : SourceFile} {s : Scope} {t : Tree}
    {above : List Tree} (h : IsLexical f (t :: above) s) (hkind : t.kind ∈ classLikeKinds)
    (hname : Scope.nameOf f t ≠ "") : s.currentClass? = some (Scope.nameOf f t) := by
  rw [h.currentClass?_eq, classSlots_cons, classSlot?, if_pos hkind, if_neg hname]
  rfl

/-- A method does not change the class stack. -/
theorem classSlots_cons_method {f : SourceFile} {t : Tree} (h : t.kind = "method_declaration")
    (above : List Tree) : classSlots f (t :: above) = classSlots f above := by
  rw [classSlots_cons, classSlot?, h]
  rfl

namespace NodeRegistered

variable {f : SourceFile} {store store' : Store} {s s' : Scope} {t : Tree} {above : List Tree}

/-- More in the store, and another scope in which classes mean the same, change
nothing. -/
theorem mono (h : NodeRegistered f store s t above) (hstore : ∀ id, store.has id → store'.has id)
    (hscope : t.kind ∈ classLikeKinds → ∀ name, s'.qualifyPlain name = s.qualifyPlain name) :
    NodeRegistered f store' s' t above where
  classLike hkind hname := by
    rw [hscope hkind]
    exact (h.classLike hkind hname).imp_right (hstore _)
  function hkind hname := hstore _ (h.function hkind hname)
  method hkind hname owner howner := hstore _ (h.method hkind hname owner howner)
  callback u hcall hclosure := hstore _ (h.callback u hcall hclosure)

/-- When all rules were applied to a node without a failure, it is registered. -/
theorem of_findAt {v : Visit} (hlexical : IsLexical f (v.tree :: above) s)
    (hok : (findAt Family.all f s v).failure = none) (store : Store) :
    NodeRegistered f (store.recordAll (findAt Family.all f s v).findings) s v.tree above where
  classLike hkind hname := by
    obtain ⟨hdeclared, hsubset⟩ := of_mem_findAt .declarations (by decide) hok
    have hclass := hlexical.currentClass?_of_classLike hkind hname
    obtain ⟨hself, e, -, -, hid, -, -, hfindings⟩ :=
      declarations_findings hkind hname hclass hdeclared
    have he : Finding.entity e ∈ (declarations f s v).findings := by
      rw [hfindings]
      exact List.mem_cons_self
    exact ⟨hself, hid ▸ Store.has_recordAll_of_mem (hsubset he)⟩
  function hkind hname := by
    obtain ⟨-, hsubset⟩ := of_mem_findAt .callables (by decide) hok
    obtain ⟨e, he, hid⟩ := functionDeclaration_registers (s := s) hname
    refine hid ▸ Store.has_recordAll_of_mem (hsubset ?_)
    simpa [Family.apply, callables, hkind, Outcome.found] using he
  method hkind hname owner howner := by
    obtain ⟨-, hsubset⟩ := of_mem_findAt .callables (by decide) hok
    have hclass : s.currentClass? = some owner := by
      rw [hlexical.currentClass?_eq, classSlots_cons_method hkind, howner]
    obtain ⟨e, he, hid⟩ := methodDeclaration_registers hclass hname
    refine hid ▸ Store.has_recordAll_of_mem (hsubset ?_)
    simpa [Family.apply, callables, hkind] using he
  callback u hcall hclosure := by
    obtain ⟨hhooks, hsubset⟩ := of_mem_findAt .hooks (by decide) hok
    obtain ⟨e, he, hid⟩ := hooks_registers hcall hclosure hhooks
    exact hid ▸ Store.has_recordAll_of_mem (hsubset he)

end NodeRegistered

/-! ### The whole walk -/

theorem enter_qualifyPlain {f : SourceFile} {s : Scope} {t : Tree} (name : String)
    (hnamespace : t.kind ≠ "namespace_definition") (huse : t.kind ≠ "namespace_use_declaration") :
    (s.enter f t).qualifyPlain name = s.qualifyPlain name := by
  unfold Scope.enter
  rcases hform : ScopeForm.of? t.kind with _ | form
  · rfl
  · have hkind := ScopeForm.of?_eq_some_iff.mp hform
    cases form with
    | namespaceForm => exact absurd (List.mem_singleton.mp hkind) hnamespace
    | useForm => exact absurd (List.mem_singleton.mp hkind) huse
    | classForm | anonymousClassForm | functionForm | methodForm | closureForm => rfl

theorem leave_qualifyPlain {s : Scope} {t : Tree} (name : String)
    (hnamespace : t.kind ≠ "namespace_definition") :
    (s.leave t).qualifyPlain name = s.qualifyPlain name := by
  unfold Scope.leave
  rcases hform : ScopeForm.of? t.kind with _ | form
  · rfl
  · have hkind := ScopeForm.of?_eq_some_iff.mp hform
    cases form with
    | namespaceForm => exact absurd (List.mem_singleton.mp hkind) hnamespace
    | useForm | classForm | anonymousClassForm | functionForm | methodForm | closureForm => rfl

section Walk

variable {root : Tree} {f : SourceFile}

namespace Registered

variable {store : Store} {s : Scope} {v : Visit} {above : List Tree}

theorem enter (h : Registered f store s above) (hroot : NamespacesOutsideClasses root)
    (htrail : root.IsTrail (v.tree :: above))
    (hok : (findAt Family.all f (s.enter f v.tree) v).failure = none) :
    Registered f (store.recordAll (findAt Family.all f (s.enter f v.tree) v).findings)
      (s.enter f v.tree) (v.tree :: above) := by
  have hlexical : IsLexical f (v.tree :: above) (s.enter f v.tree) := h.lexical.enter
  refine ⟨hlexical, fun t above' hsuffix => ?_⟩
  rcases List.suffix_cons_iff.mp hsuffix with heq | hsuffix
  · obtain ⟨rfl, rfl⟩ := List.cons.inj heq
    exact .of_findAt hlexical hok store
  · refine (h.nodes t above' hsuffix).mono (fun id hid => Store.has_recordAll hid _) ?_
    -- Inside a class the node can be neither a namespace nor an import.
    intro hclass name
    have ht : t ∈ above := hsuffix.subset List.mem_cons_self
    refine enter_qualifyPlain name (fun hkind => ?_) (fun hkind => ?_)
    · exact hroot _ _ htrail (Or.inl hkind) t ht hclass
    · exact hroot _ _ htrail (Or.inr hkind) t ht hclass

theorem leave (h : Registered f store s (v.tree :: above)) (hroot : NamespacesOutsideClasses root)
    (htrail : root.IsTrail (v.tree :: above)) : Registered f store (s.leave v.tree) above := by
  refine ⟨h.lexical.leave, fun t above' hsuffix => ?_⟩
  refine (h.nodes t above' (hsuffix.trans (List.suffix_cons _ _))).mono (fun id hid => hid) ?_
  intro hclass name
  refine leave_qualifyPlain name fun hkind => ?_
  exact hroot _ _ htrail (Or.inl hkind) t (hsuffix.subset List.mem_cons_self) hclass

end Registered

/-- As long as nothing fails, the open nodes are registered, whatever store the findings
are recorded in. -/
theorem registered_invariant (hroot : NamespacesOutsideClasses root) (f : SourceFile) (s : Store) :
    Walk.Invariant root (Progress.step Family.all f) {} fun opened p =>
      p.failure = none → Registered f (s.recordAll p.found.reverse.flatten) p.scope opened where
  start _ := ⟨⟨rfl, rfl⟩, fun t above h => by simp at h⟩
  enter v above p htrail ih hstep := by
    have hp := Progress.failure_eq_none_of_step hstep
    rw [Progress.step_enter hp] at hstep ⊢
    rw [List.reverse_cons, List.flatten_append, List.flatten_singleton, Store.recordAll_append]
    exact (ih hp).enter hroot htrail hstep
  leave v above p htrail ih hstep := by
    have hp := Progress.failure_eq_none_of_step hstep
    rw [Progress.step_leave hp]
    exact (ih hp).leave hroot htrail

end Walk

/-! ### The owner of a relation -/

theorem mem_of_ownerPlace? {trail : List Tree} {place : Tree × List Tree}
    (h : ownerPlace? trail = some place) : place ∈ callablePlaces trail := by
  unfold ownerPlace? at h
  cases hfind : (callablePlaces trail).find? fun place => place.1.kind ∉ closureKinds with
  | some found =>
    rw [hfind] at h
    exact List.mem_of_find?_eq_some (hfind.trans h)
  | none =>
    rw [hfind] at h
    exact List.mem_of_mem_head? h

/-- An identifier of the callable that owns the code at the end of a trail, registered
if that callable is an entity. -/
def IsOwner (f : SourceFile) (trail : List Tree) (store : Store) (id : Ident) : Prop :=
  ∃ place, ownerPlace? trail = some place ∧ (callableAt f place).id = some id ∧
    (IsEntityPlace f place → store.has id)

theorem IsOwner.mono {f : SourceFile} {trail : List Tree} {store store' : Store} {id : Ident}
    (h : IsOwner f trail store id) (hstore : ∀ id, store.has id → store'.has id) :
    IsOwner f trail store' id := by
  obtain ⟨place, howner, hid, hentity⟩ := h
  exact ⟨place, howner, hid, fun he => hstore id (hentity he)⟩

/-- A callable of a trail that is an entity is registered, if every node of the trail is,
in whatever scope. -/
theorem has_of_nodeRegistered {f : SourceFile} {store : Store} {trail : List Tree} {id : Ident}
    (h : ∀ t above, t :: above <:+ trail → ∃ s, NodeRegistered f store s t above)
    {place : Tree × List Tree} (hplace : place ∈ callablePlaces trail)
    (hentity : IsEntityPlace f place) (hid : (callableAt f place).id = some id) :
    store.has id := by
  have hsuffix := (mem_callablePlaces hplace).2
  obtain ⟨s, hnode⟩ := h _ _ hsuffix
  rcases hentity with ⟨hkind, hname⟩ | ⟨hkind, hname, howner⟩ | ⟨hkind, call, hcall, hregisters⟩
  · rw [callableAt, if_pos hkind] at hid
    obtain rfl := Option.some.inj hid
    exact hnode.function hkind hname
  · obtain ⟨owner, howner⟩ := Option.isSome_iff_exists.mp howner
    rw [callableAt, if_neg (by rw [hkind]; decide), if_pos hkind, howner] at hid
    obtain rfl := Option.some.inj hid
    exact hnode.method hkind hname owner howner
  · -- The callback of a hook is registered by the call around it.
    rw [callableAt_of_closure hkind] at hid
    obtain rfl := Option.some.inj hid
    obtain ⟨inner, outer, hsplit⟩ := List.append_of_mem hcall
    have hcallSuffix : call :: outer <:+ place.1 :: place.2 :=
      ⟨place.1 :: inner, by rw [hsplit]; rfl⟩
    obtain ⟨_, hcallNode⟩ := h call outer (hcallSuffix.trans hsuffix)
    exact hcallNode.callback _ hregisters hkind

namespace Registered

variable {f : SourceFile} {store : Store} {s : Scope} {t : Tree} {above : List Tree} {id : Ident}

/-- A callable that is an entity and open is registered. -/
theorem has_of_isEntityPlace (h : Registered f store s above) {place : Tree × List Tree}
    (hplace : place ∈ callablePlaces above) (hentity : IsEntityPlace f place)
    (hid : (callableAt f place).id = some id) : store.has id :=
  has_of_nodeRegistered (fun t outer hsuffix => ⟨s, h.nodes t outer hsuffix⟩) hplace hentity hid

/-- At a node that is no callable itself, the owner of the code is open. -/
theorem isOwner (h : Registered f store s above) (hkind : t.kind ∉ callableKinds)
    (hid : (s.enter f t).callerId? = some id) : IsOwner f (t :: above) store id := by
  have hplaces : ownerPlace? (t :: above) = ownerPlace? above := by
    rw [ownerPlace?, callablePlaces, if_neg hkind, ownerPlace?]
  rw [(h.lexical.enter (t := t)).callerId?_eq] at hid
  obtain ⟨place, howner, hid⟩ := Option.bind_eq_some_iff.mp hid
  refine ⟨place, howner, hid, fun hentity => ?_⟩
  rw [hplaces] at howner
  exact h.has_of_isEntityPlace (mem_of_ownerPlace? howner) hentity hid

end Registered

/-! ### The class around a method -/

/-- The innermost class of a trail, if it has a name, is a node of the trail. -/
theorem exists_class_of_classSlots {f : SourceFile} {trail : List Tree} {owner : String}
    (h : (classSlots f trail).head?.join = some owner) :
    ∃ t above, t :: above <:+ trail ∧ t.kind ∈ classLikeKinds ∧
      Scope.nameOf f t = owner ∧ Scope.nameOf f t ≠ "" := by
  induction trail with
  | nil => cases h
  | cons t above ih =>
    rw [classSlots_cons] at h
    by_cases hclass : t.kind ∈ classLikeKinds
    · rw [classSlot?, if_pos hclass] at h
      by_cases hname : Scope.nameOf f t = ""
      · rw [if_pos hname] at h
        cases h
      · rw [if_neg hname] at h
        exact ⟨t, above, List.suffix_refl _, hclass, Option.some.inj h, hname⟩
    · rw [classSlot?, if_neg hclass] at h
      by_cases hanonymous : t.kind = "anonymous_class"
      · rw [if_pos hanonymous] at h
        cases h
      · rw [if_neg hanonymous] at h
        obtain ⟨u, outer, hsuffix, hu⟩ := ih h
        exact ⟨u, outer, hsuffix.trans (List.suffix_cons _ _), hu⟩

namespace Registered

variable {f : SourceFile} {store : Store} {s : Scope} {above : List Tree}

/-- At a method, the class around it is registered under the identifier that it has
there. -/
theorem has_currentClass {t : Tree} {owner : String} {id : Ident} (h : Registered f store s above)
    (hkind : t.kind = "method_declaration") (howner : (s.enter f t).currentClass? = some owner)
    (hid : (s.enter f t).classId owner = .ok id) : store.has id := by
  have hslots : (classSlots f above).head?.join = some owner := by
    rw [← classSlots_cons_method hkind, ← howner, (h.lexical.enter (t := t)).currentClass?_eq]
  obtain ⟨c, outer, hsuffix, hclass, rfl, hname⟩ := exists_class_of_classSlots hslots
  obtain ⟨hself, hhas⟩ := (h.nodes c outer hsuffix).classLike hclass hname
  rw [classId_of_currentClass? howner, hself, enter_qualifyPlain _ (by rw [hkind]; decide)
    (by rw [hkind]; decide)] at hid
  obtain rfl := Except.ok.inj hid
  exact hhas

end Registered

end PluginAtlas.Php
