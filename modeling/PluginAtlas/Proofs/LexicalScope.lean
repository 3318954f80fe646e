import PluginAtlas.Proofs.Recording
import PluginAtlas.Proofs.SharedScope
import Mathlib.Tactic.SplitIfs

/-!
# Scopes follow the trail

The two stacks of a scope are opened and closed while a walk enters and leaves nodes.
They depend on nothing but the trail of the node at hand: there is one class slot for
every class around it and one callable for every function, method and closure around
it, itself included. Whoever owns the code there can be read off the trail, no stack is
ever found empty when a node is left, and at the end of a walk both are empty.

## Main definitions

* `classSlots`: the class stack that a trail stands for.
* `callablePlaces`, `callableAt`: the callables on a trail, and what each contributes.
* `ownerPlace?`: the callable that owns the code at the end of a trail.
* `IsLexical`: a scope whose stacks are those of a trail.

## Main results

* `IsLexical.enter`, `IsLexical.leave`: what one step does to the stacks.
* `IsLexical.callerId?_eq`: the owner of the code, read off a trail.
* `scope_invariant`: the stacks are those of the trail, all along a walk.
* `extract_all`: what holds of the findings in all lexical scopes holds of a whole file.
* `extract_scope_lexical`: the scopes in which the rules are applied.
-/

namespace PluginAtlas.Php

/-! ### The stacks of a trail -/

/-- The kinds of declarations of classes, interfaces, traits and enumerations. -/
def classLikeKinds : List String :=
  ["class_declaration", "interface_declaration", "trait_declaration", "enum_declaration"]

/-- The kinds of functions without a name. -/
def closureKinds : List String :=
  ["anonymous_function", "anonymous_function_creation_expression", "arrow_function"]

/-- The kinds of nodes that own the code inside them. -/
def callableKinds : List String := ["function_definition", "method_declaration"] ++ closureKinds

/-- What a class contributes to the class stack: its name, if it has one. Other nodes
contribute nothing. -/
def classSlot? (f : SourceFile) (t : Tree) : Option (Option String) :=
  if t.kind ∈ classLikeKinds then
    some (if Scope.nameOf f t = "" then none else some (Scope.nameOf f t))
  else if t.kind = "anonymous_class" then some none
  else none

/-- The class stack at the end of a trail, the innermost class first. -/
def classSlots (f : SourceFile) (trail : List Tree) : List (Option String) :=
  trail.filterMap (classSlot? f)

/-- The callables on a trail, the innermost first, each with the nodes around it. -/
def callablePlaces : List Tree → List (Tree × List Tree)
  | [] => []
  | t :: above =>
    if t.kind ∈ callableKinds then (t, above) :: callablePlaces above else callablePlaces above

/-- What a callable contributes to the callable stack. A function goes by its name, a
method by the innermost class around it, if that has a name, and a closure by its
place. -/
def callableAt (f : SourceFile) (place : Tree × List Tree) : Callable :=
  if place.1.kind = "function_definition" then
    ⟨false, some (Ident.ofFunction (Scope.nameOf f place.1))⟩
  else if place.1.kind = "method_declaration" then
    ⟨false, (classSlots f place.2).head?.join.map
      fun owner => Ident.ofMethod owner (Scope.nameOf f place.1)⟩
  else ⟨true, some (Ident.ofClosure f.relativePath (f.lineOf place.1))⟩

/-- The callable stack at the end of a trail, the innermost callable first. -/
def callableSlots (f : SourceFile) (trail : List Tree) : List Callable :=
  (callablePlaces trail).map (callableAt f)

/-- The callable that owns the code at the end of a trail: the innermost function or
method, or else the innermost closure. -/
def ownerPlace? (trail : List Tree) : Option (Tree × List Tree) :=
  (callablePlaces trail).find? (fun place => place.1.kind ∉ closureKinds) <|>
    (callablePlaces trail).head?

/-- A scope whose stacks are those of a trail. -/
structure IsLexical (f : SourceFile) (trail : List Tree) (s : Scope) : Prop where
  classes : s.classes = classSlots f trail
  callables : s.callables = callableSlots f trail

/-! ### One step -/

namespace ScopeForm

/-- The kinds of nodes that change the scope in a given way. -/
def kinds : ScopeForm → List String
  | namespaceForm => ["namespace_definition"]
  | useForm => ["namespace_use_declaration"]
  | classForm => classLikeKinds
  | anonymousClassForm => ["anonymous_class"]
  | functionForm => ["function_definition"]
  | methodForm => ["method_declaration"]
  | closureForm => closureKinds

theorem of?_eq_some_iff {kind : String} {form : ScopeForm} :
    of? kind = some form ↔ kind ∈ form.kinds := by
  constructor
  · intro h
    unfold of? at h
    split_ifs at h <;> cases h <;>
      simp_all [kinds, classLikeKinds, closureKinds, isClosureKind, or_assoc]
  · intro h
    cases form <;>
      simp only [kinds, classLikeKinds, closureKinds, List.mem_cons, List.not_mem_nil,
        or_false] at h <;>
      rcases h with rfl | rfl | rfl | rfl <;> rfl

end ScopeForm

theorem mem_callableKinds_iff {kind : String} :
    kind ∈ callableKinds ↔
      ScopeForm.of? kind = some .functionForm ∨ ScopeForm.of? kind = some .methodForm ∨
        ScopeForm.of? kind = some .closureForm := by
  simp only [ScopeForm.of?_eq_some_iff, ScopeForm.kinds, callableKinds, List.mem_append,
    List.mem_cons, List.not_mem_nil, or_false, or_assoc]

/-- The class slot of a node, by the form of the node. -/
theorem classSlot?_eq (f : SourceFile) (t : Tree) :
    classSlot? f t =
      match ScopeForm.of? t.kind with
      | some .classForm =>
        some (if Scope.nameOf f t = "" then none else some (Scope.nameOf f t))
      | some .anonymousClassForm => some none
      | _ => none := by
  have hclass : t.kind ∈ classLikeKinds ↔ ScopeForm.of? t.kind = some .classForm := by
    rw [ScopeForm.of?_eq_some_iff]
    rfl
  have hanonymous : t.kind = "anonymous_class" ↔
      ScopeForm.of? t.kind = some .anonymousClassForm := by
    simp [ScopeForm.of?_eq_some_iff, ScopeForm.kinds]
  simp only [classSlot?, hclass, hanonymous]
  rcases ScopeForm.of? t.kind with _ | form
  · rfl
  · cases form <;> rfl

theorem classSlot?_isSome_iff {f : SourceFile} {t : Tree} :
    (classSlot? f t).isSome ↔ t.kind ∈ classLikeKinds ∨ t.kind = "anonymous_class" := by
  unfold classSlot?
  split_ifs <;> simp_all

/-- The contribution of a callable, by its form. -/
theorem callableAt_eq (f : SourceFile) (t : Tree) (above : List Tree) :
    callableAt f (t, above) =
      match ScopeForm.of? t.kind with
      | some .functionForm => ⟨false, some (Ident.ofFunction (Scope.nameOf f t))⟩
      | some .methodForm =>
        ⟨false, (classSlots f above).head?.join.map
          fun owner => Ident.ofMethod owner (Scope.nameOf f t)⟩
      | _ => ⟨true, some (Ident.ofClosure f.relativePath (f.lineOf t))⟩ := by
  have hfunction : t.kind = "function_definition" ↔
      ScopeForm.of? t.kind = some .functionForm := by
    simp [ScopeForm.of?_eq_some_iff, ScopeForm.kinds]
  have hmethod : t.kind = "method_declaration" ↔
      ScopeForm.of? t.kind = some .methodForm := by
    simp [ScopeForm.of?_eq_some_iff, ScopeForm.kinds]
  simp only [callableAt, hfunction, hmethod]
  rcases ScopeForm.of? t.kind with _ | form
  · rfl
  · cases form <;> rfl

theorem classSlots_cons (f : SourceFile) (t : Tree) (above : List Tree) :
    classSlots f (t :: above) = (classSlot? f t).toList ++ classSlots f above := by
  unfold classSlots
  cases h : classSlot? f t with
  | none => rw [List.filterMap_cons_none h]; rfl
  | some slot => rw [List.filterMap_cons_some h]; rfl

theorem callableSlots_cons (f : SourceFile) (t : Tree) (above : List Tree) :
    callableSlots f (t :: above) =
      if t.kind ∈ callableKinds then callableAt f (t, above) :: callableSlots f above
      else callableSlots f above := by
  unfold callableSlots
  rw [callablePlaces]
  split <;> rfl

namespace IsLexical

variable {f : SourceFile} {t : Tree} {above : List Tree} {s : Scope}

/-- Entering a node puts its own slots on the stacks. -/
theorem enter (h : IsLexical f above s) : IsLexical f (t :: above) (s.enter f t) := by
  constructor
  · rw [classSlots_cons, classSlot?_eq, ← h.classes, Scope.enter]
    rcases ScopeForm.of? t.kind with _ | form
    · rfl
    · cases form <;> rfl
  · rw [callableSlots_cons]
    simp only [mem_callableKinds_iff]
    rw [callableAt_eq, ← h.classes, ← h.callables, Scope.enter]
    rcases ScopeForm.of? t.kind with _ | form
    · rfl
    · cases form <;> rfl

/-- Leaving a node takes its own slots off again. -/
theorem leave (h : IsLexical f (t :: above) s) : IsLexical f above (s.leave t) := by
  obtain ⟨hclasses, hcallables⟩ := h
  rw [classSlots_cons, classSlot?_eq] at hclasses
  rw [callableSlots_cons] at hcallables
  simp only [mem_callableKinds_iff] at hcallables
  unfold Scope.leave
  rcases hform : ScopeForm.of? t.kind with _ | form
  · rw [hform] at hclasses hcallables
    exact ⟨hclasses, hcallables⟩
  · rw [hform] at hclasses hcallables
    cases form with
    | namespaceForm =>
      -- With or without a body, a namespace has no slot on either stack.
      dsimp only
      split <;> exact ⟨hclasses, hcallables⟩
    | useForm => exact ⟨hclasses, hcallables⟩
    | classForm => exact ⟨congrArg List.tail hclasses, hcallables⟩
    | anonymousClassForm => exact ⟨congrArg List.tail hclasses, hcallables⟩
    | functionForm => exact ⟨hclasses, congrArg List.tail hcallables⟩
    | methodForm => exact ⟨hclasses, congrArg List.tail hcallables⟩
    | closureForm => exact ⟨hclasses, congrArg List.tail hcallables⟩

end IsLexical

/-! ### The owner of the code -/

theorem mem_callablePlaces {trail : List Tree} {place : Tree × List Tree}
    (h : place ∈ callablePlaces trail) :
    place.1.kind ∈ callableKinds ∧ place.1 :: place.2 <:+ trail := by
  induction trail with
  | nil => simp [callablePlaces] at h
  | cons t above ih =>
    rw [callablePlaces] at h
    split at h
    · rename_i hkind
      rcases List.mem_cons.mp h with rfl | h
      · exact ⟨hkind, List.suffix_refl _⟩
      · exact ⟨(ih h).1, (ih h).2.trans (List.suffix_cons t above)⟩
    · exact ⟨(ih h).1, (ih h).2.trans (List.suffix_cons t above)⟩

theorem callableAt_of_closure {f : SourceFile} {place : Tree × List Tree}
    (h : place.1.kind ∈ closureKinds) :
    callableAt f place = ⟨true, some (Ident.ofClosure f.relativePath (f.lineOf place.1))⟩ := by
  have hform : ScopeForm.of? place.1.kind = some .closureForm := by
    rw [ScopeForm.of?_eq_some_iff]
    exact h
  rw [callableAt_eq f place.1 place.2, hform]

theorem callableAt_isClosure_eq_false {f : SourceFile} {place : Tree × List Tree}
    (h : place.1.kind ∈ callableKinds) (hc : place.1.kind ∉ closureKinds) :
    (callableAt f place).isClosure = false := by
  rw [callableAt_eq f place.1 place.2]
  rcases mem_callableKinds_iff.mp h with hform | hform | hform
  · rw [hform]
  · rw [hform]
  · exact absurd (ScopeForm.of?_eq_some_iff.mp hform) hc

/-- The search through a callable stack finds the first that is no closure, or else
stays with the first closure. -/
theorem ownerAmong?_map (f : SourceFile) (closure : Option Ident) (places : List (Tree × List Tree))
    (h : ∀ place ∈ places, place.1.kind ∈ callableKinds) :
    Scope.ownerAmong? closure (places.map (callableAt f)) =
      match places.find? fun place => place.1.kind ∉ closureKinds with
      | some place => (callableAt f place).id
      | none => closure <|> places.head?.bind fun place => (callableAt f place).id := by
  induction places generalizing closure with
  | nil => simp [Scope.ownerAmong?]
  | cons place rest ih =>
    have hrest : ∀ p ∈ rest, p.1.kind ∈ callableKinds :=
      fun p hp => h p (List.mem_cons_of_mem _ hp)
    rw [List.map_cons, Scope.ownerAmong?]
    -- A closure only fills the gap if none was met before; anything else ends the search.
    by_cases hc : place.1.kind ∈ closureKinds
    · rw [callableAt_of_closure hc, if_pos rfl, ih _ hrest,
        List.find?_cons_of_neg (by simpa using hc)]
      cases rest.find? fun p => p.1.kind ∉ closureKinds with
      | some p => rfl
      | none =>
        rw [List.head?_cons, Option.bind_some, callableAt_of_closure hc]
        cases closure <;> rfl
    · rw [callableAt_isClosure_eq_false (h place List.mem_cons_self) hc, if_neg (by simp),
        List.find?_cons_of_pos (by simpa using hc)]

/-- The callable that owns the code is the one that the trail shows. -/
theorem IsLexical.callerId?_eq {f : SourceFile} {trail : List Tree} {s : Scope}
    (h : IsLexical f trail s) :
    s.callerId? = (ownerPlace? trail).bind fun place => (callableAt f place).id := by
  rw [Scope.callerId?, h.callables, callableSlots,
    ownerAmong?_map f none _ fun place hp => (mem_callablePlaces hp).1, ownerPlace?]
  cases (callablePlaces trail).find? fun place => place.1.kind ∉ closureKinds with
  | some place => rfl
  | none => rfl

/-! ### The whole walk -/

/-- As long as nothing fails, the stacks are those of the open nodes. -/
theorem scope_invariant (families : List Family) (f : SourceFile) (root : Tree) :
    Walk.Invariant root (Progress.step families f) {}
      fun opened p => p.failure = none → IsLexical f opened p.scope where
  start _ := ⟨rfl, rfl⟩
  enter v above p _ ih hstep := by
    have hp := Progress.failure_eq_none_of_step hstep
    rw [Progress.step_enter hp]
    exact (ih hp).enter
  leave v above p _ ih hstep := by
    have hp := Progress.failure_eq_none_of_step hstep
    rw [Progress.step_leave hp]
    exact (ih hp).leave

/-- What the rules find in every lexical scope is what an extraction can find. -/
theorem extract_all {P : Finding → Prop} {families : List Family} {f : SourceFile} {root : Tree}
    (h : ∀ above v s, IsLexical f (v.tree :: above) s → (findAt families f s v).All P) :
    (extract families f root).All P := by
  have hfound : Walk.Invariant root (Progress.step families f) {} fun opened p =>
      (p.failure = none → IsLexical f opened p.scope) ∧ ∀ xs ∈ p.found, ∀ x ∈ xs, P x := by
    have hscope := scope_invariant families f root
    refine ⟨⟨hscope.start, by simp⟩, fun v above p htrail ⟨hs, hp⟩ => ?_,
      fun v above p htrail ⟨hs, hp⟩ => ?_⟩
    · refine ⟨hscope.enter v above p htrail hs, ?_⟩
      cases hok : p.failure with
      | some failure => simpa [Progress.step, hok] using hp
      | none =>
        rw [Progress.step_enter hok]
        intro xs hxs
        rcases List.mem_cons.mp hxs with rfl | hxs
        · exact h above v _ (hs hok).enter
        · exact hp xs hxs
    · refine ⟨hscope.leave v above p htrail hs, ?_⟩
      simp only [Progress.step]
      split <;> exact hp
  intro x hx
  rw [extract_eq_fold] at hx
  obtain ⟨xs, hxs, hx⟩ := List.mem_flatten.mp hx
  exact hfound.at_end.2 xs (List.mem_reverse.mp hxs) x hx

/-- Scopes are lexical. An extraction enters every node that a trail leads to and
applies the rules there, in a scope whose class stack has one slot for every class on
the trail, the node included, and whose callable stack has one entry for every
function, method and closure on it. So the owner of the code is the innermost function
or method on the trail, or else the innermost closure. No node finds an empty stack to
take its slot from when it is left, and an extraction that does not fail ends with
empty stacks. The visitors of an extraction all stand in this one scope, from whatever
scopes in other files they come. -/
theorem extract_scope_lexical (families : List Family) (f : SourceFile) (root : Tree) :
    let run := Walk.after (Progress.step families f) {}
    extract families f root =
      ⟨(run (Walk.trace root)).found.reverse.flatten, (run (Walk.trace root)).failure⟩ ∧
    (∀ trail, root.IsTrail trail ↔ ∃ v, (trail, Step.enter v) ∈ Walk.trace root) ∧
    (∀ done trail v rest, Walk.trace root = done ++ (trail, .enter v) :: rest →
      (run done).failure = none →
        let scope := (run done).scope.enter f v.tree
        trail.head? = some v.tree ∧
        (run (done ++ [(trail, .enter v)])).found =
          (findAt families f scope v).findings :: (run done).found ∧
        scope.classes = classSlots f trail ∧
        scope.callables = callableSlots f trail ∧
        scope.callerId? = (ownerPlace? trail).bind fun place => (callableAt f place).id) ∧
    (∀ done trail v rest, Walk.trace root = done ++ (trail, .leave v) :: rest →
      (run done).failure = none →
        (v.tree.kind ∈ classLikeKinds ∨ v.tree.kind = "anonymous_class" →
          (run done).scope.classes ≠ []) ∧
        (v.tree.kind ∈ callableKinds → (run done).scope.callables ≠ [])) ∧
    ((run (Walk.trace root)).failure = none →
      (run (Walk.trace root)).scope.classes = [] ∧
      (run (Walk.trace root)).scope.callables = []) ∧
    (∀ visitors done, visitors.map Visitor.family = families →
      Mirrors families (run done) (Walk.after (Team.step f) (.start visitors) done)) := by
  intro run
  have hscope := scope_invariant families f root
  refine ⟨extract_eq families f root, fun _ => Walk.isTrail_iff_mem_trace, ?_, ?_, ?_, ?_⟩
  · intro done trail v rest hsplit hok
    obtain ⟨above, rfl, hlexical⟩ := hscope.at_enter hsplit
    have hentered : IsLexical f (v.tree :: above) ((run done).scope.enter f v.tree) :=
      (hlexical hok).enter
    refine ⟨rfl, ?_, hentered.classes, hentered.callables, hentered.callerId?_eq⟩
    have hnext : run (done ++ [(v.tree :: above, .enter v)]) =
        (run done).step families f (.enter v) := Walk.after_append _ _ _ _
    rw [hnext, Progress.step_enter hok]
  · intro done trail v rest hsplit hok
    obtain ⟨above, rfl, hlexical⟩ := hscope.at_leave hsplit
    obtain ⟨hclasses, hcallables⟩ := hlexical hok
    -- The node is still on its trail, so the slot that it takes away is there.
    constructor
    · intro hkind
      obtain ⟨slot, hslot⟩ := Option.isSome_iff_exists.mp (classSlot?_isSome_iff.mpr hkind)
      rw [hclasses, classSlots_cons, hslot]
      exact List.cons_ne_nil _ _
    · intro hkind
      rw [hcallables, callableSlots_cons, if_pos hkind]
      exact List.cons_ne_nil _ _
  · intro hok
    have hend := hscope.at_end
    rw [Walk.fold_eq_after] at hend
    exact ⟨(hend hok).classes, (hend hok).callables⟩
  · rintro visitors done rfl
    exact mirrors_after f visitors done

/-- A closure in a method `m` of a class `A`, in a text that holds just these names. -/
def closureInMethod : Tree := .node "arrow_function" true 2 2 none []

@[inherit_doc closureInMethod]
def methodWithClosure : Tree :=
  .node "method_declaration" true 1 2 none
    [.node "name" true 1 2 (some "name") [], closureInMethod]

@[inherit_doc closureInMethod]
def classWithClosure : Tree :=
  .node "class_declaration" true 0 2 none
    [.node "name" true 0 1 (some "name") [], methodWithClosure]

/-- In the closure the class is open and the code is owned by the method. -/
theorem extract_scope_lexical_closureInMethod :
    let f : SourceFile := { path := "/p.php", source := "Am" }
    let trail := [closureInMethod, methodWithClosure, classWithClosure]
    ∃ done v rest, Walk.trace classWithClosure = done ++ (trail, .enter v) :: rest ∧
      let p := Walk.after (Progress.step Family.all f) {} done
      p.failure = none ∧
      (p.scope.enter f v.tree).classes = [some "A"] ∧
      (p.scope.enter f v.tree).callerId? = some (Ident.ofMethod "A" "m") := by
  intro f trail
  refine ⟨(Walk.trace classWithClosure).take 6,
    ⟨closureInMethod, some (.node "name" true 1 2 (some "name") [])⟩,
    (Walk.trace classWithClosure).drop 7, rfl, ?_⟩
  intro p
  have hok : p.failure = none := by decide +kernel
  have hclasses : classSlots f trail = [some "A"] := by decide +kernel
  have howner : ((ownerPlace? trail).bind fun place => (callableAt f place).id) =
      some (Ident.ofMethod "A" "m") := by decide +kernel
  have hscope := (extract_scope_lexical Family.all f classWithClosure).2.2.1 _ trail _ _ rfl hok
  exact ⟨hok, hscope.2.2.1.trans hclasses, hscope.2.2.2.2.trans howner⟩

end PluginAtlas.Php
