import PluginAtlas.Proofs.ClassReferences
import PluginAtlas.Proofs.Expressions

/-!
# Callbacks land on callables

A callback is given to a hook as an expression, and its relation starts at the identifier
of the callable that the expression denotes. The callable is declared elsewhere in the
file, before or after, and registered by rules that know nothing of hooks. Still, whichever
way the expression is written, both identifiers agree.

## Main definitions

* `Entry.Within`: a node inside a class, with no other class in between.
* `GivesCallback`: a call that registers a callback.
* `StandsForClass`, `NamesMethod`, `NamesFunction`: the ways to write a callback.
* `Denotes`: a callback and the declaration that it denotes.

## Main results

* `NamesMethod.callback?_eq`, `NamesFunction.callback?_eq`: what a callback is understood as.
* `Entry.registers`: the relation that a registration draws.
* `Denotes.exists_callable`: what is registered for the declaration.
* `callbacks_land_on_callables`: the relation starts at the declaration.
-/

namespace PluginAtlas

namespace Text

/-! ### The first occurrence of a mark -/

section Cut

variable {α : Type} [BEq α] [LawfulBEq α] {part : List α}

/-- Nothing is cut where the mark does not occur. -/
theorem cutList_of_not_infix (hpart : part ≠ []) {xs : List α} (h : ¬ part <:+: xs) :
    cutList part xs = (xs, none) := by
  induction xs with
  | nil => simp [cutList, hpart]
  | cons x xs ih =>
    have hfront : ¬ part.isPrefixOf (x :: xs) = true := fun hfront =>
      h (List.isPrefixOf_iff_prefix.mp hfront).isInfix
    have hxs : ¬ part <:+: xs := fun hinside => h (hinside.trans (List.suffix_cons x xs).isInfix)
    rw [cutList, if_neg hfront, ih hxs]

/-- A mark is cut out where it occurs first. It must not begin earlier, not even so that it
ends inside the occurrence. -/
theorem cutList_first (hpart : part ≠ []) {front : List α}
    (h : ¬ part <:+: front ++ part.dropLast) (rest : List α) :
    cutList part (front ++ (part ++ rest)) = (front, some rest) := by
  induction front with
  | nil =>
    obtain ⟨a, more, rfl⟩ := List.exists_cons_of_ne_nil hpart
    simp [cutList]
  | cons x front ih =>
    -- An occurrence at the very front would lie in what the hypothesis speaks of.
    have hfront : ¬ part.isPrefixOf (x :: (front ++ (part ++ rest))) = true := by
      intro hfront
      have hlong : part <+: x :: (front ++ (part ++ rest)) := List.isPrefixOf_iff_prefix.mp hfront
      have hshort : x :: front ++ part.dropLast <+: x :: front ++ (part ++ rest) :=
        (List.prefix_append_right_inj _).mpr
          ((List.dropLast_prefix part).trans (List.prefix_append part rest))
      refine h (List.prefix_of_prefix_length_le hlong hshort ?_).isInfix
      simp only [List.length_append, List.length_cons, List.length_dropLast]
      omega
    have htail : ¬ part <:+: front ++ part.dropLast := fun hinside =>
      h (hinside.trans (List.suffix_cons x _).isInfix)
    rw [List.cons_append, cutList, if_neg hfront, ih htail]

end Cut

theorem cut_of_no_colons {text : String} (h : ¬ "::".toList <:+: text.toList) :
    cut "::" text = (text, none) := by
  rw [cut, cutList_of_not_infix (by decide) h]
  simp

theorem cut_colons {front : String} (h : ¬ "::".toList <:+: (front ++ ":").toList)
    (rest : String) : cut "::" (front ++ "::" ++ rest) = (front, some rest) := by
  have hlast : "::".toList.dropLast = ":".toList := by decide
  rw [String.toList_append, ← hlast] at h
  rw [cut, String.append_assoc, String.toList_append, String.toList_append,
    cutList_first (by decide) h]
  simp

end Text

namespace Php

open Text (segments joined)

/-! ### How a callback is written -/

/-- A call that gives a callback to a hook. -/
def GivesCallback (f : SourceFile) (call argument : Tree) : Prop :=
  call.kind = "function_call_expression" ∧
  (functionName? f call = some "add_action" ∨ functionName? f call = some "add_filter") ∧
  (callArguments call)[1]? = some argument

/-- An expression stands for a class from inside it: the object at hand, the constant for
the class, a word for the class, or a text whose last segment is the name of the class. -/
inductive StandsForClass (f : SourceFile) (owner : String) (t : Tree) : Prop
  | this {object : Tree} (hencloses : t.Encloses object) (hkind : object.kind = "variable_name")
      (htext : f.textOf object = "$this")
  | constant (h : IsConstant f t "__CLASS__")
  | word {written : String} (h : IsClassName f t written)
      (hword : Text.lower written = "self" ∨ Text.lower written = "static")
  | text {value : String} (h : IsText f t value) (hlast : (segments value).getLast? = some owner)

/-- A callback names a method from inside its class: as a pair of the class and the method,
or as a text with two colons between a name of the class and the method. These are the
first two colons of the text. -/
inductive NamesMethod (f : SourceFile) (owner method : String) (t : Tree) : Prop
  | pair {first second : Tree} (h : IsPair t first second) (hfirst : StandsForClass f owner first)
      (hsecond : IsText f second method)
  | text {qualified : String} (h : IsText f t (qualified ++ "::" ++ method))
      (hcolons : ¬ "::".toList <:+: (qualified ++ ":").toList)
      (hlast : (segments qualified).getLast? = some owner)

/-- A callback names a function: it is a text without two colons whose last segment is the
name of the function. -/
def NamesFunction (f : SourceFile) (name : String) (t : Tree) : Prop :=
  ∃ text, IsText f t text ∧ ¬ "::".toList <:+: text.toList ∧
    (segments text).getLast? = some name

/-! ### What a callback is understood as -/

section Callback

variable {f : SourceFile} {s : Scope} {t : Tree} {owner method : String}

theorem ne_empty_of_getLast? {name last : String} (h : (segments name).getLast? = some last)
    (hlast : last ≠ "") : name ≠ "" := by
  rintro rfl
  exact hlast (Option.some.inj h).symm

/-- A class name is taken as it is written, but for the words for classes around. -/
theorem IsClassName.callbackOwner?_eq {written : String} (h : IsClassName f t written) :
    callbackOwner? f s t =
      if Text.lower written = "self" ∨ Text.lower written = "static" then s.currentClass?
      else if Text.lower written = "parent" then none else some written := by
  obtain ⟨access, scope, constant, hencloses, hkind, hcolon, hrest⟩ := h
  have hplain : access.kind ≠ "parenthesized_expression" := by simp [hkind]
  have hmagic : isMagicConstant f (some access) "__CLASS__" = false :=
    isMagicConstant_of_colon hplain hcolon (by decide)
  have hliteral : stringValue? f (some access) = none :=
    stringValue?_eq_none (by simp [hkind]) (by simp [hkind]) hplain
  have hreference : classReference? f (some access) = some written :=
    IsClassName.classReference?_eq ⟨access, scope, constant, .self access, hkind, hcolon, hrest⟩
  simp [callbackOwner?, hencloses.unwrap?_eq_some hplain, hkind, hmagic, hliteral, hreference]

/-- An owner that stands for a class is understood as the class, up to its namespace. -/
theorem StandsForClass.exists_callbackOwner? (h : StandsForClass f owner t)
    (howner : owner ≠ "") (hclass : s.currentClass? = some owner) :
    ∃ name, callbackOwner? f s t = some name ∧ name ≠ "" ∧ shortName name = shortName owner := by
  -- A node that reads like the constant for the class counts as it, whatever its kind.
  have hcurrent : ∀ {u : Tree}, t.unwrap? = some u →
      isMagicConstant f (some u) "__CLASS__" = true → callbackOwner? f s t = some owner := by
    intro u hunwrap hmagic
    simp [callbackOwner?, hunwrap, hmagic, hclass]
  cases h with
  | this hencloses hkind htext =>
    have hunwrap := hencloses.unwrap?_eq_some (by simp [hkind])
    exact ⟨owner, by simp [callbackOwner?, hunwrap, hkind, htext, hclass], howner, rfl⟩
  | constant h =>
    obtain ⟨constant, hencloses, hkind, hword⟩ := h
    have hmagic : isMagicConstant f (some constant) "__CLASS__" = true :=
      IsConstant.isMagicConstant_eq ⟨constant, .self constant, hkind, hword⟩
    exact ⟨owner, hcurrent (hencloses.unwrap?_eq_some (by simp [hkind])) hmagic, howner, rfl⟩
  | word h hword => exact ⟨owner, by rw [h.callbackOwner?_eq, if_pos hword, hclass], howner, rfl⟩
  | @text value h hlast =>
    obtain ⟨literal, hunwrap, hkind, hvalue⟩ := h.exists_literal
    by_cases hmagic : isMagicConstant f (some literal) "__CLASS__" = true
    · exact ⟨owner, hcurrent hunwrap hmagic, howner, rfl⟩
    · have hvariable : literal.kind ≠ "variable_name" := by
        rcases hkind with hkind | hkind <;> simp [hkind]
      have hne : value ≠ "" := ne_empty_of_getLast? hlast howner
      refine ⟨value, ?_, hne, Text.shortName_of_getLast? hlast howner⟩
      simp [callbackOwner?, hunwrap, hvariable, hmagic, hvalue, hne]

theorem IsText.callback?_eq {text : String} (h : IsText f t text) :
    callback? f s t = textCallback? text := by
  obtain ⟨literal, hunwrap, hkind, hvalue⟩ := h.exists_literal
  have hclosure : isClosureKind literal.kind = false := by
    rcases hkind with hkind | hkind <;> simp [isClosureKind, hkind]
  simp [callback?, hunwrap, hclosure, hvalue]

/-- A pair is understood by its two elements. -/
theorem IsPair.callback?_eq {first second : Tree} (h : IsPair t first second) {name : String}
    (howner : callbackOwner? f s first = some name) (hname : name ≠ "")
    (hsecond : IsText f second method) (hmethod : method ≠ "") :
    callback? f s t = some (Ident.ofMethod name method) := by
  obtain ⟨array, element, other, hencloses, hkind, helements⟩ := h
  have hplain : array.kind ≠ "parenthesized_expression" := by simp [hkind]
  have hclosure : isClosureKind array.kind = false := by simp [isClosureKind, hkind]
  have hpair : IsPair array first second := ⟨array, element, other, .self array, hkind, helements⟩
  obtain ⟨key, key', harray⟩ := hpair.arrayElements_eq
  simp [callback?, hencloses.unwrap?_eq_some hplain, hclosure, hpair.stringValue?_eq,
    pairCallback?, harray, howner, hsecond.stringValue?_eq, hname, hmethod]

/-- A callback that names a method is understood as the method. -/
theorem NamesMethod.callback?_eq (h : NamesMethod f owner method t) (howner : owner ≠ "")
    (hmethod : method ≠ "") (hclass : s.currentClass? = some owner) :
    callback? f s t = some (Ident.ofMethod owner method) := by
  -- A method goes by the short name of its class, so a namespace in front does not matter.
  have hshort : ∀ {name : String}, shortName name = shortName owner →
      Ident.ofMethod name method = Ident.ofMethod owner method := by
    intro name hname
    rw [Ident.ofMethod, hname, Ident.ofMethod]
  cases h with
  | pair h hfirst hsecond =>
    obtain ⟨name, hname, hne, hsame⟩ := hfirst.exists_callbackOwner? howner hclass
    rw [h.callback?_eq hname hne hsecond hmethod, hshort hsame]
  | @text qualified h hcolons hlast =>
    have hne : qualified ≠ "" := ne_empty_of_getLast? hlast howner
    rw [h.callback?_eq, textCallback?, Text.cut_colons hcolons]
    simp [hne, hmethod, hshort (Text.shortName_of_getLast? hlast howner)]

/-- A callback that names a function is understood as the function. -/
theorem NamesFunction.callback?_eq {name : String} (h : NamesFunction f name t)
    (hname : name ≠ "") : callback? f s t = some (Ident.ofFunction name) := by
  obtain ⟨text, htext, hcolons, hlast⟩ := h
  have hne : text ≠ "" := ne_empty_of_getLast? hlast hname
  rw [htext.callback?_eq, textCallback?, Text.cut_of_no_colons hcolons]
  simp [hne, Ident.ofFunction, Text.shortName_of_getLast? hlast hname]

end Callback

/-! ### What a registration draws -/

section Registration

variable {f : SourceFile} {s : Scope} {v : Visit} {argument : Tree}

theorem relationsOfKind_entities (kind : RelationKind) (entities : List Entity) :
    relationsOfKind kind (entities.map .entity) = [] := by
  induction entities with
  | nil => rfl
  | cons e entities ih => exact ih

/-- At a registration only the rules of hooks and those of entry points apply, and the latter
draw no relation. -/
theorem findAt_registration (h : GivesCallback f v.tree argument) :
    ∃ (kind : String) (entities : List Entity), findAt Family.all f s v =
      (hookRegistration f s v.tree kind).followedBy (.found (entities.map .entity)) := by
  obtain ⟨hkind, hname, -⟩ := h
  -- Both functions register hooks and may be entry points, and neither touches stored data.
  obtain ⟨name, kind, hname, hregistered, hpoint, hstored⟩ : ∃ name kind,
      functionName? f v.tree = some name ∧ registeredHook? name = some kind ∧
      EntryPoint.of? name = some .ajaxHook ∧ storageFunctions.lookup name = none := by
    rcases hname with hname | hname
    · exact ⟨_, "action", hname, by decide, by decide, by decide⟩
    · exact ⟨_, "filter", hname, by decide, by decide, by decide⟩
  refine ⟨kind, (entryPointEntity? f v.tree (callArguments v.tree) .ajaxHook).toList, ?_⟩
  cases hentity : entryPointEntity? f v.tree (callArguments v.tree) .ajaxHook <;>
    simp [findAt, Family.all, Family.apply, Outcome.sequence, declarations, declaredKind?,
      callables, hooks, storage, storageAccess?, entryPoints, includes, isIncludeKind, hkind,
      hname, hregistered, hpoint, hstored, hentity]

/-- A registration draws one relation for its callback, and it goes to the hook. -/
theorem hookRegistration_relations {kind : String} {id : Ident}
    (hargument : (callArguments v.tree)[1]? = some argument)
    (hcallback : callback? f s argument = some id)
    (hok : (hookRegistration f s v.tree kind).failure = none) :
    ∃ hook, .entity hook ∈ (hookRegistration f s v.tree kind).findings ∧ hook.kind = .hook ∧
      relationsOfKind .registersHook (hookRegistration f s v.tree kind).findings =
        [Relation.between id .registersHook hook.id "registers"] := by
  -- The relation to a handler is drawn only if the handler is known, and is of another kind.
  have hhandler : ∀ (hook : Ident) (name : String),
      relationsOfKind .registersHook (handlerFindings hook name) = [] := by
    intro hook name
    unfold handlerFindings
    split <;> rfl
  unfold hookRegistration at hok ⊢
  cases harguments : callArguments v.tree with
  | nil => simp [harguments] at hargument
  | cons first rest =>
    have hsecond : rest[0]? = some argument := by simpa [harguments] using hargument
    simp only [harguments] at hok ⊢
    cases hpriority : integerValue f rest[1]? with
    | error failure => simp [hpriority, Outcome.attempt, Outcome.failed] at hok
    | ok priority =>
      refine ⟨hookEntity f kind (hookName f first (f.lineOf v.tree)) (f.lineOf v.tree)
        (priority.getD defaultPriority), List.mem_cons_self, rfl, ?_⟩
      simp only [Outcome.attempt, Outcome.found, callbackFindings, hsecond, hcallback]
      rw [relationsOfKind_entity, relationsOfKind_append, relationsOfKind_append, hhandler]
      cases closureEntity? f argument <;> rfl

end Registration

namespace Entry

variable {root : Tree} {f : SourceFile} {e c : Entry root}

/-- A registration that does not fail draws one relation for its callback. -/
theorem registers {argument : Tree} {id : Ident} (hnode : (e.outcome f).failure = none)
    (h : GivesCallback f e.visit.tree argument)
    (hcallback : callback? f (e.scope f) argument = some id) :
    ∃ hook, .entity hook ∈ (e.outcome f).findings ∧ hook.kind = .hook ∧
      relationsOfKind .registersHook (e.outcome f).findings =
        [Relation.between id .registersHook hook.id "registers"] := by
  obtain ⟨kind, entities, hfind⟩ := findAt_registration (s := e.scope f) h
  rw [outcome, hfind] at hnode ⊢
  obtain ⟨hregistration, -, hall⟩ := Outcome.of_followedBy hnode
  obtain ⟨hook, hentity, hkind, hrelation⟩ :=
    hookRegistration_relations h.2.2 hcallback hregistration
  refine ⟨hook, hall ▸ List.mem_append_left _ hentity, hkind, ?_⟩
  rw [hall, relationsOfKind_append, hrelation, Outcome.found, relationsOfKind_entities,
    List.append_nil]

/-- A node lies in a class, or is the class, with no other class in between. -/
def Within (e c : Entry root) : Prop :=
  ∃ inner, e.trail = inner ++ c.trail ∧
    ∀ t ∈ inner, t.kind ∉ classLikeKinds ∧ t.kind ≠ "anonymous_class"

/-- In a class with a name, that name is at hand. -/
theorem Within.currentClass?_eq (h : e.Within c) (hbefore : (e.before f).failure = none)
    (hkind : c.visit.tree.kind ∈ classLikeKinds) (hname : Scope.nameOf f c.visit.tree ≠ "") :
    (e.scope f).currentClass? = some (Scope.nameOf f c.visit.tree) := by
  obtain ⟨inner, htrail, hinner⟩ := h
  obtain ⟨above, hclass, -⟩ := c.exists_above
  -- The nodes in between put nothing on the class stack, so that the class is on top.
  have hskip : classSlots f inner = [] := by
    refine List.filterMap_eq_nil_iff.mpr fun t ht => ?_
    rw [classSlot?, if_neg (hinner t ht).1, if_neg (hinner t ht).2]
  have hslots : classSlots f e.trail = classSlots f c.trail := by
    rw [htrail, classSlots, List.filterMap_append, ← classSlots, hskip]
    rfl
  rw [(e.isLexical hbefore).currentClass?_eq, hslots, hclass, classSlots_cons, classSlot?,
    if_pos hkind, if_neg hname]
  rfl

end Entry

/-! ### Declared callables -/

/-- A method is declared in a class, and both have a name. -/
structure DeclaresMethod (f : SourceFile) {root : Tree} (c d : Entry root) (owner method : String) :
    Prop where
  classLike : c.visit.tree.kind ∈ classLikeKinds
  owner_eq : Scope.nameOf f c.visit.tree = owner
  owner_ne : owner ≠ ""
  isMethod : d.visit.tree.kind = "method_declaration"
  method_eq : Scope.nameOf f d.visit.tree = method
  method_ne : method ≠ ""
  within : d.Within c

/-- A function with a name is declared. -/
structure DeclaresFunction (f : SourceFile) {root : Tree} (d : Entry root) (name : String) :
    Prop where
  isFunction : d.visit.tree.kind = "function_definition"
  name_eq : Scope.nameOf f d.visit.tree = name
  name_ne : name ≠ ""

/-- A callback denotes a declaration of the same file, which is registered as an entity of a
kind under an identifier: a method of the class around the call, or any function. -/
inductive Denotes (f : SourceFile) {root : Tree} (e d : Entry root) (argument : Tree) :
    EntityKind → Ident → Prop
  | method {c : Entry root} {owner method : String} (hdeclares : DeclaresMethod f c d owner method)
      (hwithin : e.Within c) (hnames : NamesMethod f owner method argument) :
      Denotes f e d argument .method (Ident.ofMethod owner method)
  | function {name : String} (hdeclares : DeclaresFunction f d name)
      (hnames : NamesFunction f name argument) :
      Denotes f e d argument .function (Ident.ofFunction name)

section Declared

variable {f : SourceFile} {root : Tree} {c d e : Entry root}

theorem DeclaresMethod.currentClass?_eq {owner method : String}
    (h : DeclaresMethod f c d owner method) (hwithin : e.Within c)
    (hbefore : (e.before f).failure = none) : (e.scope f).currentClass? = some owner := by
  have hname : Scope.nameOf f c.visit.tree ≠ "" := h.owner_eq ▸ h.owner_ne
  rw [hwithin.currentClass?_eq hbefore h.classLike hname, h.owner_eq]

/-- A declared method is found under the names of its class and its own. -/
theorem DeclaresMethod.exists_entity {owner method : String}
    (h : DeclaresMethod f c d owner method) (hbefore : (d.before f).failure = none) :
    ∃ entity, .entity entity ∈ (callables f (d.scope f) d.visit).findings ∧
      entity.kind = .method ∧ entity.id = Ident.ofMethod owner method := by
  have hclass := h.currentClass?_eq h.within hbefore
  have hname : Scope.nameOf f d.visit.tree ≠ "" := h.method_eq ▸ h.method_ne
  simp only [callables, if_pos h.isMethod, methodDeclaration, hclass, if_neg hname]
  exact ⟨_, List.mem_cons_self, rfl, by rw [h.method_eq]⟩

theorem DeclaresFunction.exists_entity {name : String} (h : DeclaresFunction f d name) :
    ∃ entity, .entity entity ∈ (callables f (d.scope f) d.visit).findings ∧
      entity.kind = .function ∧ entity.id = Ident.ofFunction name := by
  have hname : Scope.nameOf f d.visit.tree ≠ "" := h.name_eq ▸ h.name_ne
  have hmethod : d.visit.tree.kind ≠ "method_declaration" := by simp [h.isFunction]
  simp only [callables, if_neg hmethod, if_pos h.isFunction, functionDeclaration, if_neg hname]
  exact ⟨_, List.mem_cons_self, rfl, by rw [h.name_eq]⟩

variable {argument : Tree} {kind : EntityKind} {id : Ident}

theorem Denotes.exists_callable (h : Denotes f e d argument kind id)
    (hbefore : (d.before f).failure = none) :
    ∃ callable, .entity callable ∈ (callables f (d.scope f) d.visit).findings ∧
      callable.kind = kind ∧ callable.id = id := by
  cases h with
  | method hdeclares => exact hdeclares.exists_entity hbefore
  | function hdeclares => exact hdeclares.exists_entity

theorem Denotes.callback?_eq (h : Denotes f e d argument kind id)
    (hbefore : (e.before f).failure = none) : callback? f (e.scope f) argument = some id := by
  cases h with
  | method hdeclares hwithin hnames =>
    exact hnames.callback?_eq hdeclares.owner_ne hdeclares.method_ne
      (hdeclares.currentClass?_eq hwithin hbefore)
  | function hdeclares hnames => exact hnames.callback?_eq hdeclares.name_ne

end Declared

/-- What the rules of callables find at a node is found in the file. -/
theorem Entry.callables_subset {f : SourceFile} {root : Tree} (d : Entry root)
    (hok : (extract Family.all f root).failure = none) :
    (callables f (d.scope f) d.visit).findings ⊆ (extract Family.all f root).findings := by
  obtain ⟨-, hnode, hfound⟩ := d.reached hok
  exact List.Subset.trans (of_mem_findAt .callables (by decide) hnode).2 hfound

/-! ### Callbacks and declarations in a file -/

/-- Callbacks land on callables. In a file that is read to its end, a call gives a hook a
callback that denotes a method of the class around the call, or a function anywhere in the
file. Then the rules of callables find an entity of that kind at the declaration, wherever
it stands, and the one relation that the call draws for its callback goes from the
identifier of that entity to the hook. Into whatever store the file is read, both ends of
the relation are registered. -/
theorem callbacks_land_on_callables {f : SourceFile} {root : Tree}
    (hok : (extract Family.all f root).failure = none) {e d : Entry root} {argument : Tree}
    {kind : EntityKind} {id : Ident} (hcall : GivesCallback f e.visit.tree argument)
    (hdenotes : Denotes f e d argument kind id) :
    ∃ callable hook,
      .entity callable ∈ (callables f (d.scope f) d.visit).findings ∧
      callable.kind = kind ∧ callable.id = id ∧
      .entity hook ∈ (e.outcome f).findings ∧ hook.kind = .hook ∧
      let r := Relation.between callable.id .registersHook hook.id "registers"
      relationsOfKind .registersHook (e.outcome f).findings = [r] ∧
      .relation r ∈ (extract Family.all f root).findings ∧
      ∀ s : Store, (s.readAll [.php f root]).HasEnds r := by
  obtain ⟨hbefore, hnode, hfound⟩ := e.reached hok
  obtain ⟨callable, hcallable, hkind, rfl⟩ := hdenotes.exists_callable (d.reached hok).1
  obtain ⟨hook, hhook, hhookKind, hrelation⟩ :=
    e.registers hnode hcall (hdenotes.callback?_eq hbefore)
  refine ⟨callable, hook, hcallable, hkind, rfl, hhook, hhookKind, hrelation, ?_, fun s => ?_⟩
  · exact hfound (mem_of_relationsOfKind (hrelation ▸ List.mem_cons_self))
  · have hread : s.readAll [.php f root] = s.recordAll (extract Family.all f root).findings := by
      rw [Store.readAll_eq_recordAll]
      simp [FileStep.outcome]
    rw [hread]
    constructor
    · exact Store.has_recordAll_of_mem (d.callables_subset hok hcallable)
    · exact Store.has_recordAll_of_mem (hfound hhook)

/-- A class `C` with a method `k` that gives a hook the method `m` of the object at hand,
which is declared after it, in a text that holds just the names and literals. -/
def callbackPair : Tree :=
  .node "array_creation_expression" true 16 24 none
    [.node "array_element_initializer" true 16 21 none [.node "variable_name" true 16 21 none []],
      .node "array_element_initializer" true 21 24 none [.node "string" true 21 24 none []]]

@[inherit_doc callbackPair]
def registeringCall : Tree :=
  .node "function_call_expression" true 3 24 none
    [.node "name" true 3 13 (some "function") [],
      .node "arguments" true 13 24 (some "arguments")
        [.node "argument" true 13 16 none [.node "string" true 13 16 none []],
          .node "argument" true 16 24 none [callbackPair]]]

@[inherit_doc callbackPair]
def registeringMethod : Tree :=
  .node "method_declaration" true 1 2 none [.node "name" true 1 2 (some "name") [], registeringCall]

@[inherit_doc callbackPair]
def registeredMethod : Tree :=
  .node "method_declaration" true 2 3 none [.node "name" true 2 3 (some "name") []]

@[inherit_doc callbackPair]
def registeringClass : Tree :=
  .node "class_declaration" true 0 24 none
    [.node "name" true 0 1 (some "name") [], registeringMethod, registeredMethod]

@[inherit_doc callbackPair]
def registeringFile : SourceFile := { path := "/p/c.php", source := "Ckmadd_action'h'$this'm'" }

@[inherit_doc callbackPair]
def classEntry : Entry registeringClass :=
  ⟨[], [registeringClass], ⟨registeringClass, none⟩, (Walk.trace registeringClass).drop 1, rfl⟩

@[inherit_doc callbackPair]
def callEntry : Entry registeringClass :=
  ⟨(Walk.trace registeringClass).take 6, [registeringCall, registeringMethod, registeringClass],
    ⟨registeringCall, some (.node "name" true 1 2 (some "name") [])⟩,
    (Walk.trace registeringClass).drop 7, rfl⟩

@[inherit_doc callbackPair]
def methodEntry : Entry registeringClass :=
  ⟨(Walk.trace registeringClass).take 29, [registeredMethod, registeringClass],
    ⟨registeredMethod, some registeringMethod⟩, (Walk.trace registeringClass).drop 30, rfl⟩

/-- The callback `[$this, 'm']` lands on the method that is declared after it. -/
theorem callbacks_land_on_callables_this :
    DeclaresMethod registeringFile classEntry methodEntry "C" "m" ∧
    callEntry.Within classEntry ∧
    GivesCallback registeringFile callEntry.visit.tree callbackPair ∧
    NamesMethod registeringFile "C" "m" callbackPair ∧
    ∃ hook : Entity, hook.kind = .hook ∧
      (Store.empty.readAll [.php registeringFile registeringClass]).HasEnds
        (.between (Ident.ofMethod "C" "m") .registersHook hook.id "registers") := by
  have hdeclares : DeclaresMethod registeringFile classEntry methodEntry "C" "m" :=
    ⟨by decide, by decide +kernel, by decide, rfl, by decide +kernel, by decide,
      [registeredMethod], rfl, by decide⟩
  have hwithin : callEntry.Within classEntry :=
    ⟨[registeringCall, registeringMethod], rfl, by decide⟩
  have hcall : GivesCallback registeringFile callEntry.visit.tree callbackPair :=
    ⟨rfl, .inl (by decide +kernel), rfl⟩
  have hnames : NamesMethod registeringFile "C" "m" callbackPair := by
    refine .pair ⟨callbackPair, _, _, .self _, rfl, rfl, .inl rfl, .inl rfl⟩ ?_ ?_
    · exact .this (.self _) rfl (by decide +kernel)
    · exact ⟨_, .self _, .inl rfl, by decide +kernel⟩
  refine ⟨hdeclares, hwithin, hcall, hnames, ?_⟩
  obtain ⟨callable, hook, -, -, hid, -, hkind, -, -, hends⟩ :=
    callbacks_land_on_callables (by decide +kernel) hcall (.method hdeclares hwithin hnames)
  exact ⟨hook, hkind, hid ▸ hends Store.empty⟩

end Php

end PluginAtlas
