import PluginAtlas.Proofs.HookCallbacks

/-!
# Callbacks by the name of a class

A callback such as `[Foo::class, 'run']` names its method by a class that need not be the
one around the call. Elsewhere such a name is resolved in the namespace and by the imports
in force. A callback takes it as it is written, and the identifier of a method keeps no
more of it than the last segment. As a rule this segment survives the resolution, so that
the callback lands on the method after all. The exception is a name that is nothing but the
alias of an import: it shows nothing of the class that it means.

## Main definitions

* `NamesByClass`: a callback by the name of a class.
* `IsAlias`: a name that is nothing but the alias of an import.

## Main results

* `resolve_getLast?`: what is left of a name when it is resolved.
* `Ident.ofMethod_eq_iff`: when methods of two classes share an identifier.
* `Entry.last_segment`: an alias, or the last segment of the class that is meant.
* `class_callback_lands_iff`: when a callback by the name of a class lands on the method.
-/

namespace PluginAtlas

/-! ### Identifiers of methods -/

theorem Ident.sanitize_eq_iff {raw raw' : String} :
    sanitize raw = sanitize raw' ↔ raw.toList.map identChar = raw'.toList.map identChar := by
  simp [sanitize, String.ofList_inj]

/-- Methods of one name share an identifier exactly if the short names of their classes do. -/
theorem Ident.ofMethod_eq_iff {name other method : String} :
    ofMethod name method = ofMethod other method ↔
      sanitize (shortName name) = sanitize (shortName other) := by
  simp only [ofMethod, sanitize_eq_iff, String.toList_append, List.map_append, List.append_assoc,
    List.append_cancel_left_eq, List.append_cancel_right_eq]

namespace Php

open Text (segments joined)

/-! ### What is left of a name -/

section LastSegment

variable {space : List String} {uses : List Import} {pieces : List String}

/-- A name keeps its last segment when it is resolved, unless it is the alias of an import
and nothing more. -/
theorem resolve_getLast? (space : List String) (uses : List Import) (hpieces : pieces ≠ []) :
    (∃ word use, pieces = [word] ∧ use ∈ uses ∧ SameWord use.called word) ∨
      (resolve space uses pieces).getLast? = pieces.getLast? := by
  obtain ⟨head, rest, rfl⟩ := List.exists_cons_of_ne_nil hpieces
  -- Whatever is put in front of the rest of the name, if there is one, it stays the end.
  have hfront : ∀ front : List String, rest ≠ [] →
      (front ++ rest).getLast? = (head :: rest).getLast? := by
    intro front hrest
    rw [List.getLast?_append_of_ne_nil _ hrest, List.getLast?_cons_of_ne_nil hrest]
  rw [resolve]
  split_ifs with habsolute hrelative
  · exact .inr (hfront [] habsolute.2)
  · exact .inr (hfront space hrelative.2)
  · cases hused : (uses.filter fun use => SameWord use.called head).getLast? with
    | none => exact .inr (List.getLast?_append_of_ne_nil _ (List.cons_ne_nil head rest))
    | some use =>
      by_cases hrest : rest = []
      · subst hrest
        obtain ⟨hmem, hword⟩ := List.mem_filter.mp (List.mem_of_getLast? hused)
        exact .inl ⟨head, use, rfl, hmem, of_decide_eq_true hword⟩
      · exact .inr (hfront use.means hrest)

/-- The segments that a name resolves to have no backslash, like those that it is made
from. -/
theorem not_mem_of_mem_resolve (hspace : ∀ piece ∈ space, '\\' ∉ piece.toList)
    (huses : ∀ use ∈ uses, ∀ piece ∈ use.means, '\\' ∉ piece.toList)
    (hpieces : ∀ piece ∈ pieces, '\\' ∉ piece.toList) :
    ∀ piece ∈ resolve space uses pieces, '\\' ∉ piece.toList := by
  cases pieces with
  | nil => exact hspace
  | cons head rest =>
    have hrest := (List.forall_mem_cons.mp hpieces).2
    rw [resolve]
    split_ifs with habsolute hrelative
    · exact hrest
    · exact List.forall_mem_append.mpr ⟨hspace, hrest⟩
    · cases hused : (uses.filter fun use => SameWord use.called head).getLast? with
      | none => exact List.forall_mem_append.mpr ⟨hspace, hpieces⟩
      | some use =>
        have hmem := (List.mem_filter.mp (List.mem_of_getLast? hused)).1
        exact List.forall_mem_append.mpr ⟨huses use hmem, hrest⟩

end LastSegment

/-! ### Names in a scope -/

/-- A name is nothing but the alias of an import that counts. -/
def IsAlias (f : SourceFile) (counted : List (List Tree × Step)) (written : String) : Prop :=
  '\\' ∉ written.toList ∧ ∃ record ∈ recorded f counted, record.1 = Text.lower written

section Scopes

variable {f : SourceFile}

variable {root : Tree} {e : Entry root} {here : String} {counted : List (List Tree × Step)}

/-- A name that a scope resolves is an alias, or it ends like the name that it means. -/
theorem Entry.last_segment (hroot : NamespacesNotNested root)
    (hbefore : (e.before f).failure = none) (hforce : InForce f e.trail e.seen here counted)
    {written : String} {full : List String} (hne : full ≠ [])
    (hfull : ∀ piece ∈ full, '\\' ∉ piece.toList)
    (h : (e.scope f).qualifyPlain written = joined full) :
    IsAlias f counted written ∨ (segments written).getLast? = full.getLast? := by
  have hresolve : (e.scope f).qualifyPlain written =
      joined (resolve (spaceSegments here) (importedNames f counted) (segments written)) :=
    qualifyPlain_at_enter hroot e.split hbefore hforce written
  have hsegments := Text.segments_ne_nil written
  -- By the rules the name ends as before, unless it is an alias and nothing more.
  rcases resolve_getLast? (spaceSegments here) (importedNames f counted) hsegments with
    ⟨word, use, hword, huse, hsame⟩ | hlast
  · left
    have hmem : word ∈ segments written := hword ▸ List.mem_cons_self
    obtain rfl : word = written := by
      rw [← Text.joined_segments written, hword, Text.joined_singleton]
    refine ⟨Text.not_mem_of_mem_segments hmem, use.record, ?_, hsame⟩
    rw [recorded_eq]
    exact List.mem_map_of_mem huse
  · right
    have hnonempty :
        resolve (spaceSegments here) (importedNames f counted) (segments written) ≠ [] := by
      intro hnil
      rw [hnil, eq_comm, List.getLast?_nil, List.getLast?_eq_none_iff] at hlast
      exact hsegments hlast
    have hspaces : ∀ piece ∈ spaceSegments here, '\\' ∉ piece.toList := fun _ =>
      not_mem_of_mem_spaceSegments
    have hwritten : ∀ piece ∈ segments written, '\\' ∉ piece.toList := fun _ =>
      Text.not_mem_of_mem_segments
    have huses : ∀ use ∈ importedNames f counted, ∀ piece ∈ use.means, '\\' ∉ piece.toList :=
      fun _ huse => not_mem_of_mem_importedNames huse
    have hparts := not_mem_of_mem_resolve hspaces huses hwritten
    rw [← hlast, ← Text.segments_joined hnonempty hparts, ← hresolve, h,
      Text.segments_joined hne hfull]

end Scopes

/-! ### Callbacks by the name of a class -/

/-- A callback names a method by a class, such as `[Foo::class, 'run']`. -/
def NamesByClass (f : SourceFile) (t : Tree) (written method : String) : Prop :=
  ∃ first second, IsPair t first second ∧ IsClassName f first written ∧ IsText f second method

theorem NamesByClass.callback?_eq {f : SourceFile} {s : Scope} {t : Tree} {written method : String}
    (h : NamesByClass f t written method) (hne : written ≠ "") (hmethod : method ≠ "")
    (hwritten : isRelativeScope written = false) :
    callback? f s t = some (Ident.ofMethod written method) := by
  obtain ⟨first, second, hpair, hfirst, hsecond⟩ := h
  have howner : callbackOwner? f s first = some written := by
    simp only [isRelativeScope, Bool.or_eq_false_iff, decide_eq_false_iff_not] at hwritten
    rw [hfirst.callbackOwner?_eq, if_neg (not_or.mpr hwritten.1), if_neg hwritten.2]
  exact hpair.callback?_eq howner hne hsecond hmethod

/-- Callbacks by the name of a class. A call gives a hook a method of a class by a written
name, which the scope of the call resolves to a full name. A class with the last segment of
that for its name, in the same or another file, declares the method. The rules of callables
find the method under the identifier of that class and the method. The one relation that the
call draws for its callback starts at the identifier of the written name and the method. The
two are the same, unless the written name is nothing but the alias of an import, and as an
identifier it is not the name of the class. -/
theorem class_callback_lands_iff {f g : SourceFile} {root root' : Tree}
    (hroot : NamespacesNotNested root) {e : Entry root} {argument : Tree}
    {written method here : String} {counted : List (List Tree × Step)}
    (hbefore : (e.before f).failure = none) (hnode : (e.outcome f).failure = none)
    (hcall : GivesCallback f e.visit.tree argument)
    (hnames : NamesByClass f argument written method) (hne : written ≠ "")
    (hwritten : isRelativeScope written = false)
    (hforce : InForce f e.trail e.seen here counted)
    {c d : Entry root'} {owner space : String}
    (hdeclares : DeclaresMethod g c d owner method) (hplain : '\\' ∉ owner.toList)
    (hreached : (d.before g).failure = none)
    (hmeans : (e.scope f).qualify written = .ok (joined (spaceSegments space ++ [owner]))) :
    ∃ callable hook,
      .entity callable ∈ (callables g (d.scope g) d.visit).findings ∧ callable.kind = .method ∧
      callable.id = Ident.ofMethod (joined (spaceSegments space ++ [owner])) method ∧
      .entity hook ∈ (e.outcome f).findings ∧ hook.kind = .hook ∧
      relationsOfKind .registersHook (e.outcome f).findings =
        [.between (Ident.ofMethod written method) .registersHook hook.id "registers"] ∧
      (Ident.ofMethod written method = callable.id ↔
        (IsAlias f counted written → Ident.sanitize written = Ident.sanitize owner)) := by
  have hfull : ∀ piece ∈ spaceSegments space ++ [owner], '\\' ∉ piece.toList :=
    List.forall_mem_append.mpr ⟨fun _ => not_mem_of_mem_spaceSegments, by simpa using hplain⟩
  have hshort : shortName (joined (spaceSegments space ++ [owner])) = owner := by
    rw [Text.shortName_joined hfull, Text.lastWord_concat, if_neg hdeclares.owner_ne]
  obtain ⟨callable, hcallable, hkind, hid⟩ := hdeclares.exists_entity hreached
  obtain ⟨hook, hhook, hhookKind, hrelation⟩ :=
    e.registers hnode hcall (hnames.callback?_eq hne hdeclares.method_ne hwritten)
  have hname : shortName owner = owner := Text.shortName_of_not_mem hplain
  refine ⟨callable, hook, hcallable, hkind, ?_, hhook, hhookKind, hrelation, ?_⟩
  · rw [hid, Ident.ofMethod, Ident.ofMethod, hshort, hname]
  · rw [hid, Ident.ofMethod_eq_iff, hname]
    by_cases halias : IsAlias f counted written
    · rw [Text.shortName_of_not_mem halias.1]
      exact ⟨fun heq _ => heq, fun heq => heq halias⟩
    · -- The last segment is that of the class, so the written name is as good as its full name.
      rw [qualify_of_not_relative hwritten, Except.ok.injEq] at hmeans
      have hlast := (Entry.last_segment hroot hbefore hforce (by simp) hfull hmeans).resolve_left
        halias
      rw [List.getLast?_concat] at hlast
      rw [Text.shortName_of_getLast? hlast hdeclares.owner_ne, hname]
      exact ⟨fun _ h => absurd h halias, fun _ => rfl⟩

/-- The callback of a class name and the method `m`, where the class name stands from one
place to another. It is given to the hook `h`. -/
def classPair (start middle stop : Nat) : Tree :=
  .node "array_creation_expression" true start 39 none
    [.node "array_element_initializer" true start stop none
      [.node "class_constant_access_expression" true start stop none
        [.node "name" true start middle none [], .node "name" true (middle + 2) stop none []]],
      .node "array_element_initializer" true 36 39 none [.node "string" true 36 39 none []]]

@[inherit_doc classPair]
def classPairCall (pair : Tree) : Tree :=
  .node "function_call_expression" true 4 39 none
    [.node "name" true 4 14 (some "function") [],
      .node "arguments" true 14 39 (some "arguments")
        [.node "argument" true 14 17 none [.node "string" true 14 17 none []],
          .node "argument" true 17 39 none [pair]]]

/-- Two calls after `A\B` was imported as `X`: one names the class by the alias, the other by
its full name. -/
def namingProgram : Tree :=
  .node "program" true 0 39 none
    [importingDeclaration, classPairCall (classPair 17 18 25), classPairCall (classPair 25 29 36)]

@[inherit_doc namingProgram]
def namingFile : SourceFile where
  path := "/p/n.php"
  source := "A\\BXadd_action'h'X::class\\A\\B::class'm'"

@[inherit_doc namingProgram]
def aliasEntry : Entry namingProgram :=
  ⟨(Walk.trace namingProgram).take 11, [classPairCall (classPair 17 18 25), namingProgram],
    ⟨classPairCall (classPair 17 18 25), some importingDeclaration⟩,
    (Walk.trace namingProgram).drop 12, rfl⟩

@[inherit_doc namingProgram]
def fullEntry : Entry namingProgram :=
  ⟨(Walk.trace namingProgram).take 37, [classPairCall (classPair 25 29 36), namingProgram],
    ⟨classPairCall (classPair 25 29 36), some (classPairCall (classPair 17 18 25))⟩,
    (Walk.trace namingProgram).drop 38, rfl⟩

/-- A class `B` with a method `m` in a namespace `A`. -/
def ownMethod : Tree :=
  .node "method_declaration" true 2 3 none [.node "name" true 2 3 (some "name") []]

@[inherit_doc ownMethod]
def ownerClass : Tree :=
  .node "class_declaration" true 1 3 none [.node "name" true 1 2 (some "name") [], ownMethod]

@[inherit_doc ownMethod]
def ownerProgram : Tree := .node "program" true 0 3 none [declaringNamespace, ownerClass]

@[inherit_doc ownMethod]
def ownerFile : SourceFile := { path := "/p/b.php", source := "ABm" }

@[inherit_doc ownMethod]
def ownerEntry : Entry ownerProgram :=
  ⟨(Walk.trace ownerProgram).take 5, [ownerClass, ownerProgram],
    ⟨ownerClass, some declaringNamespace⟩, (Walk.trace ownerProgram).drop 6, rfl⟩

@[inherit_doc ownMethod]
def ownMethodEntry : Entry ownerProgram :=
  ⟨(Walk.trace ownerProgram).take 8, [ownMethod, ownerClass, ownerProgram],
    ⟨ownMethod, some (.node "name" true 1 2 (some "name") [])⟩,
    (Walk.trace ownerProgram).drop 9, rfl⟩

theorem ownerFile_declares : DeclaresMethod ownerFile ownerEntry ownMethodEntry "B" "m" :=
  ⟨by decide, by decide +kernel, by decide, rfl, by decide +kernel, by decide, [ownMethod], rfl,
    by decide⟩

/-- Under its full name, the class is found, and the callback lands on the method. -/
theorem class_callback_lands_iff_full :
    NamesByClass namingFile (classPair 25 29 36) "\\A\\B" "m" ∧
    (fullEntry.scope namingFile).qualify "\\A\\B" = .ok "A\\B" ∧
    ∃ callable hook : Entity, .entity callable ∈
        (callables ownerFile (ownMethodEntry.scope ownerFile) ownMethodEntry.visit).findings ∧
      relationsOfKind .registersHook (fullEntry.outcome namingFile).findings =
        [.between callable.id .registersHook hook.id "registers"] := by
  have hnames : NamesByClass namingFile (classPair 25 29 36) "\\A\\B" "m" := by
    refine ⟨_, _, ⟨_, _, _, .self _, rfl, rfl, .inl rfl, .inl rfl⟩, ?_, ?_⟩
    · exact ⟨_, _, _, .self _, rfl, by decide +kernel, rfl, by decide +kernel, by decide +kernel⟩
    · exact ⟨_, .self _, .inl rfl, by decide +kernel⟩
  have hmeans : (fullEntry.scope namingFile).qualify "\\A\\B" = .ok "A\\B" := by
    rw [qualify_of_not_relative (by decide +kernel)]
    exact congrArg Except.ok (by decide +kernel)
  refine ⟨hnames, hmeans, ?_⟩
  have hcall : GivesCallback namingFile fullEntry.visit.tree (classPair 25 29 36) :=
    ⟨rfl, .inl (by decide +kernel), rfl⟩
  have hforce : InForce namingFile fullEntry.trail fullEntry.seen "" fullEntry.seen :=
    .globally (by decide +kernel)
  have hfull : "A\\B" = joined (spaceSegments "A" ++ ["B"]) := by decide +kernel
  obtain ⟨callable, hook, hcallable, -, -, -, -, hrelation, hsame⟩ :=
    class_callback_lands_iff (by decide +kernel) (by decide +kernel) (by decide +kernel) hcall
      hnames (by decide) (by decide +kernel) hforce ownerFile_declares (by decide)
      (by decide +kernel) (hfull ▸ hmeans)
  -- The full name has backslashes, so it is no alias.
  have heq := hsame.mpr fun halias => absurd halias.1 (by decide)
  exact ⟨callable, hook, hcallable, heq ▸ hrelation⟩

/-- Under its alias, the class is found as well, but the callback starts at a method of the
alias, and the class has no such method. -/
theorem class_callback_misses_under_alias :
    NamesByClass namingFile (classPair 17 18 25) "X" "m" ∧
    GivesCallback namingFile aliasEntry.visit.tree (classPair 17 18 25) ∧
    (aliasEntry.scope namingFile).qualifyPlain "X" = "A\\B" ∧
    (ownerEntry.scope ownerFile).qualifyPlain "B" = "A\\B" ∧
    DeclaresMethod ownerFile ownerEntry ownMethodEntry "B" "m" ∧
    relationsOfKind .registersHook (aliasEntry.outcome namingFile).findings =
      [.between (Ident.ofMethod "X" "m") .registersHook (Ident.ofHook "action" "h") "registers"] ∧
    Ident.ofMethod "X" "m" ≠ Ident.ofMethod "A\\B" "m" := by
  refine ⟨?_, ⟨rfl, .inl (by decide +kernel), rfl⟩, by decide +kernel, by decide +kernel,
    ownerFile_declares, by decide +kernel, by decide +kernel⟩
  refine ⟨_, _, ⟨_, _, _, .self _, rfl, rfl, .inl rfl, .inl rfl⟩, ?_, ?_⟩
  · exact ⟨_, _, _, .self _, rfl, by decide +kernel, rfl, by decide +kernel, by decide +kernel⟩
  · exact ⟨_, .self _, .inl rfl, by decide +kernel⟩

end Php

end PluginAtlas
