import PluginAtlas.Proofs.ParsedCalls
import PluginAtlas.Proofs.RestSpellings

/-!
# Quote styles agree

The entities of hooks, stored data and REST routes are known by names that stand in calls as
literals. Which quotes a name is written in, with or without the mark of a binary literal and
inside any number of parentheses, does not matter: the literal has the name as its value, and
the identifier of the entity follows from the name alone.

## Main definitions

* `NamesIn`: a call of a function with a name at the place of one of its arguments.
* `idsOf`: the identifiers of the entities of a kind that a call adds.

## Main results

* `exists_spelled_of_parse`: the literal and the call of a file in which a name is written.
* `NamesIn.hooks_ids`, `NamesIn.storage_ids`, `NamesIn.route_ids`: the identifiers of hooks,
  stored data and routes.
* `quote_styles_agree`: the value and the identifiers of a text, in every style.
-/

namespace PluginAtlas.Php

/-- A call of a function whose argument at a place writes a text in a style. -/
structure NamesIn (f : SourceFile) (function : String) (place : Nat) (style : LiteralStyle)
    (s : String) (call : Tree) : Prop where
  kind : call.kind = "function_call_expression"
  function : functionName? f call = some function
  argument : ∃ t, (callArguments call)[place]? = some t ∧ IsSpelled f style s t

/-- The identifiers of the entities of a kind that a call adds. -/
def idsOf (kind : EntityKind) (o : Outcome) : List Ident :=
  ((o.findings.filterMap Finding.entity?).filter fun e => e.kind = kind).map Entity.id

variable {f : SourceFile} {scope : Scope} {v : Visit} {function s : String} {place : Nat}
  {style : LiteralStyle}

/-- In a file that begins with a call, each text is found at its place. -/
theorem exists_namesIn_of_parse {arguments : List (LiteralStyle × String)} {rest : List Char}
    (hname : isFunctionName function = true) (hplace : arguments[place]? = some (style, s))
    (hsource : f.source = String.ofList
      (openTag ++ (writtenCall function arguments ++ ';' :: rest))) :
    ∃ call, firstExpression? (parse f.source) = some call ∧
      NamesIn f function place style s call := by
  cases arguments with
  | nil => simp at hplace
  | cons first further =>
    obtain ⟨call, hparse, hcall⟩ := exists_call_of_parse hname hsource
    refine ⟨call, hparse, hcall.kind, hcall.function, ?_⟩
    obtain ⟨hlt, hwritten⟩ := List.getElem?_eq_some_iff.mp hplace
    obtain ⟨hlength, hspelled⟩ := List.forall₂_iff_get.mp hcall.arguments
    have hplace' := hspelled place hlt (hlength ▸ hlt)
    rw [List.get_eq_getElem, hwritten] at hplace'
    exact ⟨_, List.getElem?_eq_getElem (hlength ▸ hlt), hplace'⟩

/-! ### Identifiers -/

theorem NamesIn.stringValue?_eq {call : Tree} (h : NamesIn f function place style s call)
    (hnul : Char.ofNat 0 ∉ s.toList) :
    stringValue? f (callArguments call)[place]? = some s := by
  obtain ⟨t, ht, hspelled⟩ := h.argument
  rw [ht, hspelled.stringValue?_eq hnul]

/-- The name of a hook, or the stand-in for the place if it is empty. -/
def nameOrPlace (f : SourceFile) (call : Tree) (s : String) : String :=
  if s = "" then dynamicHookName f.relativePath (f.lineOf call) else s

theorem hookName_eq {t : Tree} (h : stringValue? f (some t) = some s) (call : Tree) :
    hookName f t (f.lineOf call) = nameOrPlace f call s := by
  by_cases hempty : s = ""
  · simp [hookName, h, nameOrPlace, hempty]
  · simp [hookName, h, nameOrPlace, hempty]

/-- A call works with hooks of a kind: it runs one, or registers a callback with a priority that
can be read. -/
def UsesHook (f : SourceFile) (function kind : String) (call : Tree) : Prop :=
  triggeredHook? function = some kind ∨
    registeredHook? function = some kind ∧
      ∃ priority, integerValue f (callArguments call)[2]? = .ok priority

/-- No function both registers callbacks and runs hooks. -/
theorem registeredHook?_of_triggered {kind : String} (h : triggeredHook? function = some kind) :
    registeredHook? function = none := by
  unfold triggeredHook? at h
  split_ifs at h with haction hfilter
  · rcases (by simpa using haction : function = "do_action" ∨ function = "do_action_ref_array") with
      rfl | rfl <;> decide
  · rcases (by simpa using hfilter :
      function = "apply_filters" ∨ function = "apply_filters_ref_array") with rfl | rfl <;> decide

theorem kind_of_closureEntity? {t : Tree} {e : Entity} (h : closureEntity? f t = some e) :
    e.kind = .function := by
  simp only [closureEntity?, Option.bind_eq_bind, Option.bind_eq_some_iff] at h
  obtain ⟨inner, -, h⟩ := h
  split_ifs at h
  obtain rfl := Option.some.inj h
  rfl

/-- One entity of a kind, and others of other kinds. -/
theorem idsOf_cons {kind : EntityKind} {entity : Entity} {others : List Finding}
    (hentity : entity.kind = kind) (hothers : ∀ e, .entity e ∈ others → e.kind ≠ kind) :
    idsOf kind (.found (.entity entity :: others)) = [entity.id] := by
  have hnone : (others.filterMap Finding.entity?).filter (fun e => e.kind = kind) = [] := by
    rw [List.filter_eq_nil_iff]
    intro e he
    obtain ⟨x, hx, hxe⟩ := List.mem_filterMap.mp he
    cases x with
    | entity e' =>
      obtain rfl : e' = e := Option.some.inj hxe
      simpa using hothers e' hx
    | relation _ => simp [Finding.entity?] at hxe
    | relationIfKnown _ => simp [Finding.entity?] at hxe
  simp [idsOf, Outcome.found, Finding.entity?, hentity, hnone]

/-- Entities of one kind only. -/
theorem idsOf_map {α : Type} {kind : EntityKind} (entity : α → Entity)
    (h : ∀ a, (entity a).kind = kind) (xs : List α) :
    idsOf kind (.found (xs.map fun a => .entity (entity a))) = xs.map fun a => (entity a).id := by
  have hentities : (xs.map fun a => Finding.entity (entity a)).filterMap Finding.entity? =
      xs.map entity := by
    simp [List.filterMap_map, Function.comp_def, Finding.entity?]
  have hall : (xs.map entity).filter (fun e => e.kind = kind) = xs.map entity := by
    simp [List.filter_eq_self, h]
  rw [idsOf, Outcome.found, hentities, hall, List.map_map]
  rfl

/-- A callback and a handler add no hooks of their own. -/
theorem kind_ne_hook {hook : Ident} {argument : Option Tree} {name : String} (e : Entity)
    (h : .entity e ∈ callbackFindings f scope hook argument ++ handlerFindings hook name) :
    e.kind ≠ .hook := by
  rcases List.mem_append.mp h with h | h
  · cases argument with
    | none => simp [callbackFindings] at h
    | some argument =>
      simp [callbackFindings] at h
      simp [kind_of_closureEntity? h]
  · unfold handlerFindings at h
    split at h <;> simp at h

/-- The identifier of a hook follows from its kind and its name. -/
theorem NamesIn.hooks_ids {kind : String} (h : NamesIn f function 0 style s v.tree)
    (hnul : Char.ofNat 0 ∉ s.toList) (hkind : UsesHook f function kind v.tree) :
    idsOf .hook (hooks f scope v) = [Ident.ofHook kind (nameOrPlace f v.tree s)] := by
  obtain ⟨t, ht, hspelled⟩ := h.argument
  obtain ⟨rest, hrest⟩ : ∃ rest, callArguments v.tree = t :: rest := by
    cases harguments : callArguments v.tree with
    | nil => simp [harguments] at ht
    | cons first rest =>
      rw [harguments] at ht
      exact ⟨rest, by rw [Option.some.inj ht]⟩
  have hname := hookName_eq (hspelled.stringValue?_eq hnul) v.tree
  rcases hkind with htriggered | ⟨hregistered, priority, hpriority⟩
  · have hregistered := registeredHook?_of_triggered htriggered
    simp only [hooks, h.kind, h.function, hregistered, htriggered, hookTrigger, hrest, hname]
    exact idsOf_cons rfl (by simp)
  · -- A registration looks at its priority before it adds the hook.
    rw [hrest] at hpriority
    have hpriority' : integerValue f rest[1]? = .ok priority := hpriority
    simp only [hooks, h.kind, h.function, hregistered, hookRegistration, hrest, hname, hpriority',
      Outcome.attempt]
    exact idsOf_cons rfl kind_ne_hook

/-- The identifier of stored data follows from the operation and the key. -/
theorem NamesIn.storage_ids {store : String} {operation : StorageOperation}
    (h : NamesIn f function place style s v.tree) (hnul : Char.ofNat 0 ∉ s.toList)
    (hfunction : storageFunctions.lookup function = some (store, operation, place))
    (file : String) (line : LineMark) :
    idsOf .dataSource (storage f scope v) =
      [Ident.ofDataSource operation.word (some s) file line] := by
  have haccess : storageAccess? f v.tree = some (store, operation, some s) := by
    simp [storageAccess?, h.kind, h.function, hfunction, h.stringValue?_eq hnul]
  simp only [storage, haccess]
  exact idsOf_cons rfl (by simp)

/-- The identifiers of a route follow from its namespace, its path and its methods. -/
theorem NamesIn.route_ids {space : String} {style' : LiteralStyle} {methods : List String}
    (hspace : NamesIn f "register_rest_route" 0 style' space v.tree)
    (hroute : NamesIn f "register_rest_route" 1 style s v.tree)
    (hnul : Char.ofNat 0 ∉ s.toList) (hnul' : Char.ofNat 0 ∉ space.toList)
    (hmethods : restMethods f (callArguments v.tree)[2]? = .ok methods) :
    idsOf .restEndpoint (entryPoints f scope v) =
      methods.map fun method => Ident.ofRestEndpoint method (routePath space s) := by
  have hpoint : EntryPoint.of? "register_rest_route" = some .restRoute := by decide
  simp only [entryPoints, hspace.kind, hspace.function, Option.bind_some, hpoint, restRoute,
    hspace.stringValue?_eq hnul', hroute.stringValue?_eq hnul, hmethods, Outcome.attempt]
  exact idsOf_map (routeEntity f v.tree (routePath space s)) (fun _ => rfl) methods

/-! ### Every style -/

/-- The grammar reads a text in any style as such an expression, at the front of a file and as an
argument of a call. -/
theorem exists_spelled_of_parse (style : LiteralStyle) {s : String}
    (hnul : Char.ofNat 0 ∉ s.toList) :
    (∀ (f : SourceFile) rest,
      f.source = String.ofList (openTag ++ (style.written s ++ ';' :: rest)) →
      ∃ t, firstExpression? (parse f.source) = some t ∧ IsSpelled f style s t ∧
        stringValue? f (some t) = some s) ∧
    ∀ (f : SourceFile) function place arguments rest, isFunctionName function = true →
      arguments[place]? = some (style, s) →
      f.source = String.ofList (openTag ++ (writtenCall function arguments ++ ';' :: rest)) →
      ∃ call, firstExpression? (parse f.source) = some call ∧
        NamesIn f function place style s call := by
  constructor
  · intro f rest hsource
    obtain ⟨t, hparse, hspelled⟩ := firstExpression?_written hsource
    exact ⟨t, hparse, hspelled, hspelled.stringValue?_eq hnul⟩
  · intro f function place arguments rest hname hplace hsource
    exact exists_namesIn_of_parse hname hplace hsource

/-- Quote styles agree. A text without NUL is written between either quotes, with the characters
escaped that the quotes ask for, with or without the mark of a binary literal and in any number of
parentheses. Wherever such an expression stands in a tree, its value is the text. The
identifiers of a hook, of stored data and of the endpoints of a route follow from the text, and
from nothing else about the literal; only a hook with an empty name is named after its place. -/
theorem quote_styles_agree (style : LiteralStyle) {s : String} (hnul : Char.ofNat 0 ∉ s.toList) :
    (∀ f t, IsSpelled f style s t → stringValue? f (some t) = some s) ∧
    (∀ f scope (v : Visit) function kind, NamesIn f function 0 style s v.tree →
      UsesHook f function kind v.tree →
      idsOf .hook (hooks f scope v) = [Ident.ofHook kind (nameOrPlace f v.tree s)]) ∧
    (∀ f scope (v : Visit) function place store (operation : StorageOperation),
      NamesIn f function place style s v.tree →
      storageFunctions.lookup function = some (store, operation, place) →
      ∀ file line, idsOf .dataSource (storage f scope v) =
        [Ident.ofDataSource operation.word (some s) file line]) ∧
    (∀ f scope (v : Visit) other space methods,
      NamesIn f "register_rest_route" 0 other space v.tree →
      NamesIn f "register_rest_route" 1 style s v.tree → Char.ofNat 0 ∉ space.toList →
      restMethods f (callArguments v.tree)[2]? = .ok methods →
      idsOf .restEndpoint (entryPoints f scope v) =
        methods.map fun method => Ident.ofRestEndpoint method (routePath space s)) := by
  refine ⟨?value, ?hook, ?storage, ?route⟩
  case value => exact fun f t h => h.stringValue?_eq hnul
  case hook =>
    intro f scope v function kind h hkind
    exact h.hooks_ids hnul hkind
  case storage =>
    intro f scope v function place store operation h hfunction
    exact h.storage_ids hnul hfunction
  case route =>
    intro f scope v other space methods hspace hroute hnul' hmethods
    exact hspace.route_ids hroute hnul hnul' hmethods

/-- A name with backslashes in front of quotes, of the letter `n` and of the end. -/
def backslashed : String := "a\\'\\\\\"\\n$\n\\"

/-- The name between apostrophes. -/
def singleQuoted : SourceFile where
  path := "/p/a.php"
  source := "<?php do_action('a\\\\\\'\\\\\\\\\"\\\\n$\n\\\\');"

/-- The name between double quotes, marked as binary and in parentheses. -/
def doubleQuoted : SourceFile where
  path := "/p/b.php"
  source := "<?php do_action((B\"a\\\\'\\\\\\\\\\\"\\\\n\\$\\n\\\\\"));"

/-- Both spellings of the name give the same hook. -/
theorem quote_styles_agree_backslashed :
    Char.ofNat 0 ∉ backslashed.toList ∧
    ∃ call call', firstExpression? (parse singleQuoted.source) = some call ∧
      firstExpression? (parse doubleQuoted.source) = some call' ∧
      idsOf .hook (hooks singleQuoted {} ⟨call, none⟩) = [Ident.ofHook "action" backslashed] ∧
      idsOf .hook (hooks doubleQuoted {} ⟨call', none⟩) = [Ident.ofHook "action" backslashed] := by
  have hnul : Char.ofNat 0 ∉ backslashed.toList := by decide
  have htriggered : triggeredHook? "do_action" = some "action" := by decide
  have hsingle := quote_styles_agree ⟨.single, .none, 0⟩ hnul
  have hdouble := quote_styles_agree ⟨.double, .upper, 1⟩ hnul
  have hfunction : isFunctionName "do_action" = true := by decide +kernel
  obtain ⟨-, hid, -⟩ := hsingle
  obtain ⟨-, hid', -⟩ := hdouble
  obtain ⟨call, hcall, hnames⟩ := (exists_spelled_of_parse ⟨.single, .none, 0⟩ hnul).2 singleQuoted
    "do_action" 0 [(⟨.single, .none, 0⟩, backslashed)] [] hfunction rfl (by decide +kernel)
  obtain ⟨call', hcall', hnames'⟩ := (exists_spelled_of_parse ⟨.double, .upper, 1⟩ hnul).2
    doubleQuoted "do_action" 0 [(⟨.double, .upper, 1⟩, backslashed)] [] hfunction rfl
    (by decide +kernel)
  exact ⟨hnul, call, call', hcall, hcall',
    hid singleQuoted {} ⟨call, none⟩ "do_action" "action" hnames (.inl htriggered),
    hid' doubleQuoted {} ⟨call', none⟩ "do_action" "action" hnames' (.inl htriggered)⟩

end PluginAtlas.Php
