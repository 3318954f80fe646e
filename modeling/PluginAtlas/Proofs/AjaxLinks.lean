import PluginAtlas.Proofs.Contributions
import PluginAtlas.Proofs.Registration
import PluginAtlas.Proofs.Replay
import PluginAtlas.Proofs.Segments

/-!
# Handlers of AJAX actions

A registration of an AJAX hook is looked at twice: one family of rules draws the relation
from the hook to the handler if the handler is known, a later one registers the handler.
Both recognise the same calls, so that over any run of files the handlers are those of the
first call for each, and the relations are those of all calls with an earlier one for the
same handler.

## Main definitions

* `AjaxCall`, `ajaxCall?`: a registration of an AJAX hook.
* `ajaxCalls`: the registrations of several files, in the order of the walks.
* `Finding.isAjax`: the findings that such registrations are responsible for.

## Main results

* `findAt_ajax`, `extract_ajax`: what a node and a file find of handlers.
* `AjaxCall.ends_eq_of_id_eq`: the identifier of a relation to a handler shows its ends.
* `readAll_links_repeated_ajax`: handlers and their relations after any run of files.
-/

namespace PluginAtlas

namespace Php

/-- A call that registers a callback for an AJAX hook. -/
structure AjaxCall where
  path : String
  line : Nat
  /-- The kind of the hook. -/
  kind : String
  hook : String
  action : String
deriving DecidableEq

namespace AjaxCall

/-- The hook of a call. -/
def hookId (c : AjaxCall) : Ident := Ident.ofHook c.kind c.hook

/-- The handler of a call. -/
def handlerId (c : AjaxCall) : Ident := Ident.ofAjaxHandler c.action

/-- The handler that a call registers, unless it is known. -/
def handler (c : AjaxCall) : Entity where
  id := c.handlerId
  label := c.action
  kind := .ajaxHandler
  file := c.path
  line := c.line
  metadata := [("hook_name", .str c.hook)]

/-- The relation from the hook to the handler. -/
def link (c : AjaxCall) : Relation := .between c.hookId .triggersHandler c.handlerId "triggers"

/-- What a call finds of its handler: the relation is tried before the handler is there. -/
def findings (c : AjaxCall) : List Finding := [.relationIfKnown c.link, .entity c.handler]

end AjaxCall

/-- The hook that a literal names and its action, if that is an AJAX hook. -/
def ajaxName? (literal : Option String) : Option (String × String) := do
  let hook ← literal
  let action ← ajaxAction? hook
  if action = "" then none else some (hook, action)

/-- The registration of an AJAX hook that a node is. -/
def ajaxCall? (f : SourceFile) (t : Tree) : Option AjaxCall :=
  if t.kind = "function_call_expression" then do
    let kind ← (functionName? f t).bind registeredHook?
    let (hook, action) ← ajaxName? (stringValue? f (callArguments t)[0]?)
    some { path := f.path, line := f.lineOf t, kind, hook, action }
  else none

/-- The registrations of AJAX hooks in files, in the order in which they are met. -/
def ajaxCalls (files : List (SourceFile × Tree)) : List AjaxCall :=
  files.flatMap fun file => (Walk.nodes file.2).filterMap (ajaxCall? file.1)

end Php

/-- The findings about handlers: the handlers, and the relations that wait for them. -/
def Finding.isAjax : Finding → Bool
  | entity e => e.kind = .ajaxHandler
  | relation _ => false
  | relationIfKnown _ => true

namespace Php

/-! ### One node -/

section Node

variable {f : SourceFile} {s : Scope} {v : Visit}

theorem filter_isAjax_eq_nil {xs : List Finding} (h : ∀ x ∈ xs, x.isAjax = false) :
    xs.filter Finding.isAjax = [] :=
  List.filter_eq_nil_iff.mpr fun x hx => by simp [h x hx]

theorem classRelations_not_ajax {source : Ident} {kind : RelationKind} {names : List String} :
    (classRelations s source kind names).All fun x => x.isAjax = false := by
  refine .sequence fun o ho => ?_
  obtain ⟨name, -, rfl⟩ := List.mem_map.mp ho
  exact .attempt fun target _ => .found (by simp [Finding.isAjax])

theorem declarations_not_ajax : (declarations f s v).All fun x => x.isAjax = false := by
  unfold declarations
  split
  · exact .nothing
  · rename_i kind hkind
    have hother : kind ≠ .ajaxHandler := by
      rintro rfl
      exact absurd (declaredKind?_opening hkind) (by decide)
    dsimp only
    split_ifs
    · exact .nothing
    · refine .attempt fun id _ => .after (by simpa [Finding.isAjax] using hother) ?_
      exact .followedBy classRelations_not_ajax classRelations_not_ajax

theorem callables_not_ajax : (callables f s v).All fun x => x.isAjax = false := by
  unfold callables
  split_ifs
  · unfold methodDeclaration
    dsimp only
    split
    · exact .nothing
    · split
      · exact .nothing
      · exact .after (by simp [Finding.isAjax])
          (.attempt fun _ _ => .found (by simp [Finding.isAjax]))
  · unfold functionDeclaration
    refine .found ?_
    dsimp only
    split_ifs <;> simp [Finding.isAjax]
  · unfold staticCall
    split
    · dsimp only
      split_ifs
      · exact .nothing
      · exact .attempt fun _ _ => .found (by simp [Finding.isAjax])
    · exact .nothing
  · exact .nothing

theorem storage_not_ajax : (storage f s v).All fun x => x.isAjax = false := by
  unfold storage
  split
  · exact .nothing
  · refine .found fun x hx => ?_
    rcases List.mem_cons.mp hx with rfl | hx
    · rfl
    · obtain ⟨caller, -, rfl⟩ := Option.map_eq_some_iff.mp (Option.mem_toList.mp hx)
      rfl

theorem includes_not_ajax : (includes f s v).All fun x => x.isAjax = false := by
  have hincluded : ∀ line target, (includedEntity f line target).kind ≠ .ajaxHandler := by
    intro line target
    cases target <;> simp [includedEntity]
  exact includes_all (by simp [Finding.isAjax, ownEntity])
    fun line path? => by simp [Finding.isAjax, hincluded]

theorem callbackFindings_not_ajax (hook : Ident) (argument : Option Tree) :
    ∀ x ∈ callbackFindings f s hook argument, x.isAjax = false := by
  intro x hx
  unfold callbackFindings at hx
  split at hx
  · cases hx
  · rcases List.mem_append.mp hx with hx | hx
    · obtain ⟨e, he, rfl⟩ := Option.map_eq_some_iff.mp (Option.mem_toList.mp hx)
      unfold closureEntity? at he
      obtain ⟨t, -, he⟩ := Option.bind_eq_some_iff.mp he
      split at he
      · rw [← Option.some.inj he]
        simp [Finding.isAjax]
      · cases he
    · obtain ⟨id, -, rfl⟩ := Option.map_eq_some_iff.mp (Option.mem_toList.mp hx)
      rfl

theorem hookTrigger_not_ajax (call : Tree) (kind : String) :
    ∀ x ∈ hookTrigger f s call kind, x.isAjax = false := by
  intro x hx
  unfold hookTrigger at hx
  split at hx
  · cases hx
  · rcases List.mem_cons.mp hx with rfl | hx
    · rfl
    · obtain ⟨caller, -, rfl⟩ := Option.map_eq_some_iff.mp (Option.mem_toList.mp hx)
      rfl

/-- The stand-in for the name of a hook names no AJAX hook. -/
theorem ajaxAction?_dynamicHookName (file : String) (line : LineMark) :
    ajaxAction? (dynamicHookName file line) = none := by
  have hstart : ∀ start, start.toList.head? = some 'w' →
      Text.dropStart? start (dynamicHookName file line) = none := by
    intro start hhead
    obtain ⟨rest, hrest⟩ := List.head?_eq_some_iff.mp hhead
    simp [Text.dropStart?, Text.startsWith, dynamicHookName, hrest, List.isPrefixOf]
  rw [ajaxAction?, hstart _ rfl, hstart _ rfl]
  rfl

theorem ajaxName?_eq_none {hook : String} (h : ajaxAction? hook = none) :
    ajaxName? (some hook) = none := by
  simp [ajaxName?, h]

theorem ajaxName?_of_action {hook action : String} (h : ajaxAction? hook = some action) :
    ajaxName? (some hook) = if action = "" then none else some (hook, action) := by
  simp [ajaxName?, h]

/-- The relation to a handler is tried for the AJAX hooks that literals name. -/
theorem handlerFindings_hookName (first : Tree) (line : Nat) (kind : String) :
    handlerFindings (Ident.ofHook kind (hookName f first line)) (hookName f first line) =
      ((ajaxName? (stringValue? f first)).map fun (hook, action) =>
        Finding.relationIfKnown (.between (Ident.ofHook kind hook) .triggersHandler
          (Ident.ofAjaxHandler action) "triggers")).toList := by
  have hdynamic : ∀ hook, handlerFindings hook (dynamicHookName f.relativePath line) = [] := by
    intro hook
    rw [handlerFindings, ajaxAction?_dynamicHookName]
  unfold hookName
  split
  · rename_i hliteral
    rw [hdynamic, hliteral]
    rfl
  · rename_i hliteral
    rw [hdynamic, hliteral, ajaxName?_eq_none (by decide +kernel)]
    rfl
  · rename_i hook _ hliteral
    rw [hliteral, handlerFindings]
    split
    · rename_i haction
      rw [ajaxName?_eq_none haction]
      rfl
    · rename_i haction
      rw [ajaxName?_of_action haction, if_pos rfl]
      rfl
    · rename_i action hne haction
      rw [ajaxName?_of_action haction, if_neg hne]
      rfl

/-- A handler is registered for the AJAX hooks that literals name. -/
theorem entryPointEntity?_ajaxHook (call : Tree) (arguments : List Tree) :
    entryPointEntity? f call arguments .ajaxHook =
      (ajaxName? (stringValue? f arguments[0]?)).map fun (hook, action) =>
        { id := Ident.ofAjaxHandler action, label := action, kind := .ajaxHandler
          file := f.path, line := f.lineOf call, metadata := [("hook_name", .str hook)] } := by
  rw [entryPointEntity?]
  unfold literalAt?
  split
  · rename_i hliteral
    rw [hliteral]
    rfl
  · rename_i hliteral
    rw [hliteral, ajaxName?_eq_none (by decide +kernel)]
    rfl
  · rename_i hook _ hliteral
    rw [hliteral, Option.bind_eq_bind, Option.bind_some]
    cases haction : ajaxAction? hook with
    | none =>
      rw [ajaxName?_eq_none haction]
      rfl
    | some action =>
      rw [ajaxName?_of_action haction, Option.bind_some]
      split_ifs <;> rfl

theorem hookRegistration_ajax {call : Tree} {kind : String}
    (hok : (hookRegistration f s call kind).failure = none) :
    (hookRegistration f s call kind).findings.filter Finding.isAjax =
      ((ajaxName? (stringValue? f (callArguments call)[0]?)).map fun (hook, action) =>
        Finding.relationIfKnown (.between (Ident.ofHook kind hook) .triggersHandler
          (Ident.ofAjaxHandler action) "triggers")).toList := by
  unfold hookRegistration at hok ⊢
  cases hcall : callArguments call with
  | nil => rfl
  | cons first rest =>
    simp only [hcall] at hok ⊢
    cases hpriority : integerValue f rest[1]? with
    | error failure => simp [hpriority, Outcome.attempt, Outcome.failed] at hok
    | ok priority =>
      have hhook : (Finding.entity (hookEntity f kind (hookName f first (f.lineOf call))
          (f.lineOf call) (priority.getD defaultPriority))).isAjax = false := rfl
      simp only [Outcome.attempt, Outcome.found]
      rw [List.filter_cons_of_neg (by simp [hhook]), List.filter_append,
        filter_isAjax_eq_nil (callbackFindings_not_ajax _ _), List.nil_append]
      simp only [hookEntity]
      rw [handlerFindings_hookName, List.getElem?_cons_zero]
      cases ajaxName? (stringValue? f (some first)) <;> rfl

/-- The relation is tried at every registration of an AJAX hook, and only there. -/
theorem hooks_ajax (hok : (hooks f s v).failure = none) :
    (hooks f s v).findings.filter Finding.isAjax =
      ((ajaxCall? f v.tree).map fun c => Finding.relationIfKnown c.link).toList := by
  by_cases hkind : v.tree.kind = "function_call_expression"
  · cases hregistered : (functionName? f v.tree).bind registeredHook? with
    | some kind =>
      obtain ⟨name, hname, hregisters⟩ := Option.bind_eq_some_iff.mp hregistered
      have hhooks : hooks f s v = hookRegistration f s v.tree kind := by
        simp [hooks, hkind, hname, hregisters]
      rw [hhooks] at hok ⊢
      rw [hookRegistration_ajax hok, ajaxCall?, if_pos hkind, hregistered]
      cases ajaxName? (stringValue? f (callArguments v.tree)[0]?) <;> rfl
    | none =>
      have hother : (hooks f s v).All fun x => x.isAjax = false := by
        unfold hooks
        rw [if_neg (not_not_intro hkind)]
        split
        · exact .nothing
        · rename_i name hname
          rw [hname, Option.bind_some] at hregistered
          split
          · rename_i hregisters
            cases hregistered.symm.trans hregisters
          · exact .found (hookTrigger_not_ajax v.tree _)
          · exact .nothing
      rw [filter_isAjax_eq_nil hother, ajaxCall?, if_pos hkind, hregistered]
      rfl
  · rw [hooks, if_pos hkind, ajaxCall?, if_neg hkind]
    rfl

theorem restRoute_not_ajax (call : Tree) (arguments : List Tree) :
    (restRoute f call arguments).All fun x => x.isAjax = false := by
  unfold restRoute
  split
  · exact .attempt fun methods _ => .found (by simp [Finding.isAjax])
  · exact .nothing

theorem entryPointEntity?_kind {call : Tree} {arguments : List Tree} {point : EntryPoint}
    (hpoint : point ≠ .ajaxHook) {e : Entity}
    (h : entryPointEntity? f call arguments point = some e) : e.kind ≠ .ajaxHandler := by
  cases point with
  | restRoute => cases h
  | ajaxHook => exact absurd rfl hpoint
  | httpCall method =>
    rw [← Option.some.inj h]
    simp
  | shortcode | adminPage _ _ | cronJob _ | postType | taxonomy =>
    obtain ⟨name, -, h⟩ := Option.bind_eq_some_iff.mp h
    rw [← Option.some.inj h]
    simp

/-- The functions that register callbacks for hooks are those that register handlers. -/
theorem entryPoint_eq_ajaxHook_iff {name : String} :
    EntryPoint.of? name = some .ajaxHook ↔ (registeredHook? name).isSome := by
  constructor
  · intro h
    have hall : ∀ entry ∈ entryPointFunctions, entry.2 = .ajaxHook →
        (registeredHook? entry.1).isSome := by decide +kernel
    exact hall _ (EntryPoint.mem_functions_of_eq_some h) rfl
  · intro h
    unfold registeredHook? at h
    split_ifs at h with haction hfilter
    · rw [haction]
      decide +kernel
    · rw [hfilter]
      decide +kernel
    · cases h

/-- A handler is registered at every registration of an AJAX hook, and only there. -/
theorem entryPoints_ajax :
    (entryPoints f s v).findings.filter Finding.isAjax =
      ((ajaxCall? f v.tree).map fun c => Finding.entity c.handler).toList := by
  by_cases hkind : v.tree.kind = "function_call_expression"
  · cases hregistered : (functionName? f v.tree).bind registeredHook? with
    | some kind =>
      obtain ⟨name, hname, hregisters⟩ := Option.bind_eq_some_iff.mp hregistered
      have hpoint : EntryPoint.of? name = some .ajaxHook :=
        entryPoint_eq_ajaxHook_iff.mpr (by rw [hregisters]; rfl)
      have hpoints : entryPoints f s v = .found ((entryPointEntity? f v.tree
          (callArguments v.tree) .ajaxHook).map Finding.entity).toList := by
        simp [entryPoints, hkind, hname, hpoint]
      rw [hpoints, entryPointEntity?_ajaxHook, ajaxCall?, if_pos hkind, hregistered]
      cases ajaxName? (stringValue? f (callArguments v.tree)[0]?) <;> rfl
    | none =>
      have hother : (entryPoints f s v).All fun x => x.isAjax = false := by
        unfold entryPoints
        rw [if_neg (not_not_intro hkind)]
        split
        · exact .nothing
        · exact restRoute_not_ajax _ _
        · rename_i point _ hpoint
          refine .found fun x hx => ?_
          obtain ⟨e, he, rfl⟩ := Option.map_eq_some_iff.mp (Option.mem_toList.mp hx)
          have hnot : point ≠ .ajaxHook := by
            rintro rfl
            obtain ⟨name, hname, hpoint⟩ := Option.bind_eq_some_iff.mp hpoint
            rw [hname, Option.bind_some] at hregistered
            have hsome := entryPoint_eq_ajaxHook_iff.mp hpoint
            rw [hregistered] at hsome
            cases hsome
          exact decide_eq_false (entryPointEntity?_kind hnot he)
      rw [filter_isAjax_eq_nil hother, ajaxCall?, if_pos hkind, hregistered]
      rfl
  · rw [entryPoints, if_pos hkind, ajaxCall?, if_neg hkind]
    rfl

/-- A node finds of handlers what the registration of an AJAX hook finds, if it is one: the
relation first, and then the handler. -/
theorem findAt_ajax (hok : (findAt Family.all f s v).failure = none) :
    (findAt Family.all f s v).findings.filter Finding.isAjax =
      (ajaxCall? f v.tree).toList.flatMap AjaxCall.findings := by
  have hhooks := hooks_ajax (of_mem_findAt .hooks (by decide) hok).1
  unfold findAt at hok ⊢
  rw [Outcome.findings_sequence hok]
  simp only [Family.all, List.map_cons, List.map_nil, List.flatMap_cons, List.flatMap_nil,
    Family.apply, List.filter_append, filter_isAjax_eq_nil declarations_not_ajax,
    filter_isAjax_eq_nil callables_not_ajax, filter_isAjax_eq_nil storage_not_ajax,
    filter_isAjax_eq_nil includes_not_ajax, hhooks, entryPoints_ajax, List.nil_append,
    List.append_nil]
  cases ajaxCall? f v.tree <;> rfl

end Node

/-! ### One file and several -/

/-- The findings about handlers so far are those of the registrations met. -/
def AjaxTracked (f : SourceFile) (met : List Tree) (p : Progress) : Prop :=
  p.failure = none → p.found.reverse.flatten.filter Finding.isAjax =
    (met.filterMap (ajaxCall? f)).flatMap AjaxCall.findings

namespace AjaxTracked

variable {f : SourceFile} {met : List Tree} {p : Progress} {v : Visit}

theorem enter (h : AjaxTracked f met p) :
    AjaxTracked f (met ++ [v.tree]) (p.step Family.all f (.enter v)) := by
  intro hstep
  have hp := Progress.failure_eq_none_of_step hstep
  rw [Progress.step_enter hp] at hstep ⊢
  simp only [List.reverse_cons, List.flatten_append, List.flatten_singleton, List.filter_append,
    List.filterMap_append, List.flatMap_append, h hp, findAt_ajax hstep]
  rfl

theorem leave (h : AjaxTracked f met p) : AjaxTracked f met (p.step Family.all f (.leave v)) := by
  intro hstep
  have hp := Progress.failure_eq_none_of_step hstep
  rw [Progress.step_leave hp]
  exact h hp

end AjaxTracked

/-- A file that is read to its end finds of handlers what its registrations find. -/
theorem extract_ajax {f : SourceFile} {root : Tree}
    (hok : (extract Family.all f root).failure = none) :
    (extract Family.all f root).findings.filter Finding.isAjax =
      ((Walk.nodes root).filterMap (ajaxCall? f)).flatMap AjaxCall.findings := by
  have htracked :
      AjaxTracked f (Walk.nodes root) (Walk.fold (Progress.step Family.all f) {} root) := by
    refine Walk.fold_preserves (P := fun _ => AjaxTracked f) (fun _ => rfl) ?_ ?_ root
    · exact fun v above met p h => h.enter
    · exact fun v above met p h => h.leave
  rw [extract_eq_fold] at hok ⊢
  exact htracked hok

/-- The findings of files, one after the other. -/
def fileFindings (files : List (SourceFile × Tree)) : List Finding :=
  files.flatMap fun file => (extract Family.all file.1 file.2).findings

theorem filter_fileFindings {files : List (SourceFile × Tree)}
    (hok : ∀ file ∈ files, (extract Family.all file.1 file.2).failure = none) :
    (fileFindings files).filter Finding.isAjax = (ajaxCalls files).flatMap AjaxCall.findings := by
  rw [fileFindings, ajaxCalls, List.filter_flatMap, List.flatMap_assoc]
  exact List.flatMap_congr fun file hfile => extract_ajax (hok file hfile)

/-! ### Identifiers -/

namespace AjaxCall

/-- A call as the rules recognise it. -/
structure IsRecognised (c : AjaxCall) : Prop where
  kind : c.kind = "action" ∨ c.kind = "filter"
  hook : c.hook = "wp_ajax_" ++ c.action ∨ c.hook = "wp_ajax_nopriv_" ++ c.action

theorem kind_of_registeredHook? {name : Option String} {kind : String}
    (h : name.bind registeredHook? = some kind) : kind = "action" ∨ kind = "filter" := by
  obtain ⟨called, -, h⟩ := Option.bind_eq_some_iff.mp h
  unfold registeredHook? at h
  split_ifs at h
  · exact Or.inl (Option.some.inj h).symm
  · exact Or.inr (Option.some.inj h).symm

theorem hook_of_ajaxAction? {hook action : String} (h : ajaxAction? hook = some action) :
    hook = "wp_ajax_" ++ action ∨ hook = "wp_ajax_nopriv_" ++ action := by
  have hor : (Text.dropStart? "wp_ajax_nopriv_" hook).or (Text.dropStart? "wp_ajax_" hook) =
      some action := Option.orElse_eq_or.symm.trans h
  rcases Option.or_eq_some_iff.mp hor with h | ⟨-, h⟩
  · exact Or.inr (Text.eq_append_of_dropStart? h)
  · exact Or.inl (Text.eq_append_of_dropStart? h)

theorem isRecognised_of_ajaxCall? {f : SourceFile} {t : Tree} {c : AjaxCall}
    (h : ajaxCall? f t = some c) : c.IsRecognised := by
  unfold ajaxCall? at h
  split at h
  · obtain ⟨kind, hkind, h⟩ := Option.bind_eq_some_iff.mp h
    obtain ⟨⟨hook, action⟩, hnamed, h⟩ := Option.bind_eq_some_iff.mp h
    obtain ⟨literal, -, hnamed⟩ := Option.bind_eq_some_iff.mp hnamed
    obtain ⟨stated, haction, hnamed⟩ := Option.bind_eq_some_iff.mp hnamed
    split at hnamed
    · cases hnamed
    · cases hnamed
      cases h
      exact ⟨kind_of_registeredHook? hkind, hook_of_ajaxAction? haction⟩
  · cases h

theorem isRecognised_of_mem {files : List (SourceFile × Tree)} {c : AjaxCall}
    (h : c ∈ ajaxCalls files) : c.IsRecognised := by
  obtain ⟨file, -, h⟩ := List.mem_flatMap.mp h
  obtain ⟨t, -, h⟩ := List.mem_filterMap.mp h
  exact isRecognised_of_ajaxCall? h

theorem length_text_sanitize (raw : String) : (Ident.sanitize raw).text.length = raw.length := by
  rw [Ident.sanitize, ← String.length_toList, String.toList_ofList, List.length_map,
    String.length_toList]

theorem length_handlerId (c : AjaxCall) : c.handlerId.text.length = 5 + c.action.length := by
  rw [handlerId, Ident.ofAjaxHandler, length_text_sanitize, String.length_append]
  rfl

/-- The name of a hook has seven more letters if visitors may call the action. -/
theorem IsRecognised.length_hookId {c : AjaxCall} (hc : c.IsRecognised) :
    c.hookId.text.length = 20 + c.action.length ∨ c.hookId.text.length = 27 + c.action.length := by
  have hkind : c.kind.length = 6 := by
    rcases hc.kind with h | h <;> rw [h] <;> rfl
  have hlength : c.hookId.text.length = 12 + c.hook.length := by
    rw [hookId, Ident.ofHook, length_text_sanitize]
    simp only [String.length_append, hkind, show "hook_".length = 5 from rfl,
      show "_".length = 1 from rfl]
  rw [hlength]
  rcases hc.hook with h | h
  · left
    rw [h, String.length_append, show "wp_ajax_".length = 8 from rfl]
    omega
  · right
    rw [h, String.length_append, show "wp_ajax_nopriv_".length = 15 from rfl]
    omega

/-- The identifier of a relation to a handler shows its ends. The name of the action stands
in both of them, so that the length of the identifier is even or odd with the name of the
hook; this fixes the length of the action and with it the place where the source ends. -/
theorem ends_eq_of_id_eq {c c' : AjaxCall} (hc : c.IsRecognised) (hc' : c'.IsRecognised)
    (h : c.link.id = c'.link.id) : c.hookId = c'.hookId ∧ c.handlerId = c'.handlerId := by
  have hid : ∀ d : AjaxCall, d.link.id.toList =
      "e_".toList ++ (d.hookId.text.toList ++ ("_triggers_handler_".toList ++
        d.handlerId.text.toList)) := by
    intro d
    have hjoined : d.link.id = "e_" ++ d.hookId.text ++ "_" ++ "triggers_handler" ++ "_" ++
      d.handlerId.text := rfl
    rw [hjoined]
    simp
  have hletters := congrArg String.toList h
  rw [hid, hid] at hletters
  have hrest := List.append_cancel_left hletters
  have hlengths := congrArg List.length hrest
  simp only [List.length_append, String.length_toList, length_handlerId] at hlengths
  have hhook : c.hookId.text.toList.length = c'.hookId.text.toList.length := by
    rw [String.length_toList, String.length_toList]
    rcases hc.length_hookId with h | h <;> rcases hc'.length_hookId with h' | h' <;> omega
  obtain ⟨hsource, htail⟩ := List.append_inj hrest hhook
  have htarget := List.append_cancel_left htail
  exact ⟨Ident.eq_of_toList hsource, Ident.eq_of_toList htarget⟩

end AjaxCall

end Php

/-! ### The store -/

/-- Only handlers have the identifiers of handlers. -/
theorem Entity.Fits.kind_eq_ajaxHandler {e : Entity} (h : e.Fits) (hopens : e.id.Opens "ajax_") :
    e.kind = .ajaxHandler := by
  have hapart : ∀ kind : EntityKind, kind ≠ .ajaxHandler →
      ¬ "ajax_".toList <+: kind.opening.toList ∧ ¬ kind.opening.toList <+: "ajax_".toList := by
    intro kind
    cases kind <;> decide
  by_contra hkind
  obtain ⟨hlong, hshort⟩ := hapart e.kind hkind
  rw [Entity.Fits, Ident.Opens, Text.startsWith, List.isPrefixOf_iff_prefix] at h
  rw [Ident.Opens, Text.startsWith, List.isPrefixOf_iff_prefix] at hopens
  rcases List.prefix_or_prefix_of_prefix hopens h with hle | hle
  · exact hlong hle
  · exact hshort hle

namespace Php

section Store

variable {xs : List Finding} {calls : List AjaxCall}

theorem filterMap_entity?_filter (xs : List Finding) :
    (xs.filterMap Finding.entity?).filter (fun e => e.kind = .ajaxHandler) =
      (xs.filter Finding.isAjax).filterMap Finding.entity? := by
  induction xs with
  | nil => rfl
  | cons x rest ih =>
    cases x with
    | entity e =>
      by_cases hkind : e.kind = .ajaxHandler
      · simp [Finding.entity?, Finding.isAjax, hkind, ih]
      · simp [Finding.entity?, Finding.isAjax, hkind, ih]
    | relation r => exact ih
    | relationIfKnown r => exact ih

theorem filterMap_entity?_findings (calls : List AjaxCall) :
    (calls.flatMap AjaxCall.findings).filterMap Finding.entity? = calls.map AjaxCall.handler := by
  induction calls with
  | nil => rfl
  | cons c rest ih =>
    rw [List.flatMap_cons, List.filterMap_append, ih]
    rfl

/-- The handlers of a store are those of the first calls. -/
theorem handlers_eq (hxs : ∀ x ∈ xs, x.Fits)
    (hcalls : xs.filter Finding.isAjax = calls.flatMap AjaxCall.findings) :
    (Store.empty.recordAll xs).entities.filter (fun e => e.kind = .ajaxHandler) =
      firstPerKey Entity.id (calls.map AjaxCall.handler) := by
  rw [Store.recordAll_entities, filter_firstPerKey, filterMap_entity?_filter, hcalls,
    filterMap_entity?_findings]
  -- An identifier belongs to handlers only, or to none.
  have hkind : ∀ a ∈ xs.filterMap Finding.entity?, ∀ b ∈ xs.filterMap Finding.entity?,
      a.id = b.id → a.kind = .ajaxHandler → b.kind = .ajaxHandler := by
    intro a ha b hb hid hkind
    have hfits : ∀ e ∈ xs.filterMap Finding.entity?, e.Fits := by
      intro e he
      obtain ⟨x, hx, he⟩ := List.mem_filterMap.mp he
      cases x with
      | entity e' =>
        obtain rfl := Option.some.inj he
        exact hxs _ hx
      | relation r => cases he
      | relationIfKnown r => cases he
    refine (hfits b hb).kind_eq_ajaxHandler ?_
    have hopens := hfits a ha
    rwa [Entity.Fits, hkind, hid] at hopens
  intro a ha b hb hid
  rw [decide_eq_decide]
  exact ⟨hkind a ha b hb hid, hkind b hb a ha hid.symm⟩

/-- Where a relation waits for its handler, there is a call, and the findings about handlers
before it are those of the earlier calls. -/
theorem exists_call_of_split {before rest : List Finding} {r : Relation}
    (h : before ++ .relationIfKnown r :: rest = calls.flatMap AjaxCall.findings) :
    ∃ earlier c later, calls = earlier ++ c :: later ∧ r = c.link ∧
      before = earlier.flatMap AjaxCall.findings := by
  induction calls generalizing before with
  | nil => simp at h
  | cons c calls ih =>
    rw [List.flatMap_cons, AjaxCall.findings] at h
    match before with
    | [] =>
      obtain ⟨hr, -⟩ := List.cons.inj h
      exact ⟨[], c, calls, rfl, Finding.relationIfKnown.inj hr, rfl⟩
    | [first] =>
      -- The second finding of a call is an entity.
      obtain ⟨-, hsecond⟩ := List.cons.inj h
      cases (List.cons.inj hsecond).1
    | first :: second :: before =>
      obtain ⟨rfl, hsecond⟩ := List.cons.inj h
      obtain ⟨rfl, hrest⟩ := List.cons.inj hsecond
      obtain ⟨earlier, d, later, rfl, rfl, rfl⟩ := ih hrest
      exact ⟨c :: earlier, d, later, rfl, rfl, rfl⟩

/-- Every call tries its relation, after the findings of the earlier calls. -/
theorem exists_split_of_call {earlier later : List AjaxCall} {c : AjaxCall}
    (hcalls : xs.filter Finding.isAjax = (earlier ++ c :: later).flatMap AjaxCall.findings) :
    ∃ before rest, xs = before ++ .relationIfKnown c.link :: rest ∧
      before.filter Finding.isAjax = earlier.flatMap AjaxCall.findings := by
  rw [List.flatMap_append, List.flatMap_cons] at hcalls
  obtain ⟨front, back, rfl, hfront, hback⟩ := List.filter_eq_append_iff.mp hcalls
  obtain ⟨gap, rest, rfl, hgap, -, -⟩ := List.filter_eq_cons_iff.mp hback
  refine ⟨front ++ gap, rest, (List.append_assoc _ _ _).symm, ?_⟩
  rw [List.filter_append, hfront, List.filter_eq_nil_iff.mpr hgap, List.append_nil]

/-- A handler is known exactly if one of the earlier calls was for it. -/
theorem has_handlerId_iff {before : List Finding} {earlier : List AjaxCall}
    (hbefore : ∀ x ∈ before, x.Fits)
    (hcalls : before.filter Finding.isAjax = earlier.flatMap AjaxCall.findings) (c : AjaxCall) :
    (Store.empty.recordAll before).has c.handlerId ↔ ∃ b ∈ earlier, b.handlerId = c.handlerId := by
  rw [Store.has_recordAll_iff]
  constructor
  · rintro (h | ⟨e, he, hid⟩)
    · cases h
    · have hkind : e.kind = .ajaxHandler :=
        Entity.Fits.kind_eq_ajaxHandler (hbefore _ he) (hid ▸ Ident.ofAjaxHandler_opens c.action)
      have hmem : Finding.entity e ∈ earlier.flatMap AjaxCall.findings :=
        hcalls ▸ List.mem_filter.mpr ⟨he, decide_eq_true hkind⟩
      obtain ⟨b, hb, hfound⟩ := List.mem_flatMap.mp hmem
      have heq : e = b.handler := by simpa [AjaxCall.findings] using hfound
      exact ⟨b, hb, by rw [← hid, heq]; rfl⟩
  · rintro ⟨b, hb, hid⟩
    have hmem : Finding.entity b.handler ∈ before.filter Finding.isAjax := by
      rw [hcalls]
      exact List.mem_flatMap.mpr ⟨b, hb, by simp [AjaxCall.findings]⟩
    exact Or.inr ⟨b.handler, (List.mem_filter.mp hmem).1, hid⟩

/-- A relation to a handler that is stored is that of a call with an earlier one for the
same handler. -/
theorem exists_repeated_of_mem (hxs : ∀ x ∈ xs, x.IsProper)
    (hcalls : xs.filter Finding.isAjax = calls.flatMap AjaxCall.findings) {r : Relation}
    (hr : r ∈ (Store.empty.recordAll xs).relations) (hkind : r.kind = .triggersHandler) :
    ∃ earlier c later, calls = earlier ++ c :: later ∧ r = c.link ∧
      ∃ b ∈ earlier, b.handlerId = c.handlerId := by
  rcases Store.mem_relations_recordAll hr with hempty | ⟨before, x, rest, rfl, rfl | ⟨rfl, hknown⟩⟩
  · cases hempty
  · exact absurd hkind (hxs (.relation r) (by simp)).2.2
  · rw [List.filter_append, List.filter_cons_of_pos rfl] at hcalls
    obtain ⟨earlier, c, later, rfl, rfl, hbefore⟩ := exists_call_of_split hcalls
    refine ⟨earlier, c, later, rfl, rfl, ?_⟩
    have hfits : ∀ x ∈ before, x.Fits := fun x hx => (hxs x (List.mem_append_left _ hx)).1
    exact (has_handlerId_iff hfits hbefore c).mp hknown

/-- The relation of a call with an earlier one for the same handler is stored. -/
theorem exists_mem_of_repeated (hxs : ∀ x ∈ xs, x.IsProper)
    (hrecognised : ∀ c ∈ calls, c.IsRecognised)
    (hcalls : xs.filter Finding.isAjax = calls.flatMap AjaxCall.findings)
    {earlier later : List AjaxCall} {b c : AjaxCall} (hsplit : calls = earlier ++ c :: later)
    (hb : b ∈ earlier) (hid : b.handlerId = c.handlerId) :
    ∃ r ∈ (Store.empty.recordAll xs).relations, r.kind = .triggersHandler ∧
      r.source = c.hookId ∧ r.target = c.handlerId := by
  obtain ⟨before, rest, hxsplit, hbefore⟩ := exists_split_of_call (hsplit ▸ hcalls)
  have hknown : (Store.empty.recordAll before).has c.handlerId := by
    refine (has_handlerId_iff (fun x hx => (hxs x ?_).1) hbefore c).mpr ⟨b, hb, hid⟩
    rw [hxsplit]
    exact List.mem_append_left _ hx
  -- The relation is drawn at this moment, and its identifier stays taken.
  have hdrawn : (Store.empty.recordAll xs).HasRelation c.link.id := by
    rw [hxsplit, Store.recordAll_append]
    have hdraws : (Store.empty.recordAll before).Draws (.relationIfKnown c.link) c.link :=
      Store.draws_relationIfKnown_iff.mpr ⟨rfl, hknown⟩
    exact Store.hasRelation_recordAll
      (Store.hasRelation_record.mpr (Or.inr ⟨c.link, hdraws, rfl⟩)) rest
  obtain ⟨r, hr, hrid⟩ := List.mem_map.mp hdrawn
  obtain ⟨hfits, hkeyed, -⟩ := Store.isProper_of_mem hxs hr
  have hlink : c.link.Fits ∧ c.link.IsKeyed := by
    have hmem := hxs (.relationIfKnown c.link) (by rw [hxsplit]; simp)
    exact ⟨hmem.1, hmem.2.1⟩
  -- Whatever holds the identifier is a relation to a handler, and one with the same ends.
  have hkind : r.kind = .triggersHandler := by
    have hstart := (Relation.startsWith_id_iff hlink.1 hlink.2).mpr (fun h => h rfl)
    rw [← hrid, Relation.startsWith_id_iff hfits hkeyed] at hstart
    exact Decidable.of_not_not hstart
  obtain ⟨earlier', d, later', hd, rfl, -⟩ := exists_repeated_of_mem hxs hcalls hr hkind
  obtain ⟨hhook, hhandler⟩ := AjaxCall.ends_eq_of_id_eq (hrecognised d (by rw [hd]; simp))
    (hrecognised c (by rw [hsplit]; simp)) hrid
  exact ⟨d.link, hr, hkind, hhook, hhandler⟩

/-- The ends of the relations to handlers in a store are those of the repeated calls. -/
theorem mem_ends_iff (hxs : ∀ x ∈ xs, x.IsProper) (hrecognised : ∀ c ∈ calls, c.IsRecognised)
    (hcalls : xs.filter Finding.isAjax = calls.flatMap AjaxCall.findings) (source target : Ident) :
    (source, target) ∈ ((Store.empty.recordAll xs).relations.filter
        fun r => r.kind = .triggersHandler).map (fun r => (r.source, r.target)) ↔
      ∃ earlier c later, calls = earlier ++ c :: later ∧ c.hookId = source ∧
        c.handlerId = target ∧ ∃ b ∈ earlier, b.handlerId = c.handlerId := by
  constructor
  · intro h
    obtain ⟨r, hr, hends⟩ := List.mem_map.mp h
    obtain ⟨hstored, hkind⟩ := List.mem_filter.mp hr
    obtain ⟨rfl, rfl⟩ := Prod.mk.inj hends
    obtain ⟨earlier, c, later, hsplit, rfl, hb⟩ :=
      exists_repeated_of_mem hxs hcalls hstored (of_decide_eq_true hkind)
    exact ⟨earlier, c, later, hsplit, rfl, rfl, hb⟩
  · rintro ⟨earlier, c, later, hsplit, rfl, rfl, b, hb, hid⟩
    obtain ⟨r, hr, hkind, hsource, htarget⟩ :=
      exists_mem_of_repeated hxs hrecognised hcalls hsplit hb hid
    refine List.mem_map.mpr ⟨r, List.mem_filter.mpr ⟨hr, decide_eq_true hkind⟩, ?_⟩
    rw [hsource, htarget]

/-- No two relations to handlers in a store have the same ends. -/
theorem ends_nodup (hxs : ∀ x ∈ xs, x.IsProper)
    (hcalls : xs.filter Finding.isAjax = calls.flatMap AjaxCall.findings) :
    (((Store.empty.recordAll xs).relations.filter
      fun r => r.kind = .triggersHandler).map fun r => (r.source, r.target)).Nodup := by
  have hids := (Store.recordAll_relations_nodup xs).sublist
    ((List.filter_sublist (p := fun r => decide (r.kind = .triggersHandler))).map Relation.id)
  have hlink : ∀ r ∈ (Store.empty.recordAll xs).relations.filter
      fun r => r.kind = .triggersHandler, ∃ c : AjaxCall, r = c.link := by
    intro r hr
    obtain ⟨hstored, hkind⟩ := List.mem_filter.mp hr
    obtain ⟨-, c, -, -, hc, -⟩ :=
      exists_repeated_of_mem hxs hcalls hstored (of_decide_eq_true hkind)
    exact ⟨c, hc⟩
  rw [List.Nodup, List.pairwise_map] at hids ⊢
  refine hids.imp_of_mem fun {a b} ha hb hne hends => hne ?_
  obtain ⟨c, rfl⟩ := hlink a ha
  obtain ⟨d, rfl⟩ := hlink b hb
  obtain ⟨hhook, hhandler⟩ : c.hookId = d.hookId ∧ c.handlerId = d.handlerId := Prod.mk.inj hends
  rw [AjaxCall.link, AjaxCall.link, hhook, hhandler]

/-- The hook of the first call for a handler is registered by a repeated call exactly if a
later call registers it. -/
theorem exists_repeated_iff_of_first {earlier later : List AjaxCall} {c : AjaxCall}
    (hfirst : ∀ b ∈ earlier, b.handlerId ≠ c.handlerId) :
    (∃ before d after, earlier ++ c :: later = before ++ d :: after ∧ d.hookId = c.hookId ∧
        d.handlerId = c.handlerId ∧ ∃ b ∈ before, b.handlerId = d.handlerId) ↔
      ∃ d ∈ later, d.hookId = c.hookId ∧ d.handlerId = c.handlerId := by
  constructor
  · rintro ⟨before, d, after, hsplit, hhook, hhandler, b, hb, hid⟩
    have hrepeat : b ∉ earlier := fun h => hfirst b h (hid.trans hhandler)
    rcases List.append_eq_append_iff.mp hsplit with ⟨middle, rfl, hmiddle⟩ | ⟨middle, rfl, -⟩
    · cases middle with
      | nil => exact absurd (by simpa using hb) hrepeat
      | cons first middle =>
        obtain ⟨-, rfl⟩ := List.cons.inj hmiddle
        exact ⟨d, by simp, hhook, hhandler⟩
    · exact absurd (List.mem_append_left middle hb) hrepeat
  · rintro ⟨d, hd, hhook, hhandler⟩
    obtain ⟨middle, last, rfl⟩ := List.append_of_mem hd
    refine ⟨earlier ++ c :: middle, d, last, by simp, hhook, hhandler, c, by simp, ?_⟩
    exact hhandler.symm

end Store

/-! ### Runs -/

theorem readAll_php (files : List (SourceFile × Tree)) :
    Store.empty.readAll (files.map fun file => .php file.1 file.2) =
      Store.empty.recordAll (fileFindings files) := by
  rw [Store.readAll_eq_recordAll, List.flatMap_map]
  rfl

theorem fileFindings_isProper (files : List (SourceFile × Tree)) :
    ∀ x ∈ fileFindings files, x.IsProper := by
  intro x hx
  obtain ⟨file, -, hx⟩ := List.mem_flatMap.mp hx
  exact (FileStep.php file.1 file.2).outcome_isProper x hx

/-- Handlers and their relations after files are read, none of which fails. There is one
handler for each identifier of a handler, that of the first call with it. A relation is
stored for a hook and a handler exactly if a call registers this hook for this handler and
an earlier call was for the same handler; it is stored once. So the first call for a
handler is linked only by a later call for the same hook. -/
theorem readAll_links_repeated_ajax (files : List (SourceFile × Tree))
    (hok : ∀ file ∈ files, (extract Family.all file.1 file.2).failure = none) :
    let s := Store.empty.readAll (files.map fun file => .php file.1 file.2)
    let calls := ajaxCalls files
    let links := s.relations.filter fun r => r.kind = .triggersHandler
    s.entities.filter (fun e => e.kind = .ajaxHandler) =
      firstPerKey Entity.id (calls.map AjaxCall.handler) ∧
    (links.map fun r => (r.source, r.target)).Nodup ∧
    (∀ source target, (source, target) ∈ links.map (fun r => (r.source, r.target)) ↔
      ∃ earlier c later, calls = earlier ++ c :: later ∧ c.hookId = source ∧
        c.handlerId = target ∧ ∃ b ∈ earlier, b.handlerId = c.handlerId) ∧
    (∀ earlier c later, calls = earlier ++ c :: later →
      (∀ b ∈ earlier, b.handlerId ≠ c.handlerId) →
        ((c.hookId, c.handlerId) ∈ links.map (fun r => (r.source, r.target)) ↔
          ∃ d ∈ later, d.hookId = c.hookId ∧ d.handlerId = c.handlerId)) := by
  intro s calls links
  have hs : s = Store.empty.recordAll (fileFindings files) := readAll_php files
  have hproper := fileFindings_isProper files
  have hcalls := filter_fileFindings hok
  have hends : ∀ source target, (source, target) ∈ links.map (fun r => (r.source, r.target)) ↔
      ∃ earlier c later, calls = earlier ++ c :: later ∧ c.hookId = source ∧
        c.handlerId = target ∧ ∃ b ∈ earlier, b.handlerId = c.handlerId := by
    simp only [links, hs]
    exact mem_ends_iff hproper (fun c => AjaxCall.isRecognised_of_mem) hcalls
  refine ⟨?_, ?_, hends, ?_⟩
  · rw [hs]
    exact handlers_eq (fun x hx => (hproper x hx).1) hcalls
  · simp only [links, hs]
    exact ends_nodup hproper hcalls
  · intro earlier c later hsplit hfirst
    rw [hends, hsplit]
    exact exists_repeated_iff_of_first hfirst

/-- A call of a function in front with a literal as its argument. -/
def literalCall (start stop : Nat) : Tree :=
  .node "function_call_expression" true 0 stop none [
    .node "name" true 0 10 (some "function") [],
    .node "arguments" true start stop (some "arguments") [.node "string" true start stop none []]]

/-- Two files, of which the first registers an action for users and the second the same
action for visitors. -/
def ajaxFiles : List (SourceFile × Tree) := [
  ({ path := "/p/a.php", source := "add_action'wp_ajax_a'" }, literalCall 10 21),
  ({ path := "/p/b.php", source := "add_action'wp_ajax_nopriv_a'" }, literalCall 10 28)]

/-- The handler belongs to the first file, and only the hook of the second is linked. -/
theorem readAll_links_repeated_ajax_visitors :
    let s := Store.empty.readAll (ajaxFiles.map fun file => .php file.1 file.2)
    let links := s.relations.filter fun r => r.kind = .triggersHandler
    (∀ file ∈ ajaxFiles, (extract Family.all file.1 file.2).failure = none) ∧
    (s.entities.filter fun e => e.kind = .ajaxHandler).map Entity.file = ["/p/a.php"] ∧
    (Ident.ofHook "action" "wp_ajax_nopriv_a", Ident.ofAjaxHandler "a") ∈
      links.map (fun r => (r.source, r.target)) ∧
    (Ident.ofHook "action" "wp_ajax_a", Ident.ofAjaxHandler "a") ∉
      links.map (fun r => (r.source, r.target)) := by
  have hok : ∀ file ∈ ajaxFiles, (extract Family.all file.1 file.2).failure = none := by
    simp only [extract_eq]
    decide +kernel
  have hcalls : ajaxCalls ajaxFiles = [
      ⟨"/p/a.php", 1, "action", "wp_ajax_a", "a"⟩,
      ⟨"/p/b.php", 1, "action", "wp_ajax_nopriv_a", "a"⟩] := by decide +kernel
  obtain ⟨hhandlers, -, hlinks, hfirst⟩ := readAll_links_repeated_ajax ajaxFiles hok
  refine ⟨hok, ?_, ?_, ?_⟩
  · rw [hhandlers, hcalls]
    decide +kernel
  · refine (hlinks _ _).mpr ⟨[_], _, [], hcalls, rfl, rfl, _, List.mem_singleton.mpr rfl, rfl⟩
  · intro hlinked
    have hagain := (hfirst [] _ _ hcalls (by simp)).mp hlinked
    revert hagain
    decide +kernel

end Php

end PluginAtlas
