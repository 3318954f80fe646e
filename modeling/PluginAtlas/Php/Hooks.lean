import PluginAtlas.Php.Scope

/-!
# Hooks

A hook is an entity by its kind and name. Registering a callback relates the callback
to the hook; running a hook relates the callable that owns the code to it. Callbacks
are read off their syntax, and a closure given as a callback becomes an entity. Other
callbacks draw no relation.

## Main definitions

* `ajaxAction?`: the action behind the name of an AJAX hook.
* `callback?`: the callable that a callback names.
* `hooks`: what a call registers or runs.
-/

namespace PluginAtlas.Php

/-- The kind of hook that a function registers callbacks for. -/
def registeredHook? (name : String) : Option String :=
  if name = "add_action" then some "action"
  else if name = "add_filter" then some "filter"
  else none

/-- The kind of hook that a function runs. -/
def triggeredHook? (name : String) : Option String :=
  if name = "do_action" || name = "do_action_ref_array" then some "action"
  else if name = "apply_filters" || name = "apply_filters_ref_array" then some "filter"
  else none

/-- The action behind the name of an AJAX hook. -/
def ajaxAction? (hook : String) : Option String :=
  Text.dropStart? "wp_ajax_nopriv_" hook <|> Text.dropStart? "wp_ajax_" hook

/-- The priority of a callback that states none. -/
def defaultPriority : Int := 10

/-- The name of a hook: a literal that is not empty, or a stand-in for the place. -/
def hookName (f : SourceFile) (argument : Tree) (line : Nat) : String :=
  match stringValue? f argument with
  | none | some "" => dynamicHookName f.relativePath line
  | some name => name

/-- The entity of a hook. -/
def hookEntity (f : SourceFile) (kind name : String) (line : Nat) (priority : Int) : Entity where
  id := Ident.ofHook kind name
  label := name
  kind := .hook
  subtype := kind
  file := f.path
  line := line
  metadata := [("hook_name", .str name), ("priority", .int priority)]

/-- The class that the first element of an array callback names. -/
def callbackOwner? (f : SourceFile) (s : Scope) (t : Tree) : Option String := do
  let t ← t.unwrap?
  if t.kind = "variable_name" && f.textOf t = "$this" then s.currentClass?
  else if isMagicConstant f t "__CLASS__" then s.currentClass?
  else
    match stringValue? f t with
    | some literal => if literal = "" then none else some literal
    | none =>
      let reference ← classReference? f t
      let lowered := Text.lower reference
      if lowered = "self" || lowered = "static" then s.currentClass?
      else if lowered = "parent" then none
      else some reference

/-- The callable that a text names: a function, or a method behind two colons. -/
def textCallback? (text : String) : Option Ident :=
  match Text.cut "::" text with
  | (owner, some method) =>
    if owner = "" || method = "" then none else some (Ident.ofMethod owner method)
  | (_, none) => if text = "" then none else some (Ident.ofFunction text)

/-- The method that a pair of a class and a name denotes. -/
def pairCallback? (f : SourceFile) (s : Scope) (t : Tree) : Option Ident :=
  match arrayElements t with
  | [(_, owner), (_, method)] => do
    let owner ← callbackOwner? f s owner
    let method ← stringValue? f method
    if owner = "" || method = "" then none else some (Ident.ofMethod owner method)
  | _ => none

/-- The callable that a callback denotes. -/
def callback? (f : SourceFile) (s : Scope) (argument : Tree) : Option Ident := do
  let t ← argument.unwrap?
  if isClosureKind t.kind then some (Ident.ofClosure f.relativePath (f.lineOf t))
  else
    match stringValue? f t with
    | some text => textCallback? text
    | none => pairCallback? f s t

/-- The entity of a closure that is given as a callback. -/
def closureEntity? (f : SourceFile) (argument : Tree) : Option Entity := do
  let t ← argument.unwrap?
  if isClosureKind t.kind then
    let line := f.lineOf t
    some
      { id := Ident.ofClosure f.relativePath line
        label := "anonymous@" ++ f.baseName ++ ":" ++ Text.ofNat line
        kind := .function, subtype := "closure", file := f.path, line
        sourcePreview := f.previewOf t }
  else none

/-- What the callback of a registration adds. -/
def callbackFindings (f : SourceFile) (s : Scope) (hook : Ident) (argument : Option Tree) :
    List Finding :=
  match argument with
  | none => []
  | some argument =>
    ((closureEntity? f argument).map Finding.entity).toList ++
      ((callback? f s argument).map fun id =>
        Finding.relation (.between id .registersHook hook "registers")).toList

/-- The relation to the handler of an AJAX action, drawn when the handler is known. -/
def handlerFindings (hook : Ident) (name : String) : List Finding :=
  match ajaxAction? name with
  | none | some "" => []
  | some action =>
    [.relationIfKnown (.between hook .triggersHandler (Ident.ofAjaxHandler action) "triggers")]

/-- The registration of a callback. -/
def hookRegistration (f : SourceFile) (s : Scope) (call : Tree) (kind : String) : Outcome :=
  match callArguments call with
  | [] => .nothing
  | first :: rest =>
    let line := f.lineOf call
    let name := hookName f first line
    Outcome.attempt (integerValue f rest[1]?) fun priority =>
      let entity := hookEntity f kind name line (priority.getD defaultPriority)
      .found (.entity entity :: (callbackFindings f s entity.id rest[0]? ++
        handlerFindings entity.id name))

/-- The running of a hook. -/
def hookTrigger (f : SourceFile) (s : Scope) (call : Tree) (kind : String) : List Finding :=
  match callArguments call with
  | [] => []
  | first :: _ =>
    let line := f.lineOf call
    let entity := hookEntity f kind (hookName f first line) line defaultPriority
    .entity entity :: (s.callerId?.map fun caller =>
      Finding.relation (.between caller .triggersHook entity.id "triggers")).toList

/-- What a call does with hooks. -/
def hooks (f : SourceFile) (s : Scope) (v : Visit) : Outcome :=
  if v.tree.kind ≠ "function_call_expression" then .nothing
  else
    match functionName? f v.tree with
    | none => .nothing
    | some name =>
      match registeredHook? name, triggeredHook? name with
      | some kind, _ => hookRegistration f s v.tree kind
      | none, some kind => .found (hookTrigger f s v.tree kind)
      | none, none => .nothing

end PluginAtlas.Php
