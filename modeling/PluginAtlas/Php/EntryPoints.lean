import PluginAtlas.Php.Hooks

/-!
# Entry points and outgoing calls

What a plugin offers to the site (REST routes, shortcodes, admin pages, scheduled
jobs, post types, taxonomies, AJAX actions) and the HTTP calls that it makes. A
registration whose name is no literal is passed over; an HTTP call is kept with an
unknown address.

## Main definitions

* `EntryPoint`, `EntryPoint.of?`: which functions are looked at.
* `restMethods`: the HTTP methods that a REST registration declares.
* `entryPoints`: what a call registers.
-/

namespace PluginAtlas.Php

/-- The functions that register an entry point or leave the site. -/
inductive EntryPoint where
  | restRoute
  | shortcode
  /-- The arguments that hold the slug and the title. -/
  | adminPage (slug title : Nat)
  /-- The argument that holds the hook. -/
  | cronJob (hook : Nat)
  | postType
  | taxonomy
  | httpCall (method : String)
  | ajaxHook
deriving DecidableEq, Repr

/-- The functions and what they register. -/
def entryPointFunctions : List (String × EntryPoint) := [
  ("register_rest_route", .restRoute),
  ("add_shortcode", .shortcode),
  ("add_menu_page", .adminPage 3 0),
  ("add_submenu_page", .adminPage 4 1),
  ("add_options_page", .adminPage 3 0),
  ("add_management_page", .adminPage 3 0),
  ("add_theme_page", .adminPage 3 0),
  ("add_users_page", .adminPage 3 0),
  ("add_dashboard_page", .adminPage 3 0),
  ("wp_schedule_event", .cronJob 2),
  ("wp_schedule_single_event", .cronJob 1),
  ("register_post_type", .postType),
  ("register_taxonomy", .taxonomy),
  ("wp_remote_get", .httpCall "GET"),
  ("wp_remote_post", .httpCall "POST"),
  ("wp_remote_head", .httpCall "HEAD"),
  ("wp_remote_request", .httpCall "REQUEST"),
  ("wp_safe_remote_get", .httpCall "GET"),
  ("wp_safe_remote_post", .httpCall "POST"),
  ("wp_safe_remote_head", .httpCall "HEAD"),
  ("wp_safe_remote_request", .httpCall "REQUEST"),
  ("add_action", .ajaxHook),
  ("add_filter", .ajaxHook)]

/-- What a function registers. -/
def EntryPoint.of? (name : String) : Option EntryPoint := entryPointFunctions.lookup name

theorem EntryPoint.mem_functions_of_eq_some {name : String} {point : EntryPoint}
    (h : of? name = some point) : (name, point) ∈ entryPointFunctions := by
  obtain ⟨before, rest, hsplit, -⟩ := List.lookup_eq_some_iff.mp h
  rw [hsplit]
  exact List.mem_append_right before List.mem_cons_self

/-! ### Methods of a REST route -/

/-- The HTTP method of a route that declares none. -/
def defaultRestMethod : String := "GET"

/-- The methods behind the constants of the REST server. -/
def restConstants : List (String × List String) := [
  ("READABLE", ["GET"]),
  ("CREATABLE", ["POST"]),
  ("EDITABLE", ["POST", "PUT", "PATCH"]),
  ("DELETABLE", ["DELETE"]),
  ("ALLMETHODS", ["GET", "POST", "PUT", "PATCH", "DELETE"])]

/-- The methods in a text that lists them between commas. -/
def listedMethods (text : String) : List String :=
  ((Text.split ',' text).filter fun part => Text.strip part ≠ "").map
    fun part => Text.upper (Text.strip part)

/-- The methods that the `methods` entry of an endpoint declares: a text, a constant of
the REST server, or an array of texts. -/
def endpointMethods (f : SourceFile) (value : Option Tree) : Except Failure (List String) :=
  match value.bind Tree.unwrap? with
  | none => .ok []
  | some t =>
    match stringValue? f t with
    | some text => .ok (listedMethods text)
    | none =>
      if t.kind = "class_constant_access_expression" then
        match t.namedChildren.getLast? with
        | none => .error .missingChild
        | some constant => .ok ((restConstants.lookup (Text.upper (f.textOf constant))).getD [])
      else
        .ok ((arrayElements t).filterMap fun (_, item) =>
          match stringValue? f item with
          | none | some "" => none
          | some text => some (Text.upper (Text.strip text)))

/-- The endpoints of a route: the elements of a list, or the single endpoint given. -/
def restEndpoints (t : Tree) : List Tree :=
  let elements := arrayElements t
  if !elements.isEmpty && elements.all fun (key, _) => key.isNone then elements.map (·.2) else [t]

/-- The methods of several endpoints, in order. -/
def methodsOf (f : SourceFile) : List Tree → Except Failure (List String)
  | [] => .ok []
  | endpoint :: rest => do
    let first ← endpointMethods f (arrayLookup? f endpoint "methods")
    return first ++ (← methodsOf f rest)

/-- Every item once, at its first place. -/
def firstOccurrences (items : List String) : List String :=
  items.foldl (fun seen item => if item ∈ seen then seen else seen ++ [item]) []

/-- The methods that a route declares, each once. -/
def restMethods (f : SourceFile) (endpoints : Option Tree) : Except Failure (List String) :=
  match endpoints.bind Tree.unwrap? with
  | none => .ok [defaultRestMethod]
  | some t => do
    let methods := firstOccurrences (← methodsOf f (restEndpoints t))
    return if methods.isEmpty then [defaultRestMethod] else methods

/-! ### Registrations -/

/-- The text without slashes at its ends. -/
def trimSlashes (s : String) : String := Text.trim (· == '/') s

/-- The text without slashes in front. -/
def trimLeadingSlashes (s : String) : String := Text.trimStart (· == '/') s

/-- A REST route, one entity per method. -/
def restRoute (f : SourceFile) (call : Tree) (arguments : List Tree) : Outcome :=
  match stringValue? f arguments[0]?, stringValue? f arguments[1]? with
  | some space, some route =>
    let full := trimSlashes space ++ "/" ++ trimLeadingSlashes route
    Outcome.attempt (restMethods f arguments[2]?) fun methods =>
      .found (methods.map fun method =>
        .entity
          { id := Ident.ofRestEndpoint method full, label := method ++ " " ++ full
            kind := .restEndpoint, file := f.path, line := f.lineOf call
            metadata := [("http_method", .str method), ("route", .str full)] })
  | _, _ => .nothing

/-- A literal argument that is not empty. -/
def literalAt? (f : SourceFile) (arguments : List Tree) (index : Nat) : Option String :=
  match stringValue? f arguments[index]? with
  | none | some "" => none
  | some text => some text

/-- The entity that a call other than a REST registration adds. -/
def entryPointEntity? (f : SourceFile) (call : Tree) (arguments : List Tree) :
    EntryPoint → Option Entity
  | .restRoute => none
  | .shortcode => do
    let tag ← literalAt? f arguments 0
    return { id := Ident.ofShortcode tag, label := "[" ++ tag ++ "]", kind := .shortcode
             file := f.path, line := f.lineOf call }
  | .adminPage slugAt titleAt => do
    let slug ← literalAt? f arguments slugAt
    return { id := Ident.ofAdminPage slug, label := (literalAt? f arguments titleAt).getD slug
             kind := .adminPage, file := f.path, line := f.lineOf call }
  | .cronJob hookAt => do
    let hook ← literalAt? f arguments hookAt
    return { id := Ident.ofCronJob hook, label := hook, kind := .cronJob
             file := f.path, line := f.lineOf call, metadata := [("hook_name", .str hook)] }
  | .postType => do
    let slug ← literalAt? f arguments 0
    return { id := Ident.ofPostType slug, label := slug, kind := .postType
             file := f.path, line := f.lineOf call }
  | .taxonomy => do
    let slug ← literalAt? f arguments 0
    return { id := Ident.ofTaxonomy slug, label := slug, kind := .taxonomy
             file := f.path, line := f.lineOf call }
  | .httpCall method =>
    let url := stringValue? f arguments[0]?
    let line := f.lineOf call
    some { id := Ident.ofHttpCall url f.relativePath line
           label := method ++ " " ++ (literalAt? f arguments 0).getD "dynamic"
           kind := .httpCall, file := f.path, line
           metadata := [("http_method", .str method), ("route", .ofText? url)] }
  | .ajaxHook => do
    let hook ← literalAt? f arguments 0
    let action ← ajaxAction? hook
    if action = "" then none
    else
      return { id := Ident.ofAjaxHandler action, label := action, kind := .ajaxHandler
               file := f.path, line := f.lineOf call, metadata := [("hook_name", .str hook)] }

/-- What a call registers, or the HTTP call that it is. -/
def entryPoints (f : SourceFile) (_ : Scope) (v : Visit) : Outcome :=
  if v.tree.kind ≠ "function_call_expression" then .nothing
  else
    match (functionName? f v.tree).bind EntryPoint.of? with
    | none => .nothing
    | some .restRoute => restRoute f v.tree (callArguments v.tree)
    | some point =>
      .found ((entryPointEntity? f v.tree (callArguments v.tree) point).map Finding.entity).toList

end PluginAtlas.Php
