import PluginAtlas.Digest.Md5
import PluginAtlas.Path
import PluginAtlas.Text.Casing
import PluginAtlas.Text.Utf8

/-!
# Identifiers of graph entities

An identifier uses only ASCII letters, digits, the underscore and the hyphen. Every
entity of a plugin gets its identifier from what names it, by one function per kind
of entity, so that a relation drawn towards an entity found elsewhere meets the
identifier that the entity registers under. A call site without a name is told apart
by its file and line.

## Main definitions

* `Ident`, `Ident.sanitize`: identifiers, and the identifier of any text.
* `shortName`: the last segment of a qualified name.
* `LineMark`, `fingerprint`: a stated line, and a short token for a place in a file.
* `moduleName?`: the name of a script's module.
* `Ident.ofClass`, `Ident.ofMethod`, …: one function per kind of entity.
-/

namespace PluginAtlas

/-- A character that may stand in an identifier. -/
def isIdentChar (c : Char) : Bool :=
  c.isAlphanum || c == '_' || c == '-'

/-- The identifier of an entity. -/
structure Ident where
  text : String
  safe : ∀ c ∈ text.toList, isIdentChar c = true
deriving DecidableEq

theorem Ident.eq_of_toList {id id' : Ident} (h : id.text.toList = id'.text.toList) : id = id' := by
  cases id
  cases id'
  simpa [String.toList_inj] using h

/-- A character of a name as it stands in an identifier. -/
def identChar (c : Char) : Char := if isIdentChar c then c else '_'

theorem isIdentChar_identChar (c : Char) : isIdentChar (identChar c) = true := by
  unfold identChar
  split
  · assumption
  · decide

/-- The last segment of a name whose segments are divided by backslashes. -/
def shortName (qualified : String) : String :=
  Text.lastSegment '\\' (Text.trim (· == '\\') qualified)

/-- A line as an extractor states it: a number, or a truth value in its place. -/
inductive LineMark where
  | number (line : Int)
  | flag (holds : Bool)
deriving DecidableEq, Repr

namespace LineMark

instance : Coe Int LineMark := ⟨number⟩

instance : Coe Nat LineMark := ⟨fun n => number n⟩

/-- How a line is written in a token. -/
def text : LineMark → String
  | number line => Text.ofInt line
  | flag true => "True"
  | flag false => "False"

/-- The number of a line; there is no line before zero. -/
def line : LineMark → Nat
  | number line => line.toNat
  | flag holds => if holds then 1 else 0

end LineMark

/-- A short token for a line of a file. -/
def fingerprint (file : String) (line : LineMark) : String :=
  Text.take 8 (Digest.Md5.hexDigest (Text.encode file)) ++ "_" ++ line.text

/-- The name of a script's module: its path without suffix. -/
def moduleName? (file : String) : Option String :=
  ((Path.parse file).withoutSuffix?).map Path.render

/-- The stand-in name of a hook whose name is built when the program runs. -/
def dynamicHookName (file : String) (line : LineMark) : String :=
  "dynamic_" ++ fingerprint file line

namespace Ident

/-- The identifier of any text: every other character becomes an underscore. -/
def sanitize (raw : String) : Ident where
  text := String.ofList (raw.toList.map identChar)
  safe c h := by
    rw [String.toList_ofList, List.mem_map] at h
    obtain ⟨d, _, rfl⟩ := h
    exact isIdentChar_identChar d

instance : Inhabited Ident := ⟨sanitize ""⟩

/-! ### Server-side structure -/

/-- A class, interface, trait or enumeration, by its qualified name. -/
def ofClass (qualified : String) : Ident :=
  sanitize ("class_" ++ Text.trim (· == '\\') qualified)

/-- A method, by the short name of its class. -/
def ofMethod (className method : String) : Ident :=
  sanitize ("method_" ++ shortName className ++ "_" ++ method)

/-- A function, by its short name. -/
def ofFunction (name : String) : Ident :=
  sanitize ("func_" ++ shortName name)

/-- A function without a name, by its place. -/
def ofClosure (file : String) (line : LineMark) : Ident :=
  sanitize ("func_anonymous_" ++ fingerprint file line)

/-- A file, relative to the plugin's root when it lies below it. -/
def ofFile (path : String) (root : Option String) : Ident :=
  sanitize ("file_" ++ relativeTo path root)

/-- The stand-in for an included file that is not known statically. -/
def ofDynamicFile (file : String) (line : LineMark) : Ident :=
  sanitize ("file_dynamic_" ++ fingerprint file line)

/-! ### Integration points -/

/-- An action or filter hook. -/
def ofHook (kind name : String) : Ident :=
  sanitize ("hook_" ++ kind ++ "_" ++ name)

/-- Stored data, by the operation on it and its key; a key that is not known is told
apart by the place of the call. -/
def ofDataSource (operation : String) (key : Option String) (file : String) (line : LineMark) : Ident :=
  match key with
  | none => sanitize ("data_" ++ operation ++ "_dynamic_" ++ fingerprint file line)
  | some key => sanitize ("data_" ++ operation ++ "_" ++ key)

/-- The handler of an AJAX action. -/
def ofAjaxHandler (action : String) : Ident := sanitize ("ajax_" ++ action)

/-- A REST endpoint. -/
def ofRestEndpoint (method route : String) : Ident :=
  sanitize ("rest_" ++ Text.upper method ++ "_" ++ route)

/-- A shortcode. -/
def ofShortcode (tag : String) : Ident := sanitize ("shortcode_" ++ tag)

/-- An admin page. -/
def ofAdminPage (slug : String) : Ident := sanitize ("admin_" ++ slug)

/-- A scheduled job. -/
def ofCronJob (hook : String) : Ident := sanitize ("cron_" ++ hook)

/-- A post type. -/
def ofPostType (slug : String) : Ident := sanitize ("post_type_" ++ slug)

/-- A taxonomy. -/
def ofTaxonomy (slug : String) : Ident := sanitize ("taxonomy_" ++ slug)

/-- An outgoing HTTP call; an unknown address is called dynamic. -/
def ofHttpCall (url : Option String) (file : String) (line : LineMark) : Ident :=
  let target := match url with
    | none | some "" => "dynamic"
    | some url => url
  sanitize ("http_" ++ target ++ "_" ++ fingerprint file line)

/-- A block of the editor. -/
def ofBlock (name : String) : Ident := sanitize ("block_" ++ name)

/-! ### Front end -/

/-- A hook registered by a script. -/
def ofScriptHook (kind name : String) : Ident :=
  sanitize ("js_hook_" ++ kind ++ "_" ++ name)

/-- A call of the site's own interface by a script. -/
def ofScriptApiCall (method path : String) : Ident :=
  sanitize ("js_api_" ++ Text.upper method ++ "_" ++ path)

/-- A component of a script's module. -/
def ofComponent (moduleName name : String) : Ident :=
  sanitize ("component_" ++ moduleName ++ "_" ++ name)

/-- A function of a script's module. -/
def ofScriptFunction (moduleName name : String) : Ident :=
  sanitize ("js_func_" ++ moduleName ++ "_" ++ name)

/-- A class of a script's module. -/
def ofScriptClass (moduleName name : String) : Ident :=
  sanitize ("js_class_" ++ moduleName ++ "_" ++ name)

/-- The use of a component hook at a place. -/
def ofReactHook (name file : String) (line : LineMark) : Ident :=
  sanitize ("react_hook_" ++ name ++ "_" ++ fingerprint file line)

/-- A call told apart only by its place. -/
def ofCallSite (family file : String) (line : LineMark) : Ident :=
  sanitize (family ++ "_" ++ fingerprint file line)

end Ident

end PluginAtlas
