import PluginAtlas.Php.Scope

/-!
# Included files

A file is related to the files that it includes. The target is known when it is a
text literal, or a literal behind an expression for the directory of the file; any
other target is a stand-in for the place. The file itself is known before its target,
whose path may be one that the disk cannot be asked for.

## Main definitions

* `includeReference?`, `includeTarget`: the reference to an included file, and its path.
* `includes`: what an include expression relates.
-/

namespace PluginAtlas.Php

/-- Whether a kind of node includes a file. -/
def isIncludeKind (kind : String) : Bool :=
  kind == "include_expression" || kind == "include_once_expression"
    || kind == "require_expression" || kind == "require_once_expression"

/-- Whether an expression stands for the directory of the file. -/
def isOwnDirectory (f : SourceFile) (t : Option Tree) : Bool :=
  match t.bind Tree.unwrap? with
  | none => false
  | some t =>
    if isMagicConstant f t "__DIR__" then true
    else if t.kind ≠ "function_call_expression" then false
    else
      match functionName? f t, callArguments t with
      | some name, [argument] =>
        (name = "dirname" || name = "plugin_dir_path") && isMagicConstant f argument "__FILE__"
      | _, _ => false

/-- The reference to an included file, seen from the directory of the file. -/
def includeReference? (f : SourceFile) (expression : Tree) : Option String := do
  let t ← expression.unwrap?
  match stringValue? f t with
  | some literal => some literal
  | none =>
    if t.kind = "binary_expression" && t.children.any (fun c => !c.isNamed && c.kind = ".") then
      let rest ← stringValue? f (t.byField? "right")
      if isOwnDirectory f (t.byField? "left") then
        some (Text.trimStart (fun c => c == '/' || c == '\\') rest)
      else none
    else none

/-- The path of an included file, if the expression tells it. -/
def includeTarget (f : SourceFile) (expression : Tree) : Except DiskError (Option String) :=
  match includeReference? f expression with
  | none => .ok none
  | some reference => (f.resolve reference).map some

/-- The entity of an included file. -/
def includedEntity (f : SourceFile) (line : Nat) : Option String → Entity
  | none =>
    { id := Ident.ofDynamicFile f.relativePath line, label := "dynamic", kind := .file
      file := f.path, line }
  | some target =>
    { id := Ident.ofFile target f.root, label := (Path.parse target).name, kind := .file
      file := target }

/-- The entity of the file itself. -/
def ownEntity (f : SourceFile) : Entity where
  id := f.id
  label := f.baseName
  kind := .file
  file := f.path

/-- The relation that an include expression draws. -/
def includes (f : SourceFile) (_ : Scope) (v : Visit) : Outcome :=
  if !isIncludeKind v.tree.kind then .nothing
  else
    match v.tree.parts with
    | [] => .nothing
    | operand :: _ =>
      .after [.entity (ownEntity f)] (.reaching (includeTarget f operand) fun path? =>
        let target := includedEntity f (f.lineOf v.tree) path?
        .found [.entity target, .relation (.between f.id .includes target.id "includes")])

end PluginAtlas.Php
