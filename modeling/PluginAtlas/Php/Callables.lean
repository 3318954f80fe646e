import PluginAtlas.Php.Declarations

/-!
# Declared functions and methods

Functions, methods of classes with a name, and the classes that a callable uses by
static calls. A method hangs below its class; a static call relates the callable that
owns the code to the class it names.

## Main definitions

* `callables`: what a node declares or calls.
-/

namespace PluginAtlas.Php

/-- A method of a class with a name, and the relation from its class. -/
def methodDeclaration (f : SourceFile) (s : Scope) (v : Visit) : Outcome :=
  let name := Scope.nameOf f v.tree
  match s.currentClass? with
  | none => .nothing
  | some owner =>
    if name = "" then .nothing
    else
      let written := Text.lower (f.textOf? (v.tree.ofKind? "visibility_modifier"))
      let id := Ident.ofMethod owner name
      let entity : Entity :=
        { id, label := name, kind := .method, file := f.path, line := f.lineOf v.tree
          metadata := [
            ("visibility", .str (if written = "" then "public" else written)),
            ("params", parameters f v.tree),
            ("return_type", .ofText? (returnType? f v.tree))]
          docblock := f.docblock? v
          sourcePreview := f.previewOf v.tree }
      Outcome.after [.entity entity]
        (Outcome.attempt (s.classId owner) fun ownerId =>
          .found [.relation (.between ownerId .hasMethod id "has method")])

/-- A function with a name. -/
def functionDeclaration (f : SourceFile) (s : Scope) (v : Visit) : List Finding :=
  let name := Scope.nameOf f v.tree
  if name = "" then []
  else
    [.entity
      { id := Ident.ofFunction name, label := name, kind := .function
        file := f.path, line := f.lineOf v.tree
        metadata := [
          ("namespace", namespaceValue s.namespaceName),
          ("params", parameters f v.tree),
          ("return_type", .ofText? (returnType? f v.tree))]
        docblock := f.docblock? v
        sourcePreview := f.previewOf v.tree }]

/-- Whether a name stands for a class relative to the enclosing one. -/
def isRelativeScope (name : String) : Bool :=
  let lowered := Text.lower name
  lowered = "self" || lowered = "static" || lowered = "parent"

/-- The class that a static call names. -/
def staticCall (f : SourceFile) (s : Scope) (t : Tree) : Outcome :=
  match s.callerId?, t.byField? "scope" with
  | some caller, some scope =>
    let name := f.textOf scope
    if !isNameKind scope.kind || isRelativeScope name then .nothing
    else
      Outcome.attempt (s.classId name) fun target =>
        .found [.relation (.between caller .calls target "calls")]
  | _, _ => .nothing

/-- The callable that a node declares, or the class that it calls. -/
def callables (f : SourceFile) (s : Scope) (v : Visit) : Outcome :=
  if v.tree.kind = "method_declaration" then methodDeclaration f s v
  else if v.tree.kind = "function_definition" then .found (functionDeclaration f s v)
  else if v.tree.kind = "scoped_call_expression" then staticCall f s v.tree
  else .nothing

end PluginAtlas.Php
