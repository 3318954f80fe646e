import PluginAtlas.Php.Literal

/-!
# Scopes of PHP code

Where a walk stands in a PHP file: the namespace in force, the class names imported
into it, the enclosing classes and the enclosing callables. Entering and leaving a
node both look at the same classification of its kind, so that what is opened is
closed.

## Main definitions

* `ScopeForm`: the nodes that change the scope.
* `Scope`, `Scope.restart`, `Scope.enter`, `Scope.leave`: the scope along a walk.
* `Scope.qualify`, `Scope.classId`: the class that a written name means.
* `Scope.callerId?`: the callable that owns the code.
* `imports`: the class names that a `use` declaration imports.
-/

namespace PluginAtlas.Php

/-- The ways in which a node changes the scope. -/
inductive ScopeForm where
  | namespaceForm | useForm | classForm | anonymousClassForm | functionForm | methodForm
  | closureForm
deriving DecidableEq, Repr

/-- How a node of a kind changes the scope. -/
def ScopeForm.of? (kind : String) : Option ScopeForm :=
  if kind = "namespace_definition" then some .namespaceForm
  else if kind = "namespace_use_declaration" then some .useForm
  else if kind = "class_declaration" || kind = "interface_declaration"
      || kind = "trait_declaration" || kind = "enum_declaration" then some .classForm
  else if kind = "anonymous_class" then some .anonymousClassForm
  else if kind = "function_definition" then some .functionForm
  else if kind = "method_declaration" then some .methodForm
  else if isClosureKind kind then some .closureForm
  else none

/-- An enclosing callable. A method of a class without a name has no identifier. -/
structure Callable where
  isClosure : Bool
  id : Option Ident
deriving DecidableEq

/-- The scope at a place in a file. -/
structure Scope where
  namespaceName : String := ""
  /-- Whether the namespace in force has a body. -/
  braced : Bool := false
  /-- Imported class names by their alias in lower case, the latest first. -/
  imported : List (String × String) := []
  /-- The enclosing classes, the innermost first; `none` stands for one without name. -/
  classes : List (Option String) := []
  /-- The enclosing callables, the innermost first. -/
  callables : List Callable := []
deriving DecidableEq, Inhabited

/-- The text without backslashes at its ends. -/
def trimSeparators (s : String) : String := Text.trim (· == '\\') s

/-! ### Imports -/

mutual

/-- The clauses of a `use` declaration or of a group in it, in order. -/
def useClauses : Tree → List Tree
  | t@(.node kind _ _ _ _ children) =>
    if kind = "namespace_use_clause" || kind = "namespace_use_group_clause" then [t]
    else if kind = "namespace_use_group" then useClausesOf children
    else []

/-- The clauses among children that the grammar names. -/
def useClausesOf : List Tree → List Tree
  | [] => []
  | t :: ts => (if t.isNamed then useClauses t else []) ++ useClausesOf ts

end

/-- The alias that a clause gives: an explicit one, or the last segment. -/
def clauseAlias (f : SourceFile) (clause : Tree) (imported : String) : String :=
  let explicit := match clause.byField? "alias" with
    | some stated => some stated
    | none => (clause.ofKind? "namespace_aliasing_clause").bind (·.ofKind? "name")
  match explicit with
  | some stated => f.textOf stated
  | none => shortName imported

/-- The alias, in lower case, and the full name that a clause imports below a group's
common beginning. -/
def clauseImport? (f : SourceFile) (common : String) (clause : Tree) : Option (String × String) := do
  let target ← clause.ofKind? "qualified_name" <|> clause.ofKind? "name"
  let written := trimSeparators (f.textOf target)
  let full := if common = "" then written else common ++ "\\" ++ written
  return (Text.lower (clauseAlias f clause full), full)

/-- Whether a declaration imports functions or constants. -/
def importsNoClass (f : SourceFile) (declaration : Tree) : Bool :=
  declaration.children.any fun child =>
    !child.isNamed &&
      (let word := Text.lower (f.textOf child)
       word = "function" || word = "const")

/-- The class names that a `use` declaration imports, in order. -/
def imports (f : SourceFile) (declaration : Tree) : List (String × String) :=
  if importsNoClass f declaration then []
  else
    let common := trimSeparators (f.textOf? (declaration.ofKind? "namespace_name"))
    (useClausesOf declaration.children).filterMap (clauseImport? f common)

namespace Scope

/-- The innermost class; `none` outside classes and in one without name. -/
def currentClass? (s : Scope) : Option String := s.classes.head?.join

/-- The text of a declaration's name. -/
def nameOf (f : SourceFile) (t : Tree) : String := f.textOf? (t.byField? "name")

/-- The scope in front of a file, whatever an earlier file has left. -/
def restart (s : Scope) : Scope :=
  { s with namespaceName := "", braced := false, imported := [], classes := [], callables := [] }

/-- The scope after a node is entered. -/
def enter (s : Scope) (f : SourceFile) (t : Tree) : Scope :=
  match ScopeForm.of? t.kind with
  | none => s
  | some .namespaceForm =>
    { s with
      namespaceName := trimSeparators (nameOf f t)
      braced := (t.byField? "body").isSome
      imported := [] }
  | some .useForm => { s with imported := (imports f t).reverse ++ s.imported }
  | some .classForm =>
    let name := nameOf f t
    { s with classes := (if name = "" then none else some name) :: s.classes }
  | some .anonymousClassForm => { s with classes := none :: s.classes }
  | some .functionForm =>
    { s with callables := ⟨false, some (Ident.ofFunction (nameOf f t))⟩ :: s.callables }
  | some .methodForm =>
    let id := s.currentClass?.map fun owner => Ident.ofMethod owner (nameOf f t)
    { s with callables := ⟨false, id⟩ :: s.callables }
  | some .closureForm =>
    { s with callables := ⟨true, some (Ident.ofClosure f.relativePath (f.lineOf t))⟩ :: s.callables }

/-- The scope after a node is left. A namespace with a body ends with it. -/
def leave (s : Scope) (t : Tree) : Scope :=
  match ScopeForm.of? t.kind with
  | none | some .useForm => s
  | some .namespaceForm =>
    if s.braced then { s with namespaceName := "", imported := [] } else s
  | some .classForm | some .anonymousClassForm => { s with classes := s.classes.tail }
  | some .functionForm | some .methodForm | some .closureForm =>
    { s with callables := s.callables.tail }

/-- Whether a name is a word for the enclosing class. -/
def isSelfWord (name : String) : Bool :=
  Text.lower name = "self" || Text.lower name = "static"

/-- The full name of a class that is not a word for the enclosing one: what follows a
leading backslash, a name below the current namespace, or an imported name. -/
def qualifyPlain (s : Scope) (name : String) : String :=
  let here (rest : String) : String :=
    if s.namespaceName = "" then rest else s.namespaceName ++ "\\" ++ rest
  match Text.dropStart? "\\" name with
  | some rest => rest
  | none =>
    if Text.startsWith "namespace\\" (Text.lower name) then here (Text.drop 10 name)
    else
      let (head, rest) := Text.cut "\\" name
      match s.imported.lookup (Text.lower head), rest with
      | some full, some rest => full ++ "\\" ++ rest
      | some full, none => full
      | none, _ => here name

/-- The full name of a class as written; the words for the enclosing class mean it,
and a class called by such a word means no class. -/
def qualify (s : Scope) (name : String) : Except Failure String :=
  match isSelfWord name, s.currentClass? with
  | true, some current =>
    if isSelfWord current then .error .endlessName else .ok (s.qualifyPlain current)
  | _, _ => .ok (s.qualifyPlain name)

/-- The identifier of a class as written. -/
def classId (s : Scope) (name : String) : Except Failure Ident :=
  (s.qualify name).map Ident.ofClass

/-- The owner among callables, the innermost first: the first that is no closure, or
else the first closure. -/
def ownerAmong? (closure : Option Ident) : List Callable → Option Ident
  | [] => closure
  | c :: rest => if c.isClosure then ownerAmong? (closure <|> c.id) rest else c.id

/-- The callable that owns the code: the innermost function or method, or else the
innermost closure. -/
def callerId? (s : Scope) : Option Ident := ownerAmong? none s.callables

end Scope

end PluginAtlas.Php
