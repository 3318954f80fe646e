import PluginAtlas.Php.Scope

/-!
# Stored data

Reads, writes and deletions of what the site stores: options, metadata, transients and
the database. One entity stands for an operation on a key; the callable that owns the
code is related to it.

## Main definitions

* `storageFunctions`, `databaseMethods`: the calls that touch stored data.
* `databaseKey?`: the table or query of a database call.
* `storage`: what a call touches.
-/

namespace PluginAtlas.Php

/-- What a call does with stored data. -/
inductive StorageOperation where
  | read | write | delete
deriving DecidableEq, Repr

namespace StorageOperation

/-- The word of an operation. -/
def word : StorageOperation → String
  | read => "read"
  | write => "write"
  | delete => "delete"

/-- The relation from a callable to what it touches. -/
def relationKind : StorageOperation → RelationKind
  | read => .readsData
  | write | delete => .writesData

/-- The label of that relation. -/
def label : StorageOperation → String
  | read => "reads"
  | write => "writes"
  | delete => "deletes"

end StorageOperation

/-- The functions that touch stored data: the store, the operation, and which argument
holds the key. -/
def storageFunctions : List (String × String × StorageOperation × Nat) := [
  ("get_option", "option", .read, 0),
  ("update_option", "option", .write, 0),
  ("add_option", "option", .write, 0),
  ("delete_option", "option", .delete, 0),
  ("get_post_meta", "post_meta", .read, 1),
  ("update_post_meta", "post_meta", .write, 1),
  ("add_post_meta", "post_meta", .write, 1),
  ("delete_post_meta", "post_meta", .delete, 1),
  ("get_user_meta", "user_meta", .read, 1),
  ("update_user_meta", "user_meta", .write, 1),
  ("add_user_meta", "user_meta", .write, 1),
  ("delete_user_meta", "user_meta", .delete, 1),
  ("get_transient", "transient", .read, 0),
  ("set_transient", "transient", .write, 0),
  ("delete_transient", "transient", .delete, 0)]

/-- The methods of the database object. -/
def databaseMethods : List (String × StorageOperation) := [
  ("get_results", .read), ("get_row", .read), ("get_var", .read), ("get_col", .read),
  ("query", .read), ("insert", .write), ("update", .write), ("replace", .write),
  ("delete", .delete)]

/-- Whether an expression is written as the database object. -/
def isDatabaseObject (text : String) : Bool := text = "$wpdb" || text = "$this->wpdb"

/-- The longest key of a database call. -/
def maxKeyLength : Nat := 80

/-- The table or query of a database call, looking through at most `depth` calls that
prepare it. A table behind the site's own beginning is written after a mark for it. -/
def databaseKeyWithin (f : SourceFile) : Nat → Option Tree → Option String
  | 0, _ => none
  | depth + 1, argument => do
    let t ← (← argument).unwrap?
    if t.kind = "member_call_expression" && Text.lower ((memberName? f t).getD "") = "prepare" then
      databaseKeyWithin f depth (callArguments t)[0]?
    else if t.kind = "binary_expression" then
      let table ← stringValue? f (t.byField? "right")
      if Text.endsWith "->prefix" (f.textOf? (t.byField? "left")) then
        some (Text.take maxKeyLength ("\x7bprefix\x7d" ++ table))
      else none
    else (stringValue? f t).map (Text.take maxKeyLength)

/-- The table or query of a database call. Every call that prepares it is a smaller
tree, so the size of the argument bounds their number. -/
def databaseKey? (f : SourceFile) (argument : Option Tree) : Option String :=
  databaseKeyWithin f ((argument.map Tree.size).getD 0) argument

/-- What a call touches: the store, the operation and the key. -/
def storageAccess? (f : SourceFile) (t : Tree) :
    Option (String × StorageOperation × Option String) :=
  if t.kind = "function_call_expression" then do
    let (store, operation, index) ← storageFunctions.lookup (← functionName? f t)
    return (store, operation, stringValue? f (callArguments t)[index]?)
  else if t.kind = "member_call_expression" || t.kind = "nullsafe_member_call_expression" then
    if isDatabaseObject (f.textOf? (t.byField? "object")) then do
      let operation ← databaseMethods.lookup (Text.lower (← memberName? f t))
      return ("database", operation, databaseKey? f (callArguments t)[0]?)
    else none
  else none

/-- The stored data that a call touches, and the relation from the callable around. -/
def storage (f : SourceFile) (s : Scope) (v : Visit) : Outcome :=
  match storageAccess? f v.tree with
  | none => .nothing
  | some (store, operation, key) =>
    let line := f.lineOf v.tree
    let id := Ident.ofDataSource operation.word key f.relativePath line
    let entity : Entity :=
      { id, label := key.getD "dynamic key", kind := .dataSource, subtype := store
        file := f.path, line
        metadata := [("operation", .str operation.word), ("key", .ofText? key)] }
    .found (.entity entity :: (s.callerId?.map fun caller =>
      Finding.relation (.between caller operation.relationKind id operation.label)).toList)

end PluginAtlas.Php
