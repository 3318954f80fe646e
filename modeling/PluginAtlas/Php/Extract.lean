import PluginAtlas.Php.Callables
import PluginAtlas.Php.EntryPoints
import PluginAtlas.Php.Includes
import PluginAtlas.Php.Storage
import PluginAtlas.Traced

/-!
# Extraction from PHP files

A file is walked once by a team of visitors, one for each family of rules. Every visitor
keeps a scope of its own. At a node the visitors take their turns: each enters the node
and applies its rules in the scope that holds inside. The first failure ends the walk, in
the middle of the turns, and leaves every scope as it is at that moment.

Visitors are kept from file to file. In front of each file they start anew.

## Main definitions

* `Family`, `Family.apply`: the families of rules.
* `Visitor`, `Team`, `Team.step`: visitors on a walk.
* `visit`, `visitParsed`: the walk of visitors through a file.
* `extract`: what families find in a tree.
-/

namespace PluginAtlas.Php

/-- A family of extraction rules. -/
inductive Family where
  | declarations | callables | hooks | storage | entryPoints | includes
deriving DecidableEq, Repr

/-- The families in the order in which they are applied. -/
def Family.all : List Family :=
  [.declarations, .callables, .hooks, .storage, .entryPoints, .includes]

/-- What a family finds at a node. -/
def Family.apply (family : Family) (f : SourceFile) (s : Scope) (v : Visit) : Outcome :=
  match family with
  | .declarations => Php.declarations f s v
  | .callables => Php.callables f s v
  | .hooks => Php.hooks f s v
  | .storage => Php.storage f s v
  | .entryPoints => Php.entryPoints f s v
  | .includes => Php.includes f s v

/-- A family of rules that goes through files with a scope of its own. -/
structure Visitor where
  family : Family
  scope : Scope := {}

/-- Visitors that have seen no file yet. -/
def Visitor.ofFamilies (families : List Family) : List Visitor :=
  families.map fun family => { family }

/-- The visitor in front of a file. -/
def Visitor.restart (x : Visitor) : Visitor := { x with scope := x.scope.restart }

/-- Visitors on one walk, what they have found, and the failure that has ended the walk. -/
structure Team where
  visitors : List Visitor
  outcome : Outcome := .nothing

/-- The visitors in front of a walk. -/
def Team.start (visitors : List Visitor) : Team where
  visitors := visitors.map Visitor.restart

/-- The visitors enter a node one after the other, each applying its rules in its own scope.
A failure keeps the later ones from it. -/
def enterEach (f : SourceFile) (v : Visit) : List Visitor → List Visitor × Outcome
  | [] => ([], .nothing)
  | x :: rest =>
    let scope := x.scope.enter f v.tree
    let own := x.family.apply f scope v
    match own.failure with
    | some _ => ({ x with scope } :: rest, own)
    | none =>
      let (others, found) := enterEach f v rest
      ({ x with scope } :: others, own.followedBy found)

/-- The visitors leave a node one after the other. -/
def leaveEach (v : Visit) (visitors : List Visitor) : List Visitor :=
  visitors.map fun x => { x with scope := x.scope.leave v.tree }

/-- A step of the walk, made by every visitor in order. After a failure nothing happens any
more. -/
def Team.step (f : SourceFile) (team : Team) : Step → Team
  | .enter v =>
    if team.outcome.failure.isSome then team
    else
      let (visitors, found) := enterEach f v team.visitors
      ⟨visitors, team.outcome.followedBy found⟩
  | .leave v =>
    if team.outcome.failure.isSome then team
    else { team with visitors := leaveEach v team.visitors }

/-- Lets visitors go through a tree. -/
def visit (f : SourceFile) (root : Tree) (visitors : List Visitor) : Team :=
  Walk.fold (Team.step f) (.start visitors) root

/-- Lets visitors go through what a parser makes of a file. -/
def visitParsed (f : SourceFile) (p : Parsed) (visitors : List Visitor) : Traced Team := do
  if p.hasErrors then Traced.notify (.phpSyntaxErrors f.relativePath)
  return visit f p.root visitors

/-- What the families find in a tree. -/
def extract (families : List Family) (f : SourceFile) (root : Tree) : Outcome :=
  (visit f root (Visitor.ofFamilies families)).outcome

end PluginAtlas.Php
