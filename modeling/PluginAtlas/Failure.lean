import PluginAtlas.Disk
import PluginAtlas.Graph.Store
import PluginAtlas.Json.Reader

/-!
# Failures of an extraction

What makes the extraction of one file stop early. Everything found before stays found.

## Main definitions

* `Failure`, `Failure.message`: the causes and their wording.
* `Outcome`: findings, and the failure that ended them.
-/

namespace PluginAtlas

/-- A cause that ends the extraction of a file. -/
inductive Failure where
  /-- The path of a script has no last component to name its module by. -/
  | emptyName (path : String)
  /-- A class that is itself called by a word for the enclosing class cannot be
  resolved. -/
  | endlessName
  /-- A node lacks a child that has to be looked at. -/
  | missingChild
  /-- Digits that do not write a decimal number. -/
  | notDecimal (text : String)
  /-- A whole number with more digits than can be read. -/
  | tooManyDigits (count : Nat)
  /-- A field of an entity that has to be a text is none. -/
  | notText (field : String)
  /-- It cannot be told whether the target of a reference exists. -/
  | unreachable (error : DiskError)
deriving DecidableEq, Repr

/-- The wording of a failure. -/
def Failure.message : Failure → String
  | .emptyName path => "PurePosixPath(" ++ Text.quoted path ++ ") has an empty name"
  | .endlessName => "maximum recursion depth exceeded while calling a Python object"
  | .missingChild => "list index out of range"
  | .notDecimal text =>
    "invalid literal for int() with base 10: " ++ Text.take 200 (Text.quoted text)
  | .tooManyDigits count => Json.tooManyDigits count
  | .notText field => field
  | .unreachable error => error.message

/-- What an extractor found, up to the failure that stopped it, if any. -/
structure Outcome where
  findings : List Finding := []
  failure : Option Failure := none
deriving Inhabited

namespace Outcome

/-- Nothing found, nothing failed. -/
def nothing : Outcome := {}

/-- Findings without a failure. -/
def found (findings : List Finding) : Outcome := ⟨findings, none⟩

/-- A failure before anything is found. -/
def failed (failure : Failure) : Outcome := ⟨[], some failure⟩

/-- Findings in front of those of another outcome. -/
def after (findings : List Finding) (o : Outcome) : Outcome :=
  ⟨findings ++ o.findings, o.failure⟩

/-- One outcome followed by another, which is reached only if the first did not fail. -/
def followedBy (o : Outcome) (next : Outcome) : Outcome :=
  match o.failure with
  | some _ => o
  | none => ⟨o.findings ++ next.findings, next.failure⟩

/-- Goes on with a value, or fails. -/
def attempt {α : Type} (value : Except Failure α) (next : α → Outcome) : Outcome :=
  match value with
  | .error failure => failed failure
  | .ok a => next a

/-- Goes on with what the disk answers, or fails if it has no answer. -/
def reaching {α : Type} (answer : Except DiskError α) (next : α → Outcome) : Outcome :=
  attempt (answer.mapError .unreachable) next

@[simp] theorem reaching_ok {α : Type} (a : α) (next : α → Outcome) :
    reaching (.ok a) next = next a := rfl

@[simp] theorem reaching_error {α : Type} (error : DiskError) (next : α → Outcome) :
    reaching (.error error) next = failed (.unreachable error) := rfl

/-- Outcomes one after the other, up to the first that fails. -/
def sequence : List Outcome → Outcome
  | [] => nothing
  | o :: rest => o.followedBy (sequence rest)

end Outcome

end PluginAtlas
