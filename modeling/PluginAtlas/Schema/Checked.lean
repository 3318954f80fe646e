import PluginAtlas.Json.Basic

/-!
# Checked fields

A record that comes from outside is read field by field. All its faults are reported,
in the order of the fields, each with the place it was found at.

## Main definitions

* `Flaw`, `Flaw.code`: what can be wrong with a value, and the code it is reported by.
* `Defect`: a flaw at a place.
* `Checked`: a value, or everything that is wrong with it.
* `Shape`: what a value has to be, as the function that reads it.
* `required`, `optional`: the fields of a record.
-/

namespace PluginAtlas.Schema

/-- What is wrong with a value. -/
inductive Flaw where
  | missing
  | notText
  | notListed
  | notObject
  | notList
  | notRecord
  | notWhole
  | wholeUnreadable
  | wholeTooLong
  | hasFraction
  | notFinite
  | belowBound
  | notTruth
  | truthUnreadable
  | decimalUnreadable
  | notTime
  | timeUnreadable
  | dateUnreadable
deriving DecidableEq, Repr

/-- The code of a flaw in a report. -/
def Flaw.code : Flaw → String
  | missing => "missing"
  | notText => "string_type"
  | notListed => "enum"
  | notObject => "dict_type"
  | notList => "list_type"
  | notRecord => "model_attributes_type"
  | notWhole => "int_type"
  | wholeUnreadable => "int_parsing"
  | wholeTooLong => "int_parsing_size"
  | hasFraction => "int_from_float"
  | notFinite => "finite_number"
  | belowBound => "greater_than_equal"
  | notTruth => "bool_type"
  | truthUnreadable => "bool_parsing"
  | decimalUnreadable => "float_parsing"
  | notTime => "datetime_type"
  | timeUnreadable => "datetime_parsing"
  | dateUnreadable => "datetime_from_date_parsing"

/-- One step towards a value inside another. -/
inductive Step where
  | field (name : String)
  | item (index : Nat)
deriving DecidableEq, Repr

/-- A step in a report. -/
def Step.toJson : Step → Json
  | .field name => .str name
  | .item index => .int index

/-- A flaw at a place. -/
structure Defect where
  place : List Step
  flaw : Flaw
deriving DecidableEq, Repr

/-- A defect in a report. -/
def Defect.toJson (d : Defect) : Json :=
  .obj [("loc", .arr (d.place.map Step.toJson)), ("type", .str d.flaw.code)]

/-- A value, or everything that is wrong with it. -/
inductive Checked (α : Type) where
  | valid (value : α)
  | faulty (defects : List Defect)
deriving Repr

namespace Checked

variable {α β : Type}

/-- A value with a single flaw. -/
def flawed (flaw : Flaw) : Checked α := .faulty [⟨[], flaw⟩]

/-- The defects of a value, empty for a valid one. -/
def defects : Checked α → List Defect
  | .valid _ => []
  | .faulty ds => ds

/-- The same value, seen from one step outside. -/
def within (step : Step) : Checked α → Checked α
  | .valid a => .valid a
  | .faulty ds => .faulty (ds.map fun d => ⟨step :: d.place, d.flaw⟩)

/-- A valid value goes through a function. -/
def map (f : α → β) : Checked α → Checked β
  | .valid a => .valid (f a)
  | .faulty ds => .faulty ds

/-- A function meets its argument; the defects of both are kept. -/
def meet (f : Checked (α → β)) (a : Checked α) : Checked β :=
  match f, a with
  | .valid f, .valid a => .valid (f a)
  | f, a => .faulty (f.defects ++ a.defects)

instance : Applicative Checked where
  pure := .valid
  map f a := a.map f
  seq f a := meet f (a ())

end Checked

/-- What a value has to be: the function that reads it. -/
abbrev Shape (α : Type) := Json → Checked α

/-- A text. -/
def text : Shape String
  | .str s => .valid s
  | _ => .flawed .notText

/-- A value that may be null. -/
def orNull {α : Type} (shape : Shape α) : Shape (Option α)
  | .null => .valid none
  | value => (shape value).map some

/-- One of a closed list of words. -/
def oneOf {α : Type} (ofWord? : String → Option α) : Shape α
  | .str s =>
    match ofWord? s with
    | some a => .valid a
    | none => .flawed .notListed
  | _ => .flawed .notListed

/-- An object of any content. -/
def object : Shape (List (String × Json))
  | .obj fields => .valid fields
  | _ => .flawed .notObject

/-- The items of a list from an index on. -/
def itemsFrom {α : Type} (shape : Shape α) : Nat → List Json → Checked (List α)
  | _, [] => .valid []
  | n, value :: rest =>
    List.cons <$> (shape value).within (.item n) <*> itemsFrom shape (n + 1) rest

/-- A list of values of one shape. -/
def listOf {α : Type} (shape : Shape α) : Shape (List α)
  | .arr items => itemsFrom shape 0 items
  | _ => .flawed .notList

/-- A field that has to be there. -/
def required {α : Type} (fields : List (String × Json)) (name : String) (shape : Shape α) :
    Checked α :=
  (match fields.lookup name with
    | some value => shape value
    | none => .flawed .missing).within (.field name)

/-- A field with a value that it takes when it is not there. -/
def optional {α : Type} (fields : List (String × Json)) (name : String) (fallback : α)
    (shape : Shape α) : Checked α :=
  match fields.lookup name with
  | some value => (shape value).within (.field name)
  | none => .valid fallback

end PluginAtlas.Schema
