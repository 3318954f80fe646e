import PluginAtlas.Decimal.Binary64
import PluginAtlas.Text.Quoted

/-!
# JSON values

A JSON value keeps the order of its fields, whole numbers of any size, and doubles
apart from whole numbers. An object lists each key once.

## Main definitions

* `Json`: the values.
* `Json.insertField`: adds a field, or replaces the value of one in its place.
* `Json.isTruthy`: whether a value counts as present: everything but null, false,
  zero and the empty texts, lists and objects.
* `Json.display`: the text of a value inside a label.
-/

namespace PluginAtlas

/-- A JSON value. -/
inductive Json where
  | null
  | bool (b : Bool)
  | int (n : Int)
  | float (x : Decimal.Binary64)
  | str (s : String)
  | arr (items : List Json)
  | obj (fields : List (String × Json))
deriving Repr, Inhabited

namespace Json

/-- The fields of an object with one more field; a key that is there already keeps its
place and takes the new value. -/
def insertField (key : String) (value : Json) : List (String × Json) → List (String × Json)
  | [] => [(key, value)]
  | (k, v) :: rest => if k = key then (k, value) :: rest else (k, v) :: insertField key value rest

/-- The value of a field of an object. -/
def field? (key : String) : Json → Option Json
  | .obj fields => fields.lookup key
  | _ => none

/-- The text of a text value. -/
def text? : Json → Option String
  | .str s => some s
  | _ => none

/-- A text that may be absent. -/
def ofText? : Option String → Json
  | none => .null
  | some s => .str s

/-- Whether a value counts as present. -/
def isTruthy : Json → Bool
  | .null => false
  | .bool b => b
  | .int n => n != 0
  | .float x => !x.isZero
  | .str s => s != ""
  | .arr items => !items.isEmpty
  | .obj fields => !fields.isEmpty

/-- Doubles inside labels stand without exponent between 10⁻⁴ and 10¹⁶. -/
def labelNumbers : Decimal.NumberFormat := ⟨-3, 16, "inf", "nan"⟩

mutual

/-- The text of a value inside a list or an object of a label, where texts are quoted. -/
def inspect : Json → String
  | .null => "None"
  | .bool true => "True"
  | .bool false => "False"
  | .int n => Text.ofInt n
  | .float x => x.render labelNumbers
  | .str s => Text.quoted s
  | .arr items => "[" ++ Text.join ", " (inspectItems items) ++ "]"
  | .obj fields => "\x7b" ++ Text.join ", " (inspectFields fields) ++ "\x7d"

/-- The texts of the items of a list. -/
def inspectItems : List Json → List String
  | [] => []
  | item :: rest => inspect item :: inspectItems rest

/-- The texts of the fields of an object. -/
def inspectFields : List (String × Json) → List String
  | [] => []
  | (key, value) :: rest => (Text.quoted key ++ ": " ++ inspect value) :: inspectFields rest

end

/-- The text of a value inside a label: a text stands for itself. -/
def display : Json → String
  | .str s => s
  | value => inspect value

mutual

/-- Equality of values, numbers compared by value. -/
def agrees : Json → Json → Bool
  | .null, .null => true
  | .bool a, .bool b => a = b
  | .int a, .int b => a = b
  | .float a, .float b => !a.isNan && (a = b || (a.isZero && b.isZero))
  | .str a, .str b => a = b
  | .arr a, .arr b => agreeItems a b
  | .obj a, .obj b => a.length = b.length && agreeFields a b
  | _, _ => false

/-- Equality of lists of values. -/
def agreeItems : List Json → List Json → Bool
  | [], [] => true
  | a :: as, b :: bs => agrees a b && agreeItems as bs
  | _, _ => false

/-- Whether every field of the first list agrees with a field of the second. -/
def agreeFields : List (String × Json) → List (String × Json) → Bool
  | [], _ => true
  | (key, value) :: rest, fields =>
    (match fields.lookup key with
      | some other => agrees value other
      | none => false) && agreeFields rest fields

end

end Json

end PluginAtlas
