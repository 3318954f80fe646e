import PluginAtlas.Text.Basic
import PluginAtlas.Text.CasingData

/-!
# Letter case

Lower and upper case of whole texts by the full mappings of the Unicode standard:
one character may become several, and a capital sigma that ends a word becomes the
final sigma. ASCII letters map as usual.

## Main definitions

* `lower`, `upper`: the two case mappings on texts.
-/

namespace PluginAtlas.Text

/-- Whether a number lies in one of the ranges. -/
def inRanges (ranges : List (Nat × Nat)) (n : Nat) : Bool :=
  ranges.any fun (lo, hi) => lo ≤ n && n ≤ hi

/-- The image of a code point under a run that holds it. -/
def CaseRun.image? (run : CaseRun) (n : Nat) : Option Nat :=
  if run.first ≤ n && (n - run.first) % run.stride == 0
      && (n - run.first) / run.stride < run.count then
    some (Int.toNat (n + run.delta))
  else none

/-- Maps one character beyond ASCII by the special mappings first and the runs second. -/
def mapCase (special : List (Nat × List Nat)) (runs : List CaseRun) (c : Char) : List Char :=
  match special.lookup c.toNat with
  | some image => image.map Char.ofNat
  | none =>
    match runs.findSome? (·.image? c.toNat) with
    | some n => [Char.ofNat n]
    | none => [c]

/-- Lower case of one character, apart from the final sigma. -/
def lowerChar (c : Char) : List Char :=
  if c.toNat < 0x80 then [c.toLower] else mapCase lowerSpecial lowerRuns c

/-- Upper case of one character. -/
def upperChar (c : Char) : List Char :=
  if c.toNat < 0x80 then [c.toUpper] else mapCase upperSpecial upperRuns c

/-- Whether the nearest character that counts has case. -/
def nextIsCased (cs : List Char) : Bool :=
  match cs.dropWhile fun c => inRanges caseIgnorable c.toNat with
  | [] => false
  | c :: _ => inRanges cased c.toNat

/-- Lower case of a text whose characters before the current one are `before`,
nearest first. -/
def lowerList (before : List Char) : List Char → List Char
  | [] => []
  | c :: rest =>
    (if c == 'Σ' && nextIsCased before && !nextIsCased rest then ['ς'] else lowerChar c)
      ++ lowerList (c :: before) rest

/-- The text in lower case. -/
def lower (s : String) : String :=
  String.ofList (lowerList [] s.toList)

/-- The text in upper case. -/
def upper (s : String) : String :=
  String.ofList (s.toList.flatMap upperChar)

end PluginAtlas.Text
