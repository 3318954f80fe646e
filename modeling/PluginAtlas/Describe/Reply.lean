import PluginAtlas.Json.Reader
import PluginAtlas.Text.Blank
import PluginAtlas.Traced

/-!
# Replies of a language model

A model is asked for a JSON object that maps identifiers to descriptions. Its reply may
wrap the object in code fences and in prose: fences are removed, and the first object
in the text counts. Values that are not texts are dropped.

## Main definitions

* `removeFences`: a text without its code fences.
* `descriptionsIn`: the descriptions in a reply.
-/

namespace PluginAtlas.Describe

/-- Descriptions by identifier. -/
abbrev Descriptions := List (String × String)

/-- The mark of a code fence. -/
def fence : List Char := ['\x60', '\x60', '\x60']

/-- What follows a code fence at the front of a text. -/
def afterFence? (cs : List Char) : Option (List Char) :=
  if fence.isPrefixOf cs then some (cs.drop fence.length) else none

/-- The length of an opening fence at the front of a text: its mark, the name of the
language, and white space. -/
def openingLength? (cs : List Char) : Option Nat :=
  (afterFence? cs).map fun rest =>
    let named := if "json".toList.isPrefixOf rest then 4 else 0
    fence.length + named + ((rest.drop named).takeWhile Text.isBlank).length

/-- Removes opening fences, which stand at the front of a line, after skipping some
characters. -/
def removeOpening (atLineStart : Bool) : Nat → List Char → List Char
  | _, [] => []
  | n + 1, c :: cs => removeOpening (c == '\n') n cs
  | 0, c :: cs =>
    match if atLineStart then openingLength? (c :: cs) else none with
    | some length => removeOpening (c == '\n') (length - 1) cs
    | none => c :: removeOpening (c == '\n') 0 cs

/-- The number of blanks after a closing fence that belong to it: all of them at the end
of the text, else those in front of the last line end among them. Without a line end
the fence does not close. -/
def closingBlanks? (cs : List Char) : Option Nat :=
  let blanks := cs.takeWhile Text.isBlank
  if blanks.length = cs.length then some blanks.length
  else if blanks.contains '\n' then
    some (blanks.reverse.dropWhile (· != '\n')).length.pred
  else none

/-- The length of a closing fence at the front of a text: white space, its mark, and the
blanks after it. -/
def closingLength? (cs : List Char) : Option Nat :=
  let blanks := (cs.takeWhile Text.isBlank).length
  (afterFence? (cs.drop blanks)).bind fun rest =>
    (closingBlanks? rest).map fun more => blanks + fence.length + more

/-- Removes closing fences, which end a line, after skipping some characters. -/
def removeClosing : Nat → List Char → List Char
  | _, [] => []
  | n + 1, _ :: cs => removeClosing n cs
  | 0, c :: cs =>
    (closingLength? (c :: cs)).elim (c :: removeClosing 0 cs) fun length =>
      removeClosing (length - 1) cs

/-- A text without its code fences. -/
def removeFences (cs : List Char) : List Char := removeClosing 0 (removeOpening true 0 cs)

/-- The texts among the fields of an object. -/
def textsOf : Json → Descriptions
  | .obj fields => fields.filterMap fun (key, value) =>
      match value with
      | .str s => some (key, s)
      | _ => none
  | _ => []

/-- The part of a text up to its last closing brace; nothing without one. -/
def upToBrace (cs : List Char) : List Char :=
  (cs.reverse.dropWhile (· != '\x7d')).reverse

/-- The value at the front of a text that starts with a brace, or else the whole of the
text up to its last closing brace; `none` if neither can be read. A number with too many
digits is an error. -/
def readObject (cs : List Char) : Except Json.ParseError (Option Json) :=
  match Json.readFront cs with
  | .ok (value, _) => .ok (some value)
  | .error failure =>
    let error := Json.ParseError.of cs failure
    if !error.isMalformed then .error error
    else
      match Json.parse (String.ofList (upToBrace cs)) with
      | .ok value => .ok (some value)
      | .error error => if error.isMalformed then .ok none else .error error

/-- The descriptions in a reply. -/
def descriptionsIn (reply : String) : Traced (Except Json.ParseError Descriptions) :=
  match (removeFences reply.toList).dropWhile (· != '\x7b') with
  | [] => do
    Traced.notify .replyWithoutJson
    return .ok []
  | cs =>
    match readObject cs with
    | .error e => pure (.error e)
    | .ok (some value) => pure (.ok (textsOf value))
    | .ok none => do
      Traced.notify (.replyUnparseable reply.length)
      return .ok []

end PluginAtlas.Describe
