import PluginAtlas.Plugin.Content
import PluginAtlas.Text.Blank
import PluginAtlas.Text.Pattern

/-!
# Plugin headers

The main file of a plugin names the plugin in a comment near its front, one field a
line. A field may follow the opening tag and any comment marks; its value ends with
the line, or where the comment or the code ends.

## Main definitions

* `Header`: the fields of a header.
* `Header.fieldPattern`: what stands in front of the value of a field.
* `Header.ofText`, `Header.ofBytes`: the header of a file.
-/

namespace PluginAtlas

/-- The header of a plugin, without the fields that are absent or empty. -/
structure Header where
  name : Option String := none
  version : Option String := none
  description : Option String := none
deriving DecidableEq, Repr, Inhabited

namespace Header

/-- A blank at the front of a line. -/
def isIndent (c : Char) : Bool := c == ' ' || c == '\t'

/-- A blank or a comment mark. -/
def isCommentMark (c : Char) : Bool :=
  isIndent c || c == '/' || c == '*' || c == '#' || c == '@'

/-- What stands in front of the value of a field: the opening tag behind blanks or nothing,
comment marks, and the name with a colon. The name is given in lower case. -/
def fieldPattern (field : String) : Text.Pattern :=
  (Text.Pattern.optional ((Text.Pattern.run isIndent).andThen (.word "<?php"))).andThen
    ((Text.Pattern.run isCommentMark).andThen (.word (field ++ ":")))

/-- The characters up to the end of the line. -/
def restOfLine (cs : List Char) : String := String.ofList (cs.takeWhile (· != '\n'))

/-- The characters in front of the end of the comment or of the code. -/
def beforeEnd : List Char → List Char
  | [] => []
  | '*' :: '/' :: _ => []
  | '?' :: '>' :: _ => []
  | c :: cs => c :: beforeEnd cs

/-- A value without what follows it and without white space around it; an empty value
is none. -/
def cleanValue? (value : String) : Option String :=
  let text := Text.strip (String.ofList (beforeEnd value.toList))
  if text = "" then none else some text

/-- The value of a field, from the first place in a text that names it. -/
def field? (field : String) (text : String) : Option String :=
  ((fieldPattern field).search true text.toList).bind fun rest => cleanValue? (restOfLine rest)

/-- The header in a text. -/
def ofText (text : String) : Header where
  name := field? "plugin name" text
  version := field? "version" text
  description := field? "description" text

/-- The header of a file. -/
def ofBytes (bytes : List UInt8) : Header := ofText (Content.head Content.headSize bytes)

end Header

end PluginAtlas
