import PluginAtlas.Path
import PluginAtlas.Text.Casing

/-!
# Kinds of files

A file is analyzed as a block manifest, a script or a PHP file, by its name alone.

## Main definitions

* `FileKind`, `FileKind.ofPath?`: the kinds, and the kind of a path.
-/

namespace PluginAtlas

/-- What a file is analyzed as. -/
inductive FileKind where
  | manifest
  | script
  | php
deriving DecidableEq, Repr, Inhabited

namespace FileKind

/-- The word for a kind. -/
def word : FileKind → String
  | manifest => "manifest"
  | script => "script"
  | php => "php"

/-- The kind that a suffix stands for, in lower case. -/
def ofSuffix? : String → Option FileKind
  | ".php" => some php
  | ".js" | ".jsx" | ".mjs" | ".cjs" | ".ts" | ".tsx" => some script
  | _ => none

/-- The kind of the file at a path. -/
def ofPath? (path : Path) : Option FileKind :=
  if path.name = "block.json" then some manifest else ofSuffix? (Text.lower path.suffix)

end FileKind

end PluginAtlas
