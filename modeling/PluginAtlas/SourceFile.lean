import PluginAtlas.Disk
import PluginAtlas.Ident
import PluginAtlas.Syntax.Walk

/-!
# Source files

The file that an extractor works on: its path, its text and the root of the plugin.
Nodes of a syntax tree are places in the bytes of the text; from them follow the text
and the lines of a node.

## Main definitions

* `SourceFile`, `SourceFile.ofText`: a file with the bytes of its text.
* `SourceFile.relativePath`, `SourceFile.id`, `SourceFile.directory`,
  `SourceFile.baseName`: what the path says.
* `SourceFile.preview`: the first lines of a part.
* `SourceFile.textOf`, `SourceFile.lineOf`, `SourceFile.endLineOf`: text and lines of a
  node.
* `Probe`: what is known of the paths of a disk.
* `resolveReference`, `SourceFile.resolve`: a reference from the file to another.
* `SourceFile.docblock?`: the documentation comment in front of a node.
-/

namespace PluginAtlas

/-- Whether a path exists on a disk, as far as that can be told. -/
abbrev Probe := Path → Except DiskError Bool

/-- Whether a path is the root of the disk, which always exists. -/
def isRootPath (p : Path) : Bool := p.anchor ≠ .here && p.parts.isEmpty

/-- What is known of the paths of any disk: only its root exists, and names are too long
below it as below any folder. -/
def Probe.unknown : Probe := fun p =>
  ((FileTree.folder []).probe p).map fun _ => isRootPath p

/-- A reference seen from a directory. A target that exists is named by its canonical
path, any other by its components alone. -/
def resolveReference (probe : Probe) (directory reference : String) : Except DiskError String :=
  let target := resolveLexically directory reference
  (probe target).map fun found => (if found then target.canonical else target).render

/-- A source file of a plugin. -/
structure SourceFile where
  path : String
  source : String
  /-- The root of the plugin, if it is known. -/
  root : Option String := none
  /-- The bytes of the text, kept beside it. -/
  bytes : Array UInt8 := (Text.encode source).toArray
  bytes_eq : bytes = (Text.encode source).toArray := by rfl
  /-- What is known of the paths of the disk that the file lies on. -/
  probe : Probe := .unknown

namespace SourceFile

/-- The path below the plugin's root. -/
def relativePath (f : SourceFile) : String := relativeTo f.path f.root

/-- The identifier of the file. -/
def id (f : SourceFile) : Ident := Ident.ofFile f.path f.root

/-- The directory that holds the file. -/
def directory (f : SourceFile) : String := (Path.parse f.path).parent.render

/-- The name of the file in its directory. -/
def baseName (f : SourceFile) : String := (Path.parse f.path).name

/-- The lines of the source, divided at line feeds. -/
def lines (f : SourceFile) : List String := Text.split '\n' f.source

/-- The place before which a list is cut; a negative place counts from the end. -/
def cutPlace (length : Nat) (stop : Int) : Nat :=
  if stop < 0 then (length + stop).toNat else stop.toNat

/-- The lines from one number to another, counted from one, and at most `limit` of
them; `none` when there are none. -/
def previewUpTo (f : SourceFile) (limit first last : Int) : Option String :=
  if first < 1 || last < first then none
  else
    let stop := min last (first + limit - 1)
    let lines := f.lines
    let chunk := (lines.take (cutPlace lines.length stop)).drop (first - 1).toNat
    if chunk.isEmpty then none else some (Text.join "\n" chunk)

/-- The most lines of a preview. -/
def previewLimit : Int := 30

/-- The lines from one number to another, but no more than a preview shows. -/
def preview (f : SourceFile) (first last : Int) : Option String :=
  f.previewUpTo previewLimit first last

/-- The text of a node. -/
def textOf (f : SourceFile) (t : Tree) : String :=
  Text.decodeLenient (f.bytes.extract t.start t.stop).toList

/-- The text of a node that may be missing; a missing node has none. -/
def textOf? (f : SourceFile) (t : Option Tree) : String :=
  (t.map f.textOf).getD ""

/-- The line that a byte offset lies on, counted from one. -/
def lineAt (f : SourceFile) (offset : Nat) : Nat :=
  ((f.bytes.extract 0 offset).toList.count 10) + 1

/-- The line of the first byte of a node. -/
def lineOf (f : SourceFile) (t : Tree) : Nat := f.lineAt t.start

/-- The line on which a node ends. -/
def endLineOf (f : SourceFile) (t : Tree) : Nat := f.lineAt t.stop

/-- The first lines of a node. -/
def previewOf (f : SourceFile) (t : Tree) : Option String :=
  f.preview (f.lineOf t) (f.endLineOf t)

/-- A reference seen from the directory of the file. -/
def resolve (f : SourceFile) (reference : String) : Except DiskError String :=
  resolveReference f.probe f.directory reference

/-- The documentation comment directly in front of a node. -/
def docblock? (f : SourceFile) (v : Visit) : Option String :=
  match v.previous with
  | some p =>
    if p.isComment && Text.startsWith "/**" (f.textOf p) then some (f.textOf p) else none
  | none => none

end SourceFile

end PluginAtlas
