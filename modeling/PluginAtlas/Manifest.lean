import PluginAtlas.Failure
import PluginAtlas.Notice
import PluginAtlas.SourceFile

/-!
# Block manifests

A manifest declares a block of the editor: its name, its title and the files that it
loads. The block is an entity, and its template and its scripts hang below it, up to the
first whose path the disk cannot be asked for.

## Main definitions

* `resolveAsset`: the path that a reference in a manifest means.
* `Load`, `loads`: the references of a manifest.
* `findings`, `extract`: what a manifest adds.
-/

namespace PluginAtlas.Manifest

/-- The fields that name scripts. -/
def scriptKeys : List String := ["editorScript", "script", "viewScript"]

/-- The fields that name files to be loaded. -/
def assetKeys : List String := ["editorScript", "script", "viewScript", "editorStyle", "style"]

/-- The path that a reference means: one to a file is seen from the directory of the
manifest, any other stands for itself. -/
def resolveAsset (probe : Probe) (reference directory : String) : Except DiskError String :=
  match Text.dropStart? "file:" reference with
  | some rest => resolveReference probe directory rest
  | none => .ok reference

/-- The texts in a list that are not empty. -/
def texts (items : List Json) : List String :=
  items.filterMap fun item => item.text?.filter (· != "")

/-- The references in a field: one text or a list of texts. -/
def references : Option Json → List String
  | some (.arr items) => texts items
  | some value => texts [value]
  | none => []

/-- The references to the template of a block. -/
def templates (fields : List (String × Json)) : List String :=
  match fields.lookup "render" with
  | some (.str s) => texts [.str s]
  | _ => []

/-- The references to the scripts of a block. -/
def scripts (fields : List (String × Json)) : List String :=
  scriptKeys.flatMap fun key => references (fields.lookup key)

/-- The entity of a file that a block loads. -/
def fileEntity (f : SourceFile) (target : String) : Entity :=
  let name := (Path.parse target).name
  { id := Ident.ofFile target f.root, label := if name = "" then target else name, kind := .file
    file := target }

/-- A reference to a file that a block loads, with the kind and the label of the relation
to it. -/
structure Load where
  kind : RelationKind
  label : String
  reference : String
deriving DecidableEq, Repr

/-- The files that a block loads, in order. -/
def loads (fields : List (String × Json)) : List Load :=
  (templates fields).map (⟨.rendersBlock, "renders", ·⟩) ++
    (scripts fields).map (⟨.enqueuesScript, "enqueues", ·⟩)

/-- The path that a reference leads to, as far as that can be told. -/
def Load.target (load : Load) (f : SourceFile) : Except DiskError String :=
  resolveAsset f.probe load.reference f.directory

/-- What a file that a block loads adds. -/
def Load.findings (load : Load) (f : SourceFile) (block : Ident) : Outcome :=
  .reaching (load.target f) fun target =>
    let file := fileEntity f target
    .found [.entity file, .relation (.between block load.kind file.id load.label)]

/-- The entity of a block with a name. -/
def blockEntity (f : SourceFile) (name : String) (fields : List (String × Json)) : Entity where
  id := Ident.ofBlock name
  label :=
    let title := (fields.lookup "title").getD .null
    if title.isTruthy then title.display else name
  kind := .block
  file := f.path
  metadata := [
    ("block_name", .str name),
    ("block_category", (fields.lookup "category").getD .null),
    ("block_attributes", (fields.lookup "attributes").getD .null),
    ("render_template", (fields.lookup "render").getD .null),
    ("js_assets", .obj (assetKeys.filterMap fun key =>
      (fields.lookup key).map fun value => (key, value))),
    ("namespace", .str (Text.cut "/" name).1)]
  docblock := (fields.lookup "description").bind Json.text?

/-- What the manifest of a block with a name adds. -/
def findings (f : SourceFile) (name : String) (fields : List (String × Json)) : Outcome :=
  let block := blockEntity f name fields
  .after [.entity block] (.sequence ((loads fields).map fun load => load.findings f block.id))

/-- What a manifest adds, and what it warns of. -/
def extract (f : SourceFile) : List Notice × Outcome :=
  match Json.parse f.source with
  | .error error =>
    match error.fault with
    | .digits count => ([], .failed (.tooManyDigits count))
    | _ => ([.manifestInvalid f.relativePath error.message], .nothing)
  | .ok (.obj fields) =>
    match fields.lookup "name" with
    | some (.str name) =>
      if name = "" then ([.manifestWithoutName f.relativePath], .nothing)
      else ([], findings f name fields)
    | _ => ([.manifestWithoutName f.relativePath], .nothing)
  | .ok _ => ([.manifestWithoutName f.relativePath], .nothing)

end PluginAtlas.Manifest
