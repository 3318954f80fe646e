import PluginAtlas.Path
import PluginAtlas.Text.Quoted
import PluginAtlas.Text.Utf8

/-!
# Files and folders

A disk is a tree of folders and files. Paths are followed component by component, `..`
leads back to the folder before, and a path that cannot be followed fails as POSIX has
it. Names and whole paths have a greatest length in bytes. A longer one cannot even be
asked for: where a missing file is no error, such a path still is one.

## Main definitions

* `FileTree`: files and folders.
* `FileTree.locate`, `FileTree.read`: what lies at a path.
* `FileTree.probe`: whether anything lies at a path.
* `FileTree.write`: writes a file, with the folders on the way to it.
* `DiskError`, `DiskError.message`: why a path cannot be read or written.
-/

namespace PluginAtlas

/-- A file or a folder. -/
inductive FileTree where
  | file (content : List UInt8)
  | folder (entries : List (String × FileTree))
deriving Inhabited

/-- What is wrong with a path. -/
inductive DiskFault where
  | missing
  | notFolder
  | isFolder
  | taken
  /-- The path or a name in it has more bytes than a disk can hold. -/
  | tooLong
deriving DecidableEq, Repr

/-- A path that cannot be read or written. -/
structure DiskError where
  fault : DiskFault
  path : Path
deriving DecidableEq, Repr

/-- The wording of an error. -/
def DiskError.message (e : DiskError) : String :=
  (match e.fault with
    | .missing => "[Errno 2] No such file or directory: "
    | .notFolder => "[Errno 20] Not a directory: "
    | .isFolder => "[Errno 21] Is a directory: "
    | .taken => "[Errno 17] File exists: "
    | .tooLong => "[Errno 36] File name too long: ") ++ Text.quoted e.path.render

/-- The most bytes of a name. -/
def nameLimit : Nat := 255

/-- The most bytes of a path. -/
def pathLimit : Nat := 4095

/-- Whether a name can be that of a file or folder. -/
def isShortName (name : String) : Bool := (Text.encode name).length ≤ nameLimit

/-- Whether a path can be asked for. -/
def Path.isShort (path : Path) : Bool := (Text.encode path.render).length ≤ pathLimit

/-- Whether a null character stands in a path. -/
def Path.hasNull (path : Path) : Bool := path.render.toList.contains '\x00'

namespace FileTree

/-- Whether a node is a folder. -/
def isFolder : FileTree → Bool
  | file _ => false
  | folder _ => true

/-- The node at the end of some components, from a node whose folders above are given,
the nearest first. -/
def follow : List FileTree → FileTree → List String → Except DiskFault FileTree
  | _, here, [] => .ok here
  | _, file _, _ :: _ => .error .notFolder
  | above, folder entries, part :: rest =>
    if part = ".." then
      match above with
      | [] => follow [] (folder entries) rest
      | up :: older => follow older up rest
    else
      match entries.lookup part with
      | none => .error (if isShortName part then .missing else .tooLong)
      | some next => follow (folder entries :: above) next rest

/-- The node at a path. -/
def locate (disk : FileTree) (path : Path) : Except DiskFault FileTree :=
  if path.isShort then follow [] disk path.parts else .error .tooLong

/-- Whether there is anything at a path. -/
def has (disk : FileTree) (path : Path) : Bool := (disk.locate path).isOk

/-- Whether there is a folder at a path. -/
def hasFolder (disk : FileTree) (path : Path) : Bool :=
  match disk.locate path with
  | .ok (folder _) => true
  | _ => false

/-- Whether there is anything at a path. A path with a null character names nothing, and
for one that is too long there is no answer. -/
def probe (disk : FileTree) (path : Path) : Except DiskError Bool :=
  if path.hasNull then .ok false
  else
    match disk.locate path with
    | .ok _ => .ok true
    | .error .tooLong => .error ⟨.tooLong, path⟩
    | .error _ => .ok false

/-- The content of the file at a path. -/
def read (disk : FileTree) (path : Path) : Except DiskError (List UInt8) :=
  match disk.locate path with
  | .ok (file content) => .ok content
  | .ok (folder _) => .error ⟨.isFolder, path⟩
  | .error fault => .error ⟨fault, path⟩

/-- The entries with the one of a name changed, or made from nothing. -/
def alterEntry (name : String) (change : Option FileTree → FileTree) :
    List (String × FileTree) → List (String × FileTree)
  | [] => [(name, change none)]
  | (n, node) :: rest =>
    if n = name then (n, change (some node)) :: rest else (n, node) :: alterEntry name change rest

/-- The tree with a node at the end of some components; folders on the way are made,
files on the way stay. -/
def put (node : FileTree) : List String → FileTree → FileTree
  | [], _ => node
  | _ :: _, file content => file content
  | part :: rest, folder entries =>
    folder (alterEntry part (fun old => put node rest (old.getD (folder []))) entries)

/-- The tree with a folder at a path. A folder that is there stays. -/
def createFolder (disk : FileTree) (path : Path) : Except DiskError FileTree :=
  match disk.locate path with
  | .ok (folder _) => .ok disk
  | .ok (file _) => .error ⟨.taken, path⟩
  | .error .missing => .ok (put (folder []) path.canonical.parts disk)
  | .error fault => .error ⟨fault, path⟩

/-- The tree with a folder at the end of a path, whose components come last first. Folders
on the way are made. -/
def createFolders (anchor : Anchor) : List String → FileTree → Except DiskError FileTree
  | [], disk => .ok disk
  | name :: up, disk =>
    let path : Path := ⟨anchor, (name :: up).reverse⟩
    match disk.locate path.parent with
    | .error .missing => do (← createFolders anchor up disk).createFolder path
    | .error fault => .error ⟨fault, path⟩
    | .ok (file _) => .error ⟨.notFolder, path⟩
    | .ok (folder _) => disk.createFolder path

/-- Writes a file, making the folders on the way to it. -/
def write (disk : FileTree) (path : Path) (content : List UInt8) : Except DiskError FileTree := do
  let disk ← createFolders path.anchor path.parent.parts.reverse disk
  match disk.locate path with
  | .ok (folder _) => .error ⟨.isFolder, path⟩
  | .ok (file _) | .error .missing => .ok (put (file content) path.canonical.parts disk)
  | .error fault => .error ⟨fault, path⟩

end FileTree

end PluginAtlas
