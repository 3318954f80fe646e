import PluginAtlas.Disk
import PluginAtlas.Plugin.FileKind
import PluginAtlas.Plugin.Header
import PluginAtlas.Plugin.Ignore
import PluginAtlas.Traced

/-!
# The files of a plugin

The scan of a plugin walks its folders in the order of names, leaves out what the
ignore patterns exclude and what is too large, and groups the other files by kind. An
excluded folder is not entered.

## Main definitions

* `Sighting`, `FileTree.crawl`: what the walk comes across.
* `Scan`: the files found.
* `ScanRules`, `ScanRules.of`: what a scan leaves out.
* `scan`: the scan of a folder.
* `findMain`: the file that carries the plugin's header.
-/

namespace PluginAtlas

/-- Something that a walk comes across, by its components below the root. -/
inductive Sighting where
  | found (parts : List String) (kind : FileKind)
  | tooLarge (parts : List String) (size : Nat)
deriving DecidableEq, Repr

/-- What a scan leaves out. -/
structure ScanRules where
  /-- Whether a path below the root is left out; folders have a slash at their end. -/
  excluded : String → Bool
  /-- The size of the largest files that are read. -/
  limit : Int

/-- A path below the root, with a slash at the end of a folder. -/
def relativeText (parts : List String) (isFolder : Bool) : String :=
  Text.join "/" parts ++ if isFolder then "/" else ""

namespace FileTree

/-- What a file is sighted as; files of no kind are passed over. -/
def sight (rules : ScanRules) (parts : List String) (content : List UInt8) : List Sighting :=
  match FileKind.ofPath? ⟨.here, parts⟩ with
  | none => []
  | some kind =>
    if rules.limit < content.length then [.tooLarge parts content.length]
    else [.found parts kind]

mutual

/-- Walks a node below the root, the folders in the order of their names. -/
def crawl (rules : ScanRules) (parts : List String) : FileTree → List Sighting
  | file content => sight rules parts content
  | folder entries =>
    ((crawlEntries rules parts entries).mergeSort fun a b => a.1 ≤ b.1).flatMap (·.2)

/-- Walks the entries of a folder that are not left out. -/
def crawlEntries (rules : ScanRules) (parts : List String) :
    List (String × FileTree) → List (String × List Sighting)
  | [] => []
  | (name, node) :: rest =>
    let inner := parts ++ [name]
    (name, if rules.excluded (relativeText inner node.isFolder) then []
      else node.crawl rules inner) :: crawlEntries rules parts rest

end

end FileTree

/-- The files of a plugin by kind, in the order of the walk. -/
structure Scan where
  manifests : List Path := []
  scripts : List Path := []
  php : List Path := []
deriving DecidableEq, Repr, Inhabited

namespace Scan

/-- The number of files. -/
def total (s : Scan) : Nat := s.manifests.length + s.scripts.length + s.php.length

/-- The path below a root. -/
def under (root : Path) (parts : List String) : Path := { root with parts := root.parts ++ parts }

/-- The files of a kind among sightings. -/
def filesOf (root : Path) (kind : FileKind) (sightings : List Sighting) : List Path :=
  sightings.filterMap fun
    | .found parts k => if k = kind then some (under root parts) else none
    | .tooLarge .. => none

/-- The notices about files that are too large. -/
def notices (root : Path) (rules : ScanRules) (sightings : List Sighting) : List Notice :=
  sightings.filterMap fun
    | .tooLarge parts size =>
      some (.fileTooLarge (under root parts).render size rules.limit)
    | .found .. => none

end Scan

/-- The patterns in the text of an ignore file. -/
def patternLines (text : String) : List String :=
  (Text.lines text).filter fun line =>
    Text.strip line != "" && !Text.startsWith "#" (Text.stripStart line)

/-- The patterns in the ignore files at the root of a plugin. -/
def ignoreFilePatterns (disk : FileTree) (root : Path) (names : List String) : List String :=
  names.flatMap fun name =>
    match disk.read (.parse (joinPaths root.render name)) with
    | .ok bytes => patternLines (Text.decodeLenient bytes)
    | .error _ => []

/-- A stated list, or the fallback if none or an empty one is stated. -/
def statedOr {α : Type} (stated : Option (List α)) (fallback : List α) : List α :=
  match stated with
  | none | some [] => fallback
  | some items => items

/-- The rules of a scan: the stated patterns or the default ones, followed by those of
the ignore files, and the stated limit or the default one. -/
def ScanRules.of (exclusion : Exclusion) (disk : FileTree) (settings : Settings) (root : Path)
    (blacklist : Option (List String)) (limit : Option Int) : Except PatternError ScanRules := do
  let excluded ← exclusion (statedOr blacklist settings.defaultBlacklist ++
    ignoreFilePatterns disk root settings.ignoreFiles)
  return {
    excluded
    limit := match limit with
      | none | some 0 => settings.maxFileSize
      | some limit => limit }

/-- Scans the folder at a path. -/
def scan (disk : FileTree) (root : Path) (rules : ScanRules) : Traced Scan :=
  let sightings := match disk.locate root with
    | .ok node => node.crawl rules []
    | .error _ => []
  { value := {
      manifests := Scan.filesOf root .manifest sightings
      scripts := Scan.filesOf root .script sightings
      php := Scan.filesOf root .php sightings }
    notices := Scan.notices root rules sightings }

/-- The first of some files whose header names the plugin. -/
def firstNamed (disk : FileTree) : List Path → Traced (Option Path)
  | [] => pure none
  | path :: rest =>
    match disk.read path with
    | .error _ => do
      Traced.notify (.headUnreadable path.render)
      firstNamed disk rest
    | .ok bytes => if (Header.ofBytes bytes).name.isSome then pure (some path) else firstNamed disk rest

/-- The file that carries the header of the plugin. Files directly below the root come
before the others. -/
def findMain (disk : FileTree) (root : Path) (php : List Path) : Traced (Option Path) :=
  let isTop (path : Path) : Bool := path.parent = root
  firstNamed disk (php.filter isTop ++ php.filter (!isTop ·))

end PluginAtlas
