import PluginAtlas.Graph.Assembly
import PluginAtlas.Manifest
import PluginAtlas.Php.Extract
import PluginAtlas.Php.Parse
import PluginAtlas.Plugin.Scan
import PluginAtlas.Script.Findings
import PluginAtlas.Script.Registry

/-!
# Analysis of a plugin

An analysis scans a plugin, lets the extractors work on all manifests, then all
scripts, then all PHP files, over one store, and assembles the graph. A file that
cannot be read or whose extractor fails is counted and noticed, and the analysis goes
on; what was found before the failure stays. The visitors of PHP files go on too, from
whatever scopes the failure has left them in.

The loops over files are open to how files are read and to what the extractors do. In an
analysis that is as the disk and the extractors have it.

## Main definitions

* `Fate`, `Encounter`, `Site.meet`, `Site.fate`: what becomes of a file.
* `Run`, `Run.absorb`: the state of an analysis, and its step.
* `Run.readFiles`, `Run.ofScan`: the files of one phase, and all phases.
* `pluginInfo`: the head of the graph.
* `AnalysisError`: why there is no analysis.
* `analyze`: the analysis of the folder at a path.
-/

namespace PluginAtlas

/-- The place of an analysis: the disk, the root of the plugin, the reader of its scripts,
and the parser of its PHP files. -/
structure Site where
  disk : FileTree
  root : Path
  reader : Script.ScriptReader
  php : String → Parsed

/-- What becomes of a file. -/
inductive Fate where
  /-- It cannot be read. -/
  | unreadable
  /-- Its extractor ended in an outcome. -/
  | ended (outcome : Outcome)

/-- How an extractor works on a file of a kind, with the visitors as earlier files have left
them: the outcome, and the visitors as this file leaves them. -/
abbrev Extractor := List Php.Visitor → FileKind → SourceFile → Traced (Outcome × List Php.Visitor)

/-- How files are met: what becomes of the file of a kind at a path, and of the visitors. -/
abbrev Encounter := List Php.Visitor → FileKind → Path → Traced (Fate × List Php.Visitor)

/-- What an analysis has done so far. -/
structure Run where
  store : Store := .empty
  visitors : List Php.Visitor := Php.Visitor.ofFamilies Php.Family.all
  parsed : Nat := 0
  failed : Nat := 0

namespace Site

/-- The source file at a path, with the given bytes. -/
def sourceFile (site : Site) (path : Path) (bytes : List UInt8) : SourceFile where
  path := path.normalize.render
  source := Content.source bytes
  root := some site.root.render
  probe := site.disk.probe

/-- What the extractor for a kind finds in a file, and the visitors afterwards. -/
def extract (site : Site) : Extractor := fun visitors kind f =>
  match kind with
  | .manifest =>
    let (notices, outcome) := Manifest.extract f
    { value := (outcome, visitors), notices }
  | .script => return (Outcome.attempt (← site.reader f) (Script.findings f), visitors)
  | .php => do
    let team ← Php.visitParsed f (site.php f.source) visitors
    return (team.outcome, team.visitors)

/-- Reads a file in some way and lets an extractor work on it. -/
def meet (site : Site) (read : Path → Except DiskError (List UInt8)) (extract : Extractor) :
    Encounter := fun visitors kind path =>
  match read path with
  | .error e => do
    Traced.notify (.fileUnreadable path.render e.message)
    return (.unreadable, visitors)
  | .ok bytes => do
    let f := site.sourceFile path bytes
    let (outcome, visitors) ← extract visitors kind f
    if outcome.failure.isSome then Traced.notify (.extractionFailed f.relativePath kind.word)
    return (.ended outcome, visitors)

/-- Files as the disk has them, with the extractors for their kinds. -/
def fate (site : Site) : Encounter := site.meet site.disk.read site.extract

end Site

namespace Run

/-- Records what was found in a file, and counts the file by how it ended. -/
def absorb (run : Run) : Fate → Run
  | .unreadable => { run with failed := run.failed + 1 }
  | .ended outcome =>
    let store := run.store.recordAll outcome.findings
    match outcome.failure with
    | none => { run with store, parsed := run.parsed + 1 }
    | some _ => { run with store, failed := run.failed + 1 }

/-- Meets one file. -/
def readFile (meet : Encounter) (kind : FileKind) (run : Run) (path : Path) : Traced Run := do
  let (fate, visitors) ← meet run.visitors kind path
  return { run.absorb fate with visitors }

/-- Meets files one after the other. -/
def readFiles (meet : Encounter) (kind : FileKind) (run : Run) : List Path → Traced Run
  | [] => pure run
  | path :: rest => do
    let next ← run.readFile meet kind path
    next.readFiles meet kind rest

/-- Runs the three phases over the files of a scan. -/
def ofScan (meet : Encounter) (files : Scan) : Traced Run := do
  let run ← readFiles meet .manifest {} files.manifests
  let run ← run.readFiles meet .script files.scripts
  run.readFiles meet .php files.php

end Run

/-- The version of the analyzer. -/
def analyzerVersion : String := "0.1.0"

/-- The header of the main file; without one, or if it cannot be read, an empty one. -/
def mainHeader (disk : FileTree) : Option Path → Traced Header
  | none => pure {}
  | some path =>
    match disk.read path with
    | .ok bytes => pure (.ofBytes bytes)
    | .error e => do
      Traced.notify (.headerUnreadable path.render e.message)
      return {}

/-- The head of the graph, from the header of the main file. A plugin without a name is
called by its folder. -/
def pluginInfo (site : Site) (run : Run) (now : String) (main : Option Path) (totalFiles : Nat)
    (hostPath : String) : Traced PluginInfo := do
  let header ← mainHeader site.disk main
  return {
    name := header.name.getD site.root.name
    version := header.version.getD "0.0.0"
    description := header.description.getD ""
    mainFile := (main.map Path.name).getD ""
    totalFiles
    totalEntities := run.store.size
    analyzedAt := now
    analyzerVersion
    hostPath }

/-- Why a plugin is not analyzed. -/
inductive AnalysisError where
  | unreachable (error : DiskError)
  | noSuchPath (path : Path)
  | notFolder (path : Path)
  | pattern (error : PatternError)
  | unknownStrategy (name : String)
  | command (error : Script.CommandError)
deriving DecidableEq, Repr

/-- The wording of an error. -/
def AnalysisError.message : AnalysisError → String
  | unreachable error => error.message
  | noSuchPath path => "Plugin path does not exist: " ++ path.render
  | notFolder path => "Plugin path is not a directory: " ++ path.render
  | pattern error => error.message
  | unknownStrategy name => "Unknown script parser strategy: " ++ name
  | command error => error.message

/-- How the scripts of a plugin are read. -/
inductive ReaderChoice where
  /-- By the strategy of a name; the settings name it if it is empty. -/
  | named (name : String)
  | given (reader : Script.ScriptReader)

/-- What can be stated for an analysis. -/
structure AnalysisOptions where
  blacklist : Option (List String) := none
  reader : ReaderChoice := .named ""
  hostPath : Option String := none

/-- The surroundings of an analysis. -/
structure Surroundings where
  disk : FileTree
  settings : Settings
  /-- What becomes of programs that are started. -/
  launch : Script.Launch
  /-- The time of the analysis. -/
  now : String
  /-- The parser of PHP files. -/
  php : String → Parsed := Php.parsed
  /-- The parser of scripts. -/
  scripts : Script.Parser := Script.parsed
  /-- What ignore patterns keep out. -/
  exclusion : Exclusion := IgnorePattern.exclusion

/-- The script reader of a choice. -/
def ReaderChoice.resolve (s : Surroundings) :
    ReaderChoice → Traced (Except AnalysisError Script.ScriptReader)
  | given reader => pure (.ok reader)
  | named name => do
    let name := if name = "" then s.settings.scriptParser else name
    match ← Script.Registry.standard.get s.settings name with
    | .error e => return .error (.command e)
    | .ok (some i, _) => return .ok (i.reader s.scripts s.launch)
    | .ok (none, _) => return .error (.unknownStrategy name)

/-- The canonical form of a path: absolute, with every `..` resolved. -/
def canonicalPath (path : String) : Path := (Path.parse path).canonical

/-- Meets the files of a scan and assembles the graph. -/
def analyzeFiles (s : Surroundings) (site : Site) (meet : Encounter) (files : Scan)
    (hostPath : String) : Traced Graph := do
  let run ← Run.ofScan meet files
  let main ← findMain site.disk site.root files.php
  let plugin ← pluginInfo site run s.now main files.total hostPath
  return Graph.assemble run.store plugin

/-- Analyzes the plugin in the folder at a path. -/
def analyze (s : Surroundings) (path : String) (options : AnalysisOptions) :
    Traced (Except AnalysisError Graph) := do
  let root := canonicalPath path
  match s.disk.probe root with
  | .error e => return .error (.unreachable e)
  | .ok found =>
    if !found then return .error (.noSuchPath root)
    if !s.disk.hasFolder root then return .error (.notFolder root)
    match ScanRules.of s.exclusion s.disk s.settings root options.blacklist none with
    | .error e => return .error (.pattern e)
    | .ok rules =>
      let files ← scan s.disk root rules
      match ← options.reader.resolve s with
      | .error e => return .error e
      | .ok reader =>
        let site : Site := ⟨s.disk, root, reader, s.php⟩
        let hostPath := options.hostPath.getD s.settings.hostPath
        return .ok (← analyzeFiles s site site.fate files hostPath)

end PluginAtlas
