import PluginAtlas.Proofs.FailureIsolation
import PluginAtlas.Proofs.FamilyUnion
import PluginAtlas.Proofs.FileReferences
import PluginAtlas.Proofs.ScannedFiles

/-!
# Files that are not scanned

An analysis asks the disk for more than the files of its scan: a reference is resolved
differently where its target exists, whether or not a scan would come to the target. Still,
what a scan leaves out has no influence. The paths that come out are the same either way,
and everything else that an extractor sees of a file is its text and its path.

So two disks on which the scans of a plugin come to the same files with the same contents
have the same graph, whatever else lies on them. A name that is too long for a disk is set
apart: a folder that a scan leaves out can make the difference between a missing file and
one that cannot be asked for.

## Main definitions

* `SourceFile.among`: a file on a disk on which other paths exist.
* `Probe.Agrees`: two disks that have answers about the same paths.
* `Php.includeReferences`, `Manifest.fileReferences`: the references of a file.
* `SourceFile.IsSettled`: a reference that means the same on every disk.
* `FileTree.HasFileNames`: the trees whose entries can be named by paths.
* `Surroundings.ScanAlike`: scans of a folder that come to the same.

## Main results

* `FileTree.probe_agrees`: all disks have answers about the same paths of short names.
* `Php.extract_among`, `Manifest.extract_among`, `Script.nativeReader_among`: extractors do
  not see which paths exist.
* `Site.ownFate_congr`: what becomes of a file depends on its content.
* `analyzeFiles_congr`: what an analysis finds depends on the contents of its files.
* `analyze_ignores_unscanned`: what a scan leaves out has no influence on the graph.
-/

namespace PluginAtlas

/-! ### What extractors see of the disk -/

/-- The file as it would lie on a disk on which other paths exist. -/
def SourceFile.among (f : SourceFile) (probe : Probe) : SourceFile := { f with probe }

section Extractors

variable (f : SourceFile) (probe : Probe)

namespace Script

mutual

theorem dottedName?_among : ∀ t : Tree, dottedName? (f.among probe) t = dottedName? f t
  | .node kind named start stop field children => by
    rw [dottedName?, dottedName?, dottedNameOfObject?_among children]
    rfl

theorem dottedNameOfObject?_among :
    ∀ ts : List Tree, dottedNameOfObject? (f.among probe) ts = dottedNameOfObject? f ts
  | [] => rfl
  | t :: ts => by
    rw [dottedNameOfObject?, dottedNameOfObject?, dottedName?_among t,
      dottedNameOfObject?_among ts]

end

theorem heritageClass?_among (clauses : List Tree) :
    heritageClass? (f.among probe) clauses = heritageClass? f clauses := by
  induction clauses with
  | nil => rfl
  | cons clause rest ih => simp only [heritageClass?, ih, funext (dottedName?_among f probe)]

theorem itemsAt_among (t : Tree) : itemsAt (f.among probe) t = itemsAt f t := by
  have hname : dottedName? (f.among probe) = dottedName? f := funext (dottedName?_among f probe)
  have hclass : heritageClass? (f.among probe) = heritageClass? f :=
    funext (heritageClass?_among f probe)
  simp only [itemsAt, classItems, superclass?, callItem?, namedCallItem?, reactHookItem?, hname,
    hclass]
  rfl

theorem nativeReader_among (parser : Parser) :
    nativeReader parser (f.among probe) = nativeReader parser f := by
  have hitems : itemsAt (f.among probe) = itemsAt f := funext (itemsAt_among f probe)
  simp only [nativeReader, itemsIn, detect, hitems]
  rfl

end Script

namespace Php

mutual

theorem renderType_among : ∀ t : Tree, renderType (f.among probe) t = renderType f t
  | .node kind named start stop field children => by
    rw [renderType, renderType, renderFirstType?_among children, renderTypes_among children]
    rfl

theorem renderFirstType?_among :
    ∀ ts : List Tree, renderFirstType? (f.among probe) ts = renderFirstType? f ts
  | [] => rfl
  | t :: ts => by
    rw [renderFirstType?, renderFirstType?, renderType_among t, renderFirstType?_among ts]

theorem renderTypes_among :
    ∀ ts : List Tree, renderTypes (f.among probe) ts = renderTypes f ts
  | [] => rfl
  | t :: ts => by rw [renderTypes, renderTypes, renderType_among t, renderTypes_among ts]

end

theorem callables_among (s : Scope) (v : Visit) :
    callables (f.among probe) s v = callables f s v := by
  have htype : renderType (f.among probe) = renderType f := funext (renderType_among f probe)
  have hinfo : parameterInfo (f.among probe) = parameterInfo f := by
    funext t
    simp only [parameterInfo, htype]
    rfl
  simp only [callables, methodDeclaration, functionDeclaration, parameters, returnType?, htype,
    hinfo]
  rfl

theorem stringValue?_among : stringValue? (f.among probe) = stringValue? f := by
  have htext : (f.among probe).textOf = f.textOf := rfl
  funext t
  simp only [stringValue?, htext]

theorem functionName?_among : functionName? (f.among probe) = functionName? f := rfl

theorem databaseKeyWithin_among (depth : Nat) (argument : Option Tree) :
    databaseKeyWithin (f.among probe) depth argument = databaseKeyWithin f depth argument := by
  induction depth generalizing argument with
  | zero => rfl
  | succ depth ih =>
    simp only [databaseKeyWithin, ih, stringValue?_among]
    rfl

theorem storage_among (s : Scope) (v : Visit) : storage (f.among probe) s v = storage f s v := by
  have hkey : databaseKey? (f.among probe) = databaseKey? f :=
    funext fun argument => databaseKeyWithin_among f probe _ argument
  simp only [storage, storageAccess?, hkey, stringValue?_among, functionName?_among]
  rfl

theorem endpointMethods_among :
    endpointMethods (f.among probe) = endpointMethods f := by
  funext value
  simp only [endpointMethods, stringValue?_among]
  rfl

theorem methodsOf_among (endpoints : List Tree) :
    methodsOf (f.among probe) endpoints = methodsOf f endpoints := by
  induction endpoints with
  | nil => rfl
  | cons endpoint rest ih =>
    simp only [methodsOf, ih, endpointMethods_among, arrayLookup?, stringValue?_among]

theorem literalAt?_among : literalAt? (f.among probe) = literalAt? f := by
  funext arguments index
  rw [literalAt?, literalAt?, stringValue?_among]

theorem entryPointEntity?_among :
    entryPointEntity? (f.among probe) = entryPointEntity? f := by
  funext call arguments point
  cases point <;> simp only [entryPointEntity?, literalAt?_among, stringValue?_among] <;> rfl

theorem entryPoints_among (s : Scope) (v : Visit) :
    entryPoints (f.among probe) s v = entryPoints f s v := by
  have hmethods : methodsOf (f.among probe) = methodsOf f := funext (methodsOf_among f probe)
  simp only [entryPoints, restRoute, restMethods, hmethods, functionName?_among,
    entryPointEntity?_among, stringValue?_among]
  rfl

theorem hooks_among (s : Scope) (v : Visit) : hooks (f.among probe) s v = hooks f s v := by
  simp only [hooks, hookRegistration, hookTrigger, hookName, callbackFindings, callback?,
    pairCallback?, callbackOwner?, stringValue?_among, functionName?_among]
  rfl

theorem visitsOf_among (root : Tree) : visitsOf (f.among probe) root = visitsOf f root := by
  have hvisits : ∀ (steps : List Step) (s : Scope),
      s.visits (f.among probe) steps = s.visits f steps := by
    intro steps
    induction steps with
    | nil => exact fun _ => rfl
    | cons step rest ih =>
      intro s
      cases step with
      | enter v => exact congrArg (_ :: ·) (ih _)
      | leave v => exact ih _
  exact hvisits _ _

end Php

end Extractors

/-! ### References -/

/-- Two disks have answers about the same paths, as long as no name is too long for a disk. -/
def Probe.Agrees (probe probe' : Probe) : Prop :=
  ∀ path : Path, (∀ part ∈ path.parts, isShortName part = true) →
    ∀ text : String, (probe path).map (fun _ => text) = (probe' path).map fun _ => text

namespace FileTree

/-- A name that a disk could hold may be missing, but is not too long. -/
theorem follow_ne_tooLong {above : List FileTree} {here : FileTree} {parts : List String}
    (h : ∀ part ∈ parts, isShortName part = true) : follow above here parts ≠ .error .tooLong := by
  fun_induction follow above here parts with
  | case1 => simp
  | case2 => simp
  | case3 entries rest ih => exact ih (List.forall_mem_cons.mp h).2
  | case4 entries rest up older ih => exact ih (List.forall_mem_cons.mp h).2
  | case5 above entries part rest hpart hlookup => simp [(List.forall_mem_cons.mp h).1]
  | case6 above entries part rest hpart next hlookup ih => exact ih (List.forall_mem_cons.mp h).2

/-- Whether there is an answer about a path with short names depends on its whole length. -/
theorem probe_map_const (disk : FileTree) {path : Path}
    (h : ∀ part ∈ path.parts, isShortName part = true) (text : String) :
    (disk.probe path).map (fun _ => text) =
      if path.hasNull || path.isShort then .ok text else .error ⟨.tooLong, path⟩ := by
  rw [probe, locate]
  cases path.hasNull with
  | true => rfl
  | false =>
    cases path.isShort with
    | false => rfl
    | true =>
      simp only [Bool.false_eq_true, if_false, if_true, Bool.or_true]
      cases hfollow : follow [] disk path.parts with
      | ok node => rfl
      | error fault =>
        cases fault with
        | tooLong => exact absurd hfollow (follow_ne_tooLong h)
        | _ => rfl

theorem probe_agrees (disk disk' : FileTree) : Probe.Agrees disk.probe disk'.probe := by
  intro path h text
  rw [probe_map_const disk h, probe_map_const disk' h]

end FileTree

/-- A reference that means the same on every disk: it does not start with exactly two slashes,
and no name on the way to its target is too long for a disk. -/
structure SourceFile.IsSettled (f : SourceFile) (reference : String) : Prop where
  anchor : Anchor.of reference ≠ .doubled
  names : ∀ part ∈ (resolveLexically f.directory reference).parts, isShortName part = true

theorem resolveReference_agrees {probe probe' : Probe} (hprobe : probe.Agrees probe')
    {directory reference : String} (hdirectory : Anchor.of directory ≠ .here)
    (hreference : Anchor.of reference ≠ .doubled)
    (hdoubled : Anchor.of directory = .doubled → Text.startsWith "/" reference = true)
    (hnames : ∀ part ∈ (resolveLexically directory reference).parts, isShortName part = true) :
    resolveReference probe directory reference = resolveReference probe' directory reference := by
  have hroot := anchor_joinPaths_eq_root hdirectory hreference hdoubled
  rw [resolveReference_of_root hroot, resolveReference_of_root hroot]
  exact hprobe _ hnames _

theorem SourceFile.resolve_among {f : SourceFile} {probe : Probe} (hprobe : probe.Agrees f.probe)
    (hdirectory : Anchor.of f.directory = .root) {reference : String}
    (h : f.IsSettled reference) : (f.among probe).resolve reference = f.resolve reference := by
  have habsolute : Anchor.of f.directory ≠ .here := by simp [hdirectory]
  have hdoubled : Anchor.of f.directory = .doubled → Text.startsWith "/" reference = true := by
    simp [hdirectory]
  exact resolveReference_agrees hprobe habsolute h.anchor hdoubled h.names

mutual

/-- The nodes that a walk enters are those that its tree reaches. -/
theorem Tree.mem_preorder_of_enter {v : Visit} (previous : Option Tree) :
    ∀ t : Tree, .enter v ∈ t.schedule previous → v.tree ∈ t.preorder
  | .node kind named start stop field children, h => by
    simp only [schedule, List.mem_cons, List.mem_append, List.not_mem_nil, or_false] at h
    rw [preorder, List.mem_cons]
    rcases h with h | h | h
    · cases h
      exact .inl rfl
    · exact .inr (mem_preorderAll_of_enter none children h)
    · cases h

theorem Tree.mem_preorderAll_of_enter {v : Visit} (previous : Option Tree) :
    ∀ ts : List Tree, .enter v ∈ scheduleAll previous ts → v.tree ∈ preorderAll ts
  | [], h => by cases h
  | t :: ts, h => by
    rw [scheduleAll] at h
    rw [preorderAll]
    split at h
    · rw [if_pos ‹_›, List.mem_append]
      exact (List.mem_append.mp h).imp (mem_preorder_of_enter previous t)
        (mem_preorderAll_of_enter (some t) ts)
    · rw [if_neg ‹_›]
      exact mem_preorderAll_of_enter previous ts h

end

namespace Php

theorem tree_mem_preorder {f : SourceFile} {root : Tree} {visit : Scope × Visit}
    (h : visit ∈ visitsOf f root) : visit.2.tree ∈ root.preorder := by
  have hentered : ∀ (steps : List Step) (s : Scope), visit ∈ s.visits f steps →
      .enter visit.2 ∈ steps := by
    intro steps
    induction steps with
    | nil => exact fun _ h => by cases h
    | cons step rest ih =>
      intro s h
      cases step with
      | enter v =>
        rcases List.mem_cons.mp h with rfl | h
        · exact List.mem_cons_self
        · exact List.mem_cons_of_mem _ (ih _ h)
      | leave v => exact List.mem_cons_of_mem _ (ih _ h)
  exact Tree.mem_preorder_of_enter none root (hentered _ _ h)

/-- The reference of an include expression. -/
def referenceAt? (f : SourceFile) (t : Tree) : Option String :=
  if isIncludeKind t.kind then t.parts.head?.bind (includeReference? f) else none

/-- The references of the include expressions in a tree. -/
def includeReferences (f : SourceFile) (root : Tree) : List String :=
  root.preorder.filterMap (referenceAt? f)

variable {f : SourceFile} {probe : Probe} (hprobe : probe.Agrees f.probe)
  (hdirectory : Anchor.of f.directory = .root)

include hprobe hdirectory

theorem includeTarget_among {expression : Tree}
    (h : ∀ reference ∈ includeReference? f expression, f.IsSettled reference) :
    includeTarget (f.among probe) expression = includeTarget f expression := by
  have hsame : includeReference? (f.among probe) expression =
      includeReference? f expression := by
    simp only [includeReference?, stringValue?_among]
    rfl
  rw [includeTarget, includeTarget, hsame]
  cases hreference : includeReference? f expression with
  | none => rfl
  | some reference =>
    exact congrArg (Except.map some)
      (SourceFile.resolve_among hprobe hdirectory (h reference hreference))

theorem includes_among (s : Scope) {v : Visit}
    (h : ∀ reference ∈ referenceAt? f v.tree, f.IsSettled reference) :
    includes (f.among probe) s v = includes f s v := by
  by_cases hkind : isIncludeKind v.tree.kind = true
  · cases hparts : v.tree.parts with
    | nil => simp [includes, hparts]
    | cons operand rest =>
      simp only [referenceAt?, hkind, hparts, if_true, List.head?_cons, Option.bind_some] at h
      simp only [includes, hkind, hparts, includeTarget_among hprobe hdirectory h]
      rfl
  · simp [includes, hkind]

theorem findAt_among (families : List Family) (s : Scope) {v : Visit}
    (h : ∀ reference ∈ referenceAt? f v.tree, f.IsSettled reference) :
    findAt families (f.among probe) s v = findAt families f s v := by
  refine congrArg Outcome.sequence (List.map_congr_left fun family _ => ?_)
  -- includes alone resolve references
  cases family with
  | declarations => rfl
  | callables => exact callables_among f probe s v
  | hooks => exact hooks_among f probe s v
  | storage => exact storage_among f probe s v
  | entryPoints => exact entryPoints_among f probe s v
  | includes => exact includes_among hprobe hdirectory s h

theorem extract_among (families : List Family) {root : Tree}
    (h : ∀ reference ∈ includeReferences f root, f.IsSettled reference) :
    extract families (f.among probe) root = extract families f root := by
  rw [extract_eq_sequence, extract_eq_sequence, visitsOf_among]
  refine congrArg Outcome.sequence (List.map_congr_left fun visit hvisit => ?_)
  refine findAt_among hprobe hdirectory families visit.1 fun reference hreference => h reference ?_
  exact List.mem_filterMap.mpr ⟨_, tree_mem_preorder hvisit, hreference⟩

end Php

namespace Manifest

/-- The references to files in the text of a manifest, as they are resolved. -/
def fileReferences (source : String) : List String :=
  match Json.parse source with
  | .ok (.obj fields) =>
    (loads fields).filterMap fun load => Text.dropStart? "file:" load.reference
  | _ => []

variable {f : SourceFile} {probe : Probe} (hprobe : probe.Agrees f.probe)
  (hdirectory : Anchor.of f.directory = .root)

include hprobe hdirectory

theorem Load.findings_among {load : Load} (block : Ident)
    (h : ∀ rest ∈ Text.dropStart? "file:" load.reference, f.IsSettled rest) :
    load.findings (f.among probe) block = load.findings f block := by
  have htarget : load.target (f.among probe) = load.target f := by
    simp only [Load.target, resolveAsset]
    cases hrest : Text.dropStart? "file:" load.reference with
    | none => rfl
    | some rest => exact SourceFile.resolve_among hprobe hdirectory (h rest hrest)
  rw [Load.findings, htarget]
  rfl

theorem findings_among (name : String) {fields : List (String × Json)}
    (h : ∀ reference ∈ (loads fields).filterMap fun load => Text.dropStart? "file:" load.reference,
      f.IsSettled reference) :
    findings (f.among probe) name fields = findings f name fields := by
  have hload : ∀ load ∈ loads fields,
      load.findings (f.among probe) (blockEntity f name fields).id =
        load.findings f (blockEntity f name fields).id := fun load hload =>
    Load.findings_among hprobe hdirectory (blockEntity f name fields).id
      fun rest hrest => h rest (List.mem_filterMap.mpr ⟨load, hload, hrest⟩)
  rw [findings, findings, ← List.map_congr_left hload]
  rfl

theorem extract_among (h : ∀ reference ∈ fileReferences f.source, f.IsSettled reference) :
    Manifest.extract (f.among probe) = Manifest.extract f := by
  have hsource : (f.among probe).source = f.source := rfl
  have hpath : (f.among probe).relativePath = f.relativePath := rfl
  rw [fileReferences] at h
  simp only [Manifest.extract, hsource, hpath]
  cases hparse : Json.parse f.source with
  | error error => rfl
  | ok value =>
    cases value with
    | obj fields =>
      simp only [hparse] at h
      simp only [findings_among hprobe hdirectory _ h]
    | _ => rfl

end Manifest

/-! ### The files of a scan -/

/-- Every entry of a tree is named by what can stand between two slashes. -/
def FileTree.HasFileNames (tree : FileTree) : Prop :=
  ∀ parts node, tree.Holds parts node → ∀ part ∈ parts, Path.IsComponent part

@[simp] theorem FileTree.hasFileNames_file (content : List UInt8) :
    (file content).HasFileNames := by
  intro parts node h
  cases h
  simp

@[simp] theorem FileTree.hasFileNames_folder_iff {entries : List (String × FileTree)} :
    (folder entries).HasFileNames ↔
      ∀ entry ∈ entries, Path.IsComponent entry.1 ∧ entry.2.HasFileNames := by
  constructor
  · intro h entry hentry
    refine ⟨h [entry.1] entry.2 (.inside hentry (.here _)) entry.1 List.mem_cons_self, ?_⟩
    intro parts node hnode part hpart
    exact h (entry.1 :: parts) node (.inside hentry hnode) part (List.mem_cons_of_mem _ hpart)
  · intro h parts node hnode part hpart
    cases hnode with
    | here => cases hpart
    | inside hentry hinner =>
      rcases List.mem_cons.mp hpart with rfl | hpart
      · exact (h _ hentry).1
      · exact (h _ hentry).2 _ _ hinner part hpart

/-- A walk of a folder comes across what its entries show, each in its place. -/
theorem FileTree.crawl_folder_perm (rules : ScanRules) (base : List String)
    (entries : List (String × FileTree)) :
    ((folder entries).crawl rules base).Perm (entries.flatMap (sightEntry rules base)) := by
  rw [crawl, crawlEntries_eq_map]
  refine ((List.mergeSort_perm _ _).flatMap_right _).trans ?_
  rw [List.flatMap_map]

theorem Scan.filesOf_append (root : Path) (kind : FileKind) (l l' : List Sighting) :
    Scan.filesOf root kind (l ++ l') = Scan.filesOf root kind l ++ Scan.filesOf root kind l' :=
  List.filterMap_append

theorem Scan.filesOf_perm (root : Path) (kind : FileKind) {l l' : List Sighting}
    (h : l.Perm l') : (Scan.filesOf root kind l).Perm (Scan.filesOf root kind l') :=
  h.filterMap _

theorem Scan.exists_of_mem_filesOf {root : Path} {kind : FileKind} {sightings : List Sighting}
    {path : Path} (h : path ∈ filesOf root kind sightings) :
    ∃ parts k, Sighting.found parts k ∈ sightings ∧ path = under root parts := by
  obtain ⟨sighting, hsighting, hpath⟩ := List.mem_filterMap.mp h
  cases sighting with
  | tooLarge parts size => cases hpath
  | found parts k =>
    simp only [Option.ite_none_right_eq_some, Option.some.injEq] at hpath
    exact ⟨parts, k, hsighting, hpath.2.symm⟩

/-- The files of a scan lie below its root. -/
theorem exists_parts_of_mem_scan {disk tree : FileTree} {root : Path} {rules : ScanRules}
    (hroot : disk.locate root = .ok tree) (hnames : tree.HasFileNames) {file : FileKind × Path}
    (h : file ∈ (scan disk root rules).value.queue) :
    ∃ parts, file.2 = Scan.under root parts ∧ ∀ part ∈ parts, Path.IsComponent part := by
  obtain ⟨parts, k, hfound, hpath⟩ : ∃ parts k,
      Sighting.found parts k ∈ tree.crawl rules [] ∧ file.2 = Scan.under root parts := by
    simp only [Scan.queue, scan, hroot, List.mem_append, List.mem_map] at h
    rcases h with (⟨path, hpath, rfl⟩ | ⟨path, hpath, rfl⟩) | ⟨path, hpath, rfl⟩ <;>
      exact Scan.exists_of_mem_filesOf hpath
  -- the tree holds a file at these parts, so that they are names of its entries
  obtain ⟨rest, content, hholds, -, hsight⟩ := (FileTree.mem_crawl_iff rules tree [] _).mp hfound
  have hparts : parts = rest := FileTree.parts_of_mem_sight hsight
  exact ⟨parts, hpath, hparts ▸ hnames rest _ hholds⟩

/-- The content of the file at a path, if it can be read. -/
def FileTree.content? (disk : FileTree) (path : Path) : Option (List UInt8) :=
  (disk.read path).toOption

/-- The references in a source file of a kind, with a parser of PHP files. -/
def FileKind.references (php : String → Parsed) (f : SourceFile) : FileKind → List String
  | .manifest => Manifest.fileReferences f.source
  | .script => []
  | .php => Php.includeReferences f (php f.source).root

/-- Every reference in the file at a path is settled. -/
def Site.IsSettled (site : Site) (file : FileKind × Path) : Prop :=
  ∀ bytes, site.disk.content? file.2 = some bytes →
    let f := site.sourceFile file.2 bytes
    ∀ reference ∈ file.1.references site.php f, f.IsSettled reference

/-- The place of an analysis that reads scripts itself. -/
def Surroundings.native (s : Surroundings) (root : Path) : Site :=
  ⟨s.disk, root, Script.nativeReader s.scripts, s.php⟩

/-! ### Single files -/

section Files

variable {disk disk' : FileTree} {root : Path}

theorem Site.ownFate_eq_content (site : Site) (kind : FileKind) (path : Path) :
    site.ownFate kind path = match site.disk.content? path with
      | none => .unreadable
      | some bytes => .ended (site.extract (Php.Visitor.ofFamilies Php.Family.all) kind
          (site.sourceFile path bytes)).value.1 := by
  rw [ownFate_eq, FileTree.content?]
  cases site.disk.read path <;> rfl

/-- A file below the root lies in a directory with one leading slash. -/
theorem Site.anchor_directory {site : Site} (hanchor : site.root.anchor = .root)
    (hroot : ∀ part ∈ site.root.parts, Path.IsComponent part) {parts : List String}
    (hparts : ∀ part ∈ parts, Path.IsComponent part) (bytes : List UInt8) :
    Anchor.of (site.sourceFile (Scan.under site.root parts) bytes).directory = .root := by
  apply SourceFile.anchor_directory
  have hunder : (Scan.under site.root parts).anchor ≠ .here := by
    rw [Scan.under, hanchor]
    decide
  refine Path.anchor_render hanchor (Path.isComponent_of_mem_normalize hunder fun part hpart => ?_)
  exact (List.mem_append.mp hpart).elim (hroot part) (hparts part)

section Alike

variable {s t : Surroundings} (hphp : t.php = s.php) (hscripts : t.scripts = s.scripts)

include hphp hscripts

theorem Site.extract_among {f : SourceFile} {probe : Probe} (hprobe : probe.Agrees f.probe)
    (hdirectory : Anchor.of f.directory = .root) {kind : FileKind}
    (h : ∀ reference ∈ kind.references s.php f, f.IsSettled reference)
    (visitors : List Php.Visitor) :
    ((t.native root).extract visitors kind (f.among probe)).value.1 =
      ((s.native root).extract visitors kind f).value.1 := by
  -- the site itself matters through its reader of scripts and its parser alone
  cases kind with
  | manifest => exact congrArg Prod.snd (Manifest.extract_among hprobe hdirectory h)
  | script =>
    simp only [extract, Surroundings.native, Script.nativeReader_among, hscripts]
    rfl
  | php =>
    simp only [extract, Surroundings.native, Traced.value_bind, Traced.value_pure,
      visitParsed_value, Php.visit_outcome, hphp]
    exact Php.extract_among hprobe hdirectory _ h

/-- The fate of a file depends on nothing but its content. -/
theorem Site.ownFate_congr (hanchor : root.anchor = .root)
    (hroot : ∀ part ∈ root.parts, Path.IsComponent part) {file : FileKind × Path}
    (hpath : ∃ parts, file.2 = Scan.under root parts ∧ ∀ part ∈ parts, Path.IsComponent part)
    (hcontent : t.disk.content? file.2 = s.disk.content? file.2)
    (h : (s.native root).IsSettled file) :
    (t.native root).ownFate file.1 file.2 = (s.native root).ownFate file.1 file.2 := by
  obtain ⟨kind, path⟩ := file
  obtain ⟨parts, rfl, hparts⟩ := hpath
  rw [Site.ownFate_eq_content, Site.ownFate_eq_content]
  simp only [Surroundings.native] at hcontent ⊢
  rw [hcontent]
  cases hbytes : s.disk.content? (Scan.under root parts) with
  | none => rfl
  | some bytes =>
    have hdirectory : Anchor.of ((s.native root).sourceFile
        (Scan.under root parts) bytes).directory = .root :=
      Site.anchor_directory hanchor hroot hparts bytes
    -- on the other disk it is the same file among other paths
    exact congrArg Fate.ended (Site.extract_among hphp hscripts
      (FileTree.probe_agrees t.disk s.disk) hdirectory (h bytes hbytes) _)

end Alike

/-! ### The main file -/

/-- Whether there is a file at a path with a header that names a plugin. -/
def FileTree.namesPlugin (disk : FileTree) (path : Path) : Bool :=
  (disk.content? path).any fun bytes => (Header.ofBytes bytes).name.isSome

theorem firstNamed_value (disk : FileTree) (paths : List Path) :
    (firstNamed disk paths).value = paths.find? disk.namesPlugin := by
  induction paths with
  | nil => rfl
  | cons path rest ih =>
    rw [firstNamed, List.find?_cons, FileTree.namesPlugin, FileTree.content?]
    cases disk.read path with
    | error e => exact ih
    | ok bytes =>
      simp only [Except.toOption, Option.any_some]
      cases (Header.ofBytes bytes).name.isSome with
      | true => rfl
      | false => exact ih

theorem mainHeader_value (disk : FileTree) (main : Option Path) :
    (mainHeader disk main).value = ((main.bind disk.content?).map Header.ofBytes).getD {} := by
  cases main with
  | none => rfl
  | some path =>
    rw [mainHeader, Option.bind_some, FileTree.content?]
    cases disk.read path <;> rfl

/-- The main file of a scan is one of its files. -/
theorem mem_of_findMain {php : List Path} {main : Path}
    (h : (findMain disk root php).value = some main) : main ∈ php := by
  rw [findMain, firstNamed_value] at h
  have hmem := List.mem_of_find?_eq_some h
  simp only [List.mem_append, List.mem_filter] at hmem
  exact hmem.elim And.left And.left

theorem findMain_congr (root : Path) {php : List Path}
    (h : ∀ path ∈ php, disk'.content? path = disk.content? path) :
    (findMain disk' root php).value = (findMain disk root php).value := by
  -- a search is the head of a filter, and filters can be compared member by member
  rw [findMain, findMain, firstNamed_value, firstNamed_value, ← List.head?_filter,
    ← List.head?_filter]
  refine congrArg List.head? (List.filter_congr fun path hpath => ?_)
  have hmem : path ∈ php := by
    simp only [List.mem_append, List.mem_filter] at hpath
    exact hpath.elim And.left And.left
  rw [FileTree.namesPlugin, FileTree.namesPlugin, h path hmem]

end Files

/-! ### Analyses -/

/-- The choices that come to the native reader. -/
def ReaderChoice.IsNative (s : Surroundings) : ReaderChoice → Prop
  | named name => (if name = "" then s.settings.scriptParser else name) = "native"
  | given reader => reader = Script.nativeReader s.scripts

theorem ReaderChoice.resolve_value {s : Surroundings} {choice : ReaderChoice}
    (h : choice.IsNative s) : (choice.resolve s).value = .ok (Script.nativeReader s.scripts) := by
  cases choice with
  | given reader => exact congrArg Except.ok h
  | named name =>
    simp only [IsNative] at h
    simp only [resolve, h]
    rfl

namespace Surroundings

/-- The files that a scan of a folder comes to, unless a pattern is wrong. -/
def files (s : Surroundings) (root : Path) (blacklist : Option (List String)) :
    Except PatternError Scan :=
  (ScanRules.of s.exclusion s.disk s.settings root blacklist none).map fun rules =>
    (scan s.disk root rules).value

/-- A folder is there in both of two surroundings, with the same settings and parsers, and its
scans come to the same files with the same contents. -/
structure ScanAlike (s t : Surroundings) (root : Path) (blacklist : Option (List String)) :
    Prop where
  settings : t.settings = s.settings
  php : t.php = s.php
  scripts : t.scripts = s.scripts
  folder : s.disk.hasFolder root = true
  folder' : t.disk.hasFolder root = true
  files : t.files root blacklist = s.files root blacklist
  contents : ∀ files, s.files root blacklist = .ok files →
    ∀ file ∈ files.queue, t.disk.content? file.2 = s.disk.content? file.2

theorem ScanAlike.isNative {s t : Surroundings} {root : Path} {blacklist : Option (List String)}
    (halike : s.ScanAlike t root blacklist) {choice : ReaderChoice} (h : choice.IsNative s) :
    choice.IsNative t := by
  cases choice with
  | named name => rwa [ReaderChoice.IsNative, halike.settings]
  | given reader => rwa [ReaderChoice.IsNative, halike.scripts]

/-- Where a folder shows at most one file of each kind, a scan comes to these, whatever the order
of the entries. -/
theorem files_of_few {s : Surroundings} {root : Path} {blacklist : Option (List String)}
    {rules : ScanRules} {entries : List (String × FileTree)} (found : FileKind → Option Path)
    (hrules : ScanRules.of s.exclusion s.disk s.settings root blacklist none = .ok rules)
    (hlocate : s.disk.locate root = .ok (.folder entries))
    (hfound : ∀ kind, Scan.filesOf root kind (entries.flatMap (FileTree.sightEntry rules [])) =
      (found kind).toList) :
    s.files root blacklist = .ok {
      manifests := (found .manifest).toList
      scripts := (found .script).toList
      php := (found .php).toList } := by
  have hcrawl : ∀ kind, Scan.filesOf root kind ((FileTree.folder entries).crawl rules []) =
      (found kind).toList := by
    intro kind
    have hperm := Scan.filesOf_perm root kind (FileTree.crawl_folder_perm rules [] entries)
    rw [hfound] at hperm
    cases hkind : found kind with
    | none =>
      rw [hkind] at hperm
      exact List.perm_nil.mp hperm
    | some path =>
      rw [hkind] at hperm
      exact List.perm_singleton.mp hperm
  rw [files, hrules]
  simp only [Except.map, scan, hlocate, hcrawl]

end Surroundings

theorem FileTree.has_of_hasFolder {disk : FileTree} {path : Path} (h : disk.hasFolder path = true) :
    disk.has path = true := by
  rw [hasFolder] at h
  rw [has]
  cases hlocate : disk.locate path with
  | error fault => simp [hlocate] at h
  | ok node => rfl

theorem FileTree.probe_of_has {disk : FileTree} {path : Path} (h : disk.has path = true) :
    disk.probe path = .ok (!path.hasNull) := by
  rw [has] at h
  rw [probe]
  cases path.hasNull with
  | true => rfl
  | false =>
    cases hlocate : disk.locate path with
    | error fault => simp [hlocate, Except.isOk, Except.toBool] at h
    | ok node => rfl

theorem analyze_value {s : Surroundings} {path : String} {options : AnalysisOptions}
    (hfolder : s.disk.hasFolder (canonicalPath path) = true)
    (hnative : options.reader.IsNative s) :
    (analyze s path options).value =
      if (canonicalPath path).hasNull then .error (.noSuchPath (canonicalPath path))
      else
        match s.files (canonicalPath path) options.blacklist with
        | .error e => .error (.pattern e)
        | .ok files =>
          let site := s.native (canonicalPath path)
          .ok (analyzeFiles s site site.fate files
            (options.hostPath.getD s.settings.hostPath)).value := by
  have hprobe := FileTree.probe_of_has (FileTree.has_of_hasFolder hfolder)
  simp only [analyze, hprobe, hfolder, Surroundings.files]
  cases (canonicalPath path).hasNull with
  | true => rfl
  | false =>
    cases ScanRules.of s.exclusion s.disk s.settings (canonicalPath path)
        options.blacklist none with
    | error e => rfl
    | ok rules =>
      have hreader := ReaderChoice.resolve_value hnative
      simp [Except.map, hreader, Surroundings.native]

/-- The root of an analysis is a path below one leading slash. -/
theorem isComponent_of_mem_canonicalPath (path : String) :
    ∀ part ∈ (canonicalPath path).parts, Path.IsComponent part := by
  have hroot : (⟨.root, (Path.parse path).parts⟩ : Path).anchor ≠ .here := by simp
  exact Path.isComponent_of_mem_normalize hroot fun part hpart =>
    Path.isComponent_of_mem_parse hpart

theorem exists_parts_of_mem_files {s : Surroundings} {root : Path}
    {blacklist : Option (List String)} (hfolder : s.disk.hasFolder root = true)
    (hnames : ∀ tree, s.disk.locate root = .ok tree → tree.HasFileNames) {files : Scan}
    (hfiles : s.files root blacklist = .ok files) {file : FileKind × Path}
    (hfile : file ∈ files.queue) :
    ∃ parts, file.2 = Scan.under root parts ∧ ∀ part ∈ parts, Path.IsComponent part := by
  cases hlocate : s.disk.locate root with
  | error fault => simp [FileTree.hasFolder, hlocate] at hfolder
  | ok tree =>
    rw [Surroundings.files] at hfiles
    cases hrules : ScanRules.of s.exclusion s.disk s.settings root blacklist none with
    | error e => simp [hrules, Except.map] at hfiles
    | ok rules =>
      obtain rfl : (scan s.disk root rules).value = files := by
        simpa [hrules, Except.map] using hfiles
      exact exists_parts_of_mem_scan hlocate (hnames tree hlocate) hfile

/-- The same graph with another time of the analysis. -/
def Graph.analyzedAt (g : Graph) (time : String) : Graph :=
  { g with plugin := { g.plugin with analyzedAt := time } }

/-- The head of a graph depends on the header of its main file alone. -/
theorem pluginInfo_congr (site site' : Site) (hroot : site'.root = site.root) {run run' : Run}
    (hstore : run'.store = run.store) (now now' : String) {main : Option Path} (totalFiles : Nat)
    (hostPath : String)
    (hmain : ∀ path ∈ main, site'.disk.content? path = site.disk.content? path) :
    (pluginInfo site' run' now' main totalFiles hostPath).value =
      { (pluginInfo site run now main totalFiles hostPath).value with analyzedAt := now' } := by
  have hheader : (mainHeader site'.disk main).value = (mainHeader site.disk main).value := by
    rw [mainHeader_value, mainHeader_value]
    cases main with
    | none => rfl
    | some path => rw [Option.bind_some, Option.bind_some, hmain path rfl]
  simp only [pluginInfo, Traced.value_bind, Traced.value_pure, hheader, hroot, hstore]

/-- An analysis of files depends on nothing but their contents. -/
theorem analyzeFiles_congr {s t : Surroundings} (hparser : t.php = s.php)
    (hscripts : t.scripts = s.scripts) {root : Path} (hanchor : root.anchor = .root)
    (hroot : ∀ part ∈ root.parts, Path.IsComponent part) {files : Scan} (hostPath : String)
    (hpaths : ∀ file ∈ files.queue,
      ∃ parts, file.2 = Scan.under root parts ∧ ∀ part ∈ parts, Path.IsComponent part)
    (hcontents : ∀ file ∈ files.queue, t.disk.content? file.2 = s.disk.content? file.2)
    (hsettled : ∀ file ∈ files.queue, (s.native root).IsSettled file) :
    (analyzeFiles t (t.native root) (t.native root).fate files hostPath).value =
      (analyzeFiles s (s.native root) (s.native root).fate files hostPath).value.analyzedAt
        t.now := by
  -- the disk is read for the fates of the files and for the header of the main file
  have hphp : ∀ path ∈ files.php, t.disk.content? path = s.disk.content? path := fun path hpath =>
    hcontents (.php, path) (List.mem_append_right _ (List.mem_map_of_mem hpath))
  have hstore : (Run.ofScan (t.native root).fate files).value.store =
      (Run.ofScan (s.native root).fate files).value.store := by
    rw [(Run.hasMet_ofScan_fate _ files).store, (Run.hasMet_ofScan_fate _ files).store]
    refine congrArg (fun fates => Store.empty.recordAll (fates.flatMap Fate.found))
      (List.map_congr_left fun file hfile => ?_)
    exact Site.ownFate_congr hparser hscripts hanchor hroot (hpaths file hfile)
      (hcontents file hfile) (hsettled file hfile)
  have hmain : (findMain (t.native root).disk (t.native root).root files.php).value =
      (findMain (s.native root).disk (s.native root).root files.php).value :=
    findMain_congr root hphp
  have hknown : ∀ path ∈ (findMain s.disk root files.php).value,
      t.disk.content? path = s.disk.content? path :=
    fun path hpath => hphp path (mem_of_findMain hpath)
  have hplugin := pluginInfo_congr (s.native root) (t.native root) rfl hstore s.now t.now
    files.total hostPath hknown
  simp only [analyzeFiles, Traced.value_bind, Traced.value_pure, hmain]
  rw [hstore]
  exact congrArg (Graph.assemble _) hplugin

/-- What a scan leaves out has no influence. Where the scans of a plugin come to the same files
with the same contents on two disks, and the references of these files are settled, the native
analyses give the same graph, but for the time, or the same error. A reference seen from an
absolute directory means the same whether or not its target exists, unless it leads to a path
that starts with exactly two slashes; and on any two disks, if no name is too long for them. -/
theorem analyze_ignores_unscanned {s t : Surroundings} {path : String} {options : AnalysisOptions}
    (halike : s.ScanAlike t (canonicalPath path) options.blacklist)
    (hnames : ∀ tree, s.disk.locate (canonicalPath path) = .ok tree → tree.HasFileNames)
    (hnative : options.reader.IsNative s)
    (hsettled : ∀ files, s.files (canonicalPath path) options.blacklist = .ok files →
      ∀ file ∈ files.queue, (s.native (canonicalPath path)).IsSettled file) :
    (analyze t path options).value =
      (analyze s path options).value.map (·.analyzedAt t.now) ∧
    ∀ directory reference, Anchor.of directory ≠ .here →
      let target := resolveLexically directory reference
      let single := Anchor.of reference ≠ .doubled ∧
        (Anchor.of directory = .doubled → Text.startsWith "/" reference = true)
      ((∀ (probe probe' : Probe) (found found' : Bool),
          probe target = .ok found → probe' target = .ok found' →
            resolveReference probe directory reference =
              resolveReference probe' directory reference) ↔ single) ∧
      (single → (∀ part ∈ target.parts, isShortName part = true) →
        ∀ disk disk' : FileTree, resolveReference disk.probe directory reference =
          resolveReference disk'.probe directory reference) := by
  refine ⟨?_, fun directory reference habsolute => ⟨resolveReference_free_iff habsolute, ?_⟩⟩
  · rw [analyze_value halike.folder hnative,
      analyze_value halike.folder' (halike.isNative hnative), halike.files, halike.settings]
    cases (canonicalPath path).hasNull with
    | true => rfl
    | false =>
      cases hfiles : s.files (canonicalPath path) options.blacklist with
      | error e => rfl
      | ok files =>
        have hpaths : ∀ file ∈ files.queue, ∃ parts,
            file.2 = Scan.under (canonicalPath path) parts ∧
              ∀ part ∈ parts, Path.IsComponent part :=
          fun file hfile => exists_parts_of_mem_files halike.folder hnames hfiles hfile
        exact congrArg Except.ok (analyzeFiles_congr halike.php halike.scripts rfl
          (isComponent_of_mem_canonicalPath path) _ hpaths (halike.contents files hfiles)
          (hsettled files hfiles))
  · rintro ⟨hreference, hdoubled⟩ hshort disk disk'
    exact resolveReference_agrees (FileTree.probe_agrees disk disk') habsolute hreference hdoubled
      hshort

/-- A manifest with a template. -/
def blockManifest : List UInt8 :=
  Text.encode "\x7b\"name\": \"a/b\", \"render\": \"file:./view.html\"\x7d"

/-- A plugin with a block whose template is a file of no kind, among other files. -/
def blockPlugin (others : List (String × FileTree)) (now : String) : Surroundings where
  disk := .folder [("p", .folder (("block.json", .file blockManifest) :: others))]
  settings := { defaultBlacklist := ["vendor/"], maxFileSize := 64 }
  launch := fun _ => default
  now := now

/-- The template, a pruned folder and a script that is too large. -/
def unscannedFiles : List (String × FileTree) := [
  ("view.html", .file []), ("vendor", .folder [("x.php", .file [60, 63])]),
  ("large.js", .file (List.replicate 65 59))]

/-- The rules of a scan of the plugin. -/
def blockRules : ScanRules where
  excluded := excludes ((IgnorePattern.parseAll ["vendor/"]).toOption.getD [])
  limit := 64

theorem blockPlugin_rules {others : List (String × FileTree)} {now : String}
    (h : ignoreFilePatterns (blockPlugin others now).disk (canonicalPath "/p")
      (blockPlugin others now).settings.ignoreFiles = []) :
    ScanRules.of (blockPlugin others now).exclusion (blockPlugin others now).disk
      (blockPlugin others now).settings (canonicalPath "/p") none none = .ok blockRules := by
  have hparse : IgnorePattern.parseAll ["vendor/"] =
      .ok ((IgnorePattern.parseAll ["vendor/"]).toOption.getD []) := by decide +kernel
  have hpatterns : statedOr none (blockPlugin others now).settings.defaultBlacklist ++ [] =
      ["vendor/"] := rfl
  have hexclusion : (blockPlugin others now).exclusion = IgnorePattern.exclusion := rfl
  rw [ScanRules.of, h, hpatterns, hexclusion, IgnorePattern.exclusion, hparse]
  rfl

/-- Other files that a scan leaves out do not change what it comes to. -/
theorem blockPlugin_files {others : List (String × FileTree)} {now : String}
    (hrules : ignoreFilePatterns (blockPlugin others now).disk (canonicalPath "/p")
      (blockPlugin others now).settings.ignoreFiles = [])
    (hothers : ∀ kind, Scan.filesOf (canonicalPath "/p") kind
      (others.flatMap (FileTree.sightEntry blockRules [])) = []) :
    (blockPlugin others now).files (canonicalPath "/p") none =
      .ok { manifests := [⟨.root, ["p", "block.json"]⟩] } := by
  have hroot : canonicalPath "/p" = ⟨.root, ["p"]⟩ := by decide +kernel
  have hlocate : (blockPlugin others now).disk.locate (canonicalPath "/p") =
      .ok (.folder (("block.json", .file blockManifest) :: others)) := by
    rw [hroot]
    rfl
  have hsight : FileTree.sightEntry blockRules [] ("block.json", .file blockManifest) =
      [.found ["block.json"] .manifest] := by decide +kernel
  let found (kind : FileKind) : Option Path :=
    if kind = .manifest then some ⟨.root, ["p", "block.json"]⟩ else none
  refine Surroundings.files_of_few found (blockPlugin_rules hrules) hlocate fun kind => ?_
  rw [List.flatMap_cons, hsight, Scan.filesOf_append, hothers, List.append_nil, hroot]
  cases kind <;> rfl

/-- The template exists on the first disk only, and the graph is the same on both. -/
theorem analyze_ignores_unscanned_template :
    let s := blockPlugin unscannedFiles "before"
    let t := blockPlugin [] "after"
    s.disk.has ⟨.root, ["p", "view.html"]⟩ = true ∧
    t.disk.has ⟨.root, ["p", "view.html"]⟩ = false ∧
    (s.native (canonicalPath "/p")).IsSettled (.manifest, ⟨.root, ["p", "block.json"]⟩) ∧
    (analyze t "/p" {}).value = (analyze s "/p" {}).value.map (·.analyzedAt "after") := by
  intro s t
  have hs : s.files (canonicalPath "/p") none =
      .ok { manifests := [⟨.root, ["p", "block.json"]⟩] } :=
    blockPlugin_files (by decide +kernel) fun kind => by cases kind <;> decide +kernel
  have ht : t.files (canonicalPath "/p") none =
      .ok { manifests := [⟨.root, ["p", "block.json"]⟩] } :=
    blockPlugin_files (by decide +kernel) fun _ => rfl
  have hfile : ∀ files, s.files (canonicalPath "/p") none = .ok files →
      ∀ file ∈ files.queue, file = (.manifest, ⟨.root, ["p", "block.json"]⟩) := by
    intro files hfiles file hmem
    obtain rfl := Except.ok.inj (hs.symm.trans hfiles)
    simpa [Scan.queue] using hmem
  have hsettled : (s.native (canonicalPath "/p")).IsSettled
      (.manifest, ⟨.root, ["p", "block.json"]⟩) := by
    intro bytes hbytes f reference hreference
    have hcontent : s.disk.content? ⟨.root, ["p", "block.json"]⟩ = some blockManifest := by
      decide +kernel
    obtain rfl := Option.some.inj (hcontent.symm.trans hbytes)
    have hreferences : FileKind.references s.php f .manifest = ["./view.html"] := by
      decide +kernel
    obtain rfl : reference = "./view.html" := List.mem_singleton.mp (hreferences ▸ hreference)
    exact ⟨by decide, by decide +kernel⟩
  have halike : s.ScanAlike t (canonicalPath "/p") none :=
    { settings := rfl
      php := rfl
      scripts := rfl
      folder := by decide +kernel
      folder' := by decide +kernel
      files := ht.trans hs.symm
      contents := fun files hfiles file hmem => by
        rw [hfile files hfiles file hmem]
        decide +kernel }
  have hnames : ∀ tree, s.disk.locate (canonicalPath "/p") = .ok tree → tree.HasFileNames := by
    intro tree htree
    obtain rfl : tree = .folder (("block.json", .file blockManifest) :: unscannedFiles) := by
      rw [show canonicalPath "/p" = ⟨.root, ["p"]⟩ by decide +kernel] at htree
      exact (Except.ok.inj htree).symm
    simp only [unscannedFiles, FileTree.hasFileNames_folder_iff, FileTree.hasFileNames_file,
      List.forall_mem_cons, List.not_mem_nil, false_implies, implies_true, and_true]
    decide
  have hnative : ReaderChoice.IsNative s ({} : AnalysisOptions).reader := if_pos rfl
  refine ⟨by decide +kernel, by decide +kernel, hsettled, ?_⟩
  refine (analyze_ignores_unscanned halike hnames hnative fun files hfiles file hmem => ?_).1
  rw [hfile files hfiles file hmem]
  exact hsettled

/-! ### Names that are too long -/

/-- The name of a number of equal letters. -/
def uniformName (n : Nat) : String := String.ofList (List.replicate n 'a')

theorem isShortName_uniformName (n : Nat) : isShortName (uniformName n) = decide (n ≤ 255) := by
  have hletter : (Text.encodeChar 'a').length = 1 := rfl
  simp [isShortName, nameLimit, uniformName, Text.encode, List.length_flatMap, hletter]

theorem head?_uniformName {n : Nat} (h : 0 < n) : (uniformName n).toList.head? = some 'a' := by
  simp [uniformName, List.head?_replicate, Nat.ne_of_gt h]

theorem isName_uniformName {n : Nat} (h : 0 < n) : Path.IsName (uniformName n) := by
  have hhead := head?_uniformName h
  refine ⟨⟨?_, by simp [uniformName]⟩, ?_, ?_⟩
  all_goals
    intro heq
    simp [heq] at hhead

/-- A name of a number of letters in a folder of a plugin. -/
def vendorPath (n : Nat) : Path := ⟨.root, ["p", "vendor", uniformName n]⟩

theorem toList_render_vendorPath (n : Nat) :
    (vendorPath n).render.toList = "/p/vendor/".toList ++ List.replicate n 'a' := by
  simp [vendorPath, Path.render, Anchor.text, Text.join, uniformName]

/-- What a disk answers about the name depends on what it has on the way to it. -/
theorem probe_vendorPath (disk : FileTree) {n : Nat} (h : n ≤ 4000) :
    disk.probe (vendorPath n) = match FileTree.follow [] disk (vendorPath n).parts with
      | .ok _ => .ok true
      | .error .tooLong => .error ⟨.tooLong, vendorPath n⟩
      | .error _ => .ok false := by
  have hnull : (vendorPath n).hasNull = false := by
    simp [Path.hasNull, toList_render_vendorPath]
  have hshort : (vendorPath n).isShort = true := by
    have hletter : (Text.encodeChar 'a').length = 1 := rfl
    have hfront : ("/p/vendor/".toList.flatMap Text.encodeChar).length = 10 := by decide +kernel
    simp only [Path.isShort, Text.encode, toList_render_vendorPath, pathLimit, List.flatMap_append,
      List.length_append, hfront, List.length_flatMap, List.map_replicate, hletter,
      List.sum_replicate_nat, Nat.mul_one, decide_eq_true_eq]
    omega
  simp only [FileTree.probe, hnull, FileTree.locate, hshort]
  rfl

/-- A disk with an empty folder in a plugin. -/
def vendorDisk : FileTree := .folder [("p", .folder [("vendor", .folder [])])]

theorem probe_vendorDisk {n : Nat} (hlong : 255 < n) (h : n ≤ 4000) :
    vendorDisk.probe (vendorPath n) = .error ⟨.tooLong, vendorPath n⟩ := by
  have hname : isShortName (uniformName n) = false := by simp [isShortName_uniformName, hlong]
  have hdots : uniformName n ≠ ".." := (isName_uniformName (Nat.zero_lt_of_lt hlong)).2.2
  rw [probe_vendorPath _ h]
  simp [vendorDisk, vendorPath, FileTree.follow, hname, hdots]

/-- Seen from a directory that starts with two slashes, a parent is named by one slash when it
exists and by two when it does not. And a name that is too long for a disk cannot be asked for
in a folder that exists, and is merely missing in one that does not. -/
theorem resolveReference_not_free :
    (¬ ∀ directory reference, Anchor.of directory ≠ .here → Anchor.of reference ≠ .doubled →
      ∀ found found', resolveReference (fun _ => .ok found) directory reference =
        resolveReference (fun _ => .ok found') directory reference) ∧
    let reference := Text.join "/" ["vendor", uniformName 256]
    resolveReference vendorDisk.probe "/p" reference = .error ⟨.tooLong, vendorPath 256⟩ ∧
      resolveReference (FileTree.folder [("p", .folder [])]).probe "/p" reference =
        .ok (vendorPath 256).render := by
  constructor
  · intro hfree
    have hparent := hfree "//d" ".." (by decide) (by decide) true false
    exact absurd hparent (by decide +kernel)
  · intro reference
    have hname : Path.IsName (uniformName 256) := isName_uniformName (by decide)
    have hdirectory : Path.IsAbsolute "/p" ["p"] := ⟨by decide, by decide⟩
    have hleads : Path.LeadsTo ["p"] ["p", "vendor", uniformName 256] reference :=
      ⟨⟨["p"], [], ["vendor", uniformName 256], _, rfl, rfl, .plain, rfl⟩,
        by simp [reference, Text.join], by simp [reference, Text.join]⟩
    have htarget := hleads.resolveLexically_eq hdirectory
      (by simpa using ⟨by decide, by decide, hname⟩)
    have hanchor := hleads.anchor_joinPaths_eq hdirectory
    rw [resolveReference_of_root hanchor, resolveReference_of_root hanchor, htarget]
    constructor
    · exact congrArg (Except.map _) (probe_vendorDisk (n := 256) (by decide) (by decide))
    · exact congrArg (Except.map _) (probe_vendorPath _ (n := 256) (by decide))

end PluginAtlas
