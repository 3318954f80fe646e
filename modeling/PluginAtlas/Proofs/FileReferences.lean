import PluginAtlas.Manifest
import PluginAtlas.Proofs.ClassReferences
import PluginAtlas.Proofs.Expressions
import PluginAtlas.Proofs.JsonRoundTrip
import PluginAtlas.Proofs.PathResolution

/-!
# References to files

Code and manifests refer to files by a path that is seen from their own directory: up by
some `..`, then down by names, and with any number of steps in between that lead nowhere.
The target is named by what is left when the path is resolved, while the file itself is
named by its own path. Both names agree, whichever way the reference is written, so that
the relation to the file meets the identifier of the file.

## Main definitions

* `Path.IsAbsolute`: the path of a file from the root of the disk.
* `Path.Padded`: a path with empty steps, single dots and detours put in.
* `Path.LeadsTo`: a reference that leads from a folder to a file.
* `Php.SpellsReference`: the ways to write a reference in PHP code.

## Main results

* `Path.Padded.foldl_eq`: steps that lead nowhere can be left out.
* `SourceFile.resolve_eq`: a reference that leads to a file is resolved to its path.
* `references_meet_file`: relations drawn for a reference go to the file.
-/

namespace PluginAtlas

namespace Path

/-! ### Paths of files -/

/-- The ordinary name of a file or folder. -/
def IsName (name : String) : Prop := IsComponent name ∧ name ≠ "." ∧ name ≠ ".."

instance (name : String) : Decidable (IsName name) :=
  inferInstanceAs (Decidable (IsComponent name ∧ name ≠ "." ∧ name ≠ ".."))

/-- A text is the path from the root of the disk along the given names. -/
structure IsAbsolute (path : String) (names : List String) : Prop where
  isName : ∀ name ∈ names, IsName name
  eq : path = "/" ++ Text.join "/" names

/-- A component that says something. -/
def isTelling (part : String) : Bool := part != "" && part != "."

theorem IsName.isTelling {name : String} (h : IsName name) : isTelling name = true := by
  simp [Path.isTelling, h.1.1, h.2.1]

theorem filter_isTelling {names : List String} (h : ∀ name ∈ names, IsName name) :
    names.filter isTelling = names :=
  List.filter_eq_self.mpr fun name hname => (h name hname).isTelling

theorem parse_parts (s : String) : (parse s).parts = (Text.split '/' s).filter isTelling := rfl

/-- A slash divides a path. -/
theorem parse_slash (front rest : String) :
    (parse (front ++ "/" ++ rest)).parts = (parse front).parts ++ (parse rest).parts := by
  have hlist : (front ++ "/" ++ rest).toList = front.toList ++ '/' :: rest.toList := by simp
  simp only [parse_parts, Text.split, hlist, List.splitOn_append_cons_self, List.map_append,
    List.filter_append]

/-- Components that are put together are read back, but for those that say nothing. -/
theorem parse_join {segments : List String} (h : ∀ segment ∈ segments, '/' ∉ segment.toList) :
    (parse (Text.join "/" segments)).parts = segments.filter isTelling := by
  by_cases hnil : segments = []
  · subst hnil
    decide
  · rw [parse_parts, Text.split_join rfl hnil h]

/-- The text of a path from the root of the disk is read back. -/
theorem parse_root_join {parts : List String} (hcomponents : ∀ part ∈ parts, IsComponent part)
    (htelling : ∀ part ∈ parts, isTelling part = true) :
    parse ("/" ++ Text.join "/" parts) = ⟨.root, parts⟩ := by
  have hparts : (parse ("/" ++ Text.join "/" parts)).parts = parts := by
    have hslash := parse_slash "" (Text.join "/" parts)
    rw [String.empty_append, parse_join fun part hpart => (hcomponents part hpart).2,
      List.filter_eq_self.mpr htelling] at hslash
    exact hslash
  have hanchor : Anchor.of ("/" ++ Text.join "/" parts) = .root := by
    rw [Anchor.of_eq, leadingSlashes_slash_append, leadingSlashes_join hcomponents]
    rfl
  have hparse : parse ("/" ++ Text.join "/" parts) =
      ⟨Anchor.of ("/" ++ Text.join "/" parts), (parse ("/" ++ Text.join "/" parts)).parts⟩ := rfl
  rw [hparse, hanchor, hparts]

namespace IsAbsolute

variable {path : String} {names : List String}

theorem parse_eq (h : IsAbsolute path names) : parse path = ⟨.root, names⟩ := by
  rw [h.eq]
  exact parse_root_join (fun name hname => (h.isName name hname).1)
    fun name hname => (h.isName name hname).isTelling

theorem render_eq (h : IsAbsolute path names) : (⟨.root, names⟩ : Path).render = path := by
  rw [h.eq]
  rfl

/-- A file lies in the folder along all names but its own. -/
theorem directory {f : SourceFile} {folder : List String} {name : String}
    (h : IsAbsolute f.path (folder ++ [name])) : IsAbsolute f.directory folder := by
  refine ⟨fun part hpart => h.isName part (List.mem_append_left _ hpart), ?_⟩
  rw [SourceFile.directory, h.parse_eq, parent, List.dropLast_concat]
  rfl

end IsAbsolute

/-- A relative reference adds its components to those of the directory. -/
theorem parse_joinPaths {directory reference : String}
    (h : Text.startsWith "/" reference = false) :
    (parse (joinPaths directory reference)).parts =
      (parse directory).parts ++ (parse reference).parts := by
  rw [joinPaths, h, if_neg (by decide)]
  split_ifs with hend
  · rcases Bool.or_eq_true_iff.mp hend with hempty | hslash
    · rw [of_decide_eq_true hempty, String.empty_append]
      rfl
    · -- a slash at the end of the directory says nothing more
      obtain ⟨front, hfront⟩ := List.isSuffixOf_iff_suffix.mp hslash
      obtain rfl : String.ofList front ++ "/" = directory := by
        apply String.toList_injective
        rw [String.toList_append, String.toList_ofList, hfront]
      have hempty : (parse "").parts = [] := by decide
      have hdirectory := parse_slash (String.ofList front) ""
      rw [String.append_empty, hempty, List.append_nil] at hdirectory
      rw [parse_slash, hdirectory]
  · exact parse_slash directory reference

/-! ### Steps that lead nowhere -/

/-- A path with empty components, single dots and detours through a name put in anywhere,
also inside other detours. -/
inductive Padded (plain : List String) : List String → Prop
  | plain : Padded plain plain
  | empty {front back : List String} (h : Padded plain (front ++ back)) :
      Padded plain (front ++ "" :: back)
  | dot {front back : List String} (h : Padded plain (front ++ back)) :
      Padded plain (front ++ "." :: back)
  | detour {front back : List String} {name : String} (h : Padded plain (front ++ back))
      (hname : IsName name) : Padded plain (front ++ name :: ".." :: back)

/-- A name that is taken back says nothing. -/
theorem normalizeStep_detour (anchor : Anchor) (done : List String) {name : String}
    (h : name ≠ "..") : normalizeStep anchor (normalizeStep anchor done name) ".." = done := by
  have hname : normalizeStep anchor done name = name :: done := by simp [normalizeStep, h]
  rw [hname]
  simp [normalizeStep, h]

namespace Padded

variable {plain segments : List String}

theorem notMem_slash (h : Padded plain segments) (hplain : ∀ part ∈ plain, '/' ∉ part.toList) :
    ∀ segment ∈ segments, '/' ∉ segment.toList := by
  -- whatever is put in has no slash, and all else was there before
  induction h with
  | plain => exact hplain
  | empty _ ih =>
    simp only [List.forall_mem_append, List.forall_mem_cons] at ih ⊢
    exact ⟨ih.1, by decide, ih.2⟩
  | dot _ ih =>
    simp only [List.forall_mem_append, List.forall_mem_cons] at ih ⊢
    exact ⟨ih.1, by decide, ih.2⟩
  | detour _ hname ih =>
    simp only [List.forall_mem_append, List.forall_mem_cons] at ih ⊢
    exact ⟨ih.1, hname.1.2, by decide, ih.2⟩

/-- What is put in does not change where a path leads. -/
theorem foldl_eq (h : Padded plain segments) (anchor : Anchor) (done : List String) :
    (segments.filter isTelling).foldl (normalizeStep anchor) done =
      (plain.filter isTelling).foldl (normalizeStep anchor) done := by
  induction h with
  | plain => rfl
  | empty _ ih =>
    rw [← ih, List.filter_append, List.filter_append, List.filter_cons_of_neg (by decide)]
  | dot _ ih =>
    rw [← ih, List.filter_append, List.filter_append, List.filter_cons_of_neg (by decide)]
  | detour _ hname ih =>
    rw [← ih, List.filter_append, List.filter_append, List.filter_cons_of_pos hname.isTelling,
      List.filter_cons_of_pos (by decide), List.foldl_append, List.foldl_append, List.foldl_cons,
      List.foldl_cons, normalizeStep_detour _ _ hname.2.2]

end Padded

/-- As many steps up as there are names lead back to before the names. -/
theorem foldl_climb (anchor : Anchor) {names : List String} (h : ∀ name ∈ names, name ≠ "..")
    (before : List String) :
    (List.replicate names.length "..").foldl (normalizeStep anchor) (names ++ before) = before := by
  induction names with
  | nil => rfl
  | cons name names ih =>
    obtain ⟨hname, hnames⟩ := List.forall_mem_cons.mp h
    have hstep : normalizeStep anchor (name :: (names ++ before)) ".." = names ++ before := by
      simp [normalizeStep, hname]
    rw [List.length_cons, List.replicate_succ, List.foldl_cons, List.cons_append, hstep,
      ih hnames]

/-! ### References -/

/-- A reference leads from a folder to a target: up to a folder around both, and down from
there, with anything put in that leads nowhere. It starts with no slash and no backslash. -/
structure LeadsTo (folder target : List String) (reference : String) : Prop where
  route : ∃ common up down segments, folder = common ++ up ∧ target = common ++ down ∧
    Padded (List.replicate up.length ".." ++ down) segments ∧ reference = Text.join "/" segments
  relative : reference.toList.head? ≠ some '/'
  forward : reference.toList.head? ≠ some '\\'

namespace LeadsTo

variable {folder target : List String} {reference : String}

theorem startsWith_eq (h : LeadsTo folder target reference) :
    Text.startsWith "/" reference = false :=
  Text.startsWith_of_head rfl h.relative

/-- Followed from the folder, a reference comes to the target. -/
theorem foldl_eq (h : LeadsTo folder target reference) (hfolder : ∀ name ∈ folder, IsName name)
    (htarget : ∀ name ∈ target, IsName name) (anchor : Anchor) :
    (folder ++ (parse reference).parts).foldl (normalizeStep anchor) [] = target.reverse := by
  obtain ⟨common, up, down, segments, rfl, rfl, hpadded, rfl⟩ := h.route
  have hup := (List.forall_mem_append.mp hfolder).2
  have hdown := (List.forall_mem_append.mp htarget).2
  have hplain : ∀ part ∈ List.replicate up.length ".." ++ down, '/' ∉ part.toList := by
    refine List.forall_mem_append.mpr ⟨fun part hpart => ?_, fun part hpart => ?_⟩
    · rw [List.eq_of_mem_replicate hpart]
      decide
    · exact (hdown part hpart).1.2
  have htelling : (List.replicate up.length ".." ++ down).filter isTelling =
      List.replicate up.length ".." ++ down := by
    rw [List.filter_append, filter_isTelling hdown, List.filter_replicate_of_pos (by decide)]
  have hclimb : ∀ name ∈ up.reverse, name ≠ ".." := fun name hname =>
    (hup name (List.mem_reverse.mp hname)).2.2
  -- The folder is walked into, left again up to the common part, and the target entered.
  calc
    _ = (List.replicate up.length ".." ++ down).foldl (normalizeStep anchor)
          ((common ++ up).foldl (normalizeStep anchor) []) := by
      rw [List.foldl_append, parse_join (hpadded.notMem_slash hplain), hpadded.foldl_eq, htelling]
    _ = down.foldl (normalizeStep anchor) ((List.replicate up.length "..").foldl
          (normalizeStep anchor) (up.reverse ++ common.reverse)) := by
      have hnames : ".." ∉ common ++ up := fun hmem => (hfolder _ hmem).2.2 rfl
      rw [foldl_normalizeStep_of_notMem anchor hnames, List.append_nil, List.reverse_append,
        List.foldl_append]
    _ = down.foldl (normalizeStep anchor) common.reverse := by
      rw [← List.length_reverse, foldl_climb anchor hclimb]
    _ = (common ++ down).reverse := by
      have hnames : ".." ∉ down := fun hmem => (hdown _ hmem).2.2 rfl
      rw [foldl_normalizeStep_of_notMem anchor hnames, List.reverse_append]

theorem anchor_joinPaths_eq {directory : String} (h : LeadsTo folder target reference)
    (hdirectory : IsAbsolute directory folder) :
    Anchor.of (joinPaths directory reference) = .root := by
  rw [anchor_joinPaths, h.startsWith_eq]
  exact congrArg Path.anchor hdirectory.parse_eq

theorem resolveLexically_eq {directory : String} (h : LeadsTo folder target reference)
    (hdirectory : IsAbsolute directory folder) (htarget : ∀ name ∈ target, IsName name) :
    resolveLexically directory reference = ⟨.root, target⟩ := by
  have hroot : (parse (joinPaths directory reference)).anchor = .root :=
    h.anchor_joinPaths_eq hdirectory
  have hparts : (parse (joinPaths directory reference)).parts =
      folder ++ (parse reference).parts := by
    rw [parse_joinPaths h.startsWith_eq, hdirectory.parse_eq]
  rw [resolveLexically, normalize, hroot, hparts, h.foldl_eq hdirectory.isName htarget,
    List.reverse_reverse]

end LeadsTo

end Path

/-- A reference that leads to a file is resolved to the path of the file, whether or not
that exists, as long as it can be told. -/
theorem SourceFile.resolve_eq {g : SourceFile} {folder target : List String}
    {name path reference : String} (hg : Path.IsAbsolute g.path (folder ++ [name]))
    (hpath : Path.IsAbsolute path target) (h : Path.LeadsTo folder target reference)
    {found : Bool} (hprobe : g.probe (Path.parse path) = .ok found) :
    g.resolve reference = .ok path := by
  have hdirectory := hg.directory
  -- Below the root of the disk it does not matter whether the target exists.
  rw [hpath.parse_eq] at hprobe
  rw [resolve, resolveReference_of_root (h.anchor_joinPaths_eq hdirectory),
    h.resolveLexically_eq hdirectory hpath.isName, hprobe, ← hpath.render_eq]
  rfl

namespace Php

/-! ### References in code -/

/-- The kinds of expressions that include a file. -/
def includeKinds : List String :=
  ["include_expression", "include_once_expression", "require_expression",
    "require_once_expression"]

/-- Two expressions joined by a dot. -/
def IsConcatenation (t left right : Tree) : Prop :=
  ∃ both, t.Encloses both ∧ both.kind = "binary_expression" ∧
    (∃ mark ∈ both.children, mark.isNamed = false ∧ mark.kind = ".") ∧
    both.byField? "left" = some left ∧ both.byField? "right" = some right

/-- A call of a function with the path of the own file. -/
def IsFileCall (f : SourceFile) (t : Tree) (called : String) : Prop :=
  ∃ call argument, t.Encloses call ∧ call.kind = "function_call_expression" ∧
    functionName? f call = some called ∧ callArguments call = [argument] ∧
    IsConstant f argument "__FILE__"

/-- An expression spells a reference: as a text alone, or as a text behind the directory of
the file. The directory that a plugin asks for ends with a slash, the others do not. -/
inductive SpellsReference (f : SourceFile) (reference : String) : Tree → Prop
  | alone {t : Tree} (h : IsText f t reference) : SpellsReference f reference t
  | besideFile {t left right : Tree} (h : IsConcatenation t left right)
      (hleft : IsConstant f left "__DIR__") (hright : IsText f right ("/" ++ reference)) :
      SpellsReference f reference t
  | besideNamedFile {t left right : Tree} (h : IsConcatenation t left right)
      (hleft : IsFileCall f left "dirname") (hright : IsText f right ("/" ++ reference)) :
      SpellsReference f reference t
  | insidePlugin {t left right : Tree} (h : IsConcatenation t left right)
      (hleft : IsFileCall f left "plugin_dir_path") (hright : IsText f right reference) :
      SpellsReference f reference t

section Code

variable {f : SourceFile} {t : Tree} {reference : String}

theorem isOwnDirectory_of_isConstant (h : IsConstant f t "__DIR__") :
    isOwnDirectory f (some t) = true := by
  obtain ⟨constant, hencloses, hkind, hword⟩ := h
  have hplain : constant.kind ≠ "parenthesized_expression" := by simp [hkind]
  have hmagic : isMagicConstant f (some constant) "__DIR__" = true :=
    IsConstant.isMagicConstant_eq ⟨constant, .self constant, hkind, hword⟩
  simp [isOwnDirectory, hencloses.unwrap?_eq_some hplain, hmagic]

theorem IsFileCall.isOwnDirectory_eq {called : String} (h : IsFileCall f t called)
    (hcalled : called = "dirname" ∨ called = "plugin_dir_path") :
    isOwnDirectory f (some t) = true := by
  obtain ⟨call, argument, hencloses, hkind, hname, harguments, hfile⟩ := h
  have hplain : call.kind ≠ "parenthesized_expression" := by simp [hkind]
  simp [isOwnDirectory, hencloses.unwrap?_eq_some hplain, hkind, hname, harguments,
    hfile.isMagicConstant_eq, hcalled]

/-- A text behind the directory of the file is a reference from there, without the slashes
that it begins with. -/
theorem IsConcatenation.includeReference?_eq {left right : Tree} {rest : String}
    (h : IsConcatenation t left right) (hleft : isOwnDirectory f (some left) = true)
    (hright : IsText f right rest) :
    includeReference? f t =
      some (Text.trimStart (fun c => c == '/' || c == '\\') rest) := by
  obtain ⟨both, hencloses, hkind, hjoined, hfield, hfield'⟩ := h
  have hplain : both.kind ≠ "parenthesized_expression" := by simp [hkind]
  have hliteral : stringValue? f (some both) = none :=
    stringValue?_eq_none (by simp [hkind]) (by simp [hkind]) hplain
  simp [includeReference?, hencloses.unwrap?_eq_some hplain, hliteral, hkind, hjoined, hfield,
    hfield', hleft, hright.stringValue?_eq]

/-- Every spelling of a reference is seen from the directory of the file. -/
theorem SpellsReference.includeReference?_eq (h : SpellsReference f reference t)
    (hrelative : reference.toList.head? ≠ some '/')
    (hforward : reference.toList.head? ≠ some '\\') :
    includeReference? f t = some reference := by
  have htrim : Text.trimStart (fun c => c == '/' || c == '\\') reference = reference := by
    cases hlist : reference.toList with
    | nil => rw [String.toList_eq_nil_iff.mp hlist]; rfl
    | cons c cs =>
      have hmark : (c == '/' || c == '\\') = false := by simp_all
      rw [Text.trimStart, hlist, List.dropWhile_cons_of_neg (by simp [hmark]), ← hlist,
        String.ofList_toList]
  have hslash : Text.trimStart (fun c => c == '/' || c == '\\') ("/" ++ reference) = reference := by
    have hdropped : Text.trimStart (fun c => c == '/' || c == '\\') ("/" ++ reference) =
        Text.trimStart (fun c => c == '/' || c == '\\') reference := by simp [Text.trimStart]
    rw [hdropped, htrim]
  cases h with
  | alone h =>
    obtain ⟨literal, hunwrap, -, hvalue⟩ := h.exists_literal
    simp [includeReference?, hunwrap, hvalue]
  | besideFile h hleft hright =>
    rw [h.includeReference?_eq (isOwnDirectory_of_isConstant hleft) hright, hslash]
  | besideNamedFile h hleft hright =>
    rw [h.includeReference?_eq (hleft.isOwnDirectory_eq (.inl rfl)) hright, hslash]
  | insidePlugin h hleft hright =>
    rw [h.includeReference?_eq (hleft.isOwnDirectory_eq (.inr rfl)) hright, htrim]

/-- At an include expression only the rules of includes apply. -/
theorem findAt_include {s : Scope} {v : Visit} (hkind : v.tree.kind ∈ includeKinds) :
    findAt Family.all f s v = includes f s v := by
  simp only [includeKinds, List.mem_cons, List.not_mem_nil, or_false] at hkind
  rcases hkind with h | h | h | h <;>
    simp [findAt, Family.all, Family.apply, Outcome.sequence, declarations, declaredKind?,
      callables, hooks, storage, storageAccess?, entryPoints, h]

/-- An include expression relates the file to the one that its operand spells, and to no
other. -/
theorem relationsOfKind_include {root operand : Tree} {e : Entry root}
    (hkind : e.visit.tree.kind ∈ includeKinds) (hoperand : e.visit.tree.parts.head? = some operand)
    {target : String} (htarget : includeTarget f operand = .ok (some target)) :
    relationsOfKind .includes (e.outcome f).findings =
      [Relation.between f.id .includes (Ident.ofFile target f.root) "includes"] := by
  obtain ⟨others, hparts⟩ := List.head?_eq_some_iff.mp hoperand
  have hinclude : isIncludeKind e.visit.tree.kind = true := by
    simpa [isIncludeKind, includeKinds, or_assoc] using hkind
  rw [Entry.outcome, findAt_include hkind, includes]
  simp only [hinclude, hparts, htarget]
  rfl

end Code

end Php

namespace Manifest

/-! ### References in manifests -/

/-- A field of a manifest holds a text: it is the text, or a list that the text is in. -/
def Holds (value : Json) (reference : String) : Prop :=
  value = .str reference ∨ ∃ items, value = .arr items ∧ .str reference ∈ items

/-- A manifest refers to a file, as its template or as one of its scripts. Each way draws
relations of its own kind with its own label. -/
inductive RefersTo (fields : List (String × Json)) (reference : String) :
    RelationKind → String → Prop
  | template (h : fields.lookup "render" = some (.str reference)) :
      RefersTo fields reference .rendersBlock "renders"
  | script {key : String} {value : Json} (hkey : key ∈ ["editorScript", "script", "viewScript"])
      (hvalue : fields.lookup key = some value) (h : Holds value reference) :
      RefersTo fields reference .enqueuesScript "enqueues"

variable {f : SourceFile} {fields : List (String × Json)} {reference : String}

theorem Holds.mem_references {value : Json} (h : Holds value reference) (hne : reference ≠ "") :
    reference ∈ references (some value) := by
  rcases h with rfl | ⟨items, rfl, hmem⟩
  · simp [references, texts, Json.text?, hne]
  · exact List.mem_filterMap.mpr ⟨.str reference, hmem, by simp [Json.text?, hne]⟩

theorem RefersTo.mem_loads {kind : RelationKind} {label : String}
    (h : RefersTo fields reference kind label) (hne : reference ≠ "") :
    ⟨kind, label, reference⟩ ∈ loads fields := by
  refine List.mem_append.mpr ?_
  cases h with
  | template h =>
    refine .inl (List.mem_map.mpr ⟨reference, ?_, rfl⟩)
    simp [templates, h, texts, Json.text?, hne]
  | @script key value hkey hvalue h =>
    refine .inr (List.mem_map.mpr ⟨reference, ?_, rfl⟩)
    exact List.mem_flatMap.mpr ⟨key, hkey, hvalue ▸ h.mem_references hne⟩

/-- What a reference adds when its target is known. -/
theorem Load.findings_of_target {load : Load} {target : String} (h : load.target f = .ok target)
    (block : Ident) :
    load.findings f block = .found [.entity (fileEntity f target),
      .relation (.between block load.kind (fileEntity f target).id load.label)] := by
  rw [findings, h]
  rfl

/-- Each reference of a manifest that is read to its end is found below the block. -/
theorem relation_mem_findings {block : String} (hok : (findings f block fields).failure = none)
    {load : Load} (hload : load ∈ loads fields) {target : String}
    (htarget : load.target f = .ok target) :
    .relation (.between (Ident.ofBlock block) load.kind (Ident.ofFile target f.root) load.label) ∈
      (findings f block fields).findings := by
  have hadded := (Outcome.of_mem_sequence hok (List.mem_map_of_mem hload)).2
  rw [load.findings_of_target htarget] at hadded
  exact List.mem_cons_of_mem _ (hadded (List.mem_cons_of_mem _ List.mem_cons_self))

/-- A reference to a file is seen from the directory of the manifest. -/
theorem resolveAsset_file (probe : Probe) (rest directory : String) :
    resolveAsset probe ("file:" ++ rest) directory = resolveReference probe directory rest := by
  rw [resolveAsset, Text.dropStart?_append]

theorem extract_of_name {block : String} (hsource : Json.parse f.source = .ok (.obj fields))
    (hname : fields.lookup "name" = some (.str block)) (hne : block ≠ "") :
    extract f = ([], findings f block fields) := by
  simp [extract, hsource, hname, hne]

end Manifest

/-! ### References across files -/

/-- References meet the file that they lead to. One file refers to another below the same
root, by a path that leads from its directory to the other file. In code, each include
expression that spells the reference draws one relation, and it goes from the one file to
the identifier of the other; the extraction finds it, as soon as it comes that far. In a
manifest that is read to its end, a reference to a file as template or script draws a relation
from the block to the same identifier. Whether the other file exists does not matter, as long
as that can be told. -/
theorem references_meet_file {f g : SourceFile} {folder target : List String}
    {name reference : String} {found : Bool} (hg : Path.IsAbsolute g.path (folder ++ [name]))
    (hf : Path.IsAbsolute f.path target) (hroot : f.root = g.root)
    (href : Path.LeadsTo folder target reference)
    (hprobe : g.probe (Path.parse f.path) = .ok found) :
    (∀ (tree operand : Tree) (e : Php.Entry tree), e.visit.tree.kind ∈ Php.includeKinds →
      e.visit.tree.parts.head? = some operand → Php.SpellsReference g reference operand →
      let r := Relation.between g.id .includes f.id "includes"
      Php.relationsOfKind .includes (e.outcome g).findings = [r] ∧
        ((e.before g).failure = none →
          .relation r ∈ (Php.extract Php.Family.all g tree).findings)) ∧
    ∀ (fields : List (String × Json)) (block : String) (kind : RelationKind) (label : String),
      Json.parse g.source = .ok (.obj fields) → fields.lookup "name" = some (.str block) →
      block ≠ "" → Manifest.RefersTo fields ("file:" ++ reference) kind label →
      (Manifest.extract g).2.failure = none →
      .relation (.between (Ident.ofBlock block) kind f.id label) ∈
        (Manifest.extract g).2.findings := by
  have hresolve : g.resolve reference = .ok f.path := SourceFile.resolve_eq hg hf href hprobe
  constructor
  · intro tree operand e hkind hoperand hspells r
    have htarget : Php.includeTarget g operand = .ok (some f.path) := by
      rw [Php.includeTarget, hspells.includeReference?_eq href.relative href.forward]
      simp only [hresolve]
      rfl
    have hdrawn : Php.relationsOfKind .includes (e.outcome g).findings = [r] := by
      rw [Php.relationsOfKind_include hkind hoperand htarget, ← hroot]
      rfl
    refine ⟨hdrawn, fun hbefore => e.findings_subset hbefore ?_⟩
    exact Php.mem_of_relationsOfKind (hdrawn ▸ List.mem_cons_self)
  · intro fields block kind label hsource hname hblock hrefers hok
    rw [Manifest.extract_of_name hsource hname hblock] at hok ⊢
    have htarget : (Manifest.Load.mk kind label ("file:" ++ reference)).target g = .ok f.path := by
      rw [Manifest.Load.target, Manifest.resolveAsset_file]
      exact hresolve
    have hfound := Manifest.relation_mem_findings hok (hrefers.mem_loads (by simp)) htarget
    rwa [← hroot] at hfound

/-- An include expression with a reference behind the directory of the file. -/
def detourOperand : Tree :=
  .node "binary_expression" true 0 31 none
    [.node "name" true 0 7 (some "left") [], .node "." false 7 8 (some "operator") [],
      .node "string" true 8 31 (some "right") []]

@[inherit_doc detourOperand]
def detourInclude : Tree := .node "include_expression" true 0 31 none [detourOperand]

@[inherit_doc detourOperand]
def detourProgram : Tree := .node "program" true 0 31 none [detourInclude]

@[inherit_doc detourOperand]
def detourEntry : Php.Entry detourProgram :=
  ⟨(Walk.trace detourProgram).take 1, [detourInclude, detourProgram], ⟨detourInclude, none⟩,
    (Walk.trace detourProgram).drop 2, rfl⟩

@[inherit_doc detourOperand]
def detourFile : SourceFile where
  path := "/p/inc/a.php"
  source := "__dir__.'/../lib//./x/../b.php'"
  root := some "/p"

/-- A manifest with the same reference. -/
def detourFields : List (String × Json) :=
  [("name", .str "b"), ("render", .str "file:../lib//./x/../b.php")]

@[inherit_doc detourFields]
def detourManifest : SourceFile where
  path := "/p/inc/block.json"
  source := Json.render .pretty (.obj detourFields)
  root := some "/p"

/-- The file that is referred to. -/
def detourTarget : SourceFile where
  path := "/p/lib/b.php"
  source := "<?php"
  root := some "/p"

/-- Code and a manifest refer to one file by a path with detours. -/
theorem references_meet_file_detour :
    Path.LeadsTo ["p", "inc"] ["p", "lib", "b.php"] "../lib//./x/../b.php" ∧
    (Manifest.extract detourManifest).2.failure = none ∧
    .relation (.between detourFile.id .includes detourTarget.id "includes") ∈
      (Php.extract Php.Family.all detourFile detourProgram).findings ∧
    .relation (.between (Ident.ofBlock "b") .rendersBlock detourTarget.id "renders") ∈
      (Manifest.extract detourManifest).2.findings := by
  have htarget : Path.IsAbsolute detourTarget.path ["p", "lib", "b.php"] := ⟨by decide, by decide⟩
  have hcode : Path.IsAbsolute detourFile.path (["p", "inc"] ++ ["a.php"]) := ⟨by decide, by decide⟩
  have hmanifest : Path.IsAbsolute detourManifest.path (["p", "inc"] ++ ["block.json"]) :=
    ⟨by decide, by decide⟩
  have hspells : Php.SpellsReference detourFile "../lib//./x/../b.php" detourOperand := by
    have hmark : ∃ mark ∈ detourOperand.children, mark.isNamed = false ∧ mark.kind = "." :=
      ⟨.node "." false 7 8 (some "operator") [], by simp [detourOperand, Tree.children], rfl, rfl⟩
    refine .besideFile ⟨_, .self _, rfl, hmark, rfl, rfl⟩ ?_ ?_
    · exact ⟨_, .self _, rfl, by decide +kernel⟩
    · exact ⟨_, .self _, .inl rfl, by decide +kernel⟩
  have hsource : Json.parse detourManifest.source = .ok (.obj detourFields) := by
    refine Json.parse_render .pretty (.obj (by decide) ?_)
    simp [detourFields, Json.IsPlain.str]
  have hleads : Path.LeadsTo ["p", "inc"] ["p", "lib", "b.php"] "../lib//./x/../b.php" := by
    have hdetour : Path.Padded ["..", "lib", "b.php"] ["..", "lib", "x", "..", "b.php"] :=
      @Path.Padded.detour _ ["..", "lib"] ["b.php"] "x" .plain (by decide)
    have hdot : Path.Padded ["..", "lib", "b.php"] ["..", "lib", ".", "x", "..", "b.php"] :=
      @Path.Padded.dot _ ["..", "lib"] _ hdetour
    have hempty : Path.Padded ["..", "lib", "b.php"] ["..", "lib", "", ".", "x", "..", "b.php"] :=
      @Path.Padded.empty _ ["..", "lib"] _ hdot
    exact ⟨⟨["p"], ["inc"], ["lib", "b.php"], _, rfl, rfl, hempty, by decide⟩, by decide,
      by decide⟩
  have hprobe : detourFile.probe (Path.parse detourTarget.path) = .ok false := by decide +kernel
  have hprobe' : detourManifest.probe (Path.parse detourTarget.path) = .ok false := by
    decide +kernel
  have hok : (Manifest.extract detourManifest).2.failure = none := by
    rw [Manifest.extract_of_name hsource rfl (by decide)]
    decide +kernel
  refine ⟨hleads, hok, ?_, ?_⟩
  · have hdrawn := (references_meet_file hcode htarget rfl hleads hprobe).1 detourProgram _
      detourEntry (by decide) rfl hspells
    exact hdrawn.2 (by decide +kernel)
  · exact (references_meet_file hmanifest htarget rfl hleads hprobe').2 _ "b" .rendersBlock
      "renders" hsource rfl (by decide) (.template rfl) hok

end PluginAtlas
