import PluginAtlas.Proofs.FamilyUnion
import PluginAtlas.Proofs.FileReferences
import PluginAtlas.Proofs.JsonIntegers
import PluginAtlas.Proofs.RelationKeys
import PluginAtlas.Proofs.UnscannedFiles

/-!
# Blocks and their manifests

Manifests are read before all scripts, and the first record of an entity stays. So a block
that a manifest declares is the block as its first manifest has it, whatever the scripts
register under the same identifier; they only link their files to it.

A manifest comes to one of four ends. It declares no block, which is noticed once and adds
nothing; or it has a whole number with too many digits, which fails before anything is added;
or it declares a block, and every reference in it is drawn, and nothing else; or the disk has
no answer about one of its references, because that leads to a name or a path that is too
long: then the block and the references before that one stay, and the manifest fails.

## Main definitions

* `Manifest.Declares`: a manifest declares a block.
* `Manifest.Reaches`: how far the references of a manifest are drawn.
* `Site.DeclaresAt`: the manifest at a path does so.

## Main results

* `Manifest.filter_findings`: a manifest adds one block.
* `Manifest.extract_cases`: the ends that a manifest can come to.
* `Manifest.exists_reaches`: references are drawn in order.
* `Manifest.mem_loads_iff`: the references that a manifest has to draw.
* `analyze_eq_ok`: an analysis reads the files of a scan.
* `filter_entities_of_first`: the first manifest of a block.
* `manifests_own_blocks`: a block belongs to its first manifest.
* `Manifest.extract_breaks_off`: a manifest can fail between its references.
-/

namespace PluginAtlas

/-! ### Identifiers of blocks -/

theorem Ident.ofFile_ne_ofBlock (path : String) (root : Option String) (name : String) :
    Ident.ofFile path root ≠ Ident.ofBlock name := by
  intro h
  have hfile := Ident.ofFile_opens path root
  have hblock := Ident.ofBlock_opens name
  rw [h] at hfile
  rw [Opens, Text.startsWith, List.isPrefixOf_iff_prefix] at hfile hblock
  obtain ⟨rest, hrest⟩ := hfile
  obtain ⟨rest', hrest'⟩ := hblock
  have hfirst := congrArg List.head? (hrest.trans hrest'.symm)
  cases hfirst

/-! ### What a manifest adds -/

namespace Manifest

variable {f : SourceFile} {name : String} {fields : List (String × Json)}

/-- A manifest declares a block: it is an object with a name that is a text and not empty. -/
structure Declares (f : SourceFile) (name : String) (fields : List (String × Json)) : Prop where
  isObject : Json.parse f.source = .ok (.obj fields)
  hasName : fields.lookup "name" = some (.str name)
  nonempty : name ≠ ""

/-- A text that is read as a value, but declares no block. -/
def IsNameless (value : Json) : Prop :=
  ∀ fields name, value = .obj fields → fields.lookup "name" = some (.str name) → name = ""

/-- The ends that a manifest can come to. -/
theorem extract_cases (f : SourceFile) :
    (∃ error, Json.parse f.source = .error error ∧ error.isMalformed = true ∧
      extract f = ([.manifestInvalid f.relativePath error.message], .nothing)) ∨
    (∃ value, Json.parse f.source = .ok value ∧ IsNameless value ∧
      extract f = ([.manifestWithoutName f.relativePath], .nothing)) ∨
    (∃ count, Json.maxDigits < count ∧ Json.HasInteger f.source.toList count ∧
      extract f = ([], .failed (.tooManyDigits count))) ∨
    ∃ name fields, Declares f name fields ∧ extract f = ([], findings f name fields) := by
  unfold extract
  cases hparse : Json.parse f.source with
  | error error =>
    dsimp only
    split
    · next count hfault =>
      obtain ⟨hmany, hinteger⟩ := Json.hasInteger_of_parse hparse hfault
      exact .inr (.inr (.inl ⟨count, hmany, hinteger, rfl⟩))
    · next hfault =>
      refine .inl ⟨error, rfl, ?_, rfl⟩
      unfold Json.ParseError.isMalformed
      split
      · next count hdigits => exact absurd hdigits (hfault count)
      · rfl
  | ok value =>
    by_cases hnameless : IsNameless value
    · refine .inr (.inl ⟨value, rfl, hnameless, ?_⟩)
      split
      · cases ‹Except.ok value = _›
      · next fields hvalue =>
        cases hvalue
        split
        · next name hname => rw [if_pos (hnameless fields name rfl hname)]
        · rfl
      · rfl
    · simp only [IsNameless, not_forall] at hnameless
      obtain ⟨fields, name, rfl, hname, hne⟩ := hnameless
      refine .inr (.inr (.inr ⟨name, fields, ⟨hparse, hname, hne⟩, ?_⟩))
      simp [hname, hne]

/-- How far references are drawn: in order, up to the first whose target cannot be told. -/
structure Reaches (f : SourceFile) (block : Ident) (loads reached rest : List Load)
    (outcome : Outcome) : Prop where
  split : loads = reached ++ rest
  known : ∀ load ∈ reached, ∃ target, load.target f = .ok target
  findings : outcome.findings = reached.flatMap fun load => (load.findings f block).findings
  ending : (rest = [] ∧ outcome.failure = none) ∨
    ∃ load later error, rest = load :: later ∧ load.target f = .error error ∧
      outcome.failure = some (.unreachable error)

theorem exists_reaches (f : SourceFile) (block : Ident) (loads : List Load) :
    ∃ reached rest, Reaches f block loads reached rest
      (.sequence (loads.map fun load => load.findings f block)) := by
  induction loads with
  | nil => exact ⟨[], [], rfl, fun _ h => absurd h List.not_mem_nil, rfl, .inl ⟨rfl, rfl⟩⟩
  | cons load loads ih =>
    rw [List.map_cons, Outcome.sequence]
    cases htarget : load.target f with
    | error error =>
      have hfailed : load.findings f block = .failed (.unreachable error) := by
        rw [Load.findings, htarget, Outcome.reaching_error]
      rw [hfailed]
      exact ⟨[], load :: loads, rfl, fun _ h => absurd h List.not_mem_nil, rfl,
        .inr ⟨load, loads, error, rfl, htarget, rfl⟩⟩
    | ok target =>
      obtain ⟨reached, rest, h⟩ := ih
      have hfound : (load.findings f block).failure = none := by
        rw [load.findings_of_target htarget]
        rfl
      refine ⟨load :: reached, rest, ?_, ?_, ?_, ?_⟩
      · rw [List.cons_append, ← h.split]
      · exact List.forall_mem_cons.mpr ⟨⟨target, htarget⟩, h.known⟩
      · rw [Outcome.followedBy, hfound, List.flatMap_cons, ← h.findings]
      · rw [Outcome.followedBy, hfound]
        exact h.ending

section Reached

variable {block : Ident} {loads reached rest : List Load} {outcome : Outcome}

/-- Each reference that is reached is drawn, and nothing else. -/
theorem Reaches.relation_mem_iff (h : Reaches f block loads reached rest outcome)
    {r : Relation} :
    .relation r ∈ outcome.findings ↔
      ∃ load ∈ reached, ∃ target, load.target f = .ok target ∧
        r = .between block load.kind (Ident.ofFile target f.root) load.label := by
  rw [h.findings, List.mem_flatMap]
  constructor
  · rintro ⟨load, hload, hr⟩
    obtain ⟨target, htarget⟩ := h.known load hload
    rw [load.findings_of_target htarget] at hr
    refine ⟨load, hload, target, htarget, ?_⟩
    simpa [Outcome.found, fileEntity] using hr
  · rintro ⟨load, hload, target, htarget, rfl⟩
    refine ⟨load, hload, ?_⟩
    rw [load.findings_of_target htarget]
    simp [Outcome.found, fileEntity]

theorem Reaches.relationIfKnown_notMem (h : Reaches f block loads reached rest outcome)
    {r : Relation} : .relationIfKnown r ∉ outcome.findings := by
  rw [h.findings, List.mem_flatMap]
  rintro ⟨load, hload, hr⟩
  obtain ⟨target, htarget⟩ := h.known load hload
  rw [load.findings_of_target htarget] at hr
  simp [Outcome.found] at hr

/-- Besides the block itself, a manifest adds no entity with the identifier of a block. -/
theorem Reaches.filter_entities (h : Reaches f block loads reached rest outcome)
    (other : String) :
    (outcome.findings.filterMap Finding.entity?).filter (·.id = Ident.ofBlock other) = [] := by
  rw [List.filter_eq_nil_iff]
  intro e he
  obtain ⟨x, hx, hentity⟩ := List.mem_filterMap.mp he
  rw [h.findings, List.mem_flatMap] at hx
  obtain ⟨load, hload, hx⟩ := hx
  obtain ⟨target, htarget⟩ := h.known load hload
  rw [load.findings_of_target htarget] at hx
  simp only [Outcome.found, List.mem_cons, List.not_mem_nil, or_false] at hx
  rcases hx with rfl | rfl
  · cases hentity
    exact fun hid => Ident.ofFile_ne_ofBlock _ _ _ (of_decide_eq_true hid)
  · cases hentity

end Reached

/-- Of the entities that a manifest adds, the block alone has the identifier of a block. -/
theorem filter_findings (f : SourceFile) (name : String) (fields : List (String × Json))
    (other : String) :
    ((findings f name fields).findings.filterMap Finding.entity?).filter
        (·.id = Ident.ofBlock other) =
      if Ident.ofBlock name = Ident.ofBlock other then [blockEntity f name fields] else [] := by
  obtain ⟨reached, rest, h⟩ := exists_reaches f (blockEntity f name fields).id (loads fields)
  have hrest := h.filter_entities other
  simp only [findings, Outcome.after, List.cons_append, List.nil_append, List.filterMap_cons,
    Finding.entity?, List.filter_cons, hrest, decide_eq_true_eq]
  rfl

theorem mem_texts {items : List Json} {reference : String} :
    reference ∈ texts items ↔ .str reference ∈ items ∧ reference ≠ "" := by
  simp only [texts, List.mem_filterMap, Option.filter_eq_some_iff, bne_iff_ne]
  constructor
  · rintro ⟨item, hitem, htext, hne⟩
    cases item <;> cases htext
    exact ⟨hitem, hne⟩
  · rintro ⟨hitem, hne⟩
    exact ⟨.str reference, hitem, rfl, hne⟩

theorem texts_singleton {reference : String} (h : reference ≠ "") :
    texts [.str reference] = [reference] := by
  rw [texts, List.filterMap_cons_some (b := reference) (by simp [Json.text?, h]),
    List.filterMap_nil]

theorem mem_references {field : Option Json} {reference : String}
    (h : reference ∈ references field) :
    reference ≠ "" ∧ ∃ value, field = some value ∧ Holds value reference := by
  unfold references at h
  split at h
  · next items =>
    obtain ⟨hitem, hne⟩ := mem_texts.mp h
    exact ⟨hne, _, rfl, .inr ⟨items, rfl, hitem⟩⟩
  · next value _ =>
    obtain ⟨hitem, hne⟩ := mem_texts.mp h
    exact ⟨hne, _, rfl, .inl (List.mem_singleton.mp hitem).symm⟩
  · cases h

/-- The references that a manifest has to draw, each by its own kind of relation. -/
theorem mem_loads_iff {load : Load} :
    load ∈ loads fields ↔
      load.reference ≠ "" ∧ RefersTo fields load.reference load.kind load.label := by
  constructor
  · intro h
    simp only [loads, List.mem_append, List.mem_map] at h
    rcases h with ⟨reference, hreference, rfl⟩ | ⟨reference, hreference, rfl⟩
    · unfold templates at hreference
      split at hreference
      · next template hrender =>
        obtain ⟨htext, hne⟩ := mem_texts.mp hreference
        obtain rfl := Json.str.inj (List.mem_singleton.mp htext)
        exact ⟨hne, .template hrender⟩
      · cases hreference
    · obtain ⟨key, hkey, hreference⟩ := List.mem_flatMap.mp hreference
      obtain ⟨hne, value, hvalue, hholds⟩ := mem_references hreference
      exact ⟨hne, .script hkey hvalue hholds⟩
  · rintro ⟨hne, hrefers⟩
    exact hrefers.mem_loads hne

/-- The kind of a reference tells its label. -/
theorem RefersTo.label_eq {reference reference' : String} {kind : RelationKind}
    {label label' : String} (h : RefersTo fields reference kind label)
    (h' : RefersTo fields reference' kind label') : label = label' := by
  cases h <;> cases h' <;> rfl

/-- The block is there when the manifest is recorded, whatever becomes of its references. -/
theorem has_recordAll_findings (f : SourceFile) (name : String) (fields : List (String × Json))
    (st : Store) :
    (st.recordAll (findings f name fields).findings).has (Ident.ofBlock name) = true := by
  have hblock : .entity (blockEntity f name fields) ∈ (findings f name fields).findings :=
    List.mem_cons_self
  have hhas := Store.has_recordAll_of_mem (s := st) hblock
  rwa [blockEntity] at hhas

section Recorded

variable {reached rest : List Load}
  (h : Reaches f (Ident.ofBlock name) (loads fields) reached rest
    (.sequence ((loads fields).map fun load => load.findings f (Ident.ofBlock name))))

include h

theorem relation_mem_findings_iff {r : Relation} :
    .relation r ∈ (findings f name fields).findings ↔
      ∃ load ∈ reached, ∃ target, load.target f = .ok target ∧
        r = .between (Ident.ofBlock name) load.kind (Ident.ofFile target f.root) load.label := by
  have hblock : (blockEntity f name fields).id = Ident.ofBlock name := rfl
  rw [← h.relation_mem_iff]
  simp [findings, Outcome.after, hblock]

theorem relationIfKnown_notMem_findings {r : Relation} :
    .relationIfKnown r ∉ (findings f name fields).findings := by
  have hblock : (blockEntity f name fields).id = Ident.ofBlock name := rfl
  have hnone := h.relationIfKnown_notMem (r := r)
  simpa [findings, Outcome.after, hblock] using hnone

/-- The relations of a manifest go out from one block, so no identifier can be read in two
ways among them. -/
theorem eq_of_id_eq {r other : Relation} (hr : .relation r ∈ (findings f name fields).findings)
    (hother : .relation other ∈ (findings f name fields).findings) (hid : r.id = other.id) :
    r = other := by
  have hrefers : ∀ load ∈ reached, RefersTo fields load.reference load.kind load.label := by
    intro load hload
    have hmem : load ∈ loads fields := h.split ▸ List.mem_append_left rest hload
    exact (mem_loads_iff.mp hmem).2
  obtain ⟨load, hload, target, -, rfl⟩ := (relation_mem_findings_iff h).mp hr
  obtain ⟨load', hload', target', -, rfl⟩ := (relation_mem_findings_iff h).mp hother
  have hkeyed : ∀ source kind target label,
      (Relation.between source kind target label).IsKeyed := fun _ _ _ _ => rfl
  rcases (Relation.id_eq_iff (hkeyed ..) (hkeyed ..)).mp hid with hsame | hmisread | hmisread
  · obtain ⟨hkind, htarget⟩ := Prod.mk.inj (Prod.mk.inj hsame).2
    have hkind : load.kind = load'.kind := hkind
    have hlabel := (hrefers load hload).label_eq (hkind ▸ hrefers load' hload')
    rw [hkind, hlabel]
    exact congrArg (Relation.between _ _ · _) htarget
  · exact absurd rfl hmisread.source_ne
  · exact absurd rfl hmisread.source_ne

/-- A manifest is recorded without loss, whatever the store holds. -/
theorem mem_relations_recordAll_findings {r : Relation} (st : Store)
    (hr : .relation r ∈ (findings f name fields).findings) :
    r ∈ (st.recordAll (findings f name fields).findings).relations := by
  obtain ⟨kept, hkept, hfound⟩ := Store.exists_relation?_of_mem (s := st) hr
  have hid : kept.id = r.id := by simpa using List.find?_some hkept
  rcases hfound with hfound | hfound
  · rw [← eq_of_id_eq h hfound hr hid]
    exact List.mem_of_find?_eq_some hkept
  · exact absurd hfound (relationIfKnown_notMem_findings h)

/-- Every reference that is reached is drawn in the store. -/
theorem exists_mem_relations_recordAll (st : Store) {load : Load} (hload : load ∈ reached) :
    ∃ target, load.target f = .ok target ∧
      .between (Ident.ofBlock name) load.kind (Ident.ofFile target f.root) load.label ∈
        (st.recordAll (findings f name fields).findings).relations := by
  obtain ⟨target, htarget⟩ := h.known load hload
  refine ⟨target, htarget, mem_relations_recordAll_findings h st ?_⟩
  exact (relation_mem_findings_iff h).mpr ⟨load, hload, target, htarget, rfl⟩

/-- What the store holds when a manifest is recorded was there before, or is drawn for one of
the references that are reached. -/
theorem of_mem_relations_recordAll {r : Relation} {st : Store}
    (hr : r ∈ (st.recordAll (findings f name fields).findings).relations) :
    r ∈ st.relations ∨ ∃ load ∈ reached, ∃ target, load.target f = .ok target ∧
      r = .between (Ident.ofBlock name) load.kind (Ident.ofFile target f.root) load.label := by
  rw [← relation_mem_findings_iff h]
  rcases Store.mem_relations_recordAll hr with hold | ⟨before, x, rest, hsplit, rfl | ⟨rfl, -⟩⟩
  · exact .inl hold
  · exact .inr (by simp [hsplit])
  · have hknown : .relationIfKnown r ∈ (findings f name fields).findings := by simp [hsplit]
    exact absurd hknown (relationIfKnown_notMem_findings h)

end Recorded

/-- A target that cannot be told is that of a reference to a file, and on a disk it is too
long, or a name on the way to it is. -/
theorem Load.of_target_error {load : Load} {error : DiskError} (h : load.target f = .error error) :
    ∃ reference, load.reference = "file:" ++ reference ∧
      let target := resolveLexically f.directory reference
      ∀ disk : FileTree, f.probe = disk.probe →
        target.isShort = false ∨ ∃ part ∈ target.parts, isShortName part = false := by
  rw [Load.target, resolveAsset] at h
  split at h
  · next reference hreference =>
    refine ⟨reference, Text.eq_append_of_dropStart? hreference, ?_⟩
    intro target disk hdisk
    rw [resolveReference, hdisk] at h
    by_contra hshort
    simp only [not_or, Bool.not_eq_false, not_exists, not_and] at hshort
    have hparts : ∀ part ∈ target.parts, isShortName part = true := hshort.2
    have hanswer := disk.probe_map_const hparts ""
    rw [hshort.1, Bool.or_true, if_pos rfl] at hanswer
    cases hprobe : disk.probe target with
    | error e =>
      rw [hprobe] at hanswer
      cases hanswer
    | ok found =>
      rw [hprobe] at h
      cases h
  · cases h

end Manifest

/-! ### What a script registers -/

namespace Outcome

theorem followedBy_assoc (first second third : Outcome) :
    (first.followedBy second).followedBy third = first.followedBy (second.followedBy third) := by
  unfold followedBy
  cases hfirst : first.failure with
  | some failure => simp [hfirst]
  | none => cases hsecond : second.failure <;> simp [hsecond]

theorem sequence_append (os next : List Outcome) :
    sequence (os ++ next) = (sequence os).followedBy (sequence next) := by
  induction os with
  | nil => rfl
  | cons o os ih => rw [List.cons_append, sequence, sequence, ih, followedBy_assoc]

end Outcome

namespace Script

variable {f : SourceFile} {item : Item} {name : String}

/-- The block that an item registers. -/
def registeredBlock (f : SourceFile) (item : Item) (name : String) : Entity where
  id := Ident.ofBlock name
  label := name
  kind := .block
  file := f.path
  line := item.line.line
  metadata := [("block_name", .str name)]

/-- An item that registers a block links the file to it. -/
theorem itemFindings_block (hkind : item.kind = .block) (hname : item.name = .str name) :
    itemFindings f item =
      .ok (below f (registeredBlock f item name) .registersBlock "registers") := by
  simp [itemFindings, hkind, hname, labelled, labelOf, Json.display, bind, Except.bind, pure,
    Except.pure, registeredBlock]

/-- An item is reached if none before it fails; what follows comes behind its findings. -/
theorem findings_reached {before : List Item} (hbefore : (findings f before).failure = none)
    {found : List Finding} (hitem : itemFindings f item = .ok found) (rest : List Item) :
    (findings f (before ++ item :: rest)).findings =
      (findings f before).findings ++ (found ++ (findings f rest).findings) := by
  have hfound : Outcome.attempt (itemFindings f item) .found = .found found := by rw [hitem]; rfl
  rw [findings, List.map_append, List.map_cons, Outcome.sequence_append, Outcome.sequence, hfound]
  change ((findings f before).followedBy _).findings = _
  rw [Outcome.followedBy, hbefore]
  rfl

/-- An entity below the file of a script, the file and the relation between them are held as
soon as they are recorded. -/
theorem recordAll_below (st : Store) (f : SourceFile) (e : Entity) (kind : RelationKind)
    (label : String) :
    let after := st.recordAll (below f e kind label)
    after.has f.id = true ∧ after.has e.id = true ∧
      .between f.id kind e.id label ∈ after.relations := by
  intro after
  have hstored := Store.relation?_addRelation ((st.addEntity e).addEntity (fileEntity f))
    (.between f.id kind e.id label) (Relation.between f.id kind e.id label).id
  rw [if_pos rfl] at hstored
  refine ⟨?_, ?_, List.mem_of_find?_eq_some hstored⟩
  · exact Store.has_recordAll_of_mem (e := fileEntity f) (by simp [below])
  · exact Store.has_recordAll_of_mem (e := e) (by simp [below])

end Script

/-! ### The first manifest of a block -/

/-- The manifest at a path declares a block. -/
def Site.DeclaresAt (site : Site) (path : Path) (f : SourceFile) (name : String)
    (fields : List (String × Json)) : Prop :=
  ∃ bytes, site.disk.read path = .ok bytes ∧ f = site.sourceFile path bytes ∧
    Manifest.Declares f name fields

/-- What is found in the manifest at a path that can be read. -/
theorem Site.found_manifest_of_read {site : Site} {path : Path} {bytes : List UInt8}
    (hread : site.disk.read path = .ok bytes) :
    (site.ownFate .manifest path).found =
      (Manifest.extract (site.sourceFile path bytes)).2.findings := by
  rw [ownFate_eq, hread]
  simp only [Fate.found, extract]

theorem Site.DeclaresAt.found_eq {site : Site} {path : Path} {f : SourceFile} {name : String}
    {fields : List (String × Json)} (h : site.DeclaresAt path f name fields) :
    (site.ownFate .manifest path).found = (Manifest.findings f name fields).findings := by
  obtain ⟨bytes, hread, rfl, hdeclares⟩ := h
  rw [found_manifest_of_read hread,
    Manifest.extract_of_name hdeclares.isObject hdeclares.hasName hdeclares.nonempty]

/-- A manifest adds nothing if it declares no block. -/
theorem Site.found_manifest (site : Site) (path : Path) :
    (site.ownFate .manifest path).found = [] ∨
      ∃ f name fields, site.DeclaresAt path f name fields := by
  cases hread : site.disk.read path with
  | error e =>
    rw [ownFate_eq, hread]
    exact .inl rfl
  | ok bytes =>
    rw [found_manifest_of_read hread]
    rcases Manifest.extract_cases (site.sourceFile path bytes) with
      ⟨_, -, -, hextract⟩ | ⟨_, -, -, hextract⟩ | ⟨_, -, -, hextract⟩ | ⟨name, fields, hdeclares, -⟩
    · exact .inl (by rw [hextract]; rfl)
    · exact .inl (by rw [hextract]; rfl)
    · exact .inl (by rw [hextract]; rfl)
    · exact .inr ⟨_, name, fields, bytes, hread, rfl, hdeclares⟩

/-- An analysis that comes to a graph has read the files of a scan. -/
theorem analyze_eq_ok {s : Surroundings} {path : String} {options : AnalysisOptions} {g : Graph}
    (h : (analyze s path options).value = .ok g) :
    ∃ files reader, s.files (canonicalPath path) options.blacklist = .ok files ∧
      let site : Site := ⟨s.disk, canonicalPath path, reader, s.php⟩
      g = (analyzeFiles s site site.fate files
        (options.hostPath.getD s.settings.hostPath)).value := by
  simp only [analyze] at h
  split at h
  · cases h
  · split at h
    · cases h
    · split at h
      · cases h
      · unfold Surroundings.files
        split at h
        · cases h
        · next rules hrules =>
          rw [hrules]
          rw [Traced.value_bind, Traced.value_bind] at h
          split at h
          · cases h
          · next reader _ =>
            refine ⟨_, reader, rfl, ?_⟩
            exact (Except.ok.inj h).symm

/-- In a folder, with a reader for its scripts, the files of a scan come to a graph. -/
theorem analyze_of_files {s : Surroundings} {path : String} {options : AnalysisOptions}
    {files : Scan} {reader : Script.ScriptReader}
    (hfolder : s.disk.hasFolder (canonicalPath path) = true)
    (hnull : (canonicalPath path).hasNull = false)
    (hreader : (options.reader.resolve s).value = .ok reader)
    (hfiles : s.files (canonicalPath path) options.blacklist = .ok files) :
    let site : Site := ⟨s.disk, canonicalPath path, reader, s.php⟩
    (analyze s path options).value = .ok (analyzeFiles s site site.fate files
      (options.hostPath.getD s.settings.hostPath)).value := by
  intro site
  have hprobe := FileTree.probe_of_has (FileTree.has_of_hasFolder hfolder)
  simp only [analyze, hprobe, hnull, hfolder]
  unfold Surroundings.files at hfiles
  cases hrules : ScanRules.of s.exclusion s.disk s.settings (canonicalPath path)
      options.blacklist none with
  | error e => simp [hrules, Except.map] at hfiles
  | ok rules =>
    obtain rfl : (scan s.disk (canonicalPath path) rules).value = files := by
      simpa [hrules, Except.map] using hfiles
    simp [hreader, site]

/-- The entity that comes first among those of its identifier is the only one that stays. -/
theorem firstPerKey_eq_singleton {α κ : Type} [DecidableEq κ] {key : α → κ} {a : α} {l : List α}
    (h : ∀ b ∈ l, key b = key a) : firstPerKey key (a :: l) = [a] := by
  rw [firstPerKey]
  congr 1
  rw [List.filter_eq_nil_iff]
  intro b hb
  simpa using h b (mem_of_mem_firstPerKey hb)

/-- A block that a manifest declares and none before it is the only entity with its
identifier, whatever is found later. -/
theorem filter_entities_of_first {site : Site} {files : Scan} {earlier later : List Path}
    {path : Path} (hfiles : files.manifests = earlier ++ path :: later) {f : SourceFile}
    {name : String} {fields : List (String × Json)} (hdeclares : site.DeclaresAt path f name fields)
    (hfirst : ∀ other ∈ earlier, ∀ f' name' fields', site.DeclaresAt other f' name' fields' →
      Ident.ofBlock name' ≠ Ident.ofBlock name) :
    (Run.ofScan site.fate files).value.store.entities.filter (·.id = Ident.ofBlock name) =
      [Manifest.blockEntity f name fields] := by
  rw [(Run.hasMet_ofScan_fate site files).store, Store.recordAll_entities,
    filter_firstPerKey fun a _ b _ h => by rw [h]]
  obtain ⟨rest, hsplit⟩ : ∃ rest, (files.queue.map fun file =>
      site.ownFate file.1 file.2).flatMap Fate.found =
        earlier.flatMap (fun other => (site.ownFate .manifest other).found) ++
          ((Manifest.findings f name fields).findings ++ rest) := by
    rw [← hdeclares.found_eq]
    simp [Scan.queue, hfiles, List.flatMap_map]
  have hearlier : ((earlier.flatMap fun other => (site.ownFate .manifest other).found).filterMap
      Finding.entity?).filter (·.id = Ident.ofBlock name) = [] := by
    rw [List.filter_eq_nil_iff]
    intro e he hid
    obtain ⟨x, hx, hentity⟩ := List.mem_filterMap.mp he
    obtain ⟨other, hother, hx⟩ := List.mem_flatMap.mp hx
    rcases site.found_manifest other with hnothing | ⟨f', name', fields', hdeclares'⟩
    · rw [hnothing] at hx
      cases hx
    · -- Another manifest has a block of its own, and files.
      rw [hdeclares'.found_eq] at hx
      have hmem : e ∈ ((Manifest.findings f' name' fields').findings.filterMap
          Finding.entity?).filter (·.id = Ident.ofBlock name) :=
        List.mem_filter.mpr ⟨List.mem_filterMap.mpr ⟨x, hx, hentity⟩, hid⟩
      rw [Manifest.filter_findings, if_neg (hfirst other hother _ _ _ hdeclares')] at hmem
      cases hmem
  rw [hsplit, List.filterMap_append, List.filterMap_append, List.filter_append, List.filter_append,
    hearlier, Manifest.filter_findings, if_pos rfl]
  refine firstPerKey_eq_singleton fun e he => ?_
  exact of_decide_eq_true (List.mem_filter.mp he).2

/-- The fields of a manifest with a title and a script beside it. -/
def contestedFields : List (String × Json) :=
  [("name", .str "a/b"), ("title", .str "T"), ("script", .arr [.str "file:./index.js", .int 7])]

/-- A plugin with that manifest, and a script. -/
def contestedEntries : List (String × FileTree) := [
  ("block.json", .file (Text.encode (Json.render .pretty (.obj contestedFields)))),
  ("index.js", .file [])]

@[inherit_doc contestedEntries]
def contestedPlugin : Surroundings where
  disk := .folder [("p", .folder contestedEntries)]
  settings := { defaultBlacklist := [], maxFileSize := 128 }
  launch := fun _ => default
  now := ""

/-- A reader that finds in each script another registration of the same block. -/
def contestingReader : Script.ScriptReader :=
  fun _ => pure (.ok [{ kind := .block, name := .str "a/b", line := .number 1 }])

/-- The files of the plugin. -/
def contestedFiles : Scan where
  manifests := [⟨.root, ["p", "block.json"]⟩]
  scripts := [⟨.root, ["p", "index.js"]⟩]

theorem contestedPlugin_files :
    contestedPlugin.files (canonicalPath "/p") none = .ok contestedFiles := by
  have hroot : canonicalPath "/p" = ⟨.root, ["p"]⟩ := by decide +kernel
  have hlocate : contestedPlugin.disk.locate (canonicalPath "/p") =
      .ok (.folder contestedEntries) := by
    rw [hroot]
    rfl
  have hpatterns : ignoreFilePatterns contestedPlugin.disk (canonicalPath "/p")
      contestedPlugin.settings.ignoreFiles = [] := by decide +kernel
  let rules : ScanRules := { excluded := excludes [], limit := 128 }
  have hrules : ScanRules.of contestedPlugin.exclusion contestedPlugin.disk
      contestedPlugin.settings (canonicalPath "/p") none none = .ok rules := by
    rw [ScanRules.of, hpatterns]
    rfl
  have hsight : contestedEntries.flatMap (FileTree.sightEntry rules []) =
      [.found ["block.json"] .manifest, .found ["index.js"] .script] := by decide +kernel
  let found (kind : FileKind) : Option Path :=
    if kind = .manifest then contestedFiles.manifests.head?
    else if kind = .script then contestedFiles.scripts.head? else none
  refine Surroundings.files_of_few found hrules hlocate fun kind => ?_
  rw [hsight, hroot]
  cases kind <;> rfl

/-- The fields of a manifest whose template has a name that is too long for a disk. -/
def unreachableFields : List (String × Json) :=
  [("name", .str "a/b"), ("render", .str ("file:" ++ uniformName 256))]

/-- The manifest, in a folder that exists. -/
def unreachableManifest : SourceFile where
  path := "/p/vendor/block.json"
  source := Json.render .pretty (.obj unreachableFields)
  probe := vendorDisk.probe

theorem target_unreachable :
    (Manifest.Load.mk .rendersBlock "renders" ("file:" ++ uniformName 256)).target
      unreachableManifest = .error ⟨.tooLong, vendorPath 256⟩ := by
  have hname : Path.IsName (uniformName 256) := isName_uniformName (by decide)
  have hhead : (uniformName 256).toList.head? = some 'a' := head?_uniformName (by decide)
  have hfile : Path.IsAbsolute unreachableManifest.path (["p", "vendor"] ++ ["block.json"]) :=
    ⟨by decide, by decide⟩
  have hdirectory : Path.IsAbsolute unreachableManifest.directory ["p", "vendor"] :=
    hfile.directory
  have hleads : Path.LeadsTo ["p", "vendor"] ["p", "vendor", uniformName 256] (uniformName 256) :=
    ⟨⟨["p", "vendor"], [], [uniformName 256], _, rfl, rfl, .plain, by simp [Text.join]⟩,
      by simp [hhead], by simp [hhead]⟩
  have htarget := hleads.resolveLexically_eq hdirectory
    (by simpa using ⟨by decide, by decide, hname⟩)
  rw [Manifest.Load.target, Manifest.resolveAsset_file]
  refine resolveReference_of_error ?_
  have hprobe : unreachableManifest.probe = vendorDisk.probe := rfl
  rw [htarget, hprobe]
  exact probe_vendorDisk (n := 256) (by decide) (by decide)

end PluginAtlas
