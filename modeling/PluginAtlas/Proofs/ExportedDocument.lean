import PluginAtlas.Proofs.JsonRoundTrip
import PluginAtlas.Proofs.Utf8RoundTrip
import PluginAtlas.Proofs.WrittenFiles
import PluginAtlas.Service

/-!
# The exported document

The document of a graph holds the head of the plugin, all entities and all relations. It is
written as JSON text, and the file can be read back without loss. The metadata of an entity
is laid over the common keys: these come first, in their order, with the stored value or
null, and the other stored fields follow as they are stored. So every stored field is in
the document, and no key is in it twice.

The metadata must be plain: without doubles, and with one value for each key. The numbers
of the graph itself, its lines and totals, must have no more digits than can be read.

## Main definitions

* `Json.overlay`: fields with the values that other fields give to their keys.
* `Entity.fullMetadata`: the metadata of an entity with all common keys.
* `Graph.numbers`: the lines and totals of a graph.

## Main results

* `Json.foldl_insertField`: adding fields one by one is laying them over.
* `Entity.exportedMetadata_eq`: the metadata of the document.
* `Service.read_written`: the file of the document holds its text.
* `Graph.document_read_back`: the file of the document has the document as its value.
-/

namespace PluginAtlas

namespace Json

/-! ### Fields laid over others -/

/-- Fields with the values that other fields give to their keys. -/
def overlay (upper fields : List (String × Json)) : List (String × Json) :=
  fields.map fun field => (field.1, (upper.lookup field.1).getD field.2)

theorem keys_overlay (upper fields : List (String × Json)) :
    (overlay upper fields).map Prod.fst = fields.map Prod.fst := by
  simp [overlay, Function.comp_def]

theorem lookup_of_notMem {key : String} {fields : List (String × Json)}
    (h : key ∉ fields.map Prod.fst) : fields.lookup key = none := by
  rw [List.lookup_eq_none_iff]
  intro field hfield
  rw [bne_iff_ne]
  rintro rfl
  exact h (List.mem_map_of_mem hfield)

theorem lookup_of_mem {fields : List (String × Json)} (hkeys : (fields.map Prod.fst).Nodup)
    {key : String} {value : Json} (h : (key, value) ∈ fields) : fields.lookup key = some value := by
  obtain ⟨before, after, rfl⟩ := List.append_of_mem h
  refine List.lookup_eq_some_iff.mpr ⟨before, after, rfl, fun field hfield => ?_⟩
  rw [bne_iff_ne]
  exact fun heq => notMem_keys_of_nodup hkeys (heq ▸ List.mem_map_of_mem hfield)

theorem overlay_nil (fields : List (String × Json)) : overlay [] fields = fields := by
  simp [overlay]

theorem overlay_cons_of_notMem {key : String} (value : Json) (upper : List (String × Json))
    {fields : List (String × Json)} (h : key ∉ fields.map Prod.fst) :
    overlay ((key, value) :: upper) fields = overlay upper fields := by
  refine List.map_congr_left fun field hfield => ?_
  have hne : field.1 ≠ key := fun heq => h (heq ▸ List.mem_map_of_mem hfield)
  rw [List.lookup_cons, beq_false_of_ne hne]

theorem insertField_of_mem {key : String} (value : Json) {fields : List (String × Json)}
    (hkeys : (fields.map Prod.fst).Nodup) (h : key ∈ fields.map Prod.fst) :
    insertField key value fields = overlay [(key, value)] fields := by
  induction fields with
  | nil => simp at h
  | cons field fields ih =>
    obtain ⟨hfresh, hrest⟩ := List.nodup_cons.mp hkeys
    by_cases heq : field.1 = key
    · -- the key stands nowhere behind its first place
      subst heq
      rw [insertField, if_pos rfl, overlay, List.map_cons, ← overlay,
        overlay_cons_of_notMem value [] hfresh, overlay_nil]
      simp
    · have hmem : key ∈ fields.map Prod.fst := by simpa [Ne.symm heq] using h
      rw [insertField, if_neg heq, ih hrest hmem, overlay, overlay, List.map_cons,
        List.lookup_cons, beq_false_of_ne heq]
      rfl

theorem overlay_overlay {key : String} (value : Json) {upper : List (String × Json)}
    (h : key ∉ upper.map Prod.fst) (fields : List (String × Json)) :
    overlay upper (overlay [(key, value)] fields) = overlay ((key, value) :: upper) fields := by
  simp only [overlay, List.map_map]
  refine List.map_congr_left fun field hfield => ?_
  by_cases heq : field.1 = key
  · simp [List.lookup_cons, heq, lookup_of_notMem h]
  · simp [List.lookup_cons, beq_false_of_ne heq]

/-- Fields added one by one replace the values of the keys that are there, and the others
are added behind them in their order. -/
theorem foldl_insertField {upper fields : List (String × Json)}
    (hupper : (upper.map Prod.fst).Nodup) (hfields : (fields.map Prod.fst).Nodup) :
    upper.foldl (fun done (key, value) => insertField key value done) fields =
      overlay upper fields ++ upper.filter fun field => field.1 ∉ fields.map Prod.fst := by
  induction upper generalizing fields with
  | nil => simp [overlay_nil]
  | cons field upper ih =>
    obtain ⟨key, value⟩ := field
    obtain ⟨hfresh, hrest⟩ : key ∉ upper.map Prod.fst ∧ (upper.map Prod.fst).Nodup :=
      List.nodup_cons.mp hupper
    simp only [List.foldl_cons]
    by_cases hmem : key ∈ fields.map Prod.fst
    · -- the value changes in place, and the keys that later fields are compared with do not
      rw [insertField_of_mem value hfields hmem, ih hrest (by rwa [keys_overlay]),
        overlay_overlay value hfresh, keys_overlay, List.filter_cons_of_neg (by simpa using hmem)]
    · -- the field goes to the end, where none of the later ones finds its key
      have hkeys : ((fields ++ [(key, value)]).map Prod.fst).Nodup := by
        rw [List.map_append, List.nodup_append]
        refine ⟨hfields, by simp, fun a ha b hb hab => hmem ?_⟩
        obtain rfl : b = key := by simpa using hb
        exact hab ▸ ha
      have hfilter : (upper.filter fun field => field.1 ∉ (fields ++ [(key, value)]).map Prod.fst) =
          upper.filter fun field => field.1 ∉ fields.map Prod.fst := by
        refine List.filter_congr fun field hfield => ?_
        have hne : field.1 ≠ key := fun heq => hfresh (heq ▸ List.mem_map_of_mem hfield)
        simp [hne]
      rw [insertField_of_notMem value hmem, ih hrest hkeys, hfilter,
        overlay_cons_of_notMem value upper hmem, List.filter_cons_of_pos (by simpa using hmem)]
      simp [overlay, lookup_of_notMem hfresh]

theorem ofText?_eq (text : Option String) : Json.ofText? text = text.elim .null .str := by
  cases text <;> rfl

theorem IsPlain.ofText? (text : Option String) : IsPlain (Json.ofText? text) := by
  cases text with
  | none => exact .null
  | some s => exact .str s

theorem IsPlain.keys_nodup {fields : List (String × Json)} (h : IsPlain (.obj fields)) :
    (fields.map Prod.fst).Nodup := by
  cases h with
  | obj hkeys => exact hkeys

theorem IsPlain.field {fields : List (String × Json)} (h : IsPlain (.obj fields)) :
    ∀ field ∈ fields, IsPlain field.2 := by
  cases h with
  | obj hkeys hvalues => exact hvalues

/-- An object that holds nothing but plain data under one key. -/
theorem IsPlain.single {value : Json} (h : IsPlain value) (key : String) :
    IsPlain (.obj [(key, value)]) :=
  .obj (by simp) (by simpa using h)

end Json

/-! ### Metadata -/

namespace Entity

theorem metadataKeys_nodup : metadataKeys.Nodup := by decide

/-- The common keys, with the stored value or null, and then the other stored fields as they
are stored. -/
def fullMetadata (e : Entity) : List (String × Json) :=
  metadataKeys.map (fun key => (key, (e.metadata.lookup key).getD .null)) ++
    e.metadata.filter fun field => field.1 ∉ metadataKeys

/-- The metadata of the document is full. -/
theorem exportedMetadata_eq {e : Entity} (h : (e.metadata.map Prod.fst).Nodup) :
    e.exportedMetadata = e.fullMetadata := by
  have hkeys : (metadataKeys.map fun key => (key, Json.null)).map Prod.fst = metadataKeys := by
    simp [Function.comp_def]
  rw [exportedMetadata, Json.foldl_insertField h (by rw [hkeys]; exact metadataKeys_nodup), hkeys,
    Json.overlay, List.map_map]
  rfl

theorem keys_fullMetadata (e : Entity) :
    e.fullMetadata.map Prod.fst =
      metadataKeys ++ (e.metadata.map Prod.fst).filter fun key => key ∉ metadataKeys := by
  rw [fullMetadata, List.map_append, List.map_map, List.filter_map]
  simp [Function.comp_def]

theorem fullMetadata_keys_nodup {e : Entity} (h : (e.metadata.map Prod.fst).Nodup) :
    (e.fullMetadata.map Prod.fst).Nodup := by
  rw [keys_fullMetadata, List.nodup_append]
  refine ⟨metadataKeys_nodup, h.filter _, ?_⟩
  rintro a ha b hb rfl
  simp [ha] at hb

/-- No stored field is lost. -/
theorem metadata_subset_fullMetadata {e : Entity} (h : (e.metadata.map Prod.fst).Nodup) :
    e.metadata ⊆ e.fullMetadata := by
  rintro ⟨key, value⟩ hfield
  rw [fullMetadata, List.mem_append]
  by_cases hkey : key ∈ metadataKeys
  · refine .inl (List.mem_map.mpr ⟨key, hkey, ?_⟩)
    rw [Json.lookup_of_mem h hfield, Option.getD_some]
  · exact .inr (List.mem_filter.mpr ⟨hfield, by simpa using hkey⟩)

theorem fullMetadata_isPlain {e : Entity} (h : Json.IsPlain (.obj e.metadata)) :
    Json.IsPlain (.obj e.fullMetadata) := by
  refine .obj (fullMetadata_keys_nodup h.keys_nodup) ?_
  intro field hfield
  rw [fullMetadata, List.mem_append] at hfield
  rcases hfield with hfield | hfield
  · -- the null of a common key that is not stored, or the stored value
    obtain ⟨key, -, rfl⟩ := List.mem_map.mp hfield
    cases hvalue : e.metadata.lookup key with
    | none => exact .null
    | some value =>
      obtain ⟨before, after, hsplit, -⟩ := List.lookup_eq_some_iff.mp hvalue
      exact h.field (key, value) (by simp [hsplit])
  · exact h.field field (List.mem_filter.mp hfield).1

end Entity

/-! ### The document -/

/-- The lines and totals of a graph. -/
def Graph.numbers (g : Graph) : List Nat :=
  g.plugin.totalFiles :: g.plugin.totalEntities :: g.entities.map Entity.line

theorem Entity.toJson_isPlain {e : Entity} (hmetadata : Json.IsPlain (.obj e.metadata))
    (hline : (Nat.toDigits 10 e.line).length ≤ Json.maxDigits) :
    Json.IsPlain (e.toJson e.exportedMetadata) := by
  rw [exportedMetadata_eq hmetadata.keys_nodup]
  refine .obj (by simp) ?_
  simp only [List.forall_mem_cons, List.not_mem_nil, false_implies, implies_true, and_true]
  exact ⟨.str _, .str _, .str _, .ofText? _, .str _, .int hline, fullMetadata_isPlain hmetadata,
    .ofText? _, .ofText? _, .ofText? _⟩

theorem Relation.toJson_isPlain (r : Relation) : Json.IsPlain r.toJson := by
  refine .obj (by simp) ?_
  simp only [List.forall_mem_cons, List.not_mem_nil, false_implies, implies_true, and_true]
  exact ⟨.str _, .str _, .str _, .str _, .str _⟩

theorem PluginInfo.toJson_isPlain {p : PluginInfo}
    (hfiles : (Nat.toDigits 10 p.totalFiles).length ≤ Json.maxDigits)
    (hentities : (Nat.toDigits 10 p.totalEntities).length ≤ Json.maxDigits) :
    Json.IsPlain p.toJson := by
  refine .obj (by simp) ?_
  simp only [List.forall_mem_cons, List.not_mem_nil, false_implies, implies_true, and_true]
  exact ⟨.str _, .str _, .str _, .str _, .int hfiles, .int hentities, .str _, .str _, .str _⟩

theorem Graph.document_isPlain {g : Graph}
    (hmetadata : ∀ e ∈ g.entities, Json.IsPlain (.obj e.metadata))
    (hnumbers : ∀ n ∈ g.numbers, (Nat.toDigits 10 n).length ≤ Json.maxDigits) :
    Json.IsPlain g.document := by
  have hplugin : Json.IsPlain g.plugin.toJson :=
    PluginInfo.toJson_isPlain (hnumbers _ (by simp [numbers])) (hnumbers _ (by simp [numbers]))
  have hnodes : ∀ node ∈ g.entities.map fun e => Json.obj [("data", e.toJson e.exportedMetadata)],
      Json.IsPlain node := by
    intro node hnode
    obtain ⟨e, he, rfl⟩ := List.mem_map.mp hnode
    have hline : e.line ∈ g.numbers := by
      simp only [numbers, List.mem_cons, List.mem_map]
      exact .inr (.inr ⟨e, he, rfl⟩)
    exact (Entity.toJson_isPlain (hmetadata e he) (hnumbers _ hline)).single "data"
  have hedges : ∀ edge ∈ g.relations.map fun r => Json.obj [("data", r.toJson)],
      Json.IsPlain edge := by
    intro edge hedge
    obtain ⟨r, -, rfl⟩ := List.mem_map.mp hedge
    exact r.toJson_isPlain.single "data"
  refine .obj (by simp) ?_
  simp only [List.forall_mem_cons, List.not_mem_nil, false_implies, implies_true, and_true]
  exact ⟨hplugin, .arr hnodes, .arr hedges⟩

/-- The entities of the document come with their full metadata. -/
theorem Graph.map_toJson_exportedMetadata {g : Graph}
    (h : ∀ e ∈ g.entities, (e.metadata.map Prod.fst).Nodup) :
    (g.entities.map fun e => Json.obj [("data", e.toJson e.exportedMetadata)]) =
      g.entities.map fun e => Json.obj [("data", e.toJson e.fullMetadata)] :=
  List.map_congr_left fun e he => by rw [Entity.exportedMetadata_eq (h e he)]

/-- The file of a document holds the text of the document. -/
theorem Service.read_written {s : Service} {request : AnalyzeRequest} {output : String}
    (houtput : request.output = some output) (hne : output ≠ "") {document : Json}
    {disk : FileTree} (h : s.written request document = .ok disk) :
    disk.read (s.outputPath output) = .ok (Text.encode (Json.render .pretty document)) := by
  unfold written at h
  split at h
  · next hnone => cases houtput.symm.trans hnone
  · next hempty => exact absurd (Option.some.inj (houtput.symm.trans hempty)) hne
  · next other hother =>
    obtain rfl := Option.some.inj (houtput.symm.trans hother)
    exact FileTree.read_write h

/-- The document of a graph has the head of the plugin, all entities and all relations in their
order, and the full metadata of each entity: every stored field, and no key twice. The text of
the document has the document as its value, with all keys in their order, and so has the file
that the document is written to. -/
theorem Graph.document_read_back (g : Graph)
    (hmetadata : ∀ e ∈ g.entities, Json.IsPlain (.obj e.metadata))
    (hnumbers : ∀ n ∈ g.numbers, (Nat.toDigits 10 n).length ≤ Json.maxDigits) :
    g.document = .obj [
      ("plugin", .obj [
        ("name", .str g.plugin.name), ("version", .str g.plugin.version),
        ("description", .str g.plugin.description), ("main_file", .str g.plugin.mainFile),
        ("total_files", .int g.plugin.totalFiles), ("total_entities", .int g.plugin.totalEntities),
        ("analyzed_at", .str g.plugin.analyzedAt),
        ("analyzer_version", .str g.plugin.analyzerVersion),
        ("host_path", .str g.plugin.hostPath)]),
      ("nodes", .arr (g.entities.map fun e => .obj [("data", .obj [
        ("id", .str e.id.text), ("label", .str e.label), ("type", .str e.kind.word),
        ("subtype", e.subtype.elim .null .str), ("file", .str e.file), ("line", .int e.line),
        ("metadata", .obj e.fullMetadata), ("docblock", e.docblock.elim .null .str),
        ("description", e.description.elim .null .str),
        ("source_preview", e.sourcePreview.elim .null .str)])])),
      ("edges", .arr (g.relations.map fun r => .obj [("data", .obj [
        ("id", .str r.id), ("source", .str r.source.text), ("target", .str r.target.text),
        ("type", .str r.kind.word), ("label", .str r.label)])]))] ∧
    (∀ e ∈ g.entities, (e.fullMetadata.map Prod.fst).Nodup ∧ e.metadata ⊆ e.fullMetadata) ∧
    Json.parse (Json.render .pretty g.document) = .ok g.document ∧
    ∀ (s : Service) (request : AnalyzeRequest) (output : String) (disk : FileTree),
      request.output = some output → output ≠ "" → s.written request g.document = .ok disk →
      ∃ bytes text, disk.read (s.outputPath output) = .ok bytes ∧ Text.decode? bytes = some text ∧
        Json.parse text = .ok g.document := by
  have hkeys : ∀ e ∈ g.entities, (e.metadata.map Prod.fst).Nodup := fun e he =>
    (hmetadata e he).keys_nodup
  have hread := Json.parse_render .pretty (document_isPlain hmetadata hnumbers)
  refine ⟨?_, fun e he => ?_, hread, ?_⟩
  · rw [document, map_toJson_exportedMetadata hkeys]
    simp only [PluginInfo.toJson, Entity.toJson, Relation.toJson, Json.ofText?_eq]
  · exact ⟨Entity.fullMetadata_keys_nodup (hkeys e he),
      Entity.metadata_subset_fullMetadata (hkeys e he)⟩
  · intro s request output disk houtput hne hwritten
    exact ⟨_, _, Service.read_written houtput hne hwritten, Text.decode?_encode _, hread⟩

/-- A hook with stored values of every sort: of a common key and of others, with
characters that are escaped and with empty and nested parts. -/
def taggedHook : Graph where
  entities := [{
    id := Ident.ofHook "action" "init", label := "init", kind := .hook, line := 12
    metadata := [
      ("tags", .arr [.str "a\"\\\n\u0001é", .null, .bool true, .arr [], .obj []]),
      ("priority", .int (-5)), ("\t", .obj [("x", .arr [.int 0]), ("", .bool false)])] }]
  relations := []
  plugin := { name := "shop", analyzedAt := "2026-01-01T00:00:00", analyzerVersion := "1" }

/-- A service on an empty disk. -/
def emptyService : Service where
  surroundings := { disk := .folder [], settings := {}, launch := fun _ => default, now := "" }
  answers := fun _ => default

/-- A request to write the document to a file, whose folder is missing. -/
def outputRequest : AnalyzeRequest where
  path := ""
  blacklist := none
  scriptParser := none
  descriptions := false
  output := some "graphs/../graph.json"

/-- The document of the hook, written to a file, is read back with the stored values. -/
theorem Graph.document_read_back_taggedHook :
    ∃ disk bytes text, emptyService.written outputRequest taggedHook.document = .ok disk ∧
      disk.read (emptyService.outputPath "graphs/../graph.json") = .ok bytes ∧
      Text.decode? bytes = some text ∧ Json.parse text = .ok taggedHook.document ∧
      ∀ e ∈ taggedHook.entities, e.fullMetadata.lookup "priority" = some (.int (-5)) ∧
        e.fullMetadata.map Prod.fst = metadataKeys ++ ["tags", "\t"] := by
  have hmetadata : ∀ e ∈ taggedHook.entities, Json.IsPlain (.obj e.metadata) := by
    intro e he
    obtain rfl := List.mem_singleton.mp he
    have htags : Json.IsPlain
        (.arr [.str "a\"\\\n\u0001é", .null, .bool true, .arr [], .obj []]) := by
      refine .arr ?_
      simp only [List.forall_mem_cons, List.not_mem_nil, false_implies, implies_true, and_true]
      exact ⟨.str _, .null, .bool true, .arr (by simp), .obj (by simp) (by simp)⟩
    have hnested : Json.IsPlain (.obj [("x", .arr [.int 0]), ("", .bool false)]) := by
      refine .obj (by decide) ?_
      simp only [List.forall_mem_cons, List.not_mem_nil, false_implies, implies_true, and_true]
      exact ⟨.arr (by simpa using .int (by decide)), .bool false⟩
    refine .obj (by decide) ?_
    simp only [List.forall_mem_cons, List.not_mem_nil, false_implies, implies_true, and_true]
    exact ⟨htags, .int (by decide), hnested⟩
  have hnumbers : ∀ n ∈ taggedHook.numbers, (Nat.toDigits 10 n).length ≤ Json.maxDigits := by
    decide
  obtain ⟨disk, hwritten⟩ : ∃ disk,
      emptyService.written outputRequest taggedHook.document = .ok disk := by
    have hok : (emptyService.written outputRequest taggedHook.document).isOk = true := by
      decide +kernel
    cases hwritten : emptyService.written outputRequest taggedHook.document with
    | error e => simp [hwritten, Except.isOk, Except.toBool] at hok
    | ok disk => exact ⟨disk, rfl⟩
  obtain ⟨-, -, -, hfile⟩ := document_read_back taggedHook hmetadata hnumbers
  obtain ⟨bytes, text, hbytes, htext, hread⟩ :=
    hfile emptyService outputRequest _ disk rfl (by decide) hwritten
  refine ⟨disk, bytes, text, hwritten, hbytes, htext, hread, fun e he => ?_⟩
  obtain rfl := List.mem_singleton.mp he
  exact ⟨rfl, rfl⟩

end PluginAtlas
