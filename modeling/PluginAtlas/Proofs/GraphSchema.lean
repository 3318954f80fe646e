import PluginAtlas.Proofs.LexicalScope
import PluginAtlas.Proofs.Recording

/-!
# The schema of the graph

An identifier shows by its opening what kind of entity it belongs to, and the kind of a
relation says between which openings it runs. Every extractor keeps to this, on any
syntax tree, any report and any manifest, so every store that files lead to does.

## Main definitions

* `Ident.Opens`: an identifier that begins with a given mark.
* `EntityKind.opening`, `RelationKind.ends`: the marks of kinds.
* `Entity.Fits`, `Relation.Fits`, `Finding.Fits`: records that keep to the schema.

## Main results

* `Php.extract_fits`, `Script.findings_fits`, `Manifest.extract_fits`: extractors keep to
  the schema.
* `Store.readAll_fits`: so do all stores that files lead to.
-/

namespace PluginAtlas

/-! ### Openings of identifiers -/

namespace Ident

/-- An identifier that begins with a mark. -/
def Opens (id : Ident) (mark : String) : Prop := Text.startsWith mark id.text

/-- A mark of safe characters is not changed when a text is made safe. -/
theorem sanitize_opens {mark : String} (rest : String)
    (h : mark.toList.all isIdentChar = true) : (sanitize (mark ++ rest)).Opens mark := by
  have hmark : mark.toList.map identChar = mark.toList := by
    refine (List.map_congr_left fun c hc => ?_).trans (List.map_id _)
    simp [identChar, List.all_eq_true.mp h c hc]
  simp only [Opens, Text.startsWith, sanitize, String.toList_ofList, String.toList_append,
    List.map_append, hmark, List.isPrefixOf_iff_prefix]
  exact List.prefix_append _ _

theorem sanitize_opens_join {mark : String} (first between last : String)
    (h : mark.toList.all isIdentChar = true) :
    (sanitize (mark ++ first ++ between ++ last)).Opens mark := by
  rw [String.append_assoc, String.append_assoc]
  exact sanitize_opens _ h

@[simp] theorem ofClass_opens (name : String) : (ofClass name).Opens "class_" :=
  sanitize_opens _ (by decide)

@[simp] theorem ofMethod_opens (owner name : String) : (ofMethod owner name).Opens "method_" :=
  sanitize_opens_join _ _ _ (by decide)

@[simp] theorem ofFunction_opens (name : String) : (ofFunction name).Opens "func_" :=
  sanitize_opens _ (by decide)

@[simp] theorem ofClosure_opens (file : String) (line : LineMark) :
    (ofClosure file line).Opens "func_" := by
  rw [ofClosure, show "func_anonymous_" = "func_" ++ "anonymous_" from rfl, String.append_assoc]
  exact sanitize_opens _ (by decide)

@[simp] theorem ofFile_opens (path : String) (root : Option String) :
    (ofFile path root).Opens "file_" :=
  sanitize_opens _ (by decide)

@[simp] theorem ofDynamicFile_opens (file : String) (line : LineMark) :
    (ofDynamicFile file line).Opens "file_" := by
  rw [ofDynamicFile, show "file_dynamic_" = "file_" ++ "dynamic_" from rfl, String.append_assoc]
  exact sanitize_opens _ (by decide)

@[simp] theorem ofHook_opens (kind name : String) : (ofHook kind name).Opens "hook_" :=
  sanitize_opens_join _ _ _ (by decide)

@[simp] theorem ofDataSource_opens (operation : String) (key : Option String) (file : String)
    (line : LineMark) : (ofDataSource operation key file line).Opens "data_" := by
  cases key with
  | none => exact sanitize_opens_join _ _ _ (by decide)
  | some key => exact sanitize_opens_join _ _ _ (by decide)

@[simp] theorem ofAjaxHandler_opens (action : String) : (ofAjaxHandler action).Opens "ajax_" :=
  sanitize_opens _ (by decide)

@[simp] theorem ofRestEndpoint_opens (method route : String) :
    (ofRestEndpoint method route).Opens "rest_" :=
  sanitize_opens_join _ _ _ (by decide)

@[simp] theorem ofShortcode_opens (tag : String) : (ofShortcode tag).Opens "shortcode_" :=
  sanitize_opens _ (by decide)

@[simp] theorem ofAdminPage_opens (slug : String) : (ofAdminPage slug).Opens "admin_" :=
  sanitize_opens _ (by decide)

@[simp] theorem ofCronJob_opens (hook : String) : (ofCronJob hook).Opens "cron_" :=
  sanitize_opens _ (by decide)

@[simp] theorem ofPostType_opens (slug : String) : (ofPostType slug).Opens "post_type_" :=
  sanitize_opens _ (by decide)

@[simp] theorem ofTaxonomy_opens (slug : String) : (ofTaxonomy slug).Opens "taxonomy_" :=
  sanitize_opens _ (by decide)

@[simp] theorem ofHttpCall_opens (url : Option String) (file : String) (line : LineMark) :
    (ofHttpCall url file line).Opens "http_" :=
  sanitize_opens_join _ _ _ (by decide)

@[simp] theorem ofBlock_opens (name : String) : (ofBlock name).Opens "block_" :=
  sanitize_opens _ (by decide)

@[simp] theorem ofScriptHook_opens (kind name : String) :
    (ofScriptHook kind name).Opens "js_hook_" :=
  sanitize_opens_join _ _ _ (by decide)

@[simp] theorem ofScriptApiCall_opens (method path : String) :
    (ofScriptApiCall method path).Opens "js_api_" :=
  sanitize_opens_join _ _ _ (by decide)

@[simp] theorem ofComponent_opens (moduleName name : String) :
    (ofComponent moduleName name).Opens "component_" :=
  sanitize_opens_join _ _ _ (by decide)

@[simp] theorem ofScriptFunction_opens (moduleName name : String) :
    (ofScriptFunction moduleName name).Opens "js_func_" :=
  sanitize_opens_join _ _ _ (by decide)

@[simp] theorem ofScriptClass_opens (moduleName name : String) :
    (ofScriptClass moduleName name).Opens "js_class_" :=
  sanitize_opens_join _ _ _ (by decide)

@[simp] theorem ofReactHook_opens (name file : String) (line : LineMark) :
    (ofReactHook name file line).Opens "react_hook_" :=
  sanitize_opens_join _ _ _ (by decide)

@[simp] theorem ofCallSite_fetch_opens (file : String) (line : LineMark) :
    (ofCallSite "fetch" file line).Opens "fetch_" := by
  rw [ofCallSite, show "fetch" ++ "_" = "fetch_" from rfl]
  exact sanitize_opens _ (by decide)

@[simp] theorem ofCallSite_axios_opens (file : String) (line : LineMark) :
    (ofCallSite "axios" file line).Opens "axios_" := by
  rw [ofCallSite, show "axios" ++ "_" = "axios_" from rfl]
  exact sanitize_opens _ (by decide)

end Ident

/-! ### The schema -/

/-- The mark that the identifiers of a kind of entity begin with. -/
def EntityKind.opening : EntityKind → String
  | classKind | interface | trait | enum => "class_"
  | method => "method_"
  | function => "func_"
  | file => "file_"
  | hook => "hook_"
  | dataSource => "data_"
  | restEndpoint => "rest_"
  | ajaxHandler => "ajax_"
  | shortcode => "shortcode_"
  | adminPage => "admin_"
  | cronJob => "cron_"
  | postType => "post_type_"
  | taxonomy => "taxonomy_"
  | httpCall => "http_"
  | block => "block_"
  | jsHook => "js_hook_"
  | jsApiCall => "js_api_"
  | reactComponent => "component_"
  | reactHook => "react_hook_"
  | jsFunction => "js_func_"
  | jsClass => "js_class_"
  | fetchCall => "fetch_"
  | axiosCall => "axios_"

/-- The marks between which a kind of relation runs. -/
def RelationKind.ends : RelationKind → List (String × String)
  | .extends | .implements => [("class_", "class_")]
  | .hasMethod => [("class_", "method_")]
  | .calls =>
    [("func_", "class_"), ("method_", "class_"), ("file_", "fetch_"), ("file_", "axios_")]
  | .registersHook | .triggersHook => [("func_", "hook_"), ("method_", "hook_")]
  | .triggersHandler => [("hook_", "ajax_")]
  | .readsData | .writesData => [("func_", "data_"), ("method_", "data_")]
  | .includes => [("file_", "file_")]
  | .rendersBlock | .enqueuesScript => [("block_", "file_")]
  | .registersBlock => [("file_", "block_")]
  | .jsRegistersHook => [("file_", "js_hook_")]
  | .jsApiCall => [("file_", "js_api_")]
  | .defines => [("file_", "component_"), ("file_", "js_func_"), ("file_", "js_class_")]
  | .usesHook => [("file_", "react_hook_")]

/-- An entity whose identifier begins as its kind demands. -/
def Entity.Fits (e : Entity) : Prop := e.id.Opens e.kind.opening

/-- A relation whose ends begin as its kind demands. -/
def Relation.Fits (r : Relation) : Prop :=
  ∃ marks ∈ r.kind.ends, r.source.Opens marks.1 ∧ r.target.Opens marks.2

/-- A finding whose record keeps to the schema. -/
def Finding.Fits : Finding → Prop
  | entity e => e.Fits
  | relation r | relationIfKnown r => r.Fits

/-- A store whose records keep to the schema. -/
structure Store.Fits (s : Store) : Prop where
  entities : ∀ e ∈ s.entities, e.Fits
  relations : ∀ r ∈ s.relations, r.Fits

theorem Store.Fits.recordAll {s : Store} (hs : s.Fits) {xs : List Finding}
    (h : ∀ x ∈ xs, x.Fits) : (s.recordAll xs).Fits where
  entities e he := by
    rcases Store.mem_entities_recordAll he with he | he
    · exact hs.entities e he
    · exact h _ he
  relations r hr := by
    rcases Store.mem_relations_recordAll hr with hr | ⟨before, x, rest, rfl, rfl | ⟨rfl, -⟩⟩
    · exact hs.relations r hr
    · exact h (.relation r) (by simp)
    · exact h (.relationIfKnown r) (by simp)

/-! ### Scripts and manifests -/

theorem exists_of_bind_eq_ok {ε α β : Type} {x : Except ε α} {g : α → Except ε β} {b : β}
    (h : x >>= g = .ok b) : ∃ a, x = .ok a ∧ g a = .ok b := by
  cases x with
  | error e => cases h
  | ok a => exact ⟨a, rfl, h⟩

namespace Script

variable {f : SourceFile} {item : Item}

theorem below_fits {e : Entity} {kind : RelationKind} {label : String} (he : e.Fits)
    (hkind : ("file_", e.kind.opening) ∈ kind.ends) : ∀ x ∈ below f e kind label, x.Fits := by
  intro x hx
  simp only [below, List.mem_cons, List.not_mem_nil, or_false] at hx
  rcases hx with rfl | rfl | rfl
  · exact he
  · exact Ident.ofFile_opens f.path f.root
  · exact ⟨_, hkind, Ident.ofFile_opens f.path f.root, he⟩

theorem labelled_eq_ok {id : Ident} {kind : EntityKind} {e : Entity}
    (h : labelled f item id kind = .ok e) : e.id = id ∧ e.kind = kind := by
  obtain ⟨label, -, h⟩ := exists_of_bind_eq_ok h
  cases h
  exact ⟨rfl, rfl⟩

/-- What an item adds, if anything: an entity that keeps to the schema below its file. -/
def IsBelow (f : SourceFile) (xs : List Finding) : Prop :=
  ∃ e kind label, xs = below f e kind label ∧ e.Fits ∧ ("file_", e.kind.opening) ∈ kind.ends

/-- An entity with a label keeps to the schema below its file, whatever else is stated
of it. -/
theorem labelled_isBelow {id : Ident} {kind : EntityKind} {e changed : Entity}
    {relation : RelationKind} {label : String} (h : labelled f item id kind = .ok e)
    (hid : id.Opens kind.opening) (hrelation : ("file_", kind.opening) ∈ relation.ends)
    (hsame : changed.id = e.id) (hkind : changed.kind = e.kind) :
    IsBelow f (below f changed relation label) := by
  obtain ⟨hlabelled, hstated⟩ := labelled_eq_ok h
  refine ⟨changed, relation, label, rfl, ?_, ?_⟩
  · rw [Entity.Fits, hsame, hkind, hlabelled, hstated]
    exact hid
  · rw [hkind, hstated]
    exact hrelation

theorem itemFindings_cases {xs : List Finding} (h : itemFindings f item = .ok xs) :
    xs = [] ∨ IsBelow f xs := by
  unfold itemFindings at h
  cases hkind : item.kind with
  | block =>
    rw [hkind] at h
    obtain ⟨e, he, h⟩ := exists_of_bind_eq_ok h
    cases h
    exact Or.inr (labelled_isBelow he (Ident.ofBlock_opens _) (by decide) rfl rfl)
  | hook =>
    rw [hkind] at h
    obtain ⟨e, he, h⟩ := exists_of_bind_eq_ok h
    cases h
    exact Or.inr (labelled_isBelow he (Ident.ofScriptHook_opens _ _) (by decide) rfl rfl)
  | apiCall =>
    rw [hkind] at h
    cases h
    exact Or.inr ⟨_, _, _, rfl, Ident.ofScriptApiCall_opens _ _, List.mem_cons_self⟩
  | fetchCall =>
    rw [hkind] at h
    obtain ⟨e, he, h⟩ := exists_of_bind_eq_ok h
    cases h
    exact Or.inr (labelled_isBelow he (Ident.ofCallSite_fetch_opens _ _) (by decide) rfl rfl)
  | axiosCall =>
    rw [hkind] at h
    obtain ⟨e, he, h⟩ := exists_of_bind_eq_ok h
    cases h
    exact Or.inr (labelled_isBelow he (Ident.ofCallSite_axios_opens _ _) (by decide) rfl rfl)
  | component =>
    rw [hkind] at h
    obtain ⟨moduleName, -, h⟩ := exists_of_bind_eq_ok h
    obtain ⟨e, he, h⟩ := exists_of_bind_eq_ok h
    cases h
    exact Or.inr (labelled_isBelow he (Ident.ofComponent_opens _ _) (by decide) rfl rfl)
  | function =>
    rw [hkind] at h
    obtain ⟨moduleName, -, h⟩ := exists_of_bind_eq_ok h
    obtain ⟨e, he, h⟩ := exists_of_bind_eq_ok h
    cases h
    exact Or.inr (labelled_isBelow he (Ident.ofScriptFunction_opens _ _) (by decide) rfl rfl)
  | classKind =>
    rw [hkind] at h
    obtain ⟨moduleName, -, h⟩ := exists_of_bind_eq_ok h
    obtain ⟨e, he, h⟩ := exists_of_bind_eq_ok h
    cases h
    exact Or.inr (labelled_isBelow he (Ident.ofScriptClass_opens _ _) (by decide) rfl rfl)
  | reactHook =>
    rw [hkind] at h
    obtain ⟨e, he, h⟩ := exists_of_bind_eq_ok h
    cases h
    exact Or.inr (labelled_isBelow he (Ident.ofReactHook_opens _ _ _) (by decide) rfl rfl)
  | «import» =>
    rw [hkind] at h
    cases h
    exact Or.inl rfl
  | other word =>
    rw [hkind] at h
    cases h
    exact Or.inl rfl

theorem itemFindings_fits {xs : List Finding} (h : itemFindings f item = .ok xs) :
    ∀ x ∈ xs, x.Fits := by
  rcases itemFindings_cases h with rfl | ⟨e, kind, label, rfl, he, hkind⟩
  · exact fun x hx => by cases hx
  · exact below_fits he hkind

theorem findings_fits (f : SourceFile) (items : List Item) :
    (findings f items).All Finding.Fits := by
  refine .sequence fun o ho => ?_
  obtain ⟨item, -, rfl⟩ := List.mem_map.mp ho
  exact .attempt fun xs hxs => .found (itemFindings_fits hxs)

end Script

namespace Manifest

theorem extract_fits (f : SourceFile) : (extract f).2.All Finding.Fits := by
  refine extract_all (fun name _ => Ident.ofBlock_opens name) (fun _ => Ident.ofFile_opens _ _) ?_
  intro name kind target label hkind
  have hends : ("block_", "file_") ∈ kind.ends := by
    revert kind
    decide
  exact ⟨_, hends, Ident.ofBlock_opens name, Ident.ofFile_opens _ _⟩

end Manifest

/-! ### PHP code -/

namespace Php

variable {f : SourceFile} {s : Scope} {v : Visit}

/-- An identifier of a callable: a function, a closure or a method. -/
def IsCallableId (id : Ident) : Prop := id.Opens "func_" ∨ id.Opens "method_"

/-- A relation from a callable keeps to the schema where functions and methods do. -/
theorem fits_of_isCallableId {id target : Ident} {kind : RelationKind} {label mark : String}
    (hid : IsCallableId id) (htarget : target.Opens mark)
    (hfunction : ("func_", mark) ∈ kind.ends) (hmethod : ("method_", mark) ∈ kind.ends) :
    (Relation.between id kind target label).Fits := by
  rcases hid with hid | hid
  · exact ⟨_, hfunction, hid, htarget⟩
  · exact ⟨_, hmethod, hid, htarget⟩

theorem callableAt_id {place : Tree × List Tree} {id : Ident}
    (h : (callableAt f place).id = some id) : IsCallableId id := by
  unfold callableAt at h
  split_ifs at h
  · obtain rfl := Option.some.inj h
    exact Or.inl (Ident.ofFunction_opens _)
  · obtain ⟨owner, -, rfl⟩ := Option.map_eq_some_iff.mp h
    exact Or.inr (Ident.ofMethod_opens _ _)
  · obtain rfl := Option.some.inj h
    exact Or.inl (Ident.ofClosure_opens _ _)

theorem IsLexical.callerId?_isCallableId {trail : List Tree} (h : IsLexical f trail s) {id : Ident}
    (hid : s.callerId? = some id) : IsCallableId id := by
  rw [h.callerId?_eq] at hid
  obtain ⟨place, -, hplace⟩ := Option.bind_eq_some_iff.mp hid
  exact callableAt_id hplace

theorem classId_opens {name : String} {id : Ident} (h : s.classId name = .ok id) :
    id.Opens "class_" := by
  unfold Scope.classId at h
  cases hq : s.qualify name with
  | error failure => rw [hq] at h; cases h
  | ok full =>
    rw [hq] at h
    obtain rfl := Except.ok.inj h
    exact Ident.ofClass_opens full

theorem declaredKind?_opening {kind : String} {declared : EntityKind}
    (h : declaredKind? kind = some declared) : declared.opening = "class_" := by
  unfold declaredKind? at h
  split_ifs at h <;> cases h <;> rfl

theorem classRelations_fits {source : Ident} {kind : RelationKind} {names : List String}
    (hsource : source.Opens "class_") (hkind : ("class_", "class_") ∈ kind.ends) :
    (classRelations s source kind names).All Finding.Fits := by
  refine .sequence fun o ho => ?_
  obtain ⟨name, -, rfl⟩ := List.mem_map.mp ho
  refine .attempt fun target htarget => .found fun x hx => ?_
  obtain rfl := List.mem_singleton.mp hx
  exact ⟨_, hkind, hsource, classId_opens htarget⟩

theorem declarations_fits : (declarations f s v).All Finding.Fits := by
  unfold declarations
  split
  · exact .nothing
  · rename_i kind hkind
    dsimp only
    split_ifs
    · exact .nothing
    · refine .attempt fun id hid => .after (fun x hx => ?_) (.followedBy ?_ ?_)
      · obtain rfl := List.mem_singleton.mp hx
        change id.Opens kind.opening
        rw [declaredKind?_opening hkind]
        exact classId_opens hid
      · exact classRelations_fits (classId_opens hid) (by decide)
      · exact classRelations_fits (classId_opens hid) (by decide)

theorem methodDeclaration_fits : (methodDeclaration f s v).All Finding.Fits := by
  unfold methodDeclaration
  dsimp only
  split
  · exact .nothing
  · split
    · exact .nothing
    · refine .after (fun x hx => ?_) (.attempt fun ownerId hid => .found fun x hx => ?_)
      · obtain rfl := List.mem_singleton.mp hx
        exact Ident.ofMethod_opens _ _
      · obtain rfl := List.mem_singleton.mp hx
        exact ⟨_, List.mem_cons_self, classId_opens hid, Ident.ofMethod_opens _ _⟩

theorem functionDeclaration_fits : ∀ x ∈ functionDeclaration f s v, x.Fits := by
  intro x hx
  unfold functionDeclaration at hx
  dsimp only at hx
  split_ifs at hx
  · cases hx
  · obtain rfl := List.mem_singleton.mp hx
    exact Ident.ofFunction_opens _

variable (hcaller : ∀ id, s.callerId? = some id → IsCallableId id)

include hcaller

theorem staticCall_fits (t : Tree) : (staticCall f s t).All Finding.Fits := by
  unfold staticCall
  split
  · rename_i caller scope hid _
    dsimp only
    split_ifs
    · exact .nothing
    · refine .attempt fun target htarget => .found fun x hx => ?_
      obtain rfl := List.mem_singleton.mp hx
      exact fits_of_isCallableId (hcaller caller hid) (classId_opens htarget)
        (by decide) (by decide)
  · exact .nothing

theorem callables_fits : (callables f s v).All Finding.Fits := by
  unfold callables
  split_ifs
  · exact methodDeclaration_fits
  · exact .found functionDeclaration_fits
  · exact staticCall_fits hcaller v.tree
  · exact .nothing

theorem hookTrigger_fits (call : Tree) (kind : String) :
    ∀ x ∈ hookTrigger f s call kind, x.Fits := by
  intro x hx
  unfold hookTrigger at hx
  split at hx
  · cases hx
  · rcases List.mem_cons.mp hx with rfl | hx
    · exact Ident.ofHook_opens _ _
    · obtain ⟨caller, hid, rfl⟩ := Option.map_eq_some_iff.mp (Option.mem_toList.mp hx)
      exact fits_of_isCallableId (hcaller caller hid) (Ident.ofHook_opens _ _)
        (by decide) (by decide)

theorem storage_fits : (storage f s v).All Finding.Fits := by
  unfold storage
  split
  · exact .nothing
  · rename_i store operation key _
    refine .found fun x hx => ?_
    rcases List.mem_cons.mp hx with rfl | hx
    · exact Ident.ofDataSource_opens _ _ _ _
    · obtain ⟨caller, hid, rfl⟩ := Option.map_eq_some_iff.mp (Option.mem_toList.mp hx)
      have hends : ("func_", "data_") ∈ operation.relationKind.ends ∧
          ("method_", "data_") ∈ operation.relationKind.ends := by
        cases operation <;> decide
      exact fits_of_isCallableId (hcaller caller hid) (Ident.ofDataSource_opens _ _ _ _)
        hends.1 hends.2

omit hcaller

theorem textCallback?_isCallableId {text : String} {id : Ident} (h : textCallback? text = some id) :
    IsCallableId id := by
  unfold textCallback? at h
  split at h
  · split_ifs at h
    obtain rfl := Option.some.inj h
    exact Or.inr (Ident.ofMethod_opens _ _)
  · split_ifs at h
    obtain rfl := Option.some.inj h
    exact Or.inl (Ident.ofFunction_opens _)

theorem pairCallback?_isCallableId {t : Tree} {id : Ident} (h : pairCallback? f s t = some id) :
    IsCallableId id := by
  unfold pairCallback? at h
  split at h
  · obtain ⟨owner, -, h⟩ := Option.bind_eq_some_iff.mp h
    obtain ⟨method, -, h⟩ := Option.bind_eq_some_iff.mp h
    split_ifs at h
    obtain rfl := Option.some.inj h
    exact Or.inr (Ident.ofMethod_opens _ _)
  · cases h

theorem callback?_isCallableId {argument : Tree} {id : Ident}
    (h : callback? f s argument = some id) : IsCallableId id := by
  obtain ⟨t, -, h⟩ := Option.bind_eq_some_iff.mp h
  split_ifs at h
  · obtain rfl := Option.some.inj h
    exact Or.inl (Ident.ofClosure_opens _ _)
  · split at h
    · exact textCallback?_isCallableId h
    · exact pairCallback?_isCallableId h

theorem closureEntity?_fits {argument : Tree} {e : Entity}
    (h : closureEntity? f argument = some e) : e.Fits := by
  obtain ⟨t, -, h⟩ := Option.bind_eq_some_iff.mp h
  split_ifs at h
  obtain rfl := Option.some.inj h
  exact Ident.ofClosure_opens _ _

theorem callbackFindings_fits {hook : Ident} (hhook : hook.Opens "hook_") (argument : Option Tree) :
    ∀ x ∈ callbackFindings f s hook argument, x.Fits := by
  intro x hx
  unfold callbackFindings at hx
  split at hx
  · cases hx
  · rcases List.mem_append.mp hx with hx | hx
    · obtain ⟨e, he, rfl⟩ := Option.map_eq_some_iff.mp (Option.mem_toList.mp hx)
      exact closureEntity?_fits he
    · obtain ⟨id, hid, rfl⟩ := Option.map_eq_some_iff.mp (Option.mem_toList.mp hx)
      exact fits_of_isCallableId (callback?_isCallableId hid) hhook (by decide) (by decide)

theorem handlerFindings_fits {hook : Ident} (hhook : hook.Opens "hook_") (name : String) :
    ∀ x ∈ handlerFindings hook name, x.Fits := by
  intro x hx
  unfold handlerFindings at hx
  split at hx
  · cases hx
  · cases hx
  · obtain rfl := List.mem_singleton.mp hx
    exact ⟨_, List.mem_cons_self, hhook, Ident.ofAjaxHandler_opens _⟩

theorem hookRegistration_fits (call : Tree) (kind : String) :
    (hookRegistration f s call kind).All Finding.Fits := by
  unfold hookRegistration
  split
  · exact .nothing
  · refine .attempt fun priority _ => .found fun x hx => ?_
    rw [List.mem_cons, List.mem_append] at hx
    rcases hx with rfl | hx | hx
    · exact Ident.ofHook_opens _ _
    · exact callbackFindings_fits (Ident.ofHook_opens _ _) _ x hx
    · exact handlerFindings_fits (Ident.ofHook_opens _ _) _ x hx

theorem hooks_fits (hcaller : ∀ id, s.callerId? = some id → IsCallableId id) :
    (hooks f s v).All Finding.Fits := by
  unfold hooks
  split
  · exact .nothing
  · split
    · exact .nothing
    · split
      · exact hookRegistration_fits _ _
      · exact .found (hookTrigger_fits hcaller _ _)
      · exact .nothing

theorem restRoute_fits (call : Tree) (arguments : List Tree) :
    (restRoute f call arguments).All Finding.Fits := by
  unfold restRoute
  split
  · refine .attempt fun methods _ => .found fun x hx => ?_
    obtain ⟨method, -, rfl⟩ := List.mem_map.mp hx
    exact Ident.ofRestEndpoint_opens _ _
  · exact .nothing

/-- Every entry point registers under the mark of its own kind of entity. -/
theorem entryPointEntity?_fits {call : Tree} {arguments : List Tree} {point : EntryPoint}
    {e : Entity} (h : entryPointEntity? f call arguments point = some e) : e.Fits := by
  cases point with
  | restRoute => cases h
  | shortcode =>
    obtain ⟨tag, -, h⟩ := Option.bind_eq_some_iff.mp h
    obtain rfl := Option.some.inj h
    exact Ident.ofShortcode_opens _
  | adminPage slugAt titleAt =>
    obtain ⟨slug, -, h⟩ := Option.bind_eq_some_iff.mp h
    obtain rfl := Option.some.inj h
    exact Ident.ofAdminPage_opens _
  | cronJob hookAt =>
    obtain ⟨hook, -, h⟩ := Option.bind_eq_some_iff.mp h
    obtain rfl := Option.some.inj h
    exact Ident.ofCronJob_opens _
  | postType =>
    obtain ⟨slug, -, h⟩ := Option.bind_eq_some_iff.mp h
    obtain rfl := Option.some.inj h
    exact Ident.ofPostType_opens _
  | taxonomy =>
    obtain ⟨slug, -, h⟩ := Option.bind_eq_some_iff.mp h
    obtain rfl := Option.some.inj h
    exact Ident.ofTaxonomy_opens _
  | httpCall method =>
    obtain rfl := Option.some.inj h
    exact Ident.ofHttpCall_opens _ _ _
  | ajaxHook =>
    obtain ⟨hook, -, h⟩ := Option.bind_eq_some_iff.mp h
    obtain ⟨action, -, h⟩ := Option.bind_eq_some_iff.mp h
    split_ifs at h
    obtain rfl := Option.some.inj h
    exact Ident.ofAjaxHandler_opens _

theorem entryPoints_fits : (entryPoints f s v).All Finding.Fits := by
  unfold entryPoints
  split
  · exact .nothing
  · split
    · exact .nothing
    · exact restRoute_fits _ _
    · refine .found fun x hx => ?_
      obtain ⟨e, he, rfl⟩ := Option.map_eq_some_iff.mp (Option.mem_toList.mp hx)
      exact entryPointEntity?_fits he

theorem includedEntity_kind (line : Nat) (target : Option String) :
    (includedEntity f line target).kind = .file := by
  cases target <;> rfl

theorem includedEntity_opens (line : Nat) (target : Option String) :
    (includedEntity f line target).id.Opens "file_" := by
  cases target with
  | none => exact Ident.ofDynamicFile_opens _ _
  | some target => exact Ident.ofFile_opens _ _

theorem includes_fits : (includes f s v).All Finding.Fits := by
  refine includes_all (Ident.ofFile_opens _ _) fun line path? => ⟨?_, ?_⟩
  · rw [Finding.Fits, Entity.Fits, includedEntity_kind]
    exact includedEntity_opens _ _
  · exact ⟨_, List.mem_cons_self, Ident.ofFile_opens _ _, includedEntity_opens _ _⟩

theorem findAt_fits (families : List Family)
    (hcaller : ∀ id, s.callerId? = some id → IsCallableId id) :
    (findAt families f s v).All Finding.Fits := by
  refine .sequence fun o ho => ?_
  obtain ⟨family, -, rfl⟩ := List.mem_map.mp ho
  cases family with
  | declarations => exact declarations_fits
  | callables => exact callables_fits hcaller
  | hooks => exact hooks_fits hcaller
  | storage => exact storage_fits hcaller
  | entryPoints => exact entryPoints_fits (s := s)
  | includes => exact includes_fits (s := s)

/-- Whatever the rules find keeps to the schema, on any tree. -/
theorem extract_fits (families : List Family) (f : SourceFile) (root : Tree) :
    (extract families f root).All Finding.Fits :=
  extract_all fun _ _ _ hs => findAt_fits families fun _ hid => hs.callerId?_isCallableId hid

end Php

/-! ### Stores -/

theorem FileStep.outcome_fits (step : FileStep) : step.outcome.All Finding.Fits := by
  cases step with
  | php f root => exact Php.extract_fits _ f root
  | script f items => exact Script.findings_fits f items
  | manifest f => exact Manifest.extract_fits f

/-- Every store that files lead to keeps to the schema: the identifier of an entity
begins with the mark of its kind, and every relation runs between marks that its kind
allows. The files may be of any kind and number, their trees, reports and texts
arbitrary, and any of them may end in a failure. -/
theorem Store.readAll_fits (steps : List FileStep) :
    (∀ e ∈ (Store.empty.readAll steps).entities, Text.startsWith e.kind.opening e.id.text) ∧
    (∀ r ∈ (Store.empty.readAll steps).relations, ∃ marks ∈ r.kind.ends,
      Text.startsWith marks.1 r.source.text ∧ Text.startsWith marks.2 r.target.text) := by
  -- For any store that fits, as the files after the first start from what it left.
  have hall : ∀ s : Store, s.Fits → (s.readAll steps).Fits := by
    induction steps with
    | nil => exact fun s hs => hs
    | cons step rest ih =>
      intro s hs
      rw [Store.readAll_cons]
      exact ih _ (hs.recordAll step.outcome_fits)
  have hempty : Store.empty.Fits := ⟨(fun e he => by cases he), (fun r hr => by cases hr)⟩
  exact ⟨(hall _ hempty).entities, (hall _ hempty).relations⟩

/-- The entities and relations of a class with a method are there, with their marks. -/
theorem Store.readAll_fits_classWithClosure :
    let s := Store.empty.readAll
      [.php { path := "/p.php", source := "Am" } Php.classWithClosure]
    s.entities.map Entity.kind = [.classKind, .method] ∧
    s.relations.map Relation.kind = [.hasMethod] ∧
    (∀ e ∈ s.entities, Text.startsWith e.kind.opening e.id.text) ∧
    (∀ r ∈ s.relations, ∃ marks ∈ r.kind.ends,
      Text.startsWith marks.1 r.source.text ∧ Text.startsWith marks.2 r.target.text) :=
  ⟨by decide +kernel, by decide +kernel, Store.readAll_fits _⟩

end PluginAtlas
