import PluginAtlas.Proofs.Expressions
import PluginAtlas.Proofs.Replay
import PluginAtlas.Proofs.Segments

/-!
# Spellings of REST methods

The methods of a route can be stated as one text between commas, as an array of texts, or
as a list of endpoints with one method each. The three are read by different rules, and
mean the same: every method once, trimmed and in upper case, in the order of first
occurrence, and the default method if nothing is left.

One rule falls short of it. In an array a text of blanks alone is not passed over but
registered as a method without a name, which the other two spellings never do. This is the
only difference.

## Main definitions

* `IsArray`, `IsList`, `HoldsUnder`: array literals, lists, and entries under a key.
* `Spelling`, `Spells`: the ways to state methods, and an expression that does so.
* `declaredMethods`: what stated methods mean.
* `readMethods`: what each spelling is read as.
* `RegistersRoute`: a call that registers a route.

## Main results

* `strip_padded`: blanks around a text do not count.
* `upper_eq_empty_iff`: only the empty text is empty in upper case.
* `Spells.restMethods_eq`: what each spelling is read as.
* `readMethods_eq_iff`: when this is what the methods mean.
* `rest_spellings_register`: the entities that a registration adds, for every spelling.
-/

namespace PluginAtlas

namespace Text

/-! ### Blanks around a text -/

theorem dropEndWhile_append {α : Type} {p : α → Bool} {tail : List α}
    (h : ∀ a ∈ tail, p a = true) (xs : List α) :
    dropEndWhile p (xs ++ tail) = dropEndWhile p xs := by
  have htail : ∀ a ∈ tail.reverse, p a = true := fun a ha => h a (List.mem_reverse.mp ha)
  rw [dropEndWhile, List.reverse_append, List.dropWhile_append_of_pos htail, dropEndWhile]

/-- A text stands between blanks. -/
def Pads (padded text : String) : Prop :=
  ∃ before after : List Char, (∀ c ∈ before, isBlank c = true) ∧ (∀ c ∈ after, isBlank c = true) ∧
    padded.toList = before ++ text.toList ++ after

/-- Blanks around a text do not count. -/
theorem strip_padded {padded text : String} (h : Pads padded text) : strip padded = strip text := by
  obtain ⟨before, after, hbefore, hafter, heq⟩ := h
  rw [strip, trim, strip, trim, heq, List.append_assoc, List.dropWhile_append_of_pos hbefore]
  congr 1
  by_cases hall : ∀ c ∈ text.toList, isBlank c = true
  · -- Nothing but blanks: both sides are empty.
    have hboth : ∀ c ∈ text.toList ++ after, isBlank c = true := fun c hc =>
      (List.mem_append.mp hc).elim (hall c) (hafter c)
    rw [List.dropWhile_eq_nil_iff.mpr hboth, List.dropWhile_eq_nil_iff.mpr hall]
  · have hne : (text.toList.dropWhile isBlank).isEmpty = false := by
      rw [List.isEmpty_eq_false_iff]
      exact fun hnil => hall (List.dropWhile_eq_nil_iff.mp hnil)
    rw [List.dropWhile_append, hne, if_neg Bool.false_ne_true, dropEndWhile_append hafter]

theorem comma_not_mem_of_pads {padded text : String} (h : Pads padded text)
    (hcomma : ',' ∉ text.toList) : ',' ∉ padded.toList := by
  obtain ⟨before, after, hbefore, hafter, heq⟩ := h
  rw [heq]
  intro hmem
  rcases List.mem_append.mp hmem with hfront | hback
  · rcases List.mem_append.mp hfront with hfront | hmid
    · exact absurd (hbefore _ hfront) (by decide)
    · exact hcomma hmid
  · exact absurd (hafter _ hback) (by decide)

/-! ### Upper case -/

/-- No character disappears in upper case. -/
theorem upperChar_ne_nil (c : Char) : upperChar c ≠ [] := by
  have hspecial : ∀ entry ∈ upperSpecial, entry.2 ≠ [] := by decide
  unfold upperChar
  split
  · exact List.cons_ne_nil _ _
  · unfold mapCase
    split
    · next image himage =>
      obtain ⟨front, rest, hsplit, -⟩ := List.lookup_eq_some_iff.mp himage
      have hmem : (c.toNat, image) ∈ upperSpecial := by
        rw [hsplit]
        exact List.mem_append_right front List.mem_cons_self
      exact mt List.map_eq_nil_iff.mp (hspecial _ hmem)
    · split <;> exact List.cons_ne_nil _ _

theorem upper_eq_empty_iff {s : String} : upper s = "" ↔ s = "" := by
  constructor
  · intro h
    have hlist : s.toList.flatMap upperChar = [] := by
      simpa [upper] using congrArg String.toList h
    cases hs : s.toList with
    | nil => exact String.toList_eq_nil_iff.mp hs
    | cons c cs =>
      rw [hs, List.flatMap_cons, List.append_eq_nil_iff] at hlist
      exact absurd hlist.1 (upperChar_ne_nil c)
  · rintro rfl
    rfl

end Text

namespace Php

variable {f : SourceFile} {t : Tree}

/-! ### Array literals -/

/-- An array literal with the given elements. -/
def IsArray (t : Tree) (elements : List Tree) : Prop :=
  ∃ array, t.Encloses array ∧ array.kind = "array_creation_expression" ∧
    (array.namedChildren.filter fun child => child.kind = "array_element_initializer") = elements

/-- An array literal of values without keys. -/
def IsList (t : Tree) (values : List Tree) : Prop :=
  ∃ elements, IsArray t elements ∧
    List.Forall₂ (fun element value => element.parts = [value]) elements values

/-- An array literal that holds a value under a text key. No element before it has that key;
whatever else stands in the array does not matter. -/
def HoldsUnder (f : SourceFile) (t : Tree) (key : String) (value : Tree) : Prop :=
  ∃ front element written rest, IsArray t (front ++ element :: rest) ∧
    element.parts = [written, value] ∧ IsText f written key ∧
    ∀ other ∈ front, ∀ k v, other.parts = [k, v] → stringValue? f (some k) ≠ some key

/-- Inside the parentheses of an array there is the literal. -/
theorem IsArray.exists_literal {elements : List Tree} (h : IsArray t elements) :
    ∃ array, t.unwrap? = some array ∧ array.kind = "array_creation_expression" ∧
      IsArray array elements ∧ arrayElements (some array) = arrayElements (some t) := by
  obtain ⟨array, hencloses, hkind, helements⟩ := h
  have hplain : array.kind ≠ "parenthesized_expression" := by simp [hkind]
  refine ⟨array, hencloses.unwrap?_eq_some hplain, hkind,
    ⟨array, .self array, hkind, helements⟩, ?_⟩
  simp only [arrayElements, Option.bind_some, hencloses.unwrap?_eq]

theorem IsList.exists_literal {values : List Tree} (h : IsList t values) :
    ∃ array, t.unwrap? = some array ∧ IsList array values := by
  obtain ⟨elements, harray, hvalues⟩ := h
  obtain ⟨array, hunwrap, -, hinner, -⟩ := harray.exists_literal
  exact ⟨array, hunwrap, elements, hinner, hvalues⟩

theorem HoldsUnder.exists_literal {key : String} {value : Tree} (h : HoldsUnder f t key value) :
    ∃ array, t.unwrap? = some array ∧ HoldsUnder f array key value := by
  obtain ⟨front, element, written, rest, harray, hrest⟩ := h
  obtain ⟨array, hunwrap, -, hinner, -⟩ := harray.exists_literal
  exact ⟨array, hunwrap, front, element, written, rest, hinner, hrest⟩

theorem IsArray.kind_of_mem {elements : List Tree} (h : IsArray t elements) :
    ∀ element ∈ elements, element.kind = "array_element_initializer" := by
  obtain ⟨array, -, -, rfl⟩ := h
  intro element hmem
  simpa using (List.mem_filter.mp hmem).2

theorem IsArray.arrayElements_eq {elements : List Tree} (h : IsArray t elements) :
    arrayElements (some t) = elements.filterMap arrayElement? := by
  obtain ⟨array, hencloses, hkind, rfl⟩ := h
  have hunwrap := hencloses.unwrap?_eq_some (by simp [hkind])
  simp only [arrayElements, Option.bind_some, hunwrap, if_pos hkind]
  exact filterMap_arrayElement? array.namedChildren

theorem arrayElement?_of_parts {element value : Tree}
    (hkind : element.kind = "array_element_initializer") (hparts : element.parts = [value]) :
    arrayElement? element = some (none, value) := by
  simp [arrayElement?, hkind, hparts]

theorem IsList.arrayElements_eq {values : List Tree} (h : IsList t values) :
    arrayElements (some t) = values.map fun value => (none, value) := by
  obtain ⟨elements, harray, hvalues⟩ := h
  rw [harray.arrayElements_eq]
  have hkinds := harray.kind_of_mem
  clear harray
  induction hvalues with
  | nil => rfl
  | @cons element value elements values hparts _ ih =>
    obtain ⟨hkind, hkinds⟩ := List.forall_mem_cons.mp hkinds
    rw [List.filterMap_cons_some (arrayElement?_of_parts hkind hparts), ih hkinds, List.map_cons]

theorem HoldsUnder.arrayLookup?_eq {key : String} {value : Tree} (h : HoldsUnder f t key value) :
    arrayLookup? f (some t) key = some value := by
  obtain ⟨front, element, written, rest, harray, hparts, hkey, hfront⟩ := h
  have hkind := harray.kind_of_mem element (List.mem_append_right front List.mem_cons_self)
  have helement : arrayElement? element = some (some written, value) := by
    simp [arrayElement?, hkind, hparts]
  -- The search passes over everything in front, since the key is not there.
  have hskip : (front.filterMap arrayElement?).find?
      (fun entry => entry.1.isSome && stringValue? f entry.1 == some key) = none := by
    rw [List.find?_eq_none]
    rintro ⟨k, v⟩ hmem
    obtain ⟨other, hother, heq⟩ := List.mem_filterMap.mp hmem
    cases k with
    | none => simp
    | some k =>
      have hkeyed : other.parts = [k, v] := by
        unfold arrayElement? at heq
        split at heq
        · cases heq
        · split at heq <;> simp_all
      simpa using hfront other hother k v hkeyed
  rw [arrayLookup?, harray.arrayElements_eq, List.filterMap_append, List.find?_append, hskip,
    List.filterMap_cons_some helement]
  simp [hkey.stringValue?_eq]

/-- An array with a key is one endpoint, not a list of them. -/
theorem HoldsUnder.restEndpoints_eq {key : String} {value : Tree} (h : HoldsUnder f t key value) :
    restEndpoints t = [t] := by
  obtain ⟨front, element, written, rest, harray, hparts, -, -⟩ := h
  have hkind := harray.kind_of_mem element (List.mem_append_right front List.mem_cons_self)
  have hmem : (some written, value) ∈ arrayElements (some t) := by
    rw [harray.arrayElements_eq]
    refine List.mem_filterMap.mpr ⟨element, List.mem_append_right front List.mem_cons_self, ?_⟩
    simp [arrayElement?, hkind, hparts]
  have hkeyed : (arrayElements (some t)).all (fun entry => entry.1.isNone) = false := by
    rw [List.all_eq_false]
    exact ⟨_, hmem, by simp⟩
  simp [restEndpoints, hkeyed]

/-! ### Stated methods and what they mean -/

/-- The ways to state the methods of a route. -/
inductive Spelling where
  | text | array | endpoints
deriving DecidableEq

/-- An expression states methods: as one text in which they stand between commas, with any
blanks around them, as an array of texts, or as a list of endpoints with one text each. -/
inductive Spells (f : SourceFile) (stated : List String) : Spelling → Tree → Prop
  | text {t value : Tree} {padded : List String} (hentry : HoldsUnder f t "methods" value)
      (htext : IsText f value (Text.join "," padded))
      (hpadded : List.Forall₂ Text.Pads padded stated) :
      Spells f stated .text t
  | array {t value : Tree} {items : List Tree} (hentry : HoldsUnder f t "methods" value)
      (hlist : IsList value items) (hitems : List.Forall₂ (IsText f) items stated) :
      Spells f stated .array t
  | endpoints {t : Tree} {single : List Tree} (hlist : IsList t single)
      (hsingle : List.Forall₂ (fun endpoint method => ∃ value,
        HoldsUnder f endpoint "methods" value ∧ IsText f value method) single stated) :
      Spells f stated .endpoints t

/-- Every method once, or the default method if there is none. -/
def orDefault (methods : List String) : List String :=
  if methods = [] then [defaultRestMethod] else firstPerKey id methods

/-- What stated methods mean: those that are not blank, trimmed and in upper case, each once,
or the default method. -/
def declaredMethods (stated : List String) : List String :=
  orDefault (((stated.map Text.strip).filter (· ≠ "")).map Text.upper)

/-- What stated methods are read as. In an array only the empty text is passed over, and a
text of blanks leaves a method without a name. -/
def readMethods (form : Spelling) (stated : List String) : List String :=
  match form with
  | .array => orDefault ((stated.filter (· ≠ "")).map fun method => Text.upper (Text.strip method))
  | .text | .endpoints => declaredMethods stated

theorem mem_firstPerKey_id {items : List String} {item : String} :
    item ∈ firstPerKey id items ↔ item ∈ items := by
  have hkeys : item ∈ (firstPerKey id items).map id ↔ item ∈ items.map id := key_mem_firstPerKey
  rwa [List.map_id, List.map_id] at hkeys

theorem mem_orDefault {methods : List String} {method : String} (h : method ∈ methods) :
    method ∈ orDefault methods := by
  rw [orDefault, if_neg (List.ne_nil_of_mem h)]
  exact mem_firstPerKey_id.mpr h

theorem of_mem_orDefault {methods : List String} {method : String}
    (h : method ∈ orDefault methods) :
    method = defaultRestMethod ∨ method ∈ methods := by
  unfold orDefault at h
  split at h
  · exact .inl (List.mem_singleton.mp h)
  · exact .inr (mem_of_mem_firstPerKey h)

theorem firstOccurrences_eq (items : List String) :
    firstOccurrences items = firstPerKey id items := by
  induction items using List.reverseRecOn with
  | nil => rfl
  | append_singleton items item ih =>
    rw [firstOccurrences, List.foldl_append, ← firstOccurrences, ih, firstPerKey_concat]
    simp only [List.foldl_cons, List.foldl_nil, List.map_id, id_eq, mem_firstPerKey_id]

/-- The reading of a route ends with each method once, or with the default. -/
theorem restMethods_of_methodsOf {literal : Tree} {methods : List String}
    (hunwrap : t.unwrap? = some literal) (h : methodsOf f (restEndpoints literal) = .ok methods) :
    restMethods f (some t) = .ok (orDefault methods) := by
  simp only [restMethods, Option.bind_some, hunwrap, h, firstOccurrences_eq, orDefault,
    List.isEmpty_iff]
  have hnil : firstPerKey id methods = [] ↔ methods = [] := by
    cases methods <;> simp [firstPerKey]
  by_cases hmethods : methods = []
  · rw [if_pos hmethods]
    simp [hmethods, firstPerKey, bind, Except.bind, pure, Except.pure]
  · rw [if_neg hmethods]
    simp [hmethods, hnil, bind, Except.bind, pure, Except.pure]

theorem filter_map_strip (stated : List String) :
    ((stated.map Text.strip).filter (· ≠ "")).map Text.upper =
      (stated.filter fun method => Text.strip method ≠ "").map
        fun method => Text.upper (Text.strip method) := by
  simp only [List.filter_map, List.map_map, Function.comp_def]

/-- A text between commas is read as its parts without the blanks around them. -/
theorem listedMethods_join {padded stated : List String} (h : List.Forall₂ Text.Pads padded stated)
    (hcomma : ∀ method ∈ stated, ',' ∉ method.toList) :
    listedMethods (Text.join "," padded) =
      ((stated.map Text.strip).filter (· ≠ "")).map Text.upper := by
  have hstrip : padded.map Text.strip = stated.map Text.strip := by
    clear hcomma
    induction h with
    | nil => rfl
    | cons hpads _ ih => rw [List.map_cons, List.map_cons, Text.strip_padded hpads, ih]
  have hparts : ∀ part ∈ padded, ',' ∉ part.toList := by
    clear hstrip
    induction h with
    | nil => simp
    | cons hpads _ ih =>
      obtain ⟨hfirst, hrest⟩ := List.forall_mem_cons.mp hcomma
      exact List.forall_mem_cons.mpr ⟨Text.comma_not_mem_of_pads hpads hfirst, ih hrest⟩
  rw [listedMethods, ← hstrip]
  by_cases hne : padded = []
  · -- Without any part the text is empty, and so is its only piece.
    rw [hne, show Text.join "," [] = "" from rfl]
    decide +kernel
  · rw [Text.split_join rfl hne hparts, filter_map_strip]

theorem IsText.endpointMethods_eq {text : String} (h : IsText f t text) :
    endpointMethods f (some t) = .ok (listedMethods text) := by
  obtain ⟨literal, hunwrap, -, hvalue⟩ := h.exists_literal
  simp [endpointMethods, hunwrap, hvalue]

theorem IsList.endpointMethods_eq {items : List Tree} {stated : List String} (h : IsList t items)
    (hitems : List.Forall₂ (IsText f) items stated) :
    endpointMethods f (some t) =
      .ok ((stated.filter (· ≠ "")).map fun method => Text.upper (Text.strip method)) := by
  have helements := h.arrayElements_eq
  obtain ⟨elements, harray, -⟩ := h
  obtain ⟨literal, hunwrap, hkind, -, hsame⟩ := harray.exists_literal
  have hvalue : stringValue? f (some literal) = none :=
    stringValue?_eq_none (by simp [hkind]) (by simp [hkind]) (by simp [hkind])
  simp only [endpointMethods, Option.bind_some, hunwrap, hvalue, hkind, hsame, helements]
  rw [if_neg (by decide)]
  congr 1
  clear helements harray hsame
  induction hitems with
  | nil => rfl
  | @cons item method items stated hitem _ ih =>
    by_cases hempty : method = ""
    · subst hempty
      simpa [hitem.stringValue?_eq] using ih
    · rw [List.filter_cons_of_pos (by simpa using hempty), List.map_cons, List.map_cons,
        List.filterMap_cons_some (b := Text.upper (Text.strip method)), ih]
      simp [hitem.stringValue?_eq]

theorem IsText.endpointMethods_single {value : Tree} {method : String}
    (hentry : HoldsUnder f t "methods" value) (htext : IsText f value method)
    (hcomma : ',' ∉ method.toList) :
    endpointMethods f (arrayLookup? f (some t) "methods") =
      .ok ((([method].map Text.strip).filter (· ≠ "")).map Text.upper) := by
  have hpads : List.Forall₂ Text.Pads [method] [method] :=
    .cons ⟨[], [], by simp, by simp, by simp⟩ .nil
  have hlisted := listedMethods_join hpads (by simpa using hcomma)
  rw [show Text.join "," [method] = method by simp [Text.join]] at hlisted
  rw [hentry.arrayLookup?_eq, htext.endpointMethods_eq, hlisted]

/-- The endpoints of a list state their methods one by one. -/
theorem methodsOf_single {single : List Tree} {stated : List String}
    (h : List.Forall₂ (fun endpoint method => ∃ value,
      HoldsUnder f endpoint "methods" value ∧ IsText f value method) single stated)
    (hcomma : ∀ method ∈ stated, ',' ∉ method.toList) :
    methodsOf f single = .ok (((stated.map Text.strip).filter (· ≠ "")).map Text.upper) := by
  induction h with
  | nil => rfl
  | @cons endpoint method single stated hfirst _ ih =>
    obtain ⟨value, hentry, htext⟩ := hfirst
    obtain ⟨hmethod, hrest⟩ := List.forall_mem_cons.mp hcomma
    rw [methodsOf, htext.endpointMethods_single hentry hmethod, ih hrest]
    simp only [bind, Except.bind, pure, Except.pure, ← List.map_append, ← List.filter_append]
    rfl

/-- A list of endpoints is taken apart; an empty one states nothing. -/
theorem IsList.methodsOf_eq {values : List Tree} (h : IsList t values) :
    methodsOf f (restEndpoints t) = methodsOf f values := by
  have helements := h.arrayElements_eq
  by_cases hempty : values = []
  · subst hempty
    have hnone : arrayLookup? f (some t) "methods" = none := by simp [arrayLookup?, helements]
    simp [restEndpoints, helements, methodsOf, hnone, endpointMethods, bind, Except.bind, pure,
      Except.pure]
  · simp [restEndpoints, helements, hempty, Function.comp_def]

/-- What each spelling is read as. -/
theorem Spells.restMethods_eq {stated : List String} {form : Spelling} (h : Spells f stated form t)
    (hcomma : ∀ method ∈ stated, ',' ∉ method.toList) :
    restMethods f (some t) = .ok (readMethods form stated) := by
  cases h with
  | @text _ value padded hentry htext hpadded =>
    obtain ⟨literal, hunwrap, hentry⟩ := hentry.exists_literal
    refine restMethods_of_methodsOf hunwrap ?_
    rw [hentry.restEndpoints_eq, methodsOf, hentry.arrayLookup?_eq, htext.endpointMethods_eq,
      listedMethods_join hpadded hcomma]
    simp [methodsOf, bind, Except.bind, pure, Except.pure]
  | @array _ value items hentry hlist hitems =>
    obtain ⟨literal, hunwrap, hentry⟩ := hentry.exists_literal
    refine restMethods_of_methodsOf hunwrap ?_
    rw [hentry.restEndpoints_eq, methodsOf, hentry.arrayLookup?_eq, hlist.endpointMethods_eq hitems]
    simp [methodsOf, bind, Except.bind, pure, Except.pure]
  | @endpoints _ single hlist hsingle =>
    obtain ⟨literal, hunwrap, hlist⟩ := hlist.exists_literal
    refine restMethods_of_methodsOf hunwrap ?_
    rw [hlist.methodsOf_eq, methodsOf_single hsingle hcomma]

/-- A spelling is read as what it means, unless an array holds a text of blanks alone. -/
theorem readMethods_eq_iff {form : Spelling} {stated : List String} :
    readMethods form stated = declaredMethods stated ↔
      (form = .array → ∀ method ∈ stated, Text.strip method = "" → method = "") := by
  have hother : form ≠ .array → readMethods form stated = declaredMethods stated := by
    cases form <;> simp [readMethods]
  by_cases hform : form = .array
  · subst hform
    rw [declaredMethods, filter_map_strip, readMethods]
    constructor
    · intro heq _ method hmem hblank
      by_contra hne
      -- The blank text is read as the empty method, which no method in upper case is.
      have hread : "" ∈ (stated.filter (· ≠ "")).map fun method => Text.upper (Text.strip method) :=
        List.mem_map.mpr
          ⟨method, List.mem_filter.mpr ⟨hmem, by simpa using hne⟩, by rw [hblank]; rfl⟩
      have hleft := mem_orDefault hread
      rw [heq] at hleft
      rcases of_mem_orDefault hleft with hdefault | hmem
      · exact absurd hdefault (by decide)
      · obtain ⟨other, hother, hupper⟩ := List.mem_map.mp hmem
        have hstrip := Text.upper_eq_empty_iff.mp hupper
        simp [hstrip] at hother
    · intro h
      have hfilter : (stated.filter fun method => decide (method ≠ "")) =
          stated.filter fun method => decide (Text.strip method ≠ "") := by
        refine List.filter_congr fun method hmem => ?_
        have hblank : Text.strip method = "" ↔ method = "" :=
          ⟨h rfl method hmem, fun hempty => by rw [hempty]; rfl⟩
        simp [hblank]
      rw [hfilter]
  · exact iff_of_true (hother hform) fun h => absurd h hform

/-! ### Registered routes -/

/-- The path of a route below its namespace. -/
def routePath (space route : String) : String :=
  trimSlashes space ++ "/" ++ trimLeadingSlashes route

/-- The entity of a route under one method. -/
def routeEntity (f : SourceFile) (call : Tree) (path method : String) : Entity where
  id := Ident.ofRestEndpoint method path
  label := method ++ " " ++ path
  kind := .restEndpoint
  file := f.path
  line := f.lineOf call
  metadata := [("http_method", .str method), ("route", .str path)]

/-- A call that registers a route in a namespace, both given as texts, with its endpoints. -/
structure RegistersRoute (f : SourceFile) (call : Tree) (space route : String) (endpoints : Tree) :
    Prop where
  isCall : call.kind = "function_call_expression"
  function : functionName? f call = some "register_rest_route"
  first : ∃ argument, (callArguments call)[0]? = some argument ∧ IsText f argument space
  second : ∃ argument, (callArguments call)[1]? = some argument ∧ IsText f argument route
  third : (callArguments call)[2]? = some endpoints

variable {s : Scope} {v : Visit} {space route : String} {endpoints : Tree}

/-- At a registration only the rules of entry points apply. -/
theorem RegistersRoute.findAt_eq (h : RegistersRoute f v.tree space route endpoints) :
    findAt Family.all f s v = restRoute f v.tree (callArguments v.tree) := by
  have hregistered : registeredHook? "register_rest_route" = none := by decide
  have htriggered : triggeredHook? "register_rest_route" = none := by decide
  have hstored : storageFunctions.lookup "register_rest_route" = none := by decide
  have hpoint : EntryPoint.of? "register_rest_route" = some .restRoute := by decide
  simp [findAt, Family.all, Family.apply, Outcome.sequence, declarations, declaredKind?,
    callables, hooks, storage, storageAccess?, entryPoints, includes, isIncludeKind, h.isCall,
    h.function, hregistered, htriggered, hpoint, hstored]

theorem RegistersRoute.restRoute_eq (h : RegistersRoute f v.tree space route endpoints)
    {methods : List String} (hmethods : restMethods f (some endpoints) = .ok methods) :
    restRoute f v.tree (callArguments v.tree) =
      .found (methods.map fun method =>
        .entity (routeEntity f v.tree (routePath space route) method)) := by
  obtain ⟨first, hfirst, hspace⟩ := h.first
  obtain ⟨second, hsecond, hroute⟩ := h.second
  simp only [restRoute, hfirst, hsecond, h.third, hspace.stringValue?_eq, hroute.stringValue?_eq,
    hmethods, Outcome.attempt]
  rfl

/-- The spellings of REST methods. A route is registered in a namespace, both given as texts,
and its methods are stated by texts without commas: in one text between commas, in an array,
or in a list of endpoints. Then the rules find exactly one entity per method that the spelling
is read as, in order, and nothing else, and do not fail. The methods are the stated ones that
are not blank, trimmed and in upper case, each at its first occurrence, or the default method
if all are blank: always if they stand between commas or in a list of endpoints, and in an
array exactly if none of its texts consists of blanks alone. -/
theorem rest_spellings_register {stated : List String} {form : Spelling}
    (hcall : RegistersRoute f v.tree space route endpoints)
    (hspells : Spells f stated form endpoints)
    (hcomma : ∀ method ∈ stated, ',' ∉ method.toList) :
    findAt Family.all f s v =
      .found ((readMethods form stated).map fun method =>
        .entity (routeEntity f v.tree (routePath space route) method)) ∧
    (readMethods form stated = declaredMethods stated ↔
      (form = .array → ∀ method ∈ stated, Text.strip method = "" → method = "")) := by
  refine ⟨?_, readMethods_eq_iff⟩
  rw [hcall.findAt_eq, hcall.restRoute_eq (hspells.restMethods_eq hcomma)]

/-- A call that registers the route `r` in the namespace `n`, in a text that holds just the
names and literals. -/
def routeCall (endpoints : Tree) : Tree :=
  .node "function_call_expression" true 0 25 none
    [.node "name" true 0 19 (some "function") [],
      .node "arguments" true 19 25 (some "arguments")
        [.node "argument" true 19 22 none [.node "string" true 19 22 none []],
          .node "argument" true 22 25 none [.node "string" true 22 25 none []],
          .node "argument" true 25 25 none [endpoints]]]

/-- An endpoint whose methods are given by an expression. -/
def routeEndpoint (methods : Tree) : Tree :=
  .node "array_creation_expression" true 25 34 none
    [.node "array_element_initializer" true 25 34 none
      [.node "string" true 25 34 none [], methods]]

/-- The methods `get`, `Post` and `GET` in one text, with blanks and an empty one between. -/
def paddedMethods : Tree := .node "string" true 34 52 none []

@[inherit_doc paddedMethods]
def paddedFile : SourceFile :=
  { path := "/p/r.php", source := "register_rest_route'n''r''methods'' get ,Post,,GET '" }

/-- Blanks, letter case, repetition and empty parts do not count. -/
theorem rest_spellings_register_padded :
    RegistersRoute paddedFile (routeCall (routeEndpoint paddedMethods)) "n" "r"
      (routeEndpoint paddedMethods) ∧
    Spells paddedFile ["get", "Post", "", "GET"] .text (routeEndpoint paddedMethods) ∧
    ∀ s : Scope, findAt Family.all paddedFile s ⟨routeCall (routeEndpoint paddedMethods), none⟩ =
      .found (["GET", "POST"].map fun method =>
        .entity
          (routeEntity paddedFile (routeCall (routeEndpoint paddedMethods)) "n/r" method)) := by
  have hcall : RegistersRoute paddedFile (routeCall (routeEndpoint paddedMethods)) "n" "r"
      (routeEndpoint paddedMethods) :=
    ⟨rfl, by decide +kernel, ⟨_, rfl, _, .self _, .inl rfl, by decide +kernel⟩,
      ⟨_, rfl, _, .self _, .inl rfl, by decide +kernel⟩, rfl⟩
  have hentry : HoldsUnder paddedFile (routeEndpoint paddedMethods) "methods" paddedMethods :=
    ⟨[], _, _, [], ⟨_, .self _, rfl, rfl⟩, rfl, ⟨_, .self _, .inl rfl, by decide +kernel⟩, by simp⟩
  have hblank : ∀ c ∈ [' '], Text.isBlank c = true := List.forall_mem_singleton.mpr (by decide)
  have hnone : ∀ c ∈ ([] : List Char), Text.isBlank c = true := List.forall_mem_nil _
  have hpadded : List.Forall₂ Text.Pads [" get ", "Post", "", "GET "] ["get", "Post", "", "GET"] :=
    .cons ⟨[' '], [' '], hblank, hblank, by decide⟩
      (.cons ⟨[], [], hnone, hnone, by decide⟩
        (.cons ⟨[], [], hnone, hnone, by decide⟩
          (.cons ⟨[], [' '], hnone, hblank, by decide⟩ .nil)))
  have htext : IsText paddedFile paddedMethods (Text.join "," [" get ", "Post", "", "GET "]) :=
    ⟨_, .self _, .inl rfl, by decide +kernel⟩
  have hspells : Spells paddedFile ["get", "Post", "", "GET"] .text (routeEndpoint paddedMethods) :=
    .text hentry htext hpadded
  refine ⟨hcall, hspells, fun s => ?_⟩
  have hread : readMethods .text ["get", "Post", "", "GET"] = ["GET", "POST"] := by decide +kernel
  have hpath : routePath "n" "r" = "n/r" := by decide +kernel
  have hfound := (rest_spellings_register (s := s)
    (v := ⟨routeCall (routeEndpoint paddedMethods), none⟩) hcall hspells (by decide)).1
  rwa [hread, hpath] at hfound

/-- The methods `GET` and a blank in an array. -/
def blankMethods : Tree :=
  .node "array_creation_expression" true 34 42 none
    [.node "array_element_initializer" true 34 39 none [.node "string" true 34 39 none []],
      .node "array_element_initializer" true 39 42 none [.node "string" true 39 42 none []]]

@[inherit_doc blankMethods]
def blankFile : SourceFile :=
  { path := "/p/r.php", source := "register_rest_route'n''r''methods''GET'' '" }

/-- In an array a blank is registered as a method without a name, beside the one method that
is meant. -/
theorem blank_method_registered :
    RegistersRoute blankFile (routeCall (routeEndpoint blankMethods)) "n" "r"
      (routeEndpoint blankMethods) ∧
    Spells blankFile ["GET", " "] .array (routeEndpoint blankMethods) ∧
    declaredMethods ["GET", " "] = ["GET"] ∧
    ((findAt Family.all blankFile {}
      ⟨routeCall (routeEndpoint blankMethods), none⟩).findings.filterMap
        Finding.entity?).map Entity.label = ["GET n/r", " n/r"] := by
  have hentry : HoldsUnder blankFile (routeEndpoint blankMethods) "methods" blankMethods :=
    ⟨[], _, _, [], ⟨_, .self _, rfl, rfl⟩, rfl, ⟨_, .self _, .inl rfl, by decide +kernel⟩, by simp⟩
  have hlist : IsList blankMethods [.node "string" true 34 39 none [],
      .node "string" true 39 42 none []] :=
    ⟨_, ⟨_, .self _, rfl, rfl⟩, .cons rfl (.cons rfl .nil)⟩
  have hitems : List.Forall₂ (IsText blankFile) [.node "string" true 34 39 none [],
      .node "string" true 39 42 none []] ["GET", " "] :=
    .cons ⟨_, .self _, .inl rfl, by decide +kernel⟩
      (.cons ⟨_, .self _, .inl rfl, by decide +kernel⟩ .nil)
  exact ⟨⟨rfl, by decide +kernel, ⟨_, rfl, _, .self _, .inl rfl, by decide +kernel⟩,
    ⟨_, rfl, _, .self _, .inl rfl, by decide +kernel⟩, rfl⟩, .array hentry hlist hitems,
    by decide +kernel, by decide +kernel⟩

end Php

end PluginAtlas
