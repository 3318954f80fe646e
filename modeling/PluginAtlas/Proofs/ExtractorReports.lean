import PluginAtlas.Plugin.Analysis
import PluginAtlas.Proofs.HeaderLines
import PluginAtlas.Proofs.JsonLayouts
import PluginAtlas.Proofs.OutputLines

/-!
# Reports of an extractor program

A script is read by another program as well as by a reader that knows the items from elsewhere:
if the program prints the items as an array on a line of its own, they are found between any
other lines in front and lines behind that are no arrays. The items may be spelt in every way
that the grammar allows, with their fields in any order, and values among them that describe no
item are left out.

Whenever the program does not come as far as that, there are no items and a notice tells why.
There is one exception: behind the last array, a line with a number too long to be read ends
the search with a failure, whatever the program printed before and however it finished.

## Main definitions

* `Item.ReportedBy`, `IsDropped`, `Reports`: the items that an array describes.
* `Item.IsRecord`: items that can be printed.
* `PrintsItems`: a line that reports items.
* `External.Fails`, `External.Delivers`, `External.Stumbles`: what becomes of a program.

## Main results

* `Item.IsRecord.reportedBy`: an item is described by its own data.
* `Reports.filterMap_eq`: the items that are read from a report.
* `External.reader_reports`: what a program is read as, in all cases.
-/

namespace PluginAtlas

/-! ### Arrays on a line -/

namespace Json

/-- A text of a list is a list in brackets with blanks around it. -/
theorem WrittenAs.exists_brackets {items : List Json} {text : List Char}
    (h : (Json.arr items).WrittenAs text) :
    ∃ before inside after, text = before ++ ('[' :: (inside ++ [']']) ++ after) ∧
      IsBlank before ∧ IsBlank after ∧ (Json.arr items).WrittenAs ('[' :: (inside ++ [']'])) := by
  generalize hvalue : Json.arr items = value at h
  induction h with
  | null | bool | int | float | str | obj => cases hvalue
  | @arr blank hblank items hitems =>
    refine ⟨[], blank ++ [','].intercalate (items.map Prod.snd), [], by simp,
      List.forall_mem_nil _, List.forall_mem_nil _, ?_⟩
    rw [List.append_assoc]
    exact .arr hblank hitems
  | @padded value before text after hbefore _ hafter ih =>
    obtain ⟨front, inside, back, rfl, hfront, hback, hwritten⟩ := ih hvalue
    refine ⟨before ++ front, inside, back ++ after, by simp, ?_, ?_, hwritten⟩
    · exact List.forall_mem_append.mpr ⟨hbefore, hfront⟩
    · exact List.forall_mem_append.mpr ⟨hback, hafter⟩

theorem isBlank_of_isSpace {c : Char} (h : isSpace c = true) : Text.isBlank c = true := by
  simp only [isSpace, Bool.or_eq_true, beq_iff_eq] at h
  rcases h with ((rfl | rfl) | rfl) | rfl <;> decide

theorem isTrimmed_brackets (inside : List Char) :
    Text.IsTrimmed (String.ofList ('[' :: (inside ++ [']']))) := by
  rw [Text.IsTrimmed, String.toList_ofList]
  constructor
  · rintro c ⟨⟩
    decide
  · rw [← List.cons_append, List.getLast?_concat]
    rintro c ⟨⟩
    decide

/-- Trimming a line leaves the brackets with what they hold. -/
theorem strip_brackets {before inside after : List Char} (hbefore : IsBlank before)
    (hafter : IsBlank after) :
    Text.strip (String.ofList (before ++ ('[' :: (inside ++ [']']) ++ after))) =
      String.ofList ('[' :: (inside ++ [']'])) := by
  have hpads : Text.Pads (String.ofList (before ++ ('[' :: (inside ++ [']']) ++ after)))
      (String.ofList ('[' :: (inside ++ [']']))) := by
    refine ⟨before, after, fun c hc => isBlank_of_isSpace (hbefore c hc),
      fun c hc => isBlank_of_isSpace (hafter c hc), ?_⟩
    rw [String.toList_ofList, String.toList_ofList, List.append_assoc]
  rw [Text.strip_padded hpads, (isTrimmed_brackets inside).strip_eq]

theorem parse_of_front {s : String} {inside : List Char} (hs : s.toList = '[' :: inside)
    {value : Json} {rest : List Char} (hread : readFront ('[' :: inside) = .ok (value, rest))
    (hrest : skipSpace rest = []) : parse s = .ok value := by
  have hwhole : readWhole s.toList = .ok value := by
    rw [hs, readWhole]
    · simp only [skipSpace_cons (show isSpace '[' = false from rfl), hread, hrest]
    · rintro more heq
      exact absurd (List.cons.inj heq).1 (by decide)
  rw [parse, hwhole]

namespace ReadAs

/-- A list is read item by item. -/
theorem exists_items {items : List Json} {read : Json} (h : (Json.arr items).ReadAs read) :
    ∃ reads, read = .arr reads ∧ List.Forall₂ ReadAs items reads := by
  generalize hvalue : Json.arr items = value at h
  cases h with
  | @arr pairs hpairs =>
    obtain rfl := Json.arr.inj hvalue
    refine ⟨_, rfl, ?_⟩
    rw [List.forall₂_map_left_iff, List.forall₂_map_right_iff, List.forall₂_same]
    exact hpairs
  | _ => cases hvalue

end ReadAs

/-- A line that is an array is read as one, item by item. -/
theorem WrittenAs.exists_parse {items : List Json} {inside : List Char}
    (h : (Json.arr items).WrittenAs ('[' :: inside)) :
    ∃ reads, parse (String.ofList ('[' :: inside)) = .ok (.arr reads) ∧
      List.Forall₂ ReadAs items reads := by
  obtain ⟨read, left, hsame, hread, hleft⟩ := h.reads (2 * ('[' :: inside).length + 2) []
    (Nat.le_add_right _ 2) (fun hnumber => hnumber.elim)
  obtain ⟨reads, rfl, hitems⟩ := hsame.exists_items
  rw [List.append_nil, skipSpace_cons (show isSpace '[' = false from rfl)] at hread
  exact ⟨reads, parse_of_front (String.toList_ofList) hread hleft, hitems⟩

/-- A whole number with too many digits cannot be read. -/
theorem readNumber_of_long {whole rest : List Char} (hwhole : IsWhole whole)
    (hlong : maxDigits < whole.length) (hrest : EndsNumber rest) (start : List Char)
    (negative : Bool) :
    readNumber start negative (whole ++ rest) = .error ⟨.digits whole.length, start.length⟩ := by
  simp only [readNumber, hwhole.wholePart?_eq hrest.startsApart, hrest.fractionPart_eq,
    hrest.exponentPart?_eq]
  exact if_pos hlong

/-- A list that begins with such a number cannot be read either. -/
theorem exists_parse_error_of_long {whole rest : List Char} (hwhole : IsWhole whole)
    (hlong : maxDigits < whole.length) (hrest : EndsNumber rest) :
    ∃ e, parse (String.ofList ('[' :: (whole ++ rest))) = .error e ∧
      e.fault = .digits whole.length := by
  obtain ⟨c, cs, hstart, hc⟩ := hwhole.exists_start (.inl rfl) rest
  rw [List.nil_append] at hstart
  have hdigit : c.isDigit = true := by
    obtain ⟨d, ds, rfl⟩ := List.exists_cons_of_ne_nil hwhole.1.1
    obtain ⟨rfl, -⟩ := List.cons.inj hstart
    exact hwhole.1.2 _ List.mem_cons_self
  have hatom : ∀ fuel, readValue (fuel + 1) (c :: cs) =
      .error ⟨.digits whole.length, (c :: cs).length⟩ := by
    intro fuel
    rw [readValue_of_atom, readAtom_digit hdigit, ← hstart,
      readNumber_of_long hwhole hlong hrest]
    intro d hd
    obtain rfl : c = d := by simpa using hd
    exact hc.apart.1
  have hlist : readFront ('[' :: (c :: cs)) =
      .error ⟨.digits whole.length, (c :: cs).length⟩ := by
    rw [readFront, readValue_list (skipSpace_cons hc.apart.2.1 cs) (by simpa using hc.apart.2.2),
      readItems, List.length_cons, Nat.mul_succ, hatom]
  have hread : readWhole ('[' :: (c :: cs)) =
      .error ⟨.digits whole.length, (c :: cs).length⟩ := by
    rw [readWhole]
    · simp only [skipSpace_cons (show isSpace '[' = false from rfl), hlist]
    · rintro more heq
      exact absurd (List.cons.inj heq).1 (by decide)
  rw [hstart, parse, String.toList_ofList, hread]
  exact ⟨_, rfl, rfl⟩

/-! ### Fields of what is read -/

theorem lookup_map_snd {α β : Type} (g : α → β) (entries : List (String × α)) (key : String) :
    (entries.map fun e => (e.1, g e.2)).lookup key = (entries.lookup key).map g := by
  induction entries with
  | nil => rfl
  | cons e entries ih =>
    rw [List.map_cons, List.lookup_cons, List.lookup_cons, ih]
    cases key == e.1 <;> rfl

namespace ReadAs

/-- An object with distinct keys is read field by field. -/
theorem exists_lookup {fields : List (String × Json)} {read : Json}
    (h : (Json.obj fields).ReadAs read) (hkeys : (fields.map Prod.fst).Nodup) :
    ∃ fields', read = .obj fields' ∧
      ∀ key, (fields.lookup key = none ∧ fields'.lookup key = none) ∨
        ∃ value read, fields.lookup key = some value ∧ fields'.lookup key = some read ∧
          value.ReadAs read := by
  obtain ⟨entries, rfl, hentries, rfl⟩ := h.exists_fields hkeys
  refine ⟨_, rfl, fun key => ?_⟩
  rw [lookup_map_snd Prod.fst, lookup_map_snd Prod.snd]
  cases hfound : entries.lookup key with
  | none => exact .inl ⟨rfl, rfl⟩
  | some pair =>
    refine .inr ⟨pair.1, pair.2, rfl, rfl, hentries (key, pair) ?_⟩
    obtain ⟨before, after, rfl, -⟩ := List.lookup_eq_some_iff.mp hfound
    exact List.mem_append_right _ List.mem_cons_self

end ReadAs

/-- A value without doubles can be printed. -/
theorem IsPlain.hasShortIntegers {value : Json} (h : value.IsPlain) : value.HasShortIntegers := by
  induction h with
  | null => exact .null
  | bool b => exact .bool b
  | int hdigits => exact .int hdigits
  | str s => exact .str s
  | arr _ ih => exact .arr ih
  | obj _ _ ih => exact .obj ih

end Json

namespace Script

open Json (WrittenAs IsVisible)

/-! ### Items and their descriptions -/

/-- An object describes an item: each part of the item stands under its key, and a part that is
left out is that of an item without it. -/
structure Item.ReportedBy (item : Item) (fields : List (String × Json)) : Prop where
  keys : (fields.map Prod.fst).Nodup
  kind : ∃ word, fields.lookup "type" = some (.str word) ∧ item.kind = .ofWord word
  name : ∃ name, fields.lookup "name" = some (.str name) ∧ item.name = .str name
  line : ∃ n, item.line = .number n ∧
    (fields.lookup "line" = some (.int n) ∨ fields.lookup "line" = none ∧ n = 0)
  subtype : fields.lookup "subtype" = item.subtype.map .str ∨
    fields.lookup "subtype" = some .null ∧ item.subtype = none
  extras : fields.lookup "meta" = some (.obj item.extras) ∨
    fields.lookup "meta" = none ∧ item.extras = []
  plain : (Json.obj item.extras).IsPlain

/-- A value that describes no item: no object, or one whose kind or name is no text. -/
def IsDropped : Json → Prop
  | .obj fields => (fields.map Prod.fst).Nodup ∧
      ((fields.lookup "type").bind Json.text? = none ∨
        (fields.lookup "name").bind Json.text? = none)
  | _ => True

/-- The items that values describe, in their order. -/
inductive Reports : List Json → List Item → Prop
  | nil : Reports [] []
  | item {item : Item} {fields : List (String × Json)} {values : List Json} {items : List Item}
      (hitem : item.ReportedBy fields) (h : Reports values items) :
      Reports (.obj fields :: values) (item :: items)
  | dropped {value : Json} {values : List Json} {items : List Item} (hvalue : IsDropped value)
      (h : Reports values items) : Reports (value :: values) items

/-- A described item is read from its description. -/
theorem Item.ReportedBy.ofJson?_eq {item : Item} {fields : List (String × Json)} {read : Json}
    (h : item.ReportedBy fields) (hread : (Json.obj fields).ReadAs read) :
    Item.ofJson? read = some item := by
  obtain ⟨fields', rfl, hlookup⟩ := hread.exists_lookup h.keys
  have habsent : ∀ {key}, fields.lookup key = none → fields'.lookup key = none := by
    intro key hkey
    rcases hlookup key with ⟨-, hread⟩ | ⟨value, read, hvalue, -⟩
    · exact hread
    · cases hkey.symm.trans hvalue
  -- The parts of an item are read as they are, since they hold no doubles.
  have hpresent : ∀ {key value}, fields.lookup key = some value →
      (∀ read, value.ReadAs read → read = value) → fields'.lookup key = some value := by
    intro key value hkey hexact
    rcases hlookup key with ⟨hnone, -⟩ | ⟨value', read, hvalue, hread, hsame⟩
    · cases hkey.symm.trans hnone
    · obtain rfl := Option.some.inj (hkey.symm.trans hvalue)
      rw [hread, hexact read hsame]
  have htext : ∀ {s : String} (read : Json), (Json.str s).ReadAs read → read = .str s := by
    rintro s read ⟨⟩
    rfl
  obtain ⟨kind, name, line, subtype, extras⟩ := item
  obtain ⟨word, hword, rfl⟩ := h.kind
  obtain ⟨name, hname, rfl⟩ := h.name
  obtain ⟨n, rfl, hline⟩ := h.line
  simp only [Item.ofJson?, hpresent hword htext, hpresent hname htext, Option.some.injEq,
    Item.mk.injEq, true_and]
  refine ⟨?_, ?_, ?_⟩
  · rcases hline with hline | ⟨hline, rfl⟩
    · rw [hpresent hline (by rintro read ⟨⟩; rfl)]
    · rw [habsent hline]
  · rcases h.subtype with hsubtype | ⟨hsubtype, hnone⟩
    · cases subtype with
      | none => rw [habsent hsubtype]
      | some s => rw [hpresent hsubtype htext]
    · rw [hpresent hsubtype (by rintro read ⟨⟩; rfl)]
      exact hnone.symm
  · rcases h.extras with hextras | ⟨hextras, hnone⟩
    · rw [hpresent hextras fun read hread => hread.eq_of_isPlain h.plain]
    · rw [habsent hextras]
      exact hnone.symm

/-- Other values describe no item when they are read. -/
theorem IsDropped.ofJson?_eq {value read : Json} (h : IsDropped value) (hread : value.ReadAs read) :
    Item.ofJson? read = none := by
  cases value with
  | obj fields =>
    obtain ⟨hkeys, hnone⟩ := h
    obtain ⟨fields', rfl, hlookup⟩ := hread.exists_lookup hkeys
    have htexts : ∀ key, (fields'.lookup key).bind Json.text? =
        (fields.lookup key).bind Json.text? := by
      intro key
      rcases hlookup key with ⟨hleft, hright⟩ | ⟨value, read, hleft, hright, hsame⟩
      · rw [hleft, hright]
      · rw [hleft, hright, Option.bind_some, Option.bind_some, hsame.text?_eq]
    rw [← htexts, ← htexts] at hnone
    rw [Item.ofJson?]
    split
    · next hkind hname =>
      rw [hkind, hname] at hnone
      rcases hnone with hnone | hnone <;> cases hnone
    · rfl
  | _ =>
    cases hread
    rfl

/-- From a report exactly its items are read. -/
theorem Reports.filterMap_eq {values reads : List Json} {items : List Item}
    (h : Reports values items) (hreads : List.Forall₂ Json.ReadAs values reads) :
    reads.filterMap Item.ofJson? = items := by
  induction h generalizing reads with
  | nil =>
    obtain rfl := List.forall₂_nil_left_iff.mp hreads
    rfl
  | item hitem _ ih =>
    obtain ⟨read, reads, hread, hrest, rfl⟩ := List.forall₂_cons_left_iff.mp hreads
    rw [List.filterMap_cons_some (hitem.ofJson?_eq hread), ih hrest]
  | dropped hvalue _ ih =>
    obtain ⟨read, reads, hread, hrest, rfl⟩ := List.forall₂_cons_left_iff.mp hreads
    rw [List.filterMap_cons_none (hvalue.ofJson?_eq hread), ih hrest]

/-! ### Items that are printed -/

/-- An item as an extractor reports it: its kind goes by its word, its name is a text, its line a
whole number, and no double stands among its extras. -/
structure Item.IsRecord (item : Item) : Prop where
  kind : ItemKind.ofWord item.kind.word = item.kind
  name : ∃ name, item.name = .str name
  line : ∃ n, item.line = .number n ∧ (Nat.toDigits 10 n.natAbs).length ≤ Json.maxDigits
  extras : (Json.obj item.extras).IsPlain

/-- An item is described by its own data. -/
theorem Item.IsRecord.reportedBy {item : Item} (h : item.IsRecord) :
    ∃ fields, item.toJson = .obj fields ∧ item.ReportedBy fields ∧
      item.toJson.HasShortIntegers := by
  obtain ⟨kind, name, line, subtype, extras⟩ := item
  obtain ⟨hkind, ⟨name, rfl⟩, ⟨n, rfl, hdigits⟩, hextras⟩ := h
  have hsubtype : (Json.ofText? subtype).HasShortIntegers := by
    cases subtype with
    | none => exact .null
    | some s => exact .str s
  refine ⟨_, rfl, ?_, .obj ?_⟩
  · refine ⟨by simp, ⟨kind.word, rfl, hkind.symm⟩, ⟨name, rfl, rfl⟩, ⟨n, rfl, .inl rfl⟩, ?_,
      .inl rfl, hextras⟩
    cases subtype with
    | none => exact .inr ⟨rfl, rfl⟩
    | some s => exact .inl rfl
  · simp only [List.forall_mem_cons]
    exact ⟨.str _, .str _, .int hdigits, hsubtype, hextras.hasShortIntegers, List.forall_mem_nil _⟩

/-- A line that reports items: an array without line boundaries, with its items in any spelling. -/
def PrintsItems (line : String) (items : List Item) : Prop :=
  (∀ c ∈ line.toList, Text.isLineEnd c = false) ∧
    ∃ values, (Json.arr values).WrittenAs line.toList ∧ Reports values items

theorem ofList_cons_ne_empty (c : Char) (cs : List Char) : String.ofList (c :: cs) ≠ "" := by
  intro hempty
  have hnil := congrArg String.toList hempty
  rw [String.toList_ofList] at hnil
  cases hnil

theorem startsWith_bracket (inside : List Char) :
    Text.startsWith "[" (String.ofList ('[' :: inside)) = true := by
  simp [Text.startsWith]

theorem isLineEnd_of_isVisible {c : Char} (h : IsVisible c) : Text.isLineEnd c = false := by
  obtain ⟨hlow, hhigh⟩ := h
  simp only [Text.isLineEnd, Bool.or_eq_false_iff, Bool.and_eq_false_iff, decide_eq_false_iff_not,
    beq_eq_false_iff_ne]
  omega

/-- The line on which items are printed for ASCII. -/
def reportLine (items : List Item) : String :=
  Json.render .ascii (.arr (items.map Item.toJson))

theorem reportLine_prints {items : List Item} (h : ∀ item ∈ items, item.IsRecord) :
    (∀ c ∈ (reportLine items).toList, IsVisible c) ∧ PrintsItems (reportLine items) items := by
  have hshort : (Json.arr (items.map Item.toJson)).HasShortIntegers := by
    refine .arr (List.forall_mem_map.mpr fun item hitem => ?_)
    obtain ⟨_, _, _, hshort⟩ := (h item hitem).reportedBy
    exact hshort
  have hreports : Reports (items.map Item.toJson) items := by
    clear hshort
    induction items with
    | nil => exact .nil
    | cons item items ih =>
      obtain ⟨hitem, hitems⟩ := List.forall_mem_cons.mp h
      obtain ⟨fields, hfields, hreported, -⟩ := hitem.reportedBy
      rw [List.map_cons, hfields]
      exact .item hreported (ih hitems)
  refine ⟨hshort.render_visible, fun c hc => ?_, _, hshort.render_writtenAs .ascii, hreports⟩
  exact isLineEnd_of_isVisible (hshort.render_visible c hc)

/-- In an output, a line that reports items is the payload if no later line ends the search. -/
theorem PrintsItems.exists_ofOutput {line before rest : String} {items : List Item}
    (h : PrintsItems line items) (hbefore : Text.EndsLine before) (hrest : Text.StartsLine rest)
    (hlater : ∀ l ∈ Payload.contentLines rest, IsPassed l) :
    ∃ reads, Payload.ofOutput (before ++ line ++ rest) =
      .ok ⟨some reads, Payload.contentLines before⟩ ∧ reads.filterMap Item.ofJson? = items := by
  obtain ⟨hplain, values, hwritten, hreports⟩ := h
  obtain ⟨front, inside, back, hline, hfront, hback, hcore⟩ := hwritten.exists_brackets
  obtain ⟨reads, hread, hreads⟩ := hcore.exists_parse
  have hstrip : Text.strip line = String.ofList ('[' :: (inside ++ [']'])) := by
    rw [← String.ofList_toList (s := line), hline, Json.strip_brackets hfront hback]
  have hne : Text.strip line ≠ "" := by
    rw [hstrip]
    exact ofList_cons_ne_empty _ _
  refine ⟨reads, ?_, hreports.filterMap_eq hreads⟩
  have hlines := Payload.contentLines_around hbefore hplain hne hrest
  rw [hstrip] at hlines
  exact Payload.ofOutput_of_array hlines (startsWith_bracket _) hread hlater

/-! ### What becomes of a program -/

namespace External

variable {launch : Launch} {e : External} {path : String}

/-- The program is asked for a script and finishes. -/
def Finishes (launch : Launch) (e : External) (path output errors : String) (status : Int) : Prop :=
  e.command ≠ [] ∧ launch (e.command ++ [path]) = .finished output errors status

/-- Why there are no items, with the notice that tells it. -/
inductive Fails (launch : Launch) (e : External) (path : String) : Notice → Prop
  | notConfigured (h : e.command = []) : Fails launch e path (.extractorNotConfigured path)
  | timedOut (hcommand : e.command ≠ []) (h : launch (e.command ++ [path]) = .timedOut) :
      Fails launch e path (.extractorTimeout path e.timeout.toJson)
  | unavailable {error : String} (hcommand : e.command ≠ [])
      (h : launch (e.command ++ [path]) = .unavailable error) :
      Fails launch e path (.extractorFailed path error)
  | exitStatus {output errors : String} {status : Int}
      (h : e.Finishes launch path output errors status) (hstatus : status ≠ 0) :
      Fails launch e path (.extractorExitStatus path status)
  | noArray {output errors : String} (h : e.Finishes launch path output errors 0)
      (hlines : ∀ line ∈ Payload.contentLines (output ++ "\n" ++ errors), ¬ HoldsArray line) :
      Fails launch e path (.extractorWithoutPayload path)

/-- The program finishes well and prints an array. -/
def Delivers (launch : Launch) (e : External) (path : String) : Prop :=
  ∃ output errors, e.Finishes launch path output errors 0 ∧
    ∃ line ∈ Payload.contentLines (output ++ "\n" ++ errors), HoldsArray line

/-- The program finishes with a long number behind the last array, if there is one. -/
def Stumbles (launch : Launch) (e : External) (path : String) (count : Nat) : Prop :=
  ∃ output errors status, e.Finishes launch path output errors status ∧
    Payload.StumblesOver (output ++ "\n" ++ errors) count

theorem Finishes.value_read {output errors : String} {status : Int}
    (h : e.Finishes launch path output errors status) :
    (e.read launch path).value = (itemsOf path (output ++ "\n" ++ errors) status).value := by
  simp only [read, h.2]
  rw [if_neg (by simpa using h.1)]
  rfl

theorem Finishes.notices_read {output errors : String} {status : Int}
    (h : e.Finishes launch path output errors status) :
    (e.read launch path).notices = (itemsOf path (output ++ "\n" ++ errors) status).notices := by
  simp only [read, h.2]
  rw [if_neg (by simpa using h.1)]
  exact List.nil_append _

/-- Without a failure of the search, the status and the payload decide. -/
theorem itemsOf_cases {output : String} {payload : Payload}
    (h : Payload.ofOutput output = .ok payload) (path : String) (status : Int) :
    (status ≠ 0 → (itemsOf path output status).value = .ok [] ∧
      .extractorExitStatus path status ∈ (itemsOf path output status).notices) ∧
    (payload.items = none → (itemsOf path output 0).value = .ok [] ∧
      .extractorWithoutPayload path ∈ (itemsOf path output 0).notices) ∧
    ∀ items, payload.items = some items →
      (itemsOf path output 0).value = .ok (items.filterMap Item.ofJson?) := by
  simp only [itemsOf, h]
  refine ⟨fun hstatus => ?_, fun hnone => ?_, fun items hitems => ?_⟩
  · rw [if_pos hstatus]
    exact ⟨rfl, List.mem_append_right _ List.mem_cons_self⟩
  · rw [if_neg (by simp), hnone]
    exact ⟨rfl, List.mem_append_right _ List.mem_cons_self⟩
  · rw [if_neg (by simp), hitems]
    rfl

theorem itemsOf_of_stumblesOver {output : String} {count : Nat}
    (h : Payload.StumblesOver output count) (status : Int) :
    (itemsOf path output status).value = .error (.tooManyDigits count) := by
  obtain ⟨e, he, hcount⟩ := h.exists_error
  simp only [itemsOf, he, hcount]
  rfl

/-- A program on which the search does not fail has a payload, or none. -/
theorem Finishes.exists_payload {output errors : String} {status : Int}
    (h : e.Finishes launch path output errors status)
    (hstumbles : ∀ count, ¬ e.Stumbles launch path count) :
    ∃ payload, Payload.ofOutput (output ++ "\n" ++ errors) = .ok payload := by
  cases hread : Payload.ofOutput (output ++ "\n" ++ errors) with
  | ok payload => exact ⟨payload, rfl⟩
  | error error =>
    obtain ⟨count, -, hover⟩ := Payload.exists_stumblesOver hread
    exact absurd ⟨output, errors, status, h, hover⟩ (hstumbles count)

/-- Every failure leaves no items and is told. -/
theorem Fails.read_value {notice : Notice} (h : e.Fails launch path notice)
    (hstumbles : ∀ count, ¬ e.Stumbles launch path count) :
    (e.read launch path).value = .ok [] ∧ notice ∈ (e.read launch path).notices := by
  cases h with
  | notConfigured h =>
    rw [read, if_pos (by simpa using h)]
    exact ⟨rfl, List.mem_cons_self⟩
  | timedOut hcommand h =>
    simp only [read, h]
    rw [if_neg (by simpa using hcommand)]
    exact ⟨rfl, List.mem_cons_self⟩
  | unavailable hcommand h =>
    simp only [read, h]
    rw [if_neg (by simpa using hcommand)]
    exact ⟨rfl, List.mem_cons_self⟩
  | @exitStatus output errors status h hstatus =>
    obtain ⟨payload, hpayload⟩ := h.exists_payload hstumbles
    rw [h.value_read, h.notices_read]
    exact (itemsOf_cases hpayload path status).1 hstatus
  | noArray h hlines =>
    obtain ⟨payload, hpayload⟩ := h.exists_payload hstumbles
    rw [h.value_read, h.notices_read]
    exact (itemsOf_cases hpayload path 0).2.1 (Payload.items_eq_none hpayload hlines)

/-- Every program either fails or delivers an array. -/
theorem fails_or_delivers (launch : Launch) (e : External) (path : String) :
    (∃ notice, e.Fails launch path notice) ∨ e.Delivers launch path := by
  by_cases hcommand : e.command = []
  · exact .inl ⟨_, .notConfigured hcommand⟩
  cases hlaunch : launch (e.command ++ [path]) with
  | timedOut => exact .inl ⟨_, .timedOut hcommand hlaunch⟩
  | unavailable error => exact .inl ⟨_, .unavailable hcommand hlaunch⟩
  | finished output errors status =>
    by_cases hstatus : status = 0
    · subst hstatus
      by_cases harray : ∃ line ∈ Payload.contentLines (output ++ "\n" ++ errors), HoldsArray line
      · exact .inr ⟨output, errors, ⟨hcommand, hlaunch⟩, harray⟩
      · refine .inl ⟨_, .noArray ⟨hcommand, hlaunch⟩ fun line hline hholds => ?_⟩
        exact harray ⟨line, hline, hholds⟩
    · exact .inl ⟨_, .exitStatus ⟨hcommand, hlaunch⟩ hstatus⟩

/-- Asking a program has a result unless the search stumbles. -/
theorem exists_read_value (hstumbles : ∀ count, ¬ e.Stumbles launch path count) :
    ∃ items, (e.read launch path).value = .ok items := by
  rcases fails_or_delivers launch e path with ⟨notice, hfails⟩ | ⟨output, errors, hfinishes, -⟩
  · exact ⟨[], (hfails.read_value hstumbles).1⟩
  · obtain ⟨payload, hpayload⟩ := hfinishes.exists_payload hstumbles
    obtain ⟨-, hnone, hsome⟩ := itemsOf_cases hpayload path 0
    rw [hfinishes.value_read]
    cases hitems : payload.items with
    | none => exact ⟨[], (hnone hitems).1⟩
    | some items => exact ⟨_, hsome items hitems⟩

theorem Stumbles.read_value {count : Nat} (h : e.Stumbles launch path count) :
    (e.read launch path).value = .error (.tooManyDigits count) := by
  obtain ⟨output, errors, status, hfinishes, hover⟩ := h
  rw [hfinishes.value_read]
  exact itemsOf_of_stumblesOver hover status

/-- Asking a program fails exactly over a long number behind the last array. -/
theorem read_eq_error_iff {failure : Failure} :
    (e.read launch path).value = .error failure ↔
      ∃ count, e.Stumbles launch path count ∧ failure = .tooManyDigits count := by
  constructor
  · intro herror
    by_cases hstumbles : ∃ count, e.Stumbles launch path count
    · obtain ⟨count, hcount⟩ := hstumbles
      exact ⟨count, hcount, Except.error.inj (herror.symm.trans hcount.read_value)⟩
    · obtain ⟨items, hitems⟩ := exists_read_value (not_exists.mp hstumbles)
      cases herror.symm.trans hitems
  · rintro ⟨count, hcount, rfl⟩
    exact hcount.read_value

/-- A program that prints items on a line of its own is read as these items. -/
theorem Finishes.read_value {items : List Item} {before line after errors : String}
    (h : e.Finishes launch path (before ++ line ++ after) errors 0) (hline : PrintsItems line items)
    (hbefore : Text.EndsLine before) (hafter : Text.StartsLine after)
    (hlater : ∀ l ∈ Payload.contentLines (after ++ "\n" ++ errors), IsPassed l) :
    (e.read launch path).value = .ok items := by
  have houtput : before ++ line ++ after ++ "\n" ++ errors =
      before ++ line ++ (after ++ "\n" ++ errors) := by
    simp only [String.append_assoc]
  obtain ⟨reads, hpayload, rfl⟩ :=
    hline.exists_ofOutput hbefore (hafter.append_newline errors) hlater
  rw [h.value_read, houtput]
  exact (itemsOf_cases hpayload path 0).2.2 reads rfl

end External

end Script

/-- The run after a script is read by a reader. -/
def Run.absorbScript (run : Run) (site : Site) (reader : Script.ScriptReader) (f : SourceFile) :
    Run :=
  run.absorb (.ended ({ site with reader }.extract run.visitors .script f).value.1)

theorem Run.absorbScript_congr {reader reader' : Script.ScriptReader} {f : SourceFile}
    (h : (reader f).value = (reader' f).value) (run : Run) (site : Site) :
    run.absorbScript site reader f = run.absorbScript site reader' f := by
  simp only [absorbScript, Site.extract, Traced.value_bind, Traced.value_pure, h]

theorem Run.store_absorbScript_of_nil {reader : Script.ScriptReader} {f : SourceFile}
    (h : (reader f).value = .ok []) (run : Run) (site : Site) :
    (run.absorbScript site reader f).store = run.store := by
  simp only [absorbScript, Site.extract, Traced.value_bind, Traced.value_pure, h]
  rfl

namespace Script.External

/-- An extractor program is as good as a reader that knows the items: what it prints for a list
of items is one line of ASCII that reports them; a line that reports items is read as these,
whatever stands in front, if no array and no long number stands behind it; a program that does
not deliver an array fails in a way of which a notice tells, adds no items and leaves the store
as it was. The exception is a long number behind the last array, which ends the extraction. -/
theorem reader_reports (launch : Launch) (e : External) (f : SourceFile) :
    (∀ items : List Item, (∀ item ∈ items, item.IsRecord) →
      (∀ c ∈ (reportLine items).toList, Json.IsVisible c) ∧
        PrintsItems (reportLine items) items) ∧
    (∀ (items : List Item) (before line after errors : String),
      e.Finishes launch f.path (before ++ line ++ after) errors 0 → PrintsItems line items →
      Text.EndsLine before → Text.StartsLine after →
      (∀ l ∈ Payload.contentLines (after ++ "\n" ++ errors), IsPassed l) →
        (e.reader launch f).value = .ok items ∧
        ∀ (run : Run) (site : Site), run.absorbScript site (e.reader launch) f =
          run.absorbScript site (fun _ => pure (.ok items)) f) ∧
    (¬ e.Delivers launch f.path → ∃ notice, e.Fails launch f.path notice) ∧
    (∀ notice, e.Fails launch f.path notice → (∀ count, ¬ e.Stumbles launch f.path count) →
      (e.reader launch f).value = .ok [] ∧ notice ∈ (e.reader launch f).notices ∧
      ∀ (run : Run) (site : Site),
        (run.absorbScript site (e.reader launch) f).store = run.store) ∧
    ∀ failure, (e.reader launch f).value = .error failure ↔
      ∃ count, e.Stumbles launch f.path count ∧ failure = .tooManyDigits count := by
  refine ⟨fun items => reportLine_prints, ?_, ?_, ?_, fun failure => read_eq_error_iff⟩
  · intro items before line after errors hfinishes hline hbefore hafter hlater
    have hvalue : (e.reader launch f).value = .ok items :=
      hfinishes.read_value hline hbefore hafter hlater
    exact ⟨hvalue, Run.absorbScript_congr hvalue⟩
  · exact (fails_or_delivers launch e f.path).resolve_right
  · intro notice hfails hstumbles
    obtain ⟨hvalue, hnotice⟩ := hfails.read_value hstumbles
    exact ⟨hvalue, hnotice, Run.store_absorbScript_of_nil hvalue⟩

/-- A script, and a program that is asked for its items. -/
def askedFile : SourceFile := { path := "/p/a.js", source := "" }

def askedProgram : External := ⟨["extract", "--all"], .whole 30⟩

/-- Items with escapes in their names, and with lists and objects among their extras. -/
def reportedItems : List Item := [
  { kind := .block, name := .str "é\u2028\"[]", line := .number (-3), subtype := some "\n",
    extras := [("a", .arr [.int 5, .obj [("b", .null)], .str "\\"]), ("c", .bool true)] },
  { kind := .other "x", name := .str "", line := .number 0 }]

theorem reportedItems_isRecord : ∀ item ∈ reportedItems, item.IsRecord := by
  simp only [reportedItems, List.forall_mem_cons]
  refine ⟨⟨by decide +kernel, ⟨_, rfl⟩, ⟨_, rfl, by decide +kernel⟩, ?_⟩,
    ⟨by decide +kernel, ⟨_, rfl⟩, ⟨_, rfl, by decide +kernel⟩, ?_⟩, List.forall_mem_nil _⟩
  · refine .obj (by decide) ?_
    simp only [List.forall_mem_cons]
    refine ⟨.arr ?_, .bool true, List.forall_mem_nil _⟩
    simp only [List.forall_mem_cons]
    refine ⟨.int (by decide +kernel), .obj (by decide) ?_, .str _, List.forall_mem_nil _⟩
    simp only [List.forall_mem_cons]
    exact ⟨.null, List.forall_mem_nil _⟩
  · exact .obj (by decide) (List.forall_mem_nil _)

/-- The items between an array in front and lines behind that only look like one. -/
def askedLaunch : Launch := fun _ =>
  .finished ("[1, 2]\nreading\r\n" ++ reportLine reportedItems ++ "\r\ndone [4]") "  [x" 0

theorem reader_reports_between_lines :
    (askedProgram.reader askedLaunch askedFile).value = .ok reportedItems := by
  obtain ⟨hprinted, hread, -⟩ := reader_reports askedLaunch askedProgram askedFile
  refine (hread reportedItems _ _ _ _ ⟨by decide, rfl⟩
    (hprinted reportedItems reportedItems_isRecord).2 ?_ ?_ ?_).1
  · rintro c ⟨⟩
    decide
  · rintro c ⟨⟩
    decide
  · have hlines : Payload.contentLines ("\r\ndone [4]" ++ "\n" ++ "  [x") = ["done [4]", "[x"] := by
      decide +kernel
    have hbroken : Json.parse "[x" = .error ⟨.value, 1, 1, 2⟩ := by rfl
    rw [hlines, List.forall_mem_cons, List.forall_mem_singleton]
    exact ⟨isPassed_of_not_list (by decide +kernel), isPassed_of_malformed hbroken (by decide)⟩

/-- The beginning of a list that is never closed. -/
def openList (digits : List Char) : String := String.ofList ('[' :: digits)

theorem isBlank_of_isDigit {c : Char} (h : c.isDigit = true) : Text.isBlank c = false := by
  obtain ⟨hlow, hhigh⟩ := Json.toNat_of_isDigit h
  simp only [Text.isBlank, Bool.or_eq_false_iff, Bool.and_eq_false_iff, decide_eq_false_iff_not,
    beq_eq_false_iff_ne]
  omega

/-- That a number has too many digits is found before the list is seen to be open. -/
theorem openList_hasLongNumber {digits : List Char} (h : Json.IsWhole digits)
    (hlong : Json.maxDigits < digits.length) : HasLongNumber (openList digits) digits.length := by
  have hend : Json.EndsNumber [] := by rintro c ⟨⟩
  obtain ⟨e, hread, hfault⟩ := Json.exists_parse_error_of_long h hlong hend
  rw [List.append_nil] at hread
  exact ⟨startsWith_bracket _, e, hread, hfault⟩

/-- Such a list is a line of its own. -/
theorem contentLines_openList {digits : List Char} (h : Json.IsWhole digits) {before : String}
    (hbefore : Text.EndsLine before) :
    Payload.contentLines (before ++ openList digits) =
      Payload.contentLines before ++ [openList digits] := by
  have hplain : ∀ c ∈ (openList digits).toList, Text.isLineEnd c = false := by
    rw [openList, String.toList_ofList, List.forall_mem_cons]
    exact ⟨by decide, fun c hc => isLineEnd_of_isVisible (h.1.visible c hc)⟩
  have hdark : ∀ c ∈ (openList digits).toList, Text.isBlank c = false := by
    rw [openList, String.toList_ofList, List.forall_mem_cons]
    exact ⟨by decide, fun c hc => isBlank_of_isDigit (h.1.2 c hc)⟩
  have hstrip : Text.strip (openList digits) = openList digits := Text.IsTrimmed.strip_eq
    ⟨fun c hc => hdark c (List.mem_of_mem_head? hc),
      fun c hc => hdark c (List.mem_of_mem_getLast? hc)⟩
  have hne : Text.strip (openList digits) ≠ "" := by
    rw [hstrip]
    exact ofList_cons_ne_empty '[' digits
  have hrest : Text.StartsLine "" := by rintro c ⟨⟩
  have hnone : Payload.contentLines "" = [] := by decide +kernel
  have hlines := Payload.contentLines_around hbefore hplain hne hrest
  rwa [hstrip, String.append_empty, hnone] at hlines

theorem stumblesOver_openList {digits : List Char} (h : Json.IsWhole digits)
    (hlong : Json.maxDigits < digits.length) {before : String} (hbefore : Text.EndsLine before) :
    Payload.StumblesOver (before ++ openList digits) digits.length :=
  ⟨_, _, [], contentLines_openList h hbefore, openList_hasLongNumber h hlong, List.forall_mem_nil _⟩

/-- Behind the items stands only a line that is no array; the long number in it makes the
extraction fail all the same. -/
theorem reader_reports_long_number :
    let noise := openList (List.replicate 4301 '1')
    let launch : Launch := fun _ => .finished (reportLine reportedItems) noise 0
    PrintsItems (reportLine reportedItems) reportedItems ∧
      (∀ items, Json.parse noise ≠ .ok (.arr items)) ∧
      (askedProgram.reader launch askedFile).value = .error (.tooManyDigits 4301) := by
  intro noise launch
  have hwhole : Json.IsWhole (List.replicate 4301 '1') := by
    refine ⟨⟨List.cons_ne_nil _ _, fun d hd => ?_⟩, fun hhead => ?_⟩
    · rw [List.eq_of_mem_replicate hd]
      rfl
    · exact absurd (Option.some.inj hhead) (by decide)
  have hlong : Json.maxDigits < (List.replicate 4301 '1').length := by
    rw [List.length_replicate]
    decide
  have hover := stumblesOver_openList hwhole hlong
    (Text.endsLine_append_newline (reportLine reportedItems))
  rw [List.length_replicate] at hover
  obtain ⟨-, e, hread, -⟩ := openList_hasLongNumber hwhole hlong
  refine ⟨(reportLine_prints reportedItems_isRecord).2, fun items hitems => ?_, ?_⟩
  · cases hread.symm.trans hitems
  · exact Stumbles.read_value ⟨_, _, _, ⟨by decide, rfl⟩, hover⟩

end Script.External

end PluginAtlas
