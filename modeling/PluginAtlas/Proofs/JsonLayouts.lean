import PluginAtlas.Proofs.JsonSpellings

/-!
# Layouts write texts of a value

What `Json.render` writes is a text of its value in the sense of the grammar, in every layout:
on one line or over several, with or without escapes beyond ASCII. Nothing is asked of the
value but that its whole numbers are short enough to be read; doubles may be anything, and an
object may list a key twice.

The digits of a double come out of a search, of which only this matters here: what it accepts
is not zero, so that the digits do not begin with a zero that other digits follow.

## Main definitions

* `Json.HasShortIntegers`: values whose whole numbers can be read.
* `Json.IsVisible`: the characters of a line of ASCII.

## Main results

* `Decimal.Binary64.render_spellsDouble`: a written double is a literal of a double.
* `Json.HasShortIntegers.render_writtenAs`: a rendered value is a text of the value.
* `Json.HasShortIntegers.render_visible`: in the layout for ASCII, it is one line of it.
-/

namespace PluginAtlas

/-! ### Doubles -/

namespace Decimal

open Json (IsDigits IsWhole IsFraction IsExponent SpellsDouble)

/-- What is picked has been accepted. -/
theorem accepts_of_pickNear {value unit scale n : Nat} {accepts : Nat → Bool}
    (h : pickNear value unit scale accepts = some n) : accepts n = true := by
  simp only [pickNear] at h
  split at h
  · next hbelow habove =>
    split at h
    · exact Option.some.inj h ▸ hbelow
    · exact Option.some.inj h ▸ habove
  · next hbelow _ => exact Option.some.inj h ▸ hbelow
  · next habove => exact Option.some.inj h ▸ habove
  · exact absurd h (by simp)

/-- The search for the digits of a number that is not zero does not end with the digit zero,
unless it finds nothing. -/
theorem shortest_pos {m : Nat} (hm : 0 < m) (q : Int) :
    0 < (shortest m q).1 ∨ shortest m q = (0, 0) := by
  simp only [shortest]
  cases hfound : List.findSome? _ _ with
  | none => exact .inr rfl
  | some found =>
    left
    obtain ⟨i, -, hi⟩ := List.exists_of_findSome?_eq_some hfound
    obtain ⟨n, hpick, rfl⟩ := Option.map_eq_some_iff.mp hi
    have haccept := accepts_of_pickNear hpick
    rw [Option.getD_some]
    -- Zero lies below the interval of the number.
    rcases Nat.eq_zero_or_pos n with rfl | hn
    · simp only [Nat.zero_mul] at haccept
      split at haccept
      · simp only [Bool.and_eq_true, decide_eq_true_eq, Nat.le_zero, mul_eq_zero] at haccept
        have hpow : ∀ b n, 0 < b → Nat.pow b n ≠ 0 := fun b n hb => (Nat.pow_pos hb).ne'
        rcases haccept.1 with (hlow | hlow) | hlow
        · split at hlow <;> omega
        · exact absurd hlow (hpow 2 _ (by omega))
        · exact absurd hlow (hpow 10 _ (by omega))
      · simp only [Bool.and_eq_true, decide_eq_true_eq, Nat.not_lt_zero, false_and] at haccept
    · exact hn

/-- A number with a fraction is a literal of a double. -/
theorem spellsDouble_fraction {sign whole fraction : List Char} (hsign : sign = [] ∨ sign = ['-'])
    (hwhole : IsWhole whole) (hfraction : IsDigits fraction) :
    SpellsDouble (sign ++ (whole ++ '.' :: fraction)) := by
  rw [← List.append_nil ('.' :: fraction)]
  exact .number hsign hwhole (.digits hfraction) .none (.inl (List.cons_ne_nil _ _))

theorem isDigit_of_mem_zeros {n : Nat} {d : Char} (h : d ∈ List.replicate n '0') :
    d.isDigit = true := by
  rw [List.eq_of_mem_replicate h]
  rfl

theorem isDigits_append_right {front digits : List Char} (hfront : ∀ d ∈ front, d.isDigit = true)
    (h : IsDigits digits) : IsDigits (front ++ digits) :=
  ⟨by simp [h.1], List.forall_mem_append.mpr ⟨hfront, h.2⟩⟩

/-- Digits that do not begin with a zero, wherever the point stands among them. -/
theorem NumberFormat.write_spellsDouble (format : NumberFormat) {sign digits : List Char}
    (hsign : sign = [] ∨ sign = ['-']) (h : IsDigits digits) (hhead : digits.head? ≠ some '0')
    (point : Int) : SpellsDouble (sign ++ (format.write digits point).toList) := by
  obtain ⟨d, ds, rfl⟩ := List.exists_cons_of_ne_nil h.1
  have hd : d ≠ '0' := by simpa using hhead
  have hds : ∀ c ∈ ds, c.isDigit = true := fun c hc => h.2 c (List.mem_cons_of_mem d hc)
  -- What begins with the first digit is the whole part of a number.
  have hwhole : ∀ {more : List Char}, (∀ c ∈ more, c.isDigit = true) → IsWhole (d :: more) := by
    intro more hmore
    refine ⟨⟨List.cons_ne_nil d more, ?_⟩, fun hzero => absurd (Option.some.inj hzero) hd⟩
    exact List.forall_mem_cons.mpr ⟨h.2 d List.mem_cons_self, hmore⟩
  simp only [NumberFormat.write, apply_ite String.toList, String.toList_ofList]
  split
  · split
    · -- A zero, the point, and the digits behind further zeros.
      exact spellsDouble_fraction hsign Json.isWhole_zero
        (isDigits_append_right (fun c => isDigit_of_mem_zeros) h)
    split
    · -- All digits, further zeros, the point and a zero.
      refine spellsDouble_fraction hsign (hwhole ?_) Json.isWhole_zero.1
      exact List.forall_mem_append.mpr ⟨hds, fun c => isDigit_of_mem_zeros⟩
    · next hpoint hcount =>
      -- The point stands between two digits.
      obtain ⟨k, hk⟩ : ∃ k, point.toNat = k + 1 := ⟨point.toNat - 1, by omega⟩
      rw [hk, List.length_cons, Nat.not_le] at hcount
      rw [hk, List.take_succ_cons, List.drop_succ_cons]
      refine spellsDouble_fraction hsign (hwhole fun c hc => hds c (List.mem_of_mem_take hc)) ?_
      refine ⟨?_, fun c hc => hds c (List.mem_of_mem_drop hc)⟩
      rw [Ne, List.drop_eq_nil_iff]
      omega
  · -- One digit, the others as a fraction, and an exponent of at least two digits.
    have hfraction : IsFraction (if ds.isEmpty = true then [] else '.' :: ds) := by
      split
      · exact .none
      · next hne => exact .digits ⟨by simpa using hne, hds⟩
    have hsize := (Json.isWhole_toDigits (point - 1).natAbs).1
    have hexponent : IsExponent ('e' :: ([if point - 1 < 0 then '-' else '+'] ++
        (List.replicate (2 - (Nat.toDigits 10 (point - 1).natAbs).length) '0' ++
          Nat.toDigits 10 (point - 1).natAbs))) := by
      refine .digits (.inl rfl) ?_ (isDigits_append_right (fun c => isDigit_of_mem_zeros) hsize)
      split <;> simp
    have hspells := SpellsDouble.number hsign (hwhole (List.forall_mem_nil _)) hfraction hexponent
      (.inr (List.cons_ne_nil _ _))
    simpa using hspells

theorem dropEndWhile_cons {p : Char → Bool} {c : Char} (hc : p c = false) (cs : List Char) :
    Text.dropEndWhile p (c :: cs) = c :: Text.dropEndWhile p cs := by
  simp only [Text.dropEndWhile, List.reverse_cons, List.dropWhile_append]
  split
  · next hnil =>
    rw [List.isEmpty_iff.mp hnil]
    simp [hc]
  · simp

theorem mem_of_mem_dropEndWhile {p : Char → Bool} {c : Char} {cs : List Char}
    (h : c ∈ Text.dropEndWhile p cs) : c ∈ cs := by
  rw [Text.dropEndWhile, List.mem_reverse] at h
  exact List.mem_reverse.mp ((List.dropWhile_sublist p).mem h)

theorem Binary64.magnitude_pos {x : Binary64} (h : x.isZero = false) : 0 < x.magnitude.1 := by
  have hne : x.unsigned ≠ 0 := by simpa [Binary64.isZero] using h
  have hsize : 0 < fractionSize := Nat.pow_pos (by omega)
  simp only [Binary64.magnitude]
  split
  · next hsmall =>
    have := Nat.div_add_mod x.unsigned fractionSize
    rw [hsmall, Nat.mul_zero] at this
    change 0 < x.unsigned % fractionSize
    omega
  · exact Nat.add_pos_left hsize _

/-- A written double is a literal of a double. -/
theorem Binary64.render_spellsDouble (x : Binary64) :
    SpellsDouble (x.render Json.jsonNumbers).toList := by
  have hsign : (if x.isNegative then "-" else "").toList = [] ∨
      (if x.isNegative then "-" else "").toList = ['-'] := by split <;> simp
  have hnothing : SpellsDouble ((if x.isNegative then "-" else "").toList ++ "0.0".toList) :=
    spellsDouble_fraction hsign Json.isWhole_zero Json.isWhole_zero.1
  simp only [Binary64.render]
  split
  · exact .word (by decide)
  split
  · have hword : (if x.isNegative then "-" else "") ++ Json.jsonNumbers.infinity ∈
        ["NaN", "Infinity", "-Infinity"] := by split <;> decide
    exact .word hword
  split
  · rw [String.toList_append]
    exact hnothing
  · next hzero =>
    rw [String.toList_append]
    rcases shortest_pos (magnitude_pos (by simpa using hzero)) x.magnitude.2 with hpos | hnone
    · obtain ⟨c, cs, hcs, hc⟩ := Json.head_toDigits_ne_zero hpos
      have hdigits := (Json.isWhole_toDigits (shortest x.magnitude.1 x.magnitude.2).1).1.2
      rw [hcs] at hdigits ⊢
      have htrim := dropEndWhile_cons (p := (· == '0')) (beq_false_of_ne hc) cs
      refine Json.jsonNumbers.write_spellsDouble hsign ⟨?_, fun d hd => ?_⟩ ?_ _
      · rw [htrim]
        exact List.cons_ne_nil _ _
      · exact hdigits d (mem_of_mem_dropEndWhile hd)
      · simpa [htrim] using hc
    · rw [hnone]
      exact hnothing

end Decimal

namespace Json

/-! ### Texts -/

theorem lt_of_isHighSurrogate {n : Nat} (h : isHighSurrogate n = true) : n < 0x10000 := by
  simp only [isHighSurrogate, Bool.and_eq_true, decide_eq_true_eq] at h
  omega

theorem lt_of_isLowSurrogate {n : Nat} (h : isLowSurrogate n = true) : n < 0x10000 := by
  simp only [isLowSurrogate, Bool.and_eq_true, decide_eq_true_eq] at h
  omega

theorem escapeChar_spells (ascii : Bool) (c : Char) : SpellsChar c (escapeChar ascii c) := by
  obtain ⟨e, he, heq⟩ | ⟨hplane, heq⟩ | ⟨high, low, hhigh, hlow, hc, heq⟩ |
    ⟨hquote, hslash, hcontrol, -, heq⟩ := escapeChar_cases ascii c
  · rw [heq]
    exact .letter he
  · rw [heq, unitEscape, toList_hex hplane]
    exact .unit (hexUnit?_digits hplane)
  · have hhigh' := lt_of_isHighSurrogate hhigh
    have hlow' := lt_of_isLowSurrogate hlow
    rw [heq, unitEscape, unitEscape, toList_hex hhigh', toList_hex hlow']
    exact .pair (hexUnit?_digits hhigh') (hexUnit?_digits hlow') hhigh hlow hc
  · rw [heq]
    exact .plain hquote hslash hcontrol

theorem escaped_spells (ascii : Bool) (cs : List Char) :
    SpellsText cs (cs.flatMap (escapeChar ascii)) := by
  induction cs with
  | nil => exact .nil
  | cons c cs ih =>
    rw [List.flatMap_cons]
    exact .cons (escapeChar_spells ascii c) ih

/-! ### Lists and objects -/

/-- Values whose whole numbers, at every depth, are short enough to be read. -/
inductive HasShortIntegers : Json → Prop
  | null : HasShortIntegers .null
  | bool (b : Bool) : HasShortIntegers (.bool b)
  | int {n : Int} (hdigits : (Nat.toDigits 10 n.natAbs).length ≤ maxDigits) :
      HasShortIntegers (.int n)
  | float (x : Decimal.Binary64) : HasShortIntegers (.float x)
  | str (s : String) : HasShortIntegers (.str s)
  | arr {items : List Json} (hitems : ∀ item ∈ items, HasShortIntegers item) :
      HasShortIntegers (.arr items)
  | obj {fields : List (String × Json)} (hvalues : ∀ field ∈ fields, HasShortIntegers field.2) :
      HasShortIntegers (.obj fields)

/-- Parts that may be padded by blanks can be chosen so that only commas stand between them:
the blanks behind a comma go to the part after it, and those at the end to the last part. -/
theorem exists_padded_parts {α β : Type} {text : α → List Char} {view : α → β} {Spelt : α → Prop}
    (hpad : ∀ {a : α} {before after : List Char}, Spelt a → IsBlank before → IsBlank after →
      ∃ b, view b = view a ∧ Spelt b ∧ text b = before ++ (text a ++ after))
    {blank close : List Char} (hblank : IsBlank blank) (hclose : IsBlank close) (rest : List α) :
    ∀ first : α, (∀ a ∈ first :: rest, Spelt a) →
      ∃ parts : List α, parts.map view = (first :: rest).map view ∧ (∀ part ∈ parts, Spelt part) ∧
        [','].intercalate (parts.map text) =
          text first ++ (rest.flatMap (fun a => ',' :: (blank ++ text a)) ++ close) := by
  have hnone : IsBlank [] := fun c hc => absurd hc (List.not_mem_nil)
  induction rest with
  | nil =>
    intro first hall
    obtain ⟨last, hview, hlast, htext⟩ := hpad (hall first List.mem_cons_self) hnone hclose
    exact ⟨[last], by simp [hview], by simpa using hlast, by simp [htext]⟩
  | cons next rest ih =>
    intro first hall
    obtain ⟨padded, hview, hpadded, htext⟩ :=
      hpad (hall next (List.mem_cons_of_mem _ List.mem_cons_self)) hblank hnone
    obtain ⟨parts, hviews, hparts, htexts⟩ := ih padded <| List.forall_mem_cons.mpr
      ⟨hpadded, fun a ha => hall a (List.mem_cons_of_mem _ (List.mem_cons_of_mem _ ha))⟩
    obtain ⟨part, others, rfl⟩ : ∃ part others, parts = part :: others :=
      List.exists_cons_of_ne_nil (by rintro rfl; simp at hviews)
    refine ⟨first :: part :: others, ?_, ?_, ?_⟩
    · rw [List.map_cons, hviews, List.map_cons, hview]
      rfl
    · exact List.forall_mem_cons.mpr ⟨hall first List.mem_cons_self, hparts⟩
    · rw [List.map_cons, List.map_cons, List.intercalate_cons_cons, ← List.map_cons, htexts, htext]
      simp

theorem writeItems_eq_flatMap (layout : Layout) (level : Nat) (items : List Json) :
    (writeItems layout level items).toList =
      items.flatMap fun item =>
        (layout.separator level).toList ++ (write layout level item).toList := by
  induction items with
  | nil => rfl
  | cons item items ih => simp [writeItems, ih]

theorem writeFields_eq_flatMap (layout : Layout) (level : Nat) (fields : List (String × Json)) :
    (writeFields layout level fields).toList =
      fields.flatMap fun field => (layout.separator level).toList ++
        ((writeText layout field.1).toList ++
          ':' :: ' ' :: (write layout level field.2).toList) := by
  induction fields with
  | nil => rfl
  | cons field fields ih => simp [writeFields, ih]

/-- Items of a list with their texts. -/
theorem exists_items_of_written (layout : Layout) (level : Nat) {close : List Char}
    (hclose : IsBlank close) {item : Json} {items : List Json}
    (h : ∀ i ∈ item :: items, i.WrittenAs (write layout level i).toList) :
    ∃ parts : List (Json × List Char), parts.map Prod.fst = item :: items ∧
      (∀ part ∈ parts, part.1.WrittenAs part.2) ∧
      [','].intercalate (parts.map Prod.snd) = (write layout level item).toList ++
        ((writeItems layout level items).toList ++ close) := by
  obtain ⟨blank, hsep, hblank⟩ := exists_separator layout level
  have hpad : ∀ {a : Json × List Char} {before after : List Char}, a.1.WrittenAs a.2 →
      IsBlank before → IsBlank after →
      ∃ b : Json × List Char, b.1 = a.1 ∧ b.1.WrittenAs b.2 ∧ b.2 = before ++ (a.2 ++ after) :=
    fun {a before after} ha hbefore hafter =>
      ⟨(a.1, before ++ (a.2 ++ after)), rfl, .padded hbefore ha hafter, rfl⟩
  obtain ⟨parts, hview, hparts, htext⟩ := exists_padded_parts hpad hblank hclose
    (items.map fun i => (i, (write layout level i).toList)) (item, (write layout level item).toList)
    (by simpa using h)
  refine ⟨parts, ?_, hparts, ?_⟩
  · simpa [Function.comp_def] using hview
  · rw [htext, writeItems_eq_flatMap, hsep, List.flatMap_map]
    rfl

theorem writeText_spells (layout : Layout) (s : String) :
    SpellsKey s (writeText layout s).toList :=
  ⟨[], _, [], by rw [toList_writeText, List.nil_append], List.forall_mem_nil _,
    escaped_spells layout.escapeNonAscii s.toList, List.forall_mem_nil _⟩

/-- A field with the texts that a layout gives to it. -/
def fieldText (layout : Layout) (level : Nat) (field : String × Json) : FieldText where
  key := field.1
  value := field.2
  keyText := (writeText layout field.1).toList
  valueText := ' ' :: (write layout level field.2).toList

@[simp]
theorem field_fieldText (layout : Layout) (level : Nat) (field : String × Json) :
    (fieldText layout level field).field = field := rfl

theorem text_fieldText (layout : Layout) (level : Nat) (field : String × Json) :
    (fieldText layout level field).text =
      (writeText layout field.1).toList ++ ':' :: ' ' :: (write layout level field.2).toList := by
  simp only [FieldText.text, fieldText]

/-- Fields of an object with their texts. -/
theorem exists_fields_of_written (layout : Layout) (level : Nat) {close : List Char}
    (hclose : IsBlank close) {key : String} {value : Json} {fields : List (String × Json)}
    (h : ∀ f ∈ (key, value) :: fields, f.2.WrittenAs (write layout level f.2).toList) :
    ∃ parts : List FieldText, parts.map FieldText.field = (key, value) :: fields ∧
      (∀ part ∈ parts, SpellsKey part.key part.keyText ∧ part.value.WrittenAs part.valueText) ∧
      [','].intercalate (parts.map FieldText.text) = (writeText layout key).toList ++
        ':' :: ' ' :: ((write layout level value).toList ++
          ((writeFields layout level fields).toList ++ close)) := by
  obtain ⟨blank, hsep, hblank⟩ := exists_separator layout level
  have hpad : ∀ {a : FieldText} {before after : List Char},
      SpellsKey a.key a.keyText ∧ a.value.WrittenAs a.valueText → IsBlank before → IsBlank after →
      ∃ b : FieldText, b.field = a.field ∧
        (SpellsKey b.key b.keyText ∧ b.value.WrittenAs b.valueText) ∧
        b.text = before ++ (a.text ++ after) := by
    rintro ⟨key, value, keyText, valueText⟩ before after ⟨hkey, hvalue⟩ hbefore hafter
    refine ⟨⟨key, value, before ++ keyText, valueText ++ after⟩, rfl, ⟨hkey.padded hbefore, ?_⟩, ?_⟩
    · exact hvalue.append_blank hafter
    · simp [FieldText.text]
  have hspelt : ∀ f ∈ (key, value) :: fields,
      SpellsKey (fieldText layout level f).key (fieldText layout level f).keyText ∧
        (fieldText layout level f).value.WrittenAs (fieldText layout level f).valueText := by
    intro f hf
    simp only [fieldText]
    exact ⟨writeText_spells layout f.1, (h f hf).blank_cons rfl⟩
  obtain ⟨parts, hview, hparts, htext⟩ := exists_padded_parts hpad hblank hclose
    (fields.map (fieldText layout level)) (fieldText layout level (key, value))
    (by rw [← List.map_cons, List.forall_mem_map]; exact hspelt)
  refine ⟨parts, ?_, hparts, ?_⟩
  · simpa [Function.comp_def] using hview
  · rw [htext, writeFields_eq_flatMap, hsep, List.flatMap_map]
    simp [text_fieldText]

/-- What is written at any level is a text of the value. -/
theorem HasShortIntegers.write_writtenAs {value : Json} (h : HasShortIntegers value)
    (layout : Layout) (level : Nat) : value.WrittenAs (write layout level value).toList := by
  induction h generalizing level with
  | null => exact .null
  | bool b => cases b with
    | false => exact .bool false
    | true => exact .bool true
  | int hdigits => exact .int hdigits
  | float x => exact .float x x.render_spellsDouble
  | str s =>
    rw [write, toList_writeText]
    exact .str (escaped_spells _ _)
  | @arr items _ ih =>
    cases items with
    | nil =>
      rw [write]
      exact .arr_nil
    | cons item items =>
      obtain ⟨parts, hview, hparts, htext⟩ := exists_items_of_written layout (level + 1)
        (isSpace_of_mem_newline layout level) fun i hi => ih i hi (level + 1)
      have hwritten := WrittenAs.arr (isSpace_of_mem_newline layout (level + 1)) hparts
      rw [hview, htext] at hwritten
      rw [toList_write_list]
      simpa using hwritten
  | @obj fields _ ih =>
    rcases fields with _ | ⟨⟨key, value⟩, fields⟩
    · rw [write]
      exact .obj_nil
    · obtain ⟨parts, hview, hparts, htext⟩ := exists_fields_of_written layout (level + 1)
        (isSpace_of_mem_newline layout level) fun f hf => ih f hf (level + 1)
      have hwritten := WrittenAs.obj (isSpace_of_mem_newline layout (level + 1))
        (fun p hp => (hparts p hp).1) fun p hp => (hparts p hp).2
      rw [hview, htext] at hwritten
      rw [toList_write_object]
      simpa using hwritten

/-- A rendered value is a text of the value. -/
theorem HasShortIntegers.render_writtenAs {value : Json} (h : HasShortIntegers value)
    (layout : Layout) : value.WrittenAs (render layout value).toList :=
  h.write_writtenAs layout 0

/-! ### One line of ASCII -/

/-- A character of ASCII that is printed. -/
def IsVisible (c : Char) : Prop := 0x20 ≤ c.toNat ∧ c.toNat < 0x7F

instance (c : Char) : Decidable (IsVisible c) := inferInstanceAs (Decidable (_ ∧ _))

theorem visible_of_all {cs : List Char} (h : cs.all (fun c => decide (IsVisible c)) = true) :
    ∀ c ∈ cs, IsVisible c :=
  fun c hc => of_decide_eq_true (List.all_eq_true.mp h c hc)

theorem isVisible_digitChar {d : Nat} (h : d < 16) : IsVisible d.digitChar := by
  interval_cases d <;> decide

theorem toNat_of_isDigit {c : Char} (h : c.isDigit = true) : 48 ≤ c.toNat ∧ c.toNat ≤ 57 := by
  simp only [Char.isDigit, Bool.and_eq_true, decide_eq_true_eq] at h
  exact h

theorem isVisible_of_isDigit {c : Char} (h : c.isDigit = true) : IsVisible c := by
  obtain ⟨hlow, hhigh⟩ := toNat_of_isDigit h
  exact ⟨by omega, by omega⟩

theorem unitEscape_visible {n : Nat} (h : n < 0x10000) : ∀ c ∈ unitEscape n, IsVisible c := by
  intro c hc
  rw [unitEscape, toList_hex h] at hc
  simp only [List.mem_cons, List.not_mem_nil, or_false] at hc
  rcases hc with rfl | rfl | rfl | rfl | rfl | rfl
  · decide
  · decide
  all_goals exact isVisible_digitChar (by omega)

theorem isVisible_of_simpleEscape? {e c : Char} (h : simpleEscape? e = some c) : IsVisible e := by
  unfold simpleEscape? at h
  split at h
  all_goals first | decide | cases h

/-- Escapes leave nothing beyond ASCII, and no control character. -/
theorem escapeChar_visible (c : Char) : ∀ d ∈ escapeChar true c, IsVisible d := by
  obtain ⟨e, he, heq⟩ | ⟨hplane, heq⟩ | ⟨high, low, hhigh, hlow, -, heq⟩ |
    ⟨-, -, hcontrol, hascii, heq⟩ := escapeChar_cases true c
  · rw [heq, List.forall_mem_cons, List.forall_mem_singleton]
    exact ⟨by decide, isVisible_of_simpleEscape? he⟩
  · rw [heq]
    exact unitEscape_visible hplane
  · rw [heq, List.forall_mem_append]
    exact ⟨unitEscape_visible (lt_of_isHighSurrogate hhigh),
      unitEscape_visible (lt_of_isLowSurrogate hlow)⟩
  · rw [heq, List.forall_mem_singleton]
    have hbound : ¬ 0x7E < c.toNat := fun h => hascii ⟨rfl, h⟩
    exact ⟨by omega, by omega⟩

theorem writeText_visible (s : String) : ∀ c ∈ (writeText .ascii s).toList, IsVisible c := by
  intro c hc
  rw [toList_writeText] at hc
  simp only [List.mem_cons, List.mem_append, List.mem_flatMap, List.not_mem_nil, or_false] at hc
  rcases hc with rfl | ⟨d, -, hc⟩ | rfl
  · decide
  · exact escapeChar_visible d c hc
  · decide

theorem IsDigits.visible {ds : List Char} (h : IsDigits ds) : ∀ c ∈ ds, IsVisible c :=
  fun c hc => isVisible_of_isDigit (h.2 c hc)

theorem SpellsDouble.visible {text : List Char} (h : SpellsDouble text) :
    ∀ c ∈ text, IsVisible c := by
  cases h with
  | word h =>
    simp only [List.mem_cons, List.not_mem_nil, or_false] at h
    rcases h with rfl | rfl | rfl <;> exact visible_of_all (by decide +kernel)
  | number hsign hwhole hfraction hexponent =>
    simp only [List.forall_mem_append]
    refine ⟨?_, hwhole.1.visible, ?_, ?_⟩
    · rcases hsign with rfl | rfl <;> exact visible_of_all (by decide)
    · cases hfraction with
      | none => exact List.forall_mem_nil _
      | digits h => exact List.forall_mem_cons.mpr ⟨by decide, h.visible⟩
    · cases hexponent with
      | none => exact List.forall_mem_nil _
      | digits he hsign h =>
        rw [List.forall_mem_cons, List.forall_mem_append]
        refine ⟨?_, ?_, h.visible⟩
        · rcases he with rfl | rfl <;> decide
        · rcases hsign with rfl | rfl | rfl <;> exact visible_of_all (by decide)

theorem newline_ascii (level : Nat) : (Layout.ascii.newline level).toList = [] := rfl

theorem separator_ascii (level : Nat) :
    ∀ c ∈ (Layout.ascii.separator level).toList, IsVisible c := by
  show ∀ c ∈ ", ".toList, IsVisible c
  exact visible_of_all (by decide +kernel)

/-- What the layout for ASCII writes is printed on one line. -/
theorem HasShortIntegers.write_visible {value : Json} (h : HasShortIntegers value) (level : Nat) :
    ∀ c ∈ (write .ascii level value).toList, IsVisible c := by
  induction h generalizing level with
  | null =>
    rw [write]
    exact visible_of_all (by decide +kernel)
  | bool b => cases b <;> rw [write] <;> exact visible_of_all (by decide +kernel)
  | @int n _ =>
    rw [write, toList_ofInt, List.forall_mem_append]
    refine ⟨?_, (isWhole_toDigits n.natAbs).1.visible⟩
    split <;> exact visible_of_all (by decide)
  | float x => exact x.render_spellsDouble.visible
  | str s => exact writeText_visible s
  | @arr items _ ih =>
    cases items with
    | nil =>
      rw [write]
      exact visible_of_all (by decide +kernel)
    | cons item items =>
      obtain ⟨hitem, hitems⟩ := List.forall_mem_cons.mp ih
      rw [toList_write_list, writeItems_eq_flatMap, newline_ascii, newline_ascii]
      simp only [List.forall_mem_cons, List.forall_mem_append, List.forall_mem_flatMap]
      exact ⟨by decide, List.forall_mem_nil _, hitem _,
        fun next hnext => ⟨separator_ascii _, hitems next hnext _⟩,
        List.forall_mem_nil _, by decide, List.forall_mem_nil _⟩
  | @obj fields _ ih =>
    rcases fields with _ | ⟨⟨key, value⟩, fields⟩
    · rw [write]
      exact visible_of_all (by decide +kernel)
    · obtain ⟨hvalue, hfields⟩ := List.forall_mem_cons.mp ih
      rw [toList_write_object, writeFields_eq_flatMap, newline_ascii, newline_ascii]
      simp only [List.forall_mem_cons, List.forall_mem_append, List.forall_mem_flatMap]
      exact ⟨by decide, List.forall_mem_nil _, writeText_visible key, by decide, by decide,
        hvalue _, fun field hfield => ⟨separator_ascii _, writeText_visible field.1, by decide,
          by decide, hfields field hfield _⟩, List.forall_mem_nil _, by decide,
        List.forall_mem_nil _⟩

/-- A value that is rendered for ASCII is printed on one line. -/
theorem HasShortIntegers.render_visible {value : Json} (h : HasShortIntegers value) :
    ∀ c ∈ (render .ascii value).toList, IsVisible c :=
  h.write_visible 0

end Json

end PluginAtlas
