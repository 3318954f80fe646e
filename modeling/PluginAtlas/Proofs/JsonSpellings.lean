import PluginAtlas.Proofs.ExportedDocument

/-!
# The texts of a JSON value

A value has many texts: blanks may stand around every part, a character may be written as
itself or by an escape, in capital letters or in small ones, and a double by any literal with
a fraction or an exponent. All of them are told here by a grammar. Whatever the text, the
reader finds the value in front of any other text. Only which double a literal stands for is
left open; and of several fields with one key, the last one gives the value.

## Main definitions

* `Json.SpellsText`: the inside of a text value.
* `Json.SpellsDouble`: a literal of a double.
* `Json.WrittenAs`: the texts of a value.
* `Json.ReadAs`: what is read for a value.
* `Json.SameTexts`: values that agree as far as texts go.
* `Json.Reads`: reading a text in front of others.

## Main results

* `Json.SpellsText.readText_eq`: every spelling of a text is read as this text.
* `Json.WrittenAs.reads`: every text of a value is read.
* `Json.ReadAs.eq_of_isPlain`: without doubles, exactly this value is read.
-/

namespace PluginAtlas.Json

/-! ### The grammar -/

/-- Blanks that may stand around a part of a JSON text. -/
def IsBlank (cs : List Char) : Prop := ∀ c ∈ cs, isSpace c = true

/-- What a character is written as inside a text value. -/
inductive SpellsChar (c : Char) : List Char → Prop
  | plain (hmark : c ≠ '"') (hescape : c ≠ '\\') (hcontrol : ¬ c.toNat < 0x20) : SpellsChar c [c]
  | letter {e : Char} (h : simpleEscape? e = some c) : SpellsChar c ['\\', e]
  | unit {d₁ d₂ d₃ d₄ : Char} (h : hexUnit? d₁ d₂ d₃ d₄ = some c.toNat) :
      SpellsChar c ['\\', 'u', d₁, d₂, d₃, d₄]
  | pair {d₁ d₂ d₃ d₄ e₁ e₂ e₃ e₄ : Char} {high low : Nat}
      (hhigh : hexUnit? d₁ d₂ d₃ d₄ = some high) (hlow : hexUnit? e₁ e₂ e₃ e₄ = some low)
      (hpair : isHighSurrogate high = true) (hpair' : isLowSurrogate low = true)
      (hc : Char.ofNat (0x10000 + (high - 0xD800) * 0x400 + (low - 0xDC00)) = c) :
      SpellsChar c ['\\', 'u', d₁, d₂, d₃, d₄, '\\', 'u', e₁, e₂, e₃, e₄]

/-- What characters are written as inside a text value, one after the other. -/
inductive SpellsText : List Char → List Char → Prop
  | nil : SpellsText [] []
  | cons {c : Char} {cs piece text : List Char} (hc : SpellsChar c piece) (h : SpellsText cs text) :
      SpellsText (c :: cs) (piece ++ text)

/-- A run of digits. -/
def IsDigits (cs : List Char) : Prop := cs ≠ [] ∧ ∀ d ∈ cs, d.isDigit = true

/-- The whole part of a number: no zero stands in front of other digits. -/
def IsWhole (cs : List Char) : Prop := IsDigits cs ∧ (cs.head? = some '0' → cs = ['0'])

theorem isWhole_zero : IsWhole ['0'] :=
  ⟨⟨List.cons_ne_nil _ _, List.forall_mem_singleton.mpr rfl⟩, fun _ => rfl⟩

/-- A fraction, if there is one. -/
inductive IsFraction : List Char → Prop
  | none : IsFraction []
  | digits {ds : List Char} (h : IsDigits ds) : IsFraction ('.' :: ds)

/-- An exponent, if there is one. -/
inductive IsExponent : List Char → Prop
  | none : IsExponent []
  | digits {e : Char} {sign ds : List Char} (he : e = 'e' ∨ e = 'E')
      (hsign : sign = [] ∨ sign = ['+'] ∨ sign = ['-']) (h : IsDigits ds) :
      IsExponent (e :: (sign ++ ds))

/-- The texts of doubles: a number with a fraction or an exponent, or one of three words. -/
inductive SpellsDouble : List Char → Prop
  | word {word : String} (h : word ∈ ["NaN", "Infinity", "-Infinity"]) : SpellsDouble word.toList
  | number {sign whole fraction exponent : List Char} (hsign : sign = [] ∨ sign = ['-'])
      (hwhole : IsWhole whole) (hfraction : IsFraction fraction) (hexponent : IsExponent exponent)
      (hdouble : fraction ≠ [] ∨ exponent ≠ []) :
      SpellsDouble (sign ++ (whole ++ (fraction ++ exponent)))

/-- What a key is written as, with the blanks around it. -/
def SpellsKey (key : String) (cs : List Char) : Prop :=
  ∃ before inside after, cs = before ++ '"' :: (inside ++ '"' :: after) ∧ IsBlank before ∧
    SpellsText key.toList inside ∧ IsBlank after

theorem SpellsKey.padded {key : String} {blank cs : List Char} (hblank : IsBlank blank)
    (h : SpellsKey key cs) : SpellsKey key (blank ++ cs) := by
  obtain ⟨before, inside, after, rfl, hbefore, hinside, hafter⟩ := h
  exact ⟨blank ++ before, inside, after, by simp, List.forall_mem_append.mpr ⟨hblank, hbefore⟩,
    hinside, hafter⟩

/-- A field of an object with the texts of its key and of its value. -/
structure FieldText where
  key : String
  value : Json
  keyText : List Char
  valueText : List Char

namespace FieldText

/-- The field alone. -/
def field (p : FieldText) : String × Json := (p.key, p.value)

/-- The text of the field. -/
def text (p : FieldText) : List Char := p.keyText ++ ':' :: p.valueText

theorem length_text (p : FieldText) :
    p.text.length = p.keyText.length + (p.valueText.length + 1) := by
  simp [text]

end FieldText

/-- The texts of a value. -/
inductive WrittenAs : Json → List Char → Prop
  | null : WrittenAs .null "null".toList
  | bool (b : Bool) : WrittenAs (.bool b) (if b then "true" else "false").toList
  | int {n : Int} (hdigits : (Nat.toDigits 10 n.natAbs).length ≤ maxDigits) :
      WrittenAs (.int n) (Text.ofInt n).toList
  | float (x : Decimal.Binary64) {text : List Char} (h : SpellsDouble text) :
      WrittenAs (.float x) text
  | str {s : String} {inside : List Char} (h : SpellsText s.toList inside) :
      WrittenAs (.str s) ('"' :: (inside ++ ['"']))
  | arr {blank : List Char} (hblank : IsBlank blank) {items : List (Json × List Char)}
      (hitems : ∀ item ∈ items, WrittenAs item.1 item.2) :
      WrittenAs (.arr (items.map Prod.fst))
        ('[' :: (blank ++ ([','].intercalate (items.map Prod.snd) ++ [']'])))
  | obj {blank : List Char} (hblank : IsBlank blank) {fields : List FieldText}
      (hkeys : ∀ field ∈ fields, SpellsKey field.key field.keyText)
      (hvalues : ∀ field ∈ fields, WrittenAs field.value field.valueText) :
      WrittenAs (.obj (fields.map FieldText.field))
        ('\x7b' :: (blank ++ ([','].intercalate (fields.map FieldText.text) ++ ['\x7d'])))
  | padded {value : Json} {before text after : List Char} (hbefore : IsBlank before)
      (h : WrittenAs value text) (hafter : IsBlank after) :
      WrittenAs value (before ++ (text ++ after))

namespace WrittenAs

theorem arr_nil : (Json.arr []).WrittenAs ['[', ']'] :=
  @WrittenAs.arr [] (List.forall_mem_nil _) [] (List.forall_mem_nil _)

theorem obj_nil : (Json.obj []).WrittenAs ['\x7b', '\x7d'] :=
  @WrittenAs.obj [] (List.forall_mem_nil _) [] (List.forall_mem_nil _) (List.forall_mem_nil _)

theorem append_blank {value : Json} {text blank : List Char} (h : value.WrittenAs text)
    (hblank : IsBlank blank) : value.WrittenAs (text ++ blank) :=
  WrittenAs.padded (List.forall_mem_nil _) h hblank

theorem blank_cons {value : Json} {text : List Char} {c : Char} (h : value.WrittenAs text)
    (hc : isSpace c = true) : value.WrittenAs (c :: text) := by
  have hpadded := WrittenAs.padded (List.forall_mem_singleton.mpr hc) h (List.forall_mem_nil _)
  simpa using hpadded

end WrittenAs

/-! ### Reading texts -/

theorem readUnit_of_hexUnit? {d₁ d₂ d₃ d₄ c : Char} (h : hexUnit? d₁ d₂ d₃ d₄ = some c.toNat)
    (next : Char) (rest : List Char) :
    readUnit (d₁ :: d₂ :: d₃ :: d₄ :: next :: rest) = .ok (c, next :: rest) := by
  have hhigh : isHighSurrogate c.toNat = false := by
    have := not_surrogate c
    simp only [isHighSurrogate, Bool.and_eq_false_iff, decide_eq_false_iff_not]
    omega
  simp [readUnit, h, hhigh, unitChar_toNat]

/-- A character is read in one step, if the text goes on. -/
theorem SpellsChar.readTextFrom_eq {c : Char} {piece : List Char} (h : SpellsChar c piece)
    (start fuel : Nat) (done : List Char) (next : Char) (rest : List Char) :
    readTextFrom start (fuel + 1) done (piece ++ next :: rest) =
      readTextFrom start fuel (c :: done) (next :: rest) := by
  cases h with
  | plain hmark hescape hcontrol =>
    rw [List.singleton_append, readTextFrom]
    · exact if_neg hcontrol
    · exact hmark
    · exact hescape
  | letter h => exact readTextFrom_simple h ..
  | unit h => exact readTextFrom_unit (readUnit_of_hexUnit? h next rest) ..
  | pair hhigh hlow hpair hpair' hc =>
    refine readTextFrom_unit ?_ ..
    simp [readUnit, hhigh, hlow, hpair, hpair', hc]

theorem SpellsChar.ne_nil {c : Char} {piece : List Char} (h : SpellsChar c piece) : piece ≠ [] := by
  cases h <;> exact List.cons_ne_nil _ _

namespace SpellsText

variable {cs text : List Char}

theorem length_le (h : SpellsText cs text) : cs.length ≤ text.length := by
  induction h with
  | nil => exact Nat.le_refl 0
  | cons hc _ ih =>
    have hpos := List.length_pos_iff.mpr hc.ne_nil
    simp only [List.length_cons, List.length_append]
    omega

theorem readTextFrom_eq (h : SpellsText cs text) (start : Nat) (rest : List Char) {fuel : Nat}
    (done : List Char) (hfuel : cs.length < fuel) :
    readTextFrom start fuel done (text ++ '"' :: rest) =
      .ok (String.ofList (done.reverse ++ cs), rest) := by
  induction h generalizing fuel done with
  | nil =>
    obtain ⟨fuel, rfl⟩ := Nat.exists_eq_add_one.mpr hfuel
    simp [readTextFrom]
  | @cons c cs piece text hc _ ih =>
    obtain ⟨fuel, rfl⟩ := Nat.exists_eq_add_one.mpr (Nat.zero_lt_of_lt hfuel)
    have hrest := ih (c :: done) (Nat.lt_of_succ_lt_succ hfuel)
    -- The closing mark is still ahead, so that the text goes on behind the character.
    obtain ⟨next, more, hnext⟩ :=
      List.exists_cons_of_ne_nil (show text ++ '"' :: rest ≠ [] by simp)
    rw [List.append_assoc, hnext, hc.readTextFrom_eq, ← hnext, hrest]
    simp

/-- Every spelling of a text is read as this text, and what follows is left. -/
theorem readText_eq {s : String} (h : SpellsText s.toList text) (rest : List Char) :
    readText (text ++ '"' :: rest) = .ok (s, rest) := by
  have hlength := h.length_le
  rw [readText, h.readTextFrom_eq]
  · simp
  · simp only [List.length_append, List.length_cons]
    omega

end SpellsText

/-! ### Reading numbers -/

/-- What may stand behind a number: nothing, a blank, or a mark between parts. -/
def EndsNumber (rest : List Char) : Prop :=
  ∀ c ∈ rest.head?, isSpace c = true ∨ c = ',' ∨ c = ']' ∨ c = '\x7d'

/-- No digit stands at the beginning. -/
def StartsApart (cs : List Char) : Prop := ∀ c ∈ cs.head?, c.isDigit = false

theorem EndsNumber.cons {c : Char} (h : isSpace c = true ∨ c = ',' ∨ c = ']' ∨ c = '\x7d')
    (rest : List Char) : EndsNumber (c :: rest) := by
  intro d hd
  obtain rfl : c = d := by simpa using hd
  exact h

/-- What ends a number does not go on with it. -/
theorem EndsNumber.apart {rest : List Char} (h : EndsNumber rest) {c : Char} (hc : c ∈ rest.head?) :
    c.isDigit = false ∧ c ≠ '.' ∧ (c == 'e' || c == 'E') = false := by
  have hend := h c hc
  simp only [isSpace, Bool.or_eq_true, beq_iff_eq] at hend
  rcases hend with (((rfl | rfl) | rfl) | rfl) | rfl | rfl | rfl <;> decide

theorem EndsNumber.startsApart {rest : List Char} (h : EndsNumber rest) : StartsApart rest :=
  fun _ hc => (h.apart hc).1

theorem EndsNumber.fractionPart_eq {rest : List Char} (h : EndsNumber rest) :
    fractionPart rest = ([], rest) := by
  rw [fractionPart.eq_def]
  split
  · exact absurd rfl (h.apart rfl).2.1
  · rfl

theorem EndsNumber.exponentPart?_eq {rest : List Char} (h : EndsNumber rest) :
    exponentPart? rest = none := by
  cases rest with
  | nil => rfl
  | cons c rest =>
    have hletter := (h.apart (c := c) rfl).2.2
    rw [exponentPart?.eq_def]
    split <;> simp_all

theorem span_digits {ds rest : List Char} (h : ∀ d ∈ ds, d.isDigit = true)
    (hrest : StartsApart rest) :
    (ds ++ rest).takeWhile Char.isDigit = ds ∧ (ds ++ rest).dropWhile Char.isDigit = rest := by
  rw [List.takeWhile_append_of_pos h, List.dropWhile_append_of_pos h]
  cases rest with
  | nil => simp
  | cons c rest =>
    have hc : c.isDigit = false := hrest c rfl
    simp [hc]

theorem IsWhole.wholePart?_eq {whole rest : List Char} (h : IsWhole whole)
    (hrest : StartsApart rest) :
    wholePart? (whole ++ rest) = some (whole, rest) := by
  obtain ⟨⟨hne, hdigits⟩, hzero⟩ := h
  obtain ⟨c, cs, rfl⟩ := List.exists_cons_of_ne_nil hne
  by_cases hc : c = '0'
  · obtain rfl : cs = [] := by simpa [hc] using hzero (by simp [hc])
    rw [hc]
    rfl
  · obtain ⟨htake, hdrop⟩ := span_digits (fun d hd => hdigits d (List.mem_cons_of_mem c hd)) hrest
    rw [List.cons_append, wholePart?]
    · rw [if_pos (hdigits c List.mem_cons_self), htake, hdrop]
    · exact hc

/-- The fraction is read up to what follows it. -/
theorem IsFraction.fractionPart_eq {fraction rest : List Char} (h : IsFraction fraction)
    (hrest : StartsApart rest) (hnone : fraction = [] → fractionPart rest = ([], rest)) :
    fractionPart (fraction ++ rest) = (fraction.tail, rest) := by
  cases h with
  | none => exact hnone rfl
  | @digits ds h =>
    obtain ⟨d, ds, rfl⟩ := List.exists_cons_of_ne_nil h.1
    obtain ⟨htake, hdrop⟩ := span_digits (fun c hc => h.2 c (List.mem_cons_of_mem d hc)) hrest
    simp only [List.cons_append, fractionPart, if_pos (h.2 d List.mem_cons_self), htake, hdrop,
      List.tail_cons]

/-- An exponent is read up to what follows it. -/
theorem IsExponent.exponentPart?_eq {exponent rest : List Char} (h : IsExponent exponent)
    (hrest : EndsNumber rest) :
    (exponentPart? (exponent ++ rest) = Option.none ∧ exponent = []) ∨
      ∃ power, exponentPart? (exponent ++ rest) = some (power, rest) := by
  cases h with
  | none => exact .inl ⟨hrest.exponentPart?_eq, rfl⟩
  | @digits e sign ds he hsign h =>
    right
    obtain ⟨htake, hdrop⟩ := span_digits h.2 hrest.startsApart
    have hdigits : ∀ negative, ∃ power,
        exponentDigits? negative (ds ++ rest) = some (power, rest) := by
      intro negative
      simp only [exponentDigits?, htake, hdrop, List.isEmpty_iff, if_neg h.1]
      exact ⟨_, rfl⟩
    have hletter : (e == 'e' || e == 'E') = true := by simpa using he
    rcases hsign with rfl | rfl | rfl
    · -- Without a sign, the digits follow the letter.
      obtain ⟨d, ds, rfl⟩ := List.exists_cons_of_ne_nil h.1
      obtain ⟨power, hpower⟩ := hdigits false
      refine ⟨power, ?_⟩
      rw [List.nil_append, List.cons_append, List.cons_append, exponentPart?]
      · rw [if_pos hletter, ← List.cons_append, hpower]
      · rintro _ heq
        obtain ⟨rfl, -⟩ := List.cons.inj heq
        exact absurd (h.2 _ List.mem_cons_self) (by decide)
      · rintro _ heq
        obtain ⟨rfl, -⟩ := List.cons.inj heq
        exact absurd (h.2 _ List.mem_cons_self) (by decide)
    · obtain ⟨power, hpower⟩ := hdigits false
      exact ⟨power, by simp [exponentPart?, hletter, hpower]⟩
    · obtain ⟨power, hpower⟩ := hdigits true
      exact ⟨power, by simp [exponentPart?, hletter, hpower]⟩

/-- Neither an exponent nor what ends a number begins with a digit or a point. -/
theorem IsExponent.startsApart {exponent rest : List Char} (h : IsExponent exponent)
    (hrest : EndsNumber rest) :
    StartsApart (exponent ++ rest) ∧ fractionPart (exponent ++ rest) = ([], exponent ++ rest) := by
  cases h with
  | none => exact ⟨hrest.startsApart, hrest.fractionPart_eq⟩
  | @digits e sign ds he hsign h =>
    rw [List.cons_append]
    constructor
    · intro c hc
      obtain rfl : e = c := by simpa using hc
      rcases he with rfl | rfl <;> rfl
    · rw [fractionPart.eq_def]
      split
      · next heq =>
        obtain ⟨rfl, -⟩ := List.cons.inj heq
        exact absurd he (by decide)
      · rfl

/-- A number is read up to what follows it: a whole number as itself, another as a double. -/
theorem readNumber_of_parts {whole fraction exponent rest : List Char} (hwhole : IsWhole whole)
    (hfraction : IsFraction fraction) (hexponent : IsExponent exponent)
    (hshort : fraction = [] → exponent = [] → whole.length ≤ maxDigits) (hrest : EndsNumber rest)
    (start : List Char) (negative : Bool) :
    (fraction = [] ∧ exponent = [] ∧
      readNumber start negative (whole ++ (fraction ++ (exponent ++ rest))) =
        .ok (.int (if negative then -(digitsValue whole : Int) else digitsValue whole), rest)) ∨
    ((fraction ≠ [] ∨ exponent ≠ []) ∧ ∃ x,
      readNumber start negative (whole ++ (fraction ++ (exponent ++ rest))) =
        .ok (.float x, rest)) := by
  obtain ⟨hapart, hpoint⟩ := hexponent.startsApart hrest
  have hfront : StartsApart (fraction ++ (exponent ++ rest)) := by
    cases hfraction with
    | none => exact hapart
    | digits h =>
      intro c hc
      obtain rfl : '.' = c := by simpa using hc
      rfl
  simp only [readNumber, hwhole.wholePart?_eq hfront,
    hfraction.fractionPart_eq hapart fun _ => hpoint]
  rcases hexponent.exponentPart?_eq hrest with ⟨hnone, rfl⟩ | ⟨power, hpower⟩
  · rw [hnone]
    cases hfraction with
    | none => exact .inl ⟨rfl, rfl, if_neg (Nat.not_lt.mpr (hshort rfl rfl))⟩
    | digits h =>
      rw [if_neg (by simpa using h.1)]
      exact .inr ⟨.inl (List.cons_ne_nil _ _), _, rfl⟩
  · have hne : exponent ≠ [] := by
      rintro rfl
      rw [List.nil_append, hrest.exponentPart?_eq] at hpower
      cases hpower
    rw [hpower, if_neg (by simp)]
    exact .inr ⟨.inr hne, _, rfl⟩

/-- A number with its sign is read up to what follows it. -/
theorem readAtom_number {sign whole fraction exponent rest : List Char}
    (hsign : sign = [] ∨ sign = ['-']) (hwhole : IsWhole whole) (hfraction : IsFraction fraction)
    (hexponent : IsExponent exponent)
    (hshort : fraction = [] → exponent = [] → whole.length ≤ maxDigits) (hrest : EndsNumber rest) :
    (fraction = [] ∧ exponent = [] ∧
      readAtom (sign ++ (whole ++ (fraction ++ (exponent ++ rest)))) =
        .ok (.int (if sign = [] then digitsValue whole else -(digitsValue whole : Int)), rest)) ∨
    ((fraction ≠ [] ∨ exponent ≠ []) ∧ ∃ x,
      readAtom (sign ++ (whole ++ (fraction ++ (exponent ++ rest)))) = .ok (.float x, rest)) := by
  obtain ⟨c, cs, rfl⟩ := List.exists_cons_of_ne_nil hwhole.1.1
  have hc := hwhole.1.2 c List.mem_cons_self
  rcases hsign with rfl | rfl
  · have hread := readNumber_of_parts hwhole hfraction hexponent hshort hrest
      (c :: cs ++ (fraction ++ (exponent ++ rest))) false
    rw [List.nil_append, List.cons_append, readAtom_digit hc]
    exact hread
  · have hread := readNumber_of_parts hwhole hfraction hexponent hshort hrest
      ('-' :: (c :: cs ++ (fraction ++ (exponent ++ rest)))) true
    rw [List.singleton_append, List.cons_append, readAtom_minus hc]
    exact hread

theorem readAtom_nan (rest : List Char) :
    readAtom ("NaN".toList ++ rest) = .ok (.float Decimal.Binary64.nan, rest) := rfl

theorem readAtom_infinity (rest : List Char) :
    readAtom ("Infinity".toList ++ rest) =
      .ok (.float (Decimal.Binary64.infinity false), rest) := rfl

theorem readAtom_minus_infinity (rest : List Char) :
    readAtom ("-Infinity".toList ++ rest) =
      .ok (.float (Decimal.Binary64.infinity true), rest) := rfl

/-- Every text of a double is read as some double, up to what follows it. -/
theorem SpellsDouble.readAtom_eq {text rest : List Char} (h : SpellsDouble text)
    (hrest : EndsNumber rest) : ∃ x, readAtom (text ++ rest) = .ok (.float x, rest) := by
  cases h with
  | word h =>
    simp only [List.mem_cons, List.not_mem_nil, or_false] at h
    rcases h with rfl | rfl | rfl
    · exact ⟨_, readAtom_nan rest⟩
    · exact ⟨_, readAtom_infinity rest⟩
    · exact ⟨_, readAtom_minus_infinity rest⟩
  | number hsign hwhole hfraction hexponent hdouble =>
    simp only [List.append_assoc]
    rcases readAtom_number hsign hwhole hfraction hexponent
      (fun hnone hnone' => absurd hdouble (by simp [hnone, hnone'])) hrest with
      ⟨hnone, hnone', -⟩ | ⟨-, hread⟩
    · exact absurd hdouble (by simp [hnone, hnone'])
    · exact hread

theorem isWhole_toDigits (n : Nat) : IsWhole (Nat.toDigits 10 n) := by
  refine ⟨⟨Nat.toDigits_ne_nil, fun d => Nat.isDigit_of_mem_toDigits (by omega) (by omega)⟩, ?_⟩
  intro hhead
  rcases Nat.eq_zero_or_pos n with rfl | hn
  · rfl
  · obtain ⟨c, cs, hcs, hc⟩ := head_toDigits_ne_zero hn
    rw [hcs] at hhead
    exact absurd (Option.some.inj hhead) hc

theorem sign_eq (n : Int) :
    (if n < 0 then ['-'] else []) = [] ∨ (if n < 0 then ['-'] else []) = ['-'] := by
  split
  · exact .inr rfl
  · exact .inl rfl

/-- A whole number that is short enough is read up to what follows it. -/
theorem readAtom_int {n : Int} (hdigits : (Nat.toDigits 10 n.natAbs).length ≤ maxDigits)
    {rest : List Char} (hrest : EndsNumber rest) :
    readAtom ((Text.ofInt n).toList ++ rest) = .ok (.int n, rest) := by
  rw [toList_ofInt, List.append_assoc]
  rcases readAtom_number (sign_eq n) (isWhole_toDigits n.natAbs) .none .none
    (fun _ _ => hdigits) hrest with ⟨-, -, hread⟩ | ⟨hne | hne, -⟩
  · refine hread.trans ?_
    rw [digitsValue_toDigits]
    congr 3
    by_cases hneg : n < 0
    · rw [if_pos hneg, if_neg (List.cons_ne_nil _ _)]
      omega
    · rw [if_neg hneg, if_pos rfl]
      omega
  · exact absurd rfl hne
  · exact absurd rfl hne

/-! ### Reading values -/

/-- What is read for a value: the same value, but any double may stand for a double, and the
fields of an object are entered one after the other. -/
inductive ReadAs : Json → Json → Prop
  | null : ReadAs .null .null
  | bool (b : Bool) : ReadAs (.bool b) (.bool b)
  | int (n : Int) : ReadAs (.int n) (.int n)
  | float (x y : Decimal.Binary64) : ReadAs (.float x) (.float y)
  | str (s : String) : ReadAs (.str s) (.str s)
  | arr {items : List (Json × Json)} (hitems : ∀ item ∈ items, ReadAs item.1 item.2) :
      ReadAs (.arr (items.map Prod.fst)) (.arr (items.map Prod.snd))
  | obj {fields : List (String × Json × Json)}
      (hfields : ∀ field ∈ fields, ReadAs field.2.1 field.2.2) :
      ReadAs (.obj (fields.map fun field => (field.1, field.2.1)))
        (.obj ((fields.map fun field => (field.1, field.2.2)).foldl
          (fun done (key, value) => insertField key value done) []))

/-- A number. -/
def IsNumber : Json → Prop
  | int _ | float _ => True
  | _ => False

/-- A text of a value is read in front of any other text, but a number only in front of what
ends it. Blanks may be left. -/
def Reads (value : Json) (text : List Char) : Prop :=
  ∀ (fuel : Nat) (rest : List Char), 2 * text.length ≤ fuel → (value.IsNumber → EndsNumber rest) →
    ∃ read left, value.ReadAs read ∧
      readValue fuel (skipSpace (text ++ rest)) = .ok (read, left) ∧
      skipSpace left = skipSpace rest

/-- A character that begins a value other than a text, a list or an object. -/
def StartsAtom (c : Char) : Prop :=
  c.isDigit = true ∨ c = '-' ∨ c = 'n' ∨ c = 't' ∨ c = 'f' ∨ c = 'N' ∨ c = 'I'

theorem StartsAtom.apart {c : Char} (h : StartsAtom c) :
    (c ≠ '"' ∧ c ≠ '[' ∧ c ≠ '\x7b') ∧ isSpace c = false ∧ c ≠ ']' := by
  rcases h with h | h
  · have hne : ∀ d : Char, d.isDigit = false → c ≠ d := fun d hd => (ne_of_isDigit h hd).symm
    refine ⟨⟨hne _ rfl, hne _ rfl, hne _ rfl⟩, ?_, hne _ rfl⟩
    simp [isSpace, hne ' ' rfl, hne '\t' rfl, hne '\n' rfl, hne '\r' rfl]
  · rcases h with rfl | rfl | rfl | rfl | rfl | rfl <;> decide

theorem IsWhole.exists_start {whole : List Char} (h : IsWhole whole) {sign : List Char}
    (hsign : sign = [] ∨ sign = ['-']) (rest : List Char) :
    ∃ c cs, sign ++ (whole ++ rest) = c :: cs ∧ StartsAtom c := by
  obtain ⟨c, cs, rfl⟩ := List.exists_cons_of_ne_nil h.1.1
  rcases hsign with rfl | rfl
  · exact ⟨c, _, rfl, .inl (h.1.2 c List.mem_cons_self)⟩
  · exact ⟨'-', _, rfl, .inr (.inl rfl)⟩

theorem SpellsDouble.exists_start {text : List Char} (h : SpellsDouble text) :
    ∃ c cs, text = c :: cs ∧ StartsAtom c := by
  cases h with
  | word h =>
    simp only [List.mem_cons, List.not_mem_nil, or_false] at h
    rcases h with rfl | rfl | rfl
    · exact ⟨'N', "aN".toList, rfl, by simp [StartsAtom]⟩
    · exact ⟨'I', "nfinity".toList, rfl, by simp [StartsAtom]⟩
    · exact ⟨'-', "Infinity".toList, rfl, by simp [StartsAtom]⟩
  | number hsign hwhole => exact hwhole.exists_start hsign _

theorem exists_start_int (n : Int) :
    ∃ c cs, (Text.ofInt n).toList = c :: cs ∧ StartsAtom c := by
  rw [toList_ofInt, ← List.append_nil (Nat.toDigits 10 n.natAbs)]
  exact (isWhole_toDigits n.natAbs).exists_start (sign_eq n) []

theorem exists_start_null : ∃ c cs, "null".toList = c :: cs ∧ StartsAtom c :=
  ⟨'n', "ull".toList, rfl, by simp [StartsAtom]⟩

theorem exists_start_bool (b : Bool) :
    ∃ c cs, (if b then "true" else "false").toList = c :: cs ∧ StartsAtom c := by
  cases b with
  | false => exact ⟨'f', "alse".toList, rfl, by simp [StartsAtom]⟩
  | true => exact ⟨'t', "rue".toList, rfl, by simp [StartsAtom]⟩

/-- What a text of a value begins with behind its blanks is no end of a list. -/
theorem WrittenAs.exists_start {value : Json} {text : List Char} (h : value.WrittenAs text) :
    ∃ blank c cs, text = blank ++ c :: cs ∧ IsBlank blank ∧ isSpace c = false ∧ c ≠ ']' := by
  have hatom : ∀ {text}, (∃ c cs, text = c :: cs ∧ StartsAtom c) →
      ∃ blank c cs, text = blank ++ c :: cs ∧ IsBlank blank ∧ isSpace c = false ∧ c ≠ ']' := by
    rintro _ ⟨c, cs, rfl, hc⟩
    exact ⟨[], c, cs, rfl, by simp [IsBlank], hc.apart.2⟩
  induction h with
  | null => exact hatom exists_start_null
  | bool b => exact hatom (exists_start_bool b)
  | @int n _ => exact hatom (exists_start_int n)
  | float x h => exact hatom h.exists_start
  | str | arr | obj => exact ⟨[], _, _, rfl, by simp [IsBlank], by decide, by decide⟩
  | @padded value before text after hbefore _ _ ih =>
    obtain ⟨blank, c, cs, rfl, hblank, hc⟩ := ih
    refine ⟨before ++ blank, c, cs ++ after, by simp, ?_, hc⟩
    rw [IsBlank, List.forall_mem_append]
    exact ⟨hbefore, hblank⟩

/-- A value that is read as an atom. -/
theorem reads_of_readAtom {value : Json} {text : List Char}
    (hstart : ∃ c cs, text = c :: cs ∧ StartsAtom c)
    (h : ∀ rest, (value.IsNumber → EndsNumber rest) →
      ∃ read, value.ReadAs read ∧ readAtom (text ++ rest) = .ok (read, rest)) :
    Reads value text := by
  intro fuel rest hfuel hrest
  obtain ⟨c, cs, rfl, hc⟩ := hstart
  obtain ⟨fuel, rfl⟩ : ∃ n, fuel = n + 1 := ⟨fuel - 1, by simp at hfuel; omega⟩
  obtain ⟨read, hread, hatom⟩ := h rest hrest
  refine ⟨read, rest, hread, ?_, rfl⟩
  rw [List.cons_append, skipSpace_cons hc.apart.2.1, readValue_of_atom]
  · exact hatom
  · intro d hd
    obtain rfl : c = d := by simpa using hd
    exact hc.apart.1

theorem Reads.padded {value : Json} {before text after : List Char} (hbefore : IsBlank before)
    (h : Reads value text) (hafter : IsBlank after) : Reads value (before ++ (text ++ after)) := by
  intro fuel rest hfuel hrest
  have hends : value.IsNumber → EndsNumber (after ++ rest) := by
    intro hnumber
    cases after with
    | nil => exact hrest hnumber
    | cons c after => exact .cons (.inl (hafter c List.mem_cons_self)) _
  simp only [List.length_append] at hfuel
  obtain ⟨read, left, hsame, hread, hleft⟩ := h fuel (after ++ rest) (by omega) hends
  refine ⟨read, left, hsame, ?_, ?_⟩
  · rw [List.append_assoc, skipSpace_append hbefore, List.append_assoc, hread]
  · rw [hleft, skipSpace_append hafter]

/-- The items of a list are read one after the other up to its end. -/
theorem readItems_of_reads (rest : List Char) :
    ∀ (items : List (Json × List Char)) (item : Json × List Char) (fuel : Nat) (done : List Json),
      (∀ i ∈ item :: items, Reads i.1 i.2) →
      2 * ([','].intercalate ((item :: items).map Prod.snd)).length < fuel →
      ∃ pairs : List (Json × Json), pairs.map Prod.fst = (item :: items).map Prod.fst ∧
        (∀ pair ∈ pairs, ReadAs pair.1 pair.2) ∧
        readItems fuel done
          (skipSpace ([','].intercalate ((item :: items).map Prod.snd) ++ ']' :: rest)) =
            .ok (.arr (done.reverse ++ pairs.map Prod.snd), rest) := by
  intro items
  induction items with
  | nil =>
    intro item fuel done hitems hfuel
    obtain ⟨fuel, rfl⟩ := Nat.exists_eq_add_one.mpr (Nat.zero_lt_of_lt hfuel)
    simp only [List.map_cons, List.map_nil, List.intercalate_singleton] at hfuel ⊢
    obtain ⟨read, left, hsame, hread, hleft⟩ := hitems item List.mem_cons_self fuel (']' :: rest)
      (by omega) fun _ => .cons (by simp) rest
    rw [skipSpace_cons rfl] at hleft
    refine ⟨[(item.1, read)], rfl, List.forall_mem_singleton.mpr hsame, ?_⟩
    simp [readItems, hread, hleft]
  | cons next items ih =>
    intro item fuel done hitems hfuel
    obtain ⟨fuel, rfl⟩ := Nat.exists_eq_add_one.mpr (Nat.zero_lt_of_lt hfuel)
    simp only [List.map_cons, List.intercalate_cons_cons, List.append_assoc, List.nil_append,
      List.length_append, List.length_cons, List.cons_append] at hfuel ih ⊢
    obtain ⟨read, left, hsame, hread, hleft⟩ := hitems item List.mem_cons_self fuel
      (',' :: ([','].intercalate (next.2 :: items.map Prod.snd) ++ ']' :: rest)) (by omega)
      fun _ => .cons (by simp) _
    rw [skipSpace_cons rfl] at hleft
    obtain ⟨pairs, hfirst, hpairs, hrest⟩ := ih next fuel (read :: done)
      (fun i hi => hitems i (List.mem_cons_of_mem _ hi)) (by omega)
    refine ⟨(item.1, read) :: pairs, ?_, List.forall_mem_cons.mpr ⟨hsame, hpairs⟩, ?_⟩
    · rw [List.map_cons, hfirst]
    · simp only [readItems, hread, hleft, hrest]
      simp

/-- A field is read up to what follows it. -/
theorem readFields_step {field : FieldText} (hkey : SpellsKey field.key field.keyText)
    (hvalue : Reads field.value field.valueText) {fuel : Nat}
    (hfuel : 2 * field.valueText.length ≤ fuel) (done : List (String × Json)) {c : Char}
    (hc : c = ',' ∨ c = '\x7d') (rest : List Char) :
    ∃ read, field.value.ReadAs read ∧
      readFields (fuel + 1) done (skipSpace (field.text ++ c :: rest)) =
        if c = ',' then readFields fuel (insertField field.key read done) (skipSpace rest)
        else .ok (.obj (insertField field.key read done), rest) := by
  obtain ⟨before, inside, after, htext, hbefore, hinside, hafter⟩ := hkey
  obtain ⟨read, left, hsame, hread, hleft⟩ := hvalue fuel (c :: rest) hfuel
    fun _ => .cons (by rcases hc with rfl | rfl <;> simp) rest
  refine ⟨read, hsame, ?_⟩
  have hspace : isSpace c = false := by rcases hc with rfl | rfl <;> rfl
  rw [skipSpace_cons hspace] at hleft
  simp only [FieldText.text, htext, List.append_assoc, List.cons_append, skipSpace_append hbefore,
    skipSpace_cons (show isSpace '"' = false from rfl), readFields, hinside.readText_eq,
    skipSpace_append hafter, skipSpace_cons (show isSpace ':' = false from rfl), hread, hleft]
  rcases hc with rfl | rfl
  · rfl
  · rfl

/-- The fields of an object are read one after the other up to its end. -/
theorem readFields_of_reads (rest : List Char) :
    ∀ (fields : List FieldText) (field : FieldText) (fuel : Nat) (done : List (String × Json)),
      (∀ f ∈ field :: fields, SpellsKey f.key f.keyText ∧ Reads f.value f.valueText) →
      2 * ([','].intercalate ((field :: fields).map FieldText.text)).length < fuel →
      ∃ entries : List (String × Json × Json),
        entries.map (fun e => (e.1, e.2.1)) = (field :: fields).map FieldText.field ∧
        (∀ e ∈ entries, ReadAs e.2.1 e.2.2) ∧
        readFields fuel done
          (skipSpace ([','].intercalate ((field :: fields).map FieldText.text) ++
            '\x7d' :: rest)) =
          .ok (.obj ((entries.map fun e => (e.1, e.2.2)).foldl
            (fun done (key, value) => insertField key value done) done), rest) := by
  intro fields
  induction fields with
  | nil =>
    intro field fuel done hfields hfuel
    obtain ⟨fuel, rfl⟩ := Nat.exists_eq_add_one.mpr (Nat.zero_lt_of_lt hfuel)
    obtain ⟨hkey, hvalue⟩ := hfields field List.mem_cons_self
    simp only [List.map_cons, List.map_nil, List.intercalate_singleton] at hfuel ⊢
    obtain ⟨read, hsame, hread⟩ := readFields_step hkey hvalue
      (show 2 * field.valueText.length ≤ fuel by rw [field.length_text] at hfuel; omega) done
      (.inr rfl) rest
    exact ⟨[(field.key, field.value, read)], rfl, List.forall_mem_singleton.mpr hsame, hread⟩
  | cons next fields ih =>
    intro field fuel done hfields hfuel
    obtain ⟨fuel, rfl⟩ := Nat.exists_eq_add_one.mpr (Nat.zero_lt_of_lt hfuel)
    obtain ⟨hkey, hvalue⟩ := hfields field List.mem_cons_self
    simp only [List.map_cons, List.intercalate_cons_cons, List.append_assoc, List.nil_append,
      List.length_append, List.length_cons, List.cons_append, field.length_text] at hfuel ih ⊢
    obtain ⟨read, hsame, hread⟩ := readFields_step hkey hvalue
      (show 2 * field.valueText.length ≤ fuel by omega) done (.inl rfl)
      ([','].intercalate (next.text :: fields.map FieldText.text) ++ '\x7d' :: rest)
    obtain ⟨others, hfirst, hothers, hrest⟩ := ih next fuel (insertField field.key read done)
      (fun f hf => hfields f (List.mem_cons_of_mem _ hf)) (by omega)
    refine ⟨(field.key, field.value, read) :: others, ?_,
      List.forall_mem_cons.mpr ⟨hsame, hothers⟩, ?_⟩
    · rw [List.map_cons, hfirst]
      rfl
    · rw [hread, if_pos rfl, hrest, List.map_cons, List.foldl_cons]

theorem exists_intercalate_cons (sep part : List Char) (parts : List (List Char)) :
    ∃ more, sep.intercalate (part :: parts) = part ++ more := by
  cases parts with
  | nil => exact ⟨[], by simp⟩
  | cons next parts => exact ⟨_, by rw [List.intercalate_cons_cons, List.append_assoc]⟩

theorem Reads.str {s : String} {inside : List Char} (h : SpellsText s.toList inside) :
    Reads (.str s) ('"' :: (inside ++ ['"'])) := by
  intro fuel rest hfuel _
  obtain ⟨fuel, rfl⟩ : ∃ n, fuel = n + 1 := ⟨fuel - 1, by simp at hfuel; omega⟩
  refine ⟨.str s, rest, .str s, ?_, rfl⟩
  simp only [List.cons_append, List.append_assoc, List.nil_append,
    skipSpace_cons (show isSpace '"' = false from rfl), readValue, h.readText_eq]

theorem Reads.arr {blank : List Char} (hblank : IsBlank blank) {items : List (Json × List Char)}
    (hitems : ∀ item ∈ items, WrittenAs item.1 item.2) (h : ∀ item ∈ items, Reads item.1 item.2) :
    Reads (.arr (items.map Prod.fst))
      ('[' :: (blank ++ ([','].intercalate (items.map Prod.snd) ++ [']']))) := by
  intro fuel rest hfuel _
  simp only [List.length_cons, List.length_append, List.length_nil] at hfuel
  obtain ⟨fuel, rfl⟩ : ∃ n, fuel = n + 1 := ⟨fuel - 1, by omega⟩
  simp only [List.cons_append, List.append_assoc, List.nil_append,
    skipSpace_cons (show isSpace '[' = false from rfl)]
  suffices hread : ∃ pairs : List (Json × Json), pairs.map Prod.fst = items.map Prod.fst ∧
      (∀ pair ∈ pairs, ReadAs pair.1 pair.2) ∧ readValue (fuel + 1)
        ('[' :: (blank ++ ([','].intercalate (items.map Prod.snd) ++ ']' :: rest))) =
          .ok (.arr (pairs.map Prod.snd), rest) by
    obtain ⟨pairs, hfirst, hpairs, hread⟩ := hread
    exact ⟨_, rest, hfirst ▸ .arr hpairs, hread, rfl⟩
  cases items with
  | nil =>
    refine ⟨[], rfl, List.forall_mem_nil _, ?_⟩
    simp only [readValue, List.map_nil, List.intercalate_nil, List.nil_append,
      skipSpace_append hblank, skipSpace_cons (show isSpace ']' = false from rfl)]
  | cons item items =>
    obtain ⟨pairs, hfirst, hpairs, hread⟩ := readItems_of_reads rest items item fuel [] h (by omega)
    refine ⟨pairs, hfirst, hpairs, ?_⟩
    rw [readValue_list (skipSpace_append hblank _), hread]
    · rfl
    -- The first item does not look like the end of the list.
    obtain ⟨space, c, cs, hstart, hspace, hc, hend⟩ := (hitems item List.mem_cons_self).exists_start
    obtain ⟨more, hmore⟩ := exists_intercalate_cons [','] item.2 (items.map Prod.snd)
    rw [List.map_cons, hmore, hstart, List.append_assoc, List.append_assoc, skipSpace_append hspace,
      List.cons_append, skipSpace_cons hc]
    simpa using hend

/-- Fields with distinct keys are kept as they come. -/
theorem foldl_insertField_nil {fields : List (String × Json)}
    (hkeys : (fields.map Prod.fst).Nodup) :
    fields.foldl (fun done (key, value) => insertField key value done) [] = fields := by
  rw [foldl_insertField hkeys (by simp)]
  simp [overlay]

theorem Reads.obj {blank : List Char} (hblank : IsBlank blank) {fields : List FieldText}
    (hkeys : ∀ field ∈ fields, SpellsKey field.key field.keyText)
    (h : ∀ field ∈ fields, Reads field.value field.valueText) :
    Reads (.obj (fields.map FieldText.field))
      ('\x7b' :: (blank ++ ([','].intercalate (fields.map FieldText.text) ++ ['\x7d']))) := by
  intro fuel rest hfuel _
  simp only [List.length_cons, List.length_append, List.length_nil] at hfuel
  obtain ⟨fuel, rfl⟩ : ∃ n, fuel = n + 1 := ⟨fuel - 1, by omega⟩
  simp only [List.cons_append, List.append_assoc, List.nil_append,
    skipSpace_cons (show isSpace '\x7b' = false from rfl)]
  suffices hread : ∃ entries : List (String × Json × Json),
      entries.map (fun e => (e.1, e.2.1)) = fields.map FieldText.field ∧
      (∀ e ∈ entries, ReadAs e.2.1 e.2.2) ∧ readValue (fuel + 1)
        ('\x7b' :: (blank ++ ([','].intercalate (fields.map FieldText.text) ++ '\x7d' :: rest))) =
        .ok (.obj ((entries.map fun e => (e.1, e.2.2)).foldl
          (fun done (key, value) => insertField key value done) []), rest) by
    obtain ⟨entries, hfirst, hentries, hread⟩ := hread
    exact ⟨_, rest, hfirst ▸ .obj hentries, hread, rfl⟩
  cases fields with
  | nil =>
    refine ⟨[], rfl, List.forall_mem_nil _, ?_⟩
    simp only [readValue, List.map_nil, List.intercalate_nil, List.nil_append,
      skipSpace_append hblank, skipSpace_cons (show isSpace '\x7d' = false from rfl)]
    rfl
  | cons field fields =>
    obtain ⟨entries, hfirst, hentries, hread⟩ := readFields_of_reads rest fields field fuel []
      (fun f hf => ⟨hkeys f hf, h f hf⟩) (by omega)
    refine ⟨entries, hfirst, hentries, ?_⟩
    rw [readValue_object (skipSpace_append hblank _), hread]
    -- A key does not look like the end of the object.
    obtain ⟨before, inside, after, hkey, hbefore, -⟩ := hkeys field List.mem_cons_self
    obtain ⟨more, hmore⟩ := exists_intercalate_cons [','] field.text (fields.map FieldText.text)
    rw [List.map_cons, hmore, FieldText.text, hkey]
    simp only [List.append_assoc, skipSpace_append hbefore, List.cons_append,
      skipSpace_cons (show isSpace '"' = false from rfl)]
    simp

/-- Every text of a value is read. -/
theorem WrittenAs.reads {value : Json} {text : List Char} (h : value.WrittenAs text) :
    value.Reads text := by
  induction h with
  | null =>
    exact reads_of_readAtom exists_start_null fun rest _ => ⟨.null, .null, readAtom_null rest⟩
  | bool b =>
    refine reads_of_readAtom (exists_start_bool b) fun rest _ => ⟨.bool b, .bool b, ?_⟩
    cases b with
    | false => exact readAtom_false rest
    | true => exact readAtom_true rest
  | @int n hdigits =>
    exact reads_of_readAtom (exists_start_int n) fun rest hrest =>
      ⟨.int n, .int n, readAtom_int hdigits (hrest trivial)⟩
  | float x h =>
    refine reads_of_readAtom h.exists_start fun rest hrest => ?_
    obtain ⟨y, hread⟩ := h.readAtom_eq (hrest trivial)
    exact ⟨.float y, .float x y, hread⟩
  | str h => exact .str h
  | arr hblank hitems ih => exact .arr hblank hitems ih
  | obj hblank hkeys _ ih => exact .obj hblank hkeys ih
  | padded hbefore _ hafter ih => exact ih.padded hbefore hafter

/-! ### What is read -/

namespace ReadAs

/-- An object with distinct keys keeps its fields. -/
theorem exists_fields {fields : List (String × Json)} {read : Json} (h : (Json.obj fields).ReadAs read)
    (hkeys : (fields.map Prod.fst).Nodup) :
    ∃ entries : List (String × Json × Json), fields = entries.map (fun e => (e.1, e.2.1)) ∧
      (∀ e ∈ entries, ReadAs e.2.1 e.2.2) ∧ read = .obj (entries.map fun e => (e.1, e.2.2)) := by
  generalize hvalue : Json.obj fields = value at h
  cases h with
  | @obj entries hentries =>
    obtain rfl := Json.obj.inj hvalue
    refine ⟨entries, rfl, hentries, ?_⟩
    rw [foldl_insertField_nil]
    simpa [Function.comp_def] using hkeys
  | _ => cases hvalue

theorem text?_eq {value read : Json} (h : value.ReadAs read) : read.text? = value.text? := by
  cases h <;> rfl

/-- Without doubles and with distinct keys, exactly the value is read. -/
theorem eq_of_isPlain {value read : Json} (h : value.ReadAs read) (hplain : value.IsPlain) :
    read = value := by
  induction h with
  | null | bool _ | int _ | str _ => rfl
  | float x y => cases hplain
  | arr _ ih =>
    cases hplain with
    | arr hplain =>
      refine congrArg Json.arr (List.map_congr_left fun item hitem => ?_)
      exact ih item hitem (hplain _ (List.mem_map_of_mem hitem))
  | obj _ ih =>
    cases hplain with
    | obj hkeys hplain =>
      rw [foldl_insertField_nil (by simpa [Function.comp_def] using hkeys)]
      refine congrArg Json.obj (List.map_congr_left fun field hfield => ?_)
      rw [ih field hfield (hplain _ (List.mem_map_of_mem hfield))]

end ReadAs

/-- Values that agree as far as texts go: as texts, and as objects with distinct keys, in their
keys and in the texts among their values. -/
structure SameTexts (value read : Json) : Prop where
  text : read.text? = value.text?
  fields : ∀ fields, value = .obj fields → (fields.map Prod.fst).Nodup →
    ∃ fields', read = .obj fields' ∧
      fields'.map (fun field => (field.1, field.2.text?)) =
        fields.map fun field => (field.1, field.2.text?)

theorem ReadAs.sameTexts {value read : Json} (h : value.ReadAs read) : value.SameTexts read := by
  refine ⟨h.text?_eq, ?_⟩
  rintro _ rfl hkeys
  obtain ⟨entries, rfl, hentries, rfl⟩ := h.exists_fields hkeys
  refine ⟨_, rfl, ?_⟩
  rw [List.map_map, List.map_map]
  refine List.map_congr_left fun e he => ?_
  exact congrArg (Prod.mk e.1) (hentries e he).text?_eq

end PluginAtlas.Json
