import PluginAtlas.Proofs.JsonIntegers
import PluginAtlas.Proofs.JsonSpellings

/-!
# Values at the front of a text

A value is read from the front of a text, and where it ends is found on the way. What stands
behind has no say in this: the part of the text that was taken is read as the same value in
front of anything else, and alone. The reader does look ahead in two places. A number goes on
as long as it can, so that it needs an end behind it; inside a list or an object there always
is one. And half of a pair of units looks for its other half; as the text value must be closed,
all that it looks at belongs to the value.

So a text that is cut off somewhere is read as a value only if the whole text begins with this
value.

## Main definitions

* `Json.EndsText`: the rest of a text value with its closing mark.
* `Json.OwnText`: the text of a value that is read the same in front of any other.

## Main results

* `Json.exists_endsText`, `Json.readAtom_own`, `Json.reading_own`: what is read from the front
  of a text is read from its own text.
* `Json.exists_ownText`: a value at the front of a text has its own text there.
* `Json.OwnText.readFront_eq`, `Json.OwnText.parse_eq`: its own text is read anywhere.
* `Json.exists_of_parse`: a text of a value is its own text between blanks.
-/

namespace PluginAtlas.Json

/-! ### Text values -/

/-- A unit that makes no pair with what stands behind it. -/
def StandsAlone (high : Nat) (rest : List Char) : Prop :=
  isHighSurrogate high = true → ∀ e₁ e₂ e₃ e₄ e more,
    rest = '\\' :: 'u' :: e₁ :: e₂ :: e₃ :: e₄ :: e :: more →
    ∃ low, hexUnit? e₁ e₂ e₃ e₄ = some low ∧ isLowSurrogate low = false

/-- A unit that stands alone is read as a character of its own. -/
theorem StandsAlone.readUnit_eq {d₁ d₂ d₃ d₄ : Char} {high : Nat} {rest : List Char}
    (h : StandsAlone high rest) (hhigh : hexUnit? d₁ d₂ d₃ d₄ = some high) (hrest : rest ≠ []) :
    readUnit (d₁ :: d₂ :: d₃ :: d₄ :: rest) = .ok (unitChar high, rest) := by
  obtain ⟨next, more, rfl⟩ := List.exists_cons_of_ne_nil hrest
  simp only [readUnit, hhigh]
  split
  · rfl
  · next hpair =>
    obtain ⟨hsurrogate, rfl⟩ : isHighSurrogate high = true ∧ next = '\\' := by simpa using hpair
    split
    · next e₁ e₂ e₃ e₄ e rest =>
      obtain ⟨low, hlow, hnone⟩ := h hsurrogate e₁ e₂ e₃ e₄ e rest rfl
      simp only [hlow, hnone, Bool.false_eq_true, if_false]
    · rfl

/-- What an escape of units was read from: one unit that stands alone, or a pair of them. -/
theorem readUnit_cases {cs rest : List Char} {c : Char} (h : readUnit cs = .ok (c, rest)) :
    rest ≠ [] ∧ ∃ d₁ d₂ d₃ d₄ high, hexUnit? d₁ d₂ d₃ d₄ = some high ∧
      ((cs = d₁ :: d₂ :: d₃ :: d₄ :: rest ∧ StandsAlone high rest ∧ c = unitChar high) ∨
      ∃ e₁ e₂ e₃ e₄, cs = d₁ :: d₂ :: d₃ :: d₄ :: '\\' :: 'u' :: e₁ :: e₂ :: e₃ :: e₄ :: rest ∧
        ∀ next more, readUnit
          (d₁ :: d₂ :: d₃ :: d₄ :: '\\' :: 'u' :: e₁ :: e₂ :: e₃ :: e₄ :: next :: more) =
            .ok (c, next :: more)) := by
  unfold readUnit at h
  split at h
  · next d₁ d₂ d₃ d₄ next more =>
    split at h
    · cases h
    · next high hhigh =>
      split at h
      · next hsingle =>
        cases h
        refine ⟨List.cons_ne_nil _ _, d₁, d₂, d₃, d₄, high, hhigh, .inl ⟨rfl, ?_, rfl⟩⟩
        -- no pair begins here at all
        rintro hsurrogate e₁ e₂ e₃ e₄ e rest heq
        obtain ⟨rfl, -⟩ := List.cons.inj heq
        simp [hsurrogate] at hsingle
      · next hpair =>
        obtain ⟨hsurrogate, rfl⟩ : isHighSurrogate high = true ∧ next = '\\' := by
          simpa using hpair
        split at h
        · next e₁ e₂ e₃ e₄ e more =>
          split at h
          · cases h
          · next low hlow =>
            split at h
            · next hother =>
              obtain ⟨rfl, rfl⟩ := Prod.mk.inj (Except.ok.inj h)
              refine ⟨List.cons_ne_nil _ _, d₁, d₂, d₃, d₄, high, hhigh, .inr ⟨e₁, e₂, e₃, e₄, rfl,
                fun next more => ?_⟩⟩
              simp [readUnit, hhigh, hlow, hsurrogate, hother]
            · next hother =>
              cases h
              refine ⟨List.cons_ne_nil _ _, d₁, d₂, d₃, d₄, high, hhigh, .inl ⟨rfl, ?_, rfl⟩⟩
              rintro - _ _ _ _ _ _ ⟨⟩
              exact ⟨low, hlow, by simpa using hother⟩
        · next hshort =>
          cases h
          refine ⟨List.cons_ne_nil _ _, d₁, d₂, d₃, d₄, high, hhigh, .inl ⟨rfl, ?_, rfl⟩⟩
          rintro - e₁ e₂ e₃ e₄ e rest heq
          exact absurd (List.cons.inj heq).2 (hshort e₁ e₂ e₃ e₄ e rest)
  · cases h

/-- The rest of a text value with the mark that closes it: behind the characters of `done` it is
read as `s`, whatever follows. -/
def EndsText (done own : List Char) (s : String) : Prop :=
  ∀ start fuel rest, own.length ≤ fuel →
    readTextFrom start fuel done (own ++ rest) = .ok (s, rest)

namespace EndsText

variable {done own : List Char} {s : String} {c : Char}

theorem ne_nil (h : EndsText done own s) : own ≠ [] := by
  rintro rfl
  cases h 0 0 [] (Nat.le_refl 0)

theorem mark (done : List Char) : EndsText done ['"'] (String.ofList done.reverse) := by
  intro start fuel rest hfuel
  obtain ⟨fuel, rfl⟩ := Nat.exists_eq_add_one.mpr hfuel
  simp [readTextFrom]

/-- An escape of a unit, with all that the reader looks at behind it, belongs to the text value. -/
theorem exists_unit (h : EndsText done own s) {rest more : List Char}
    (heq : own ++ rest = '\\' :: 'u' :: more) :
    ∃ e₁ e₂ e₃ e₄ e own', own = '\\' :: 'u' :: e₁ :: e₂ :: e₃ :: e₄ :: e :: own' := by
  -- the text value is read alone as well, where nothing follows
  have halone := h 0 own.length [] (Nat.le_refl _)
  rw [List.append_nil] at halone
  match own, heq with
  | [], _ => cases halone
  | [c], heq =>
    obtain ⟨rfl, -⟩ := List.cons.inj heq
    cases halone
  | c :: d :: own, heq =>
    obtain ⟨rfl, htail⟩ := List.cons.inj heq
    obtain ⟨rfl, -⟩ := List.cons.inj htail
    rw [List.length_cons, readTextFrom] at halone
    split at halone
    · next c rest hunit =>
      obtain ⟨hne, d₁, d₂, d₃, d₄, high, -, ⟨rfl, -⟩ | ⟨e₁, e₂, e₃, e₄, rfl, -⟩⟩ :=
        readUnit_cases hunit
      · obtain ⟨e, own', rfl⟩ := List.exists_cons_of_ne_nil hne
        exact ⟨_, _, _, _, _, _, rfl⟩
      · exact ⟨_, _, _, _, _, _, rfl⟩
    · cases halone

/-- Whether a unit stands alone is decided inside of the text value. -/
theorem standsAlone (h : EndsText done own s) {high : Nat} {rest : List Char}
    (halone : StandsAlone high (own ++ rest)) (rest' : List Char) :
    StandsAlone high (own ++ rest') := by
  intro hsurrogate e₁ e₂ e₃ e₄ e more heq
  obtain ⟨e₁', e₂', e₃', e₄', e', own', rfl⟩ := h.exists_unit heq
  obtain ⟨rfl, rfl, rfl, rfl, -⟩ :
      e₁' = e₁ ∧ e₂' = e₂ ∧ e₃' = e₃ ∧ e₄' = e₄ ∧ e' = e ∧ own' ++ rest' = more := by
    simpa using heq
  exact halone hsurrogate _ _ _ _ _ _ rfl

theorem unit (h : EndsText (c :: done) own s) {cs rest : List Char}
    (hunit : readUnit cs = .ok (c, own ++ rest)) :
    ∃ taken, cs = taken ++ (own ++ rest) ∧ EndsText done ('\\' :: 'u' :: (taken ++ own)) s := by
  obtain ⟨-, d₁, d₂, d₃, d₄, high, hhigh, hcases⟩ := readUnit_cases hunit
  -- in both cases the same units are read in front of anything that follows
  suffices hread : ∃ taken, cs = taken ++ (own ++ rest) ∧
      ∀ rest', readUnit (taken ++ (own ++ rest')) = .ok (c, own ++ rest') by
    obtain ⟨taken, hcs, hread⟩ := hread
    refine ⟨taken, hcs, fun start fuel rest' hfuel => ?_⟩
    simp only [List.length_cons, List.length_append] at hfuel
    obtain ⟨fuel, rfl⟩ : ∃ n, fuel = n + 1 := ⟨fuel - 1, by omega⟩
    rw [List.cons_append, List.cons_append, List.append_assoc, readTextFrom_unit (hread rest')]
    exact h start fuel rest' (by omega)
  obtain ⟨rfl, halone, rfl⟩ | ⟨e₁, e₂, e₃, e₄, rfl, hpair⟩ := hcases
  · refine ⟨[d₁, d₂, d₃, d₄], rfl, fun rest' => ?_⟩
    exact (h.standsAlone halone rest').readUnit_eq hhigh (by simp [h.ne_nil])
  · refine ⟨[d₁, d₂, d₃, d₄, '\\', 'u', e₁, e₂, e₃, e₄], rfl, fun rest' => ?_⟩
    obtain ⟨next, own, rfl⟩ := List.exists_cons_of_ne_nil h.ne_nil
    exact hpair next (own ++ rest')

theorem simple (h : EndsText (c :: done) own s) {e : Char} (he : simpleEscape? e = some c) :
    EndsText done ('\\' :: e :: own) s := by
  intro start fuel rest hfuel
  simp only [List.length_cons] at hfuel
  obtain ⟨fuel, rfl⟩ : ∃ n, fuel = n + 1 := ⟨fuel - 1, by omega⟩
  rw [List.cons_append, List.cons_append, readTextFrom_simple he]
  exact h start fuel rest (by omega)

theorem plain (h : EndsText (c :: done) own s) (hmark : c ≠ '"') (hescape : c ≠ '\\')
    (hcontrol : ¬ c.toNat < 0x20) : EndsText done (c :: own) s := by
  intro start fuel rest hfuel
  rw [List.length_cons] at hfuel
  obtain ⟨fuel, rfl⟩ : ∃ n, fuel = n + 1 := ⟨fuel - 1, by omega⟩
  rw [List.cons_append, readTextFrom]
  · rw [if_neg hcontrol]
    exact h start fuel rest (by omega)
  · exact hmark
  · exact hescape

end EndsText

theorem exists_endsText {start fuel : Nat} {done cs : List Char} {s : String} {rest : List Char}
    (h : readTextFrom start fuel done cs = .ok (s, rest)) :
    ∃ own, cs = own ++ rest ∧ EndsText done own s := by
  fun_induction readTextFrom start fuel done cs with
  | case1 | case2 | case4 | case6 | case8 | case9 => cases h
  | case3 =>
    obtain ⟨rfl, rfl⟩ := Prod.mk.inj (Except.ok.inj h)
    exact ⟨['"'], rfl, .mark _⟩
  | case5 _ _ _ _ _ hunit ih =>
    obtain ⟨own, rfl, hown⟩ := ih h
    obtain ⟨taken, rfl, htaken⟩ := hown.unit hunit
    exact ⟨_, by simp, htaken⟩
  | case7 _ _ e _ _ _ he ih =>
    obtain ⟨own, rfl, hown⟩ := ih h
    exact ⟨_, rfl, hown.simple he⟩
  | case10 _ _ c _ hmark hescape hcontrol ih =>
    obtain ⟨own, rfl, hown⟩ := ih h
    exact ⟨_, rfl, hown.plain hmark hescape hcontrol⟩

/-- A text value is read from its own text. -/
theorem readText_own {cs rest : List Char} {s : String} (h : readText cs = .ok (s, rest)) :
    ∃ own, cs = own ++ rest ∧ ∀ rest', readText (own ++ rest') = .ok (s, rest') := by
  obtain ⟨own, rfl, hown⟩ := exists_endsText h
  refine ⟨own, rfl, fun rest' => hown _ _ rest' ?_⟩
  rw [List.length_append]
  omega

/-! ### Numbers and words -/

theorem isWhole_of_wholePart? {cs whole rest : List Char} (h : wholePart? cs = some (whole, rest)) :
    IsWhole whole := by
  unfold wholePart? at h
  split at h
  · cases h
    exact isWhole_zero
  · next c cs hzero =>
    split at h
    · next hc =>
      cases h
      refine ⟨⟨List.cons_ne_nil _ _, ?_⟩, fun hhead => ?_⟩
      · exact List.forall_mem_cons.mpr ⟨hc, fun d hd => List.mem_takeWhile_imp hd⟩
      · exact absurd (Option.some.inj hhead) hzero
    · cases h
  · cases h

theorem exists_isFraction (cs : List Char) :
    ∃ fraction, cs = fraction ++ (fractionPart cs).2 ∧ IsFraction fraction ∧
      (fractionPart cs).1 = fraction.tail := by
  unfold fractionPart
  split
  · next c rest =>
    split
    · next hc =>
      refine ⟨'.' :: c :: rest.takeWhile Char.isDigit, by simp, .digits ⟨List.cons_ne_nil _ _, ?_⟩,
        rfl⟩
      exact List.forall_mem_cons.mpr ⟨hc, fun d hd => List.mem_takeWhile_imp hd⟩
    · exact ⟨[], rfl, .none, rfl⟩
  · exact ⟨[], rfl, .none, rfl⟩

/-- The digits of an exponent are read from their own text. -/
theorem exponentDigits?_own {negative : Bool} {cs rest : List Char} {power : Int}
    (h : exponentDigits? negative cs = some (power, rest)) :
    ∃ ds, cs = ds ++ rest ∧ IsDigits ds ∧ ∀ rest', StartsApart rest' →
      exponentDigits? negative (ds ++ rest') = some (power, rest') := by
  rw [exponentDigits?] at h
  split at h
  · cases h
  · next hne =>
    obtain ⟨rfl, rfl⟩ := Prod.mk.inj (Option.some.inj h)
    have hdigits : ∀ d ∈ cs.takeWhile Char.isDigit, d.isDigit = true :=
      fun d hd => List.mem_takeWhile_imp hd
    refine ⟨cs.takeWhile Char.isDigit, List.takeWhile_append_dropWhile.symm,
      ⟨by simpa using hne, hdigits⟩, fun rest' hrest' => ?_⟩
    obtain ⟨htake, hdrop⟩ := span_digits hdigits hrest'
    rw [exponentDigits?, htake, hdrop, if_neg hne]

/-- An exponent whose digits are read behind a letter and a sign is read from its own text. -/
theorem exponent_own {e : Char} {sign cs rest : List Char} {negative : Bool} {power : Int}
    (he : (e == 'e' || e == 'E') = true) (hsign : sign = [] ∨ sign = ['+'] ∨ sign = ['-'])
    (hopen : ∀ d tail, d.isDigit = true →
      exponentPart? (e :: (sign ++ d :: tail)) = exponentDigits? negative (d :: tail))
    (h : exponentDigits? negative cs = some (power, rest)) :
    ∃ exponent, e :: (sign ++ cs) = exponent ++ rest ∧ IsExponent exponent ∧
      ∀ rest', EndsNumber rest' → exponentPart? (exponent ++ rest') = some (power, rest') := by
  obtain ⟨ds, rfl, hds, hread⟩ := exponentDigits?_own h
  refine ⟨e :: (sign ++ ds), by simp, .digits (by simpa using he) hsign hds, fun rest' hrest' => ?_⟩
  obtain ⟨d, ds, rfl⟩ := List.exists_cons_of_ne_nil hds.1
  rw [List.cons_append, List.append_assoc, List.cons_append, hopen d _ (hds.2 d List.mem_cons_self)]
  exact hread rest' hrest'.startsApart

/-- An exponent is read from its own text, in front of what ends a number. -/
theorem exponentPart?_own {cs rest : List Char} {power : Int}
    (h : exponentPart? cs = some (power, rest)) :
    ∃ exponent, cs = exponent ++ rest ∧ IsExponent exponent ∧ ∀ rest', EndsNumber rest' →
      exponentPart? (exponent ++ rest') = some (power, rest') := by
  unfold exponentPart? at h
  split at h
  · split_ifs at h with he
    exact exponent_own he (.inr (.inl rfl)) (fun d tail _ => if_pos he) h
  · split_ifs at h with he
    exact exponent_own he (.inr (.inr rfl)) (fun d tail _ => if_pos he) h
  · split_ifs at h with he
    refine exponent_own he (.inl rfl) (fun d tail hd => ?_) h
    -- a digit follows the letter, and no sign
    rw [List.nil_append, exponentPart?, if_pos he]
    · rintro _ heq
      exact absurd (List.cons.inj heq).1.symm (ne_of_isDigit hd rfl)
    · rintro _ heq
      exact absurd (List.cons.inj heq).1.symm (ne_of_isDigit hd rfl)
  · cases h

/-- What follows a number, and the parts of the number that are read in front of it. -/
theorem parts_of_number {whole fraction exponent rest : List Char} (hwhole : IsWhole whole)
    (hfraction : IsFraction fraction) (hexponent : IsExponent exponent) (hrest : EndsNumber rest) :
    wholePart? (whole ++ (fraction ++ (exponent ++ rest))) =
        some (whole, fraction ++ (exponent ++ rest)) ∧
      fractionPart (fraction ++ (exponent ++ rest)) = (fraction.tail, exponent ++ rest) := by
  obtain ⟨hapart, hpoint⟩ := hexponent.startsApart hrest
  refine ⟨hwhole.wholePart?_eq ?_, hfraction.fractionPart_eq hapart fun _ => hpoint⟩
  cases hfraction with
  | none => exact hapart
  | digits h =>
    intro c hc
    obtain rfl : '.' = c := by simpa using hc
    rfl

/-- A number is read from its own text, in front of what ends a number. -/
theorem readNumber_own {start cs rest : List Char} {negative : Bool} {value : Json}
    (h : readNumber start negative cs = .ok (value, rest)) :
    value.IsNumber ∧ ∃ whole more, cs = whole ++ (more ++ rest) ∧ IsWhole whole ∧
      ∀ start' rest', EndsNumber rest' →
        readNumber start' negative (whole ++ (more ++ rest')) = .ok (value, rest') := by
  unfold readNumber at h
  split at h
  · cases h
  · next whole behind hparts =>
    have hwhole := isWhole_of_wholePart? hparts
    obtain ⟨rfl, -⟩ := wholePart?_eq hparts
    obtain ⟨fraction, hbehind, hfraction, hdigits⟩ := exists_isFraction behind
    generalize fractionPart behind = found at h hbehind hdigits
    obtain ⟨ds, left⟩ := found
    obtain rfl : ds = fraction.tail := hdigits
    obtain rfl : behind = fraction ++ left := hbehind
    dsimp only at h
    cases hexponent : exponentPart? left with
    | none =>
      simp only [hexponent, Option.isNone_none, Bool.and_true, Option.getD_none] at h
      -- nothing was taken behind the fraction, and nothing is taken from an end
      have hparts' : ∀ rest', EndsNumber rest' →
          wholePart? (whole ++ (fraction ++ rest')) = some (whole, fraction ++ rest') ∧
          fractionPart (fraction ++ rest') = (fraction.tail, rest') ∧
          exponentPart? rest' = none := by
        intro rest' hrest'
        obtain ⟨hwhole', hfraction'⟩ := parts_of_number hwhole hfraction .none hrest'
        exact ⟨hwhole', hfraction', hrest'.exponentPart?_eq⟩
      split at h
      · next hempty =>
        split at h
        · cases h
        · next hshort =>
          cases h
          refine ⟨trivial, whole, fraction, rfl, hwhole, fun start' rest' hrest' => ?_⟩
          obtain ⟨hwhole', hfraction', hnone⟩ := hparts' rest' hrest'
          simp only [readNumber, hwhole', hfraction', hnone, Option.isNone_none, Bool.and_true,
            hempty, if_true, if_neg hshort]
      · next hdouble =>
        cases h
        refine ⟨trivial, whole, fraction, rfl, hwhole, fun start' rest' hrest' => ?_⟩
        obtain ⟨hwhole', hfraction', hnone⟩ := hparts' rest' hrest'
        simp only [readNumber, hwhole', hfraction', hnone, Option.isNone_none, Bool.and_true,
          hdouble, if_false, Option.getD_none, Bool.false_eq_true]
    | some result =>
      obtain ⟨power, behind⟩ := result
      obtain ⟨exponent, rfl, hisexponent, hread⟩ := exponentPart?_own hexponent
      simp only [hexponent, Option.isNone_some, Bool.and_false, Bool.false_eq_true, if_false,
        Option.getD_some] at h
      cases h
      refine ⟨trivial, whole, fraction ++ exponent, by simp, hwhole, fun start' rest' hrest' => ?_⟩
      obtain ⟨hwhole', hfraction'⟩ := parts_of_number hwhole hfraction hisexponent hrest'
      rw [List.append_assoc]
      simp only [readNumber, hwhole', hfraction', hread rest' hrest', Option.isNone_some,
        Bool.and_false, Bool.false_eq_true, if_false, Option.getD_some]

/-- A word, or a number in front of what ends it, is read from its own text. -/
theorem readAtom_own {cs rest : List Char} {value : Json} (h : readAtom cs = .ok (value, rest)) :
    (∀ items, value ≠ .arr items) ∧ ∃ c own, cs = c :: own ++ rest ∧ StartsAtom c ∧
      ∀ rest', (value.IsNumber → EndsNumber rest') →
        readAtom (c :: own ++ rest') = .ok (value, rest') := by
  -- a number is no list
  have hlist : value.IsNumber → ∀ items, value ≠ .arr items := by
    rintro hnumber items rfl
    exact hnumber
  unfold readAtom at h
  dsimp only at h
  split at h
  · next result hword =>
    obtain ⟨⟨word, value'⟩, hmem, hresult⟩ := List.exists_of_findSome?_eq_some hword
    obtain ⟨rest', hrest, rfl⟩ := Option.map_eq_some_iff.mp hresult
    obtain rfl := afterWord?_eq hrest
    obtain ⟨rfl, rfl⟩ := Prod.mk.inj (Except.ok.inj h)
    simp only [List.mem_cons, Prod.mk.injEq, List.not_mem_nil, or_false] at hmem
    rcases hmem with ⟨rfl, rfl⟩ | ⟨rfl, rfl⟩ | ⟨rfl, rfl⟩ | ⟨rfl, rfl⟩ | ⟨rfl, rfl⟩ | ⟨rfl, rfl⟩
    · exact ⟨by simp, 'n', "ull".toList, rfl, by simp [StartsAtom], fun rest' _ => readAtom_null rest'⟩
    · exact ⟨by simp, 't', "rue".toList, rfl, by simp [StartsAtom], fun rest' _ => readAtom_true rest'⟩
    · exact ⟨by simp, 'f', "alse".toList, rfl, by simp [StartsAtom], fun rest' _ => readAtom_false rest'⟩
    · exact ⟨by simp, 'N', "aN".toList, rfl, by simp [StartsAtom], fun rest' _ => readAtom_nan rest'⟩
    · exact ⟨by simp, 'I', "nfinity".toList, rfl, by simp [StartsAtom],
        fun rest' _ => readAtom_infinity rest'⟩
    · exact ⟨by simp, '-', "Infinity".toList, rfl, by simp [StartsAtom],
        fun rest' _ => readAtom_minus_infinity rest'⟩
  · split at h
    · obtain ⟨hnumber, whole, more, rfl, hwhole, hread⟩ := readNumber_own h
      obtain ⟨d, ds, rfl⟩ := List.exists_cons_of_ne_nil hwhole.1.1
      refine ⟨hlist hnumber, '-', d :: ds ++ more, by simp, .inr (.inl rfl), fun rest' hrest' => ?_⟩
      have hatom := readAtom_minus (hwhole.1.2 d List.mem_cons_self) (ds ++ (more ++ rest'))
      simp only [List.cons_append, List.append_assoc] at hread ⊢
      rw [hatom]
      exact hread _ rest' (hrest' hnumber)
    · obtain ⟨hnumber, whole, more, rfl, hwhole, hread⟩ := readNumber_own h
      obtain ⟨d, ds, rfl⟩ := List.exists_cons_of_ne_nil hwhole.1.1
      have hd := hwhole.1.2 d List.mem_cons_self
      refine ⟨hlist hnumber, d, ds ++ more, by simp, .inl hd, fun rest' hrest' => ?_⟩
      have hatom := readAtom_digit hd (ds ++ (more ++ rest'))
      simp only [List.cons_append, List.append_assoc] at hread ⊢
      rw [hatom]
      exact hread _ rest' (hrest' hnumber)

/-! ### Values -/

/-- The own text of a value: in front of any other text it is read as this value, though a number
only in front of what ends it. -/
def OwnText (value : Json) (own : List Char) : Prop :=
  ∀ fuel rest, 2 * own.length ≤ fuel → (value.IsNumber → EndsNumber rest) →
    readValue fuel (own ++ rest) = .ok (value, rest)

/-- The items of a list up to its end, as they are read behind others. -/
def OwnItems (done : List Json) (value : Json) (own : List Char) : Prop :=
  ∀ fuel rest, 2 * own.length ≤ fuel → readItems fuel done (own ++ rest) = .ok (value, rest)

/-- The fields of an object up to its end, as they are read behind others. -/
def OwnFields (done : List (String × Json)) (value : Json) (own : List Char) : Prop :=
  ∀ fuel rest, 2 * own.length ≤ fuel → readFields fuel done (own ++ rest) = .ok (value, rest)

/-- Whatever is read from the front of a text is read from a text of its own. -/
def ReadsOwn (read : List Char → Reading Json) (isOwn : Json → List Char → Prop) : Prop :=
  ∀ {cs value rest}, read cs = .ok (value, rest) →
    ∃ own, cs = own ++ rest ∧ own ≠ [] ∧ isOwn value own

/-- Blanks are skipped in front of the same text, whatever follows it. -/
theorem exists_skipSpace_own {cs own rest : List Char} (h : skipSpace cs = own ++ rest)
    (hne : own ≠ []) :
    ∃ blank, cs = blank ++ (own ++ rest) ∧
      ∀ rest', skipSpace (blank ++ (own ++ rest')) = own ++ rest' := by
  obtain ⟨c, own, rfl⟩ := List.exists_cons_of_ne_nil hne
  have hc : isSpace c = false := by
    have hhead := List.head?_dropWhile_not isSpace cs
    rw [← skipSpace, h] at hhead
    simpa using hhead
  refine ⟨cs.takeWhile isSpace, ?_, fun rest' => ?_⟩
  · rw [← h]
    exact List.takeWhile_append_dropWhile.symm
  · rw [skipSpace_append fun d hd => List.mem_takeWhile_imp hd, List.cons_append, skipSpace_cons hc]

theorem exists_skipSpace_mark {cs rest : List Char} {c : Char} (h : skipSpace cs = c :: rest) :
    ∃ blank, cs = blank ++ c :: rest ∧ ∀ rest', skipSpace (blank ++ c :: rest') = c :: rest' := by
  have hmark : skipSpace cs = [c] ++ rest := h
  exact exists_skipSpace_own hmark (List.cons_ne_nil _ _)

theorem endsNumber_of_skipSpace {cs rest : List Char} {c : Char} (h : skipSpace cs = c :: rest)
    (hc : c = ',' ∨ c = ']' ∨ c = '\x7d') : EndsNumber cs := by
  cases cs with
  | nil => cases h
  | cons d cs =>
    cases hd : isSpace d with
    | true => exact .cons (.inl hd) cs
    | false =>
      rw [skipSpace_cons hd] at h
      obtain ⟨rfl, -⟩ := List.cons.inj h
      exact .cons (.inr hc) cs

/-- A value with the mark that follows it, and the blanks between them, in front of any other
text. -/
theorem OwnText.exists_mark {value : Json} {own cs rest : List Char} {c : Char}
    (h : OwnText value own) (hcs : skipSpace cs = c :: rest)
    (hc : c = ',' ∨ c = ']' ∨ c = '\x7d') :
    ∃ blank, cs = blank ++ c :: rest ∧ ∀ fuel rest', 2 * own.length ≤ fuel →
      readValue fuel (own ++ (blank ++ c :: rest')) = .ok (value, blank ++ c :: rest') ∧
        skipSpace (blank ++ c :: rest') = c :: rest' := by
  obtain ⟨blank, hblank, hskip⟩ := exists_skipSpace_mark hcs
  refine ⟨blank, hblank, fun fuel rest' hfuel => ⟨?_, hskip rest'⟩⟩
  exact h fuel _ hfuel fun _ => endsNumber_of_skipSpace (hskip rest') hc

/-! Each of the three readers is taken apart into what it has read, and put together again in
front of another text. -/

section Steps

variable {fuel : Nat}

theorem readItems_cases {done : List Json} {cs rest : List Char} {value : Json}
    (h : readItems (fuel + 1) done cs = .ok (value, rest)) :
    ∃ item left, readValue fuel cs = .ok (item, left) ∧
      ((skipSpace left = ']' :: rest ∧ value = .arr (item :: done).reverse) ∨
      ∃ more, skipSpace left = ',' :: more ∧
        readItems fuel (item :: done) (skipSpace more) = .ok (value, rest)) := by
  rw [readItems] at h
  split at h
  · cases h
  · next item left hread =>
    refine ⟨item, left, hread, ?_⟩
    split at h
    · next hspace =>
      cases h
      exact .inl ⟨hspace, rfl⟩
    · next more hspace => exact .inr ⟨more, hspace, h⟩
    · cases h

theorem readItems_succ_own (hvalue : ReadsOwn (readValue fuel) OwnText)
    (hitems : ∀ done, ReadsOwn (readItems fuel done) (OwnItems done)) (done : List Json) :
    ReadsOwn (readItems (fuel + 1) done) (OwnItems done) := by
  intro cs value rest h
  obtain ⟨item, left, hread, hcases⟩ := readItems_cases h
  obtain ⟨own, rfl, hne, hown⟩ := hvalue hread
  obtain ⟨hspace, rfl⟩ | ⟨more, hspace, hmore⟩ := hcases
  · obtain ⟨blank, rfl, hmark⟩ := hown.exists_mark hspace (by simp)
    refine ⟨own ++ (blank ++ [']']), by simp, by simp, fun fuel' rest' hfuel' => ?_⟩
    simp only [List.length_append, List.length_cons, List.length_nil] at hfuel'
    obtain ⟨fuel', rfl⟩ : ∃ n, fuel' = n + 1 := ⟨fuel' - 1, by omega⟩
    obtain ⟨hread', hspace'⟩ := hmark fuel' rest' (by omega)
    simp only [List.append_assoc, List.cons_append, List.nil_append, readItems, hread', hspace']
  · obtain ⟨blank, rfl, hmark⟩ := hown.exists_mark hspace (by simp)
    obtain ⟨others, hothers, hne', hown'⟩ := hitems (item :: done) hmore
    obtain ⟨blank', rfl, hskip⟩ := exists_skipSpace_own hothers hne'
    refine ⟨own ++ (blank ++ ',' :: (blank' ++ others)), by simp, by simp,
      fun fuel' rest' hfuel' => ?_⟩
    simp only [List.length_append, List.length_cons] at hfuel'
    obtain ⟨fuel', rfl⟩ : ∃ n, fuel' = n + 1 := ⟨fuel' - 1, by omega⟩
    obtain ⟨hread', hspace'⟩ := hmark fuel' (blank' ++ (others ++ rest')) (by omega)
    simp only [List.append_assoc, List.cons_append, readItems, hread', hspace', hskip]
    exact hown' fuel' rest' (by omega)

/-- A field is read behind the mark that opens its key, up to and with the mark behind it. -/
def ReadsField (fuel : Nat) (cs : List Char) (key : String) (value : Json) (mark : Char)
    (rest : List Char) : Prop :=
  ∃ afterKey beforeValue afterValue, readText cs = .ok (key, afterKey) ∧
    skipSpace afterKey = ':' :: beforeValue ∧
    readValue fuel (skipSpace beforeValue) = .ok (value, afterValue) ∧
    skipSpace afterValue = mark :: rest

theorem readFields_cases {done : List (String × Json)} {cs rest : List Char} {value : Json}
    (h : readFields (fuel + 1) done cs = .ok (value, rest)) :
    ∃ cs' key field, cs = '"' :: cs' ∧
      ((ReadsField fuel cs' key field '\x7d' rest ∧ value = .obj (insertField key field done)) ∨
      ∃ more, ReadsField fuel cs' key field ',' more ∧
        readFields fuel (insertField key field done) (skipSpace more) = .ok (value, rest)) := by
  rw [readFields.eq_def] at h
  dsimp only at h
  split at h
  · next cs' =>
    split at h
    · cases h
    · next key afterKey hkey =>
      split at h
      · next beforeValue hcolon =>
        split at h
        · cases h
        · next field afterValue hread =>
          refine ⟨cs', key, field, rfl, ?_⟩
          split at h
          · next hspace =>
            cases h
            exact .inl ⟨⟨_, _, _, hkey, hcolon, hread, hspace⟩, rfl⟩
          · next more hspace => exact .inr ⟨more, ⟨_, _, _, hkey, hcolon, hread, hspace⟩, h⟩
          · cases h
      · cases h
  · cases h

theorem ReadsField.readFields_last {cs rest : List Char} {key : String} {field : Json}
    (h : ReadsField fuel cs key field '\x7d' rest) (done : List (String × Json)) :
    readFields (fuel + 1) done ('"' :: cs) = .ok (.obj (insertField key field done), rest) := by
  obtain ⟨_, _, _, hkey, hcolon, hread, hspace⟩ := h
  simp only [readFields, hkey, hcolon, hread, hspace]

theorem ReadsField.readFields_next {cs rest : List Char} {key : String} {field : Json}
    (h : ReadsField fuel cs key field ',' rest) (done : List (String × Json)) :
    readFields (fuel + 1) done ('"' :: cs) =
      readFields fuel (insertField key field done) (skipSpace rest) := by
  obtain ⟨_, _, _, hkey, hcolon, hread, hspace⟩ := h
  simp only [readFields, hkey, hcolon, hread, hspace]

/-- A field is read from its own text. -/
theorem ReadsField.own (hvalue : ReadsOwn (readValue fuel) OwnText) {cs rest : List Char}
    {key : String} {field : Json} {mark : Char} (h : ReadsField fuel cs key field mark rest)
    (hmark : mark = ',' ∨ mark = ']' ∨ mark = '\x7d') :
    ∃ own, cs = own ++ mark :: rest ∧ ∀ fuel' rest', 2 * own.length ≤ fuel' →
      ReadsField fuel' (own ++ mark :: rest') key field mark rest' := by
  obtain ⟨afterKey, beforeValue, afterValue, hkey, hcolon, hread, hspace⟩ := h
  obtain ⟨keyText, rfl, hkeyText⟩ := readText_own hkey
  obtain ⟨blank, rfl, hskip⟩ := exists_skipSpace_mark hcolon
  obtain ⟨own, hown, hne, howntext⟩ := hvalue hread
  obtain ⟨blank', rfl, hskip'⟩ := exists_skipSpace_own hown hne
  obtain ⟨blank'', rfl, hafter⟩ := howntext.exists_mark hspace hmark
  refine ⟨keyText ++ (blank ++ ':' :: (blank' ++ (own ++ blank''))), by simp,
    fun fuel' rest' hfuel' => ?_⟩
  simp only [List.length_append, List.length_cons] at hfuel'
  obtain ⟨hread', hspace'⟩ := hafter fuel' rest' (by omega)
  refine ⟨blank ++ ':' :: (blank' ++ (own ++ (blank'' ++ mark :: rest'))),
    blank' ++ (own ++ (blank'' ++ mark :: rest')), _, ?_, hskip _, ?_, hspace'⟩
  · rw [← hkeyText]
    simp only [List.append_assoc, List.cons_append]
  · rw [hskip', hread']

theorem readFields_succ_own (hvalue : ReadsOwn (readValue fuel) OwnText)
    (hfields : ∀ done, ReadsOwn (readFields fuel done) (OwnFields done))
    (done : List (String × Json)) : ReadsOwn (readFields (fuel + 1) done) (OwnFields done) := by
  intro cs value rest h
  obtain ⟨cs', key, field, rfl, ⟨hfield, rfl⟩ | ⟨more, hfield, hmore⟩⟩ := readFields_cases h
  · obtain ⟨own, rfl, hown⟩ := hfield.own hvalue (by simp)
    refine ⟨'"' :: (own ++ ['\x7d']), by simp, by simp, fun fuel' rest' hfuel' => ?_⟩
    simp only [List.length_append, List.length_cons, List.length_nil] at hfuel'
    obtain ⟨fuel', rfl⟩ : ∃ n, fuel' = n + 1 := ⟨fuel' - 1, by omega⟩
    simpa using (hown fuel' rest' (by omega)).readFields_last done
  · obtain ⟨own, rfl, hown⟩ := hfield.own hvalue (by simp)
    obtain ⟨others, hothers, hne, hown'⟩ := hfields _ hmore
    obtain ⟨blank, rfl, hskip⟩ := exists_skipSpace_own hothers hne
    refine ⟨'"' :: (own ++ ',' :: (blank ++ others)), by simp, by simp,
      fun fuel' rest' hfuel' => ?_⟩
    simp only [List.length_append, List.length_cons] at hfuel'
    obtain ⟨fuel', rfl⟩ : ∃ n, fuel' = n + 1 := ⟨fuel' - 1, by omega⟩
    have hnext := (hown fuel' (blank ++ (others ++ rest')) (by omega)).readFields_next done
    rw [hskip, hown' fuel' rest' (by omega)] at hnext
    simpa using hnext

/-- A list or an object has its own text, if all that follows its opening mark has. -/
theorem exists_ownText_behind {opening : Char} {value : Json} {cs own rest : List Char}
    (hcs : skipSpace cs = own ++ rest) (hne : own ≠ [])
    (hread : ∀ fuel cs' rest', 2 * own.length ≤ fuel → skipSpace cs' = own ++ rest' →
      readValue (fuel + 1) (opening :: cs') = .ok (value, rest')) :
    ∃ own, opening :: cs = own ++ rest ∧ own ≠ [] ∧ OwnText value own := by
  obtain ⟨blank, rfl, hskip⟩ := exists_skipSpace_own hcs hne
  refine ⟨opening :: (blank ++ own), by simp, by simp, fun fuel rest' hfuel _ => ?_⟩
  simp only [List.length_append, List.length_cons] at hfuel
  obtain ⟨fuel, rfl⟩ : ∃ n, fuel = n + 1 := ⟨fuel - 1, by omega⟩
  rw [List.cons_append]
  apply hread
  · omega
  · rw [List.append_assoc, hskip]

/-- What does not begin with a mark does not do so in front of another text either. -/
theorem head?_ne_of_own {cs own rest : List Char} {c : Char} (hcs : cs = own ++ rest)
    (hne : own ≠ []) (h : ∀ more, cs ≠ c :: more) (rest' : List Char) :
    (own ++ rest').head? ≠ some c := by
  obtain ⟨d, own, rfl⟩ := List.exists_cons_of_ne_nil hne
  rintro hhead
  obtain rfl : d = c := by simpa using hhead
  exact h _ hcs

theorem readValue_succ_own (hitems : ∀ done, ReadsOwn (readItems fuel done) (OwnItems done))
    (hfields : ∀ done, ReadsOwn (readFields fuel done) (OwnFields done)) :
    ReadsOwn (readValue (fuel + 1)) OwnText := by
  intro cs value rest h
  rw [readValue.eq_def] at h
  dsimp only at h
  split at h
  · split at h
    · next s left hread =>
      obtain ⟨rfl, rfl⟩ := Prod.mk.inj (Except.ok.inj h)
      obtain ⟨own, rfl, hown⟩ := readText_own hread
      refine ⟨'"' :: own, rfl, List.cons_ne_nil _ _, fun fuel' rest' hfuel' _ => ?_⟩
      obtain ⟨fuel', rfl⟩ : ∃ n, fuel' = n + 1 := ⟨fuel' - 1, by simp at hfuel'; omega⟩
      simp only [List.cons_append, readValue, hown]
    · cases h
  · split at h
    · next hspace =>
      obtain ⟨rfl, rfl⟩ := Prod.mk.inj (Except.ok.inj h)
      have hmark : skipSpace _ = [']'] ++ _ := hspace
      refine exists_ownText_behind hmark (List.cons_ne_nil _ _) ?_
      intro fuel' cs' rest' _ hspace'
      simp only [readValue, hspace', List.cons_append, List.nil_append]
    · next hend =>
      obtain ⟨own, hcs, hne, hown⟩ := hitems [] h
      refine exists_ownText_behind hcs hne fun fuel' cs' rest' hfuel' hspace' => ?_
      rw [readValue_list hspace' (head?_ne_of_own hcs hne hend rest')]
      exact hown fuel' rest' hfuel'
  · split at h
    · next hspace =>
      obtain ⟨rfl, rfl⟩ := Prod.mk.inj (Except.ok.inj h)
      have hmark : skipSpace _ = ['\x7d'] ++ _ := hspace
      refine exists_ownText_behind hmark (List.cons_ne_nil _ _) ?_
      intro fuel' cs' rest' _ hspace'
      simp only [readValue, hspace', List.cons_append, List.nil_append]
    · next hend =>
      obtain ⟨own, hcs, hne, hown⟩ := hfields [] h
      refine exists_ownText_behind hcs hne fun fuel' cs' rest' hfuel' hspace' => ?_
      rw [readValue_object hspace' (head?_ne_of_own hcs hne hend rest')]
      exact hown fuel' rest' hfuel'
  · obtain ⟨-, c, own, rfl, hc, hown⟩ := readAtom_own h
    refine ⟨c :: own, rfl, List.cons_ne_nil _ _, fun fuel' rest' hfuel' hrest' => ?_⟩
    obtain ⟨fuel', rfl⟩ : ∃ n, fuel' = n + 1 := ⟨fuel' - 1, by simp at hfuel'; omega⟩
    rw [readValue_of_atom]
    · exact hown rest' hrest'
    · intro d hd
      obtain rfl : c = d := by simpa using hd
      exact hc.apart.1

end Steps

/-- Values, items and fields are read from their own texts. -/
theorem reading_own (fuel : Nat) :
    ReadsOwn (readValue fuel) OwnText ∧
      (∀ done, ReadsOwn (readItems fuel done) (OwnItems done)) ∧
      ∀ done, ReadsOwn (readFields fuel done) (OwnFields done) := by
  induction fuel with
  | zero =>
    refine ⟨fun h => ?_, fun done _ _ _ h => ?_, fun done _ _ _ h => ?_⟩
    · rw [readValue] at h
      cases h
    · rw [readItems] at h
      cases h
    · rw [readFields] at h
      cases h
  | succ fuel ih =>
    obtain ⟨hvalue, hitems, hfields⟩ := ih
    exact ⟨readValue_succ_own hitems hfields, readItems_succ_own hvalue hitems,
      readFields_succ_own hvalue hfields⟩

/-! ### What a value begins with -/

theorem exists_fields_of_readFields {fuel : Nat} {done : List (String × Json)}
    {cs rest : List Char} {value : Json} (h : readFields fuel done cs = .ok (value, rest)) :
    ∃ fields, value = .obj fields := by
  induction fuel generalizing done cs with
  | zero =>
    rw [readFields] at h
    cases h
  | succ fuel ih =>
    obtain ⟨cs', key, field, -, ⟨-, rfl⟩ | ⟨more, -, hmore⟩⟩ := readFields_cases h
    · exact ⟨_, rfl⟩
    · exact ih hmore

/-- Behind a brace stands an object. -/
theorem exists_fields_of_brace {fuel : Nat} {cs rest : List Char} {value : Json}
    (h : readValue fuel ('\x7b' :: cs) = .ok (value, rest)) : ∃ fields, value = .obj fields := by
  cases fuel with
  | zero =>
    rw [readValue] at h
    cases h
  | succ fuel =>
    simp only [readValue] at h
    split at h
    · cases h
      exact ⟨[], rfl⟩
    · exact exists_fields_of_readFields h

/-- A value begins with no blank and no byte order mark, and a list with its bracket. -/
theorem exists_start_of_readValue {fuel : Nat} {cs rest : List Char} {value : Json}
    (h : readValue fuel cs = .ok (value, rest)) :
    ∃ c more, cs = c :: more ∧ isSpace c = false ∧ c ≠ '\ufeff' ∧
      ∀ items, value = .arr items → c = '[' := by
  cases fuel with
  | zero =>
    rw [readValue] at h
    cases h
  | succ fuel =>
    rw [readValue.eq_def] at h
    dsimp only at h
    split at h
    · refine ⟨'"', _, rfl, rfl, by decide, ?_⟩
      rintro items rfl
      split at h
      · cases h
      · cases h
    · exact ⟨'[', _, rfl, rfl, by decide, fun _ _ => rfl⟩
    · refine ⟨'\x7b', _, rfl, rfl, by decide, ?_⟩
      rintro items rfl
      split at h
      · cases h
      · obtain ⟨fields, hfields⟩ := exists_fields_of_readFields h
        cases hfields
    · obtain ⟨hlist, c, own, rfl, hc, -⟩ := readAtom_own h
      refine ⟨c, _, rfl, hc.apart.2.1, ?_, fun items hitems => absurd hitems (hlist items)⟩
      rintro rfl
      rcases hc with hc | hc
      · exact absurd hc (by decide)
      · exact absurd hc (by decide)

/-! ### Whole texts -/

/-- A value at the front of a text has its own text there. -/
theorem exists_ownText {cs rest : List Char} {value : Json}
    (h : readFront cs = .ok (value, rest)) : ∃ own, cs = own ++ rest ∧ OwnText value own := by
  obtain ⟨own, hcs, -, hown⟩ := (reading_own _).1 h
  exact ⟨own, hcs, hown⟩

namespace OwnText

variable {value : Json} {own : List Char}

/-- In front of another text, its own text is read as the value. -/
theorem readFront_eq (h : OwnText value own) {rest : List Char}
    (hrest : value.IsNumber → EndsNumber rest) : readFront (own ++ rest) = .ok (value, rest) := by
  apply h _ rest _ hrest
  rw [List.length_append]
  omega

theorem exists_start (h : OwnText value own) :
    ∃ c more, own = c :: more ∧ isSpace c = false ∧ c ≠ '\ufeff' ∧
      ∀ items, value = .arr items → c = '[' := by
  have hend : EndsNumber [] := by rintro c ⟨⟩
  have hread := h.readFront_eq fun _ => hend
  rw [List.append_nil] at hread
  exact exists_start_of_readValue hread

/-- Alone, its own text is a text of the value. -/
theorem parse_eq (h : OwnText value own) : parse (String.ofList own) = .ok value := by
  obtain ⟨c, more, hcs, hc, hmark, -⟩ := h.exists_start
  have hend : EndsNumber [] := by rintro c ⟨⟩
  have hread := h.readFront_eq fun _ => hend
  rw [List.append_nil] at hread
  have hwhole : readWhole own = .ok value := by
    rw [hcs] at hread ⊢
    rw [readWhole]
    · rw [skipSpace_cons hc, hread]
      rfl
    · exact fun _ heq => hmark (List.cons.inj heq).1
  rw [parse, String.toList_ofList, hwhole]

end OwnText

/-- A text of a value is its own text between blanks. -/
theorem exists_of_parse {cs : List Char} {value : Json} (h : parse (String.ofList cs) = .ok value) :
    ∃ before own after, cs = before ++ (own ++ after) ∧ IsBlank before ∧ IsBlank after ∧
      OwnText value own := by
  rw [parse, String.toList_ofList] at h
  split at h
  · next hwhole =>
    obtain rfl := Except.ok.inj h
    unfold readWhole at hwhole
    split at hwhole
    · cases hwhole
    · split at hwhole
      · cases hwhole
      · next read rest hfront =>
        obtain ⟨own, hcs, hown⟩ := exists_ownText hfront
        split at hwhole
        · next hrest =>
          cases hwhole
          refine ⟨cs.takeWhile isSpace, own, rest, ?_, fun c hc => List.mem_takeWhile_imp hc, ?_, hown⟩
          · rw [← hcs]
            exact List.takeWhile_append_dropWhile.symm
          · exact List.dropWhile_eq_nil_iff.mp hrest
        · cases hwhole
  · cases h

end PluginAtlas.Json
