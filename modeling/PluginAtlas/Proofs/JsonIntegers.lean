import PluginAtlas.Json.Reader
import Mathlib.Data.List.TakeWhile

/-!
# Integers in JSON text

The reader of JSON has one fault that is not a fault of the grammar: a whole number with too
many digits. It is told here where such a number stands, by the marks of text values alone:
behind a part of the text that leaves no text value open, without a fraction and without an
exponent. Digits inside a text value, however many, are no such number, and neither are those
of a number with a fraction.

## Main definitions

* `Json.insideText`: whether the end of a text stands inside a text value.
* `Json.HasInteger`: a whole number with some count of digits stands in a text.
* `Json.Keeps`: what a reading takes from a text, or where it failed.

## Main results

* `Json.readTextFrom_takes`: a text value is read up to the mark that closes it.
* `Json.reading_keeps`: reading a value takes a part that leaves no text value open.
* `Json.hasInteger_of_parse`: a text with too many digits has a whole number with these.
-/

namespace PluginAtlas.Json

/-! ### Marks of text values -/

/-- Whether the end of a text stands inside a text value, where its beginning may do so too.
Inside, a backslash takes the character behind it along. -/
def insideText : Bool → List Char → Bool
  | inside, [] => inside
  | true, '\\' :: _ :: rest => insideText true rest
  | inside, c :: rest => insideText (inside != (c == '"')) rest

/-- A part of a text behind which no text value is open that was not open before. -/
def IsClosed (part : List Char) : Prop :=
  ∀ rest, insideText false (part ++ rest) = insideText false rest

/-- A part of a text value up to and with the mark that closes it. -/
def Closes (part : List Char) : Prop :=
  ∀ rest, insideText true (part ++ rest) = insideText false rest

theorem insideText_false_cons {c : Char} (hc : c ≠ '"') (rest : List Char) :
    insideText false (c :: rest) = insideText false rest := by
  have hplain : (c == '"') = false := beq_eq_false_iff_ne.mpr hc
  rw [insideText, hplain]
  · rfl
  · exact fun _ _ hinside => by cases hinside

theorem insideText_true_cons {c : Char} (hmark : c ≠ '"') (hescape : c ≠ '\\')
    (rest : List Char) : insideText true (c :: rest) = insideText true rest := by
  have hplain : (c == '"') = false := beq_eq_false_iff_ne.mpr hmark
  rw [insideText, hplain]
  · rfl
  · exact fun _ _ _ hc _ => hescape hc

namespace IsClosed

theorem nil : IsClosed [] := fun _ => rfl

theorem append {part next : List Char} (hpart : IsClosed part) (hnext : IsClosed next) :
    IsClosed (part ++ next) := by
  intro rest
  rw [List.append_assoc, hpart, hnext]

theorem of_notMem (part : List Char) (h : '"' ∉ part) : IsClosed part := by
  intro rest
  induction part with
  | nil => rfl
  | cons c part ih =>
    rw [List.mem_cons, not_or] at h
    rw [List.cons_append, insideText_false_cons (Ne.symm h.1), ih h.2]

/-- A text value between its marks. -/
theorem text {part : List Char} (h : Closes part) : IsClosed ('"' :: part) := by
  intro rest
  rw [List.cons_append, insideText]
  · exact h rest
  · exact fun _ _ hinside => by cases hinside

end IsClosed

/-! ### Whole numbers in a text -/

/-- A whole number with some count of digits stands in a text, outside of text values. -/
def HasInteger (cs : List Char) (count : Nat) : Prop :=
  ∃ before digits rest, cs = before ++ digits ++ rest ∧ insideText false before = false ∧
    digits.length = count ∧ (∀ d ∈ digits, d.isDigit) ∧ (∀ d ∈ rest.head?, ¬ d.isDigit) ∧
    (fractionPart rest).1 = [] ∧ exponentPart? rest = none

theorem HasInteger.after {part cs : List Char} {count : Nat} (hpart : IsClosed part)
    (h : HasInteger cs count) : HasInteger (part ++ cs) count := by
  obtain ⟨before, digits, rest, rfl, hbefore, h⟩ := h
  refine ⟨part ++ before, digits, rest, by simp, ?_, h⟩
  rw [hpart, hbefore]

/-- What a reading takes from a text leaves no text value open; and if it failed at a whole
number with too many digits, then there is one. -/
def Keeps {α : Type} (cs : List Char) : Reading α → Prop
  | .ok (_, rest) => ∃ taken, cs = taken ++ rest ∧ IsClosed taken
  | .error failure => ∀ count, failure.fault = .digits count →
      maxDigits < count ∧ HasInteger cs count

namespace Keeps

variable {α : Type} {cs : List Char}

theorem failAt {fault : Fault} (hfault : ∀ count, fault ≠ .digits count) (rest : List Char) :
    Keeps (α := α) cs (failAt fault rest) :=
  fun count h => absurd h (hfault count)

/-- What is read behind a part of a text is read from the whole. -/
theorem after {part : List Char} (hpart : IsClosed part) {reading : Reading α}
    (h : Keeps cs reading) : Keeps (part ++ cs) reading := by
  cases reading with
  | ok result =>
    obtain ⟨taken, rfl, htaken⟩ := h
    exact ⟨part ++ taken, by simp, hpart.append htaken⟩
  | error failure =>
    intro count hcount
    obtain ⟨hmany, hinteger⟩ := h count hcount
    exact ⟨hmany, hinteger.after hpart⟩

theorem cons {c : Char} (hc : c ≠ '"') {reading : Reading α} (h : Keeps cs reading) :
    Keeps (c :: cs) reading :=
  h.after (.of_notMem [c] (by simpa using hc.symm))

theorem skipSpace {reading : Reading α} (h : Keeps (Json.skipSpace cs) reading) :
    Keeps cs reading := by
  rw [← List.takeWhile_append_dropWhile (p := isSpace) (l := cs)]
  refine h.after (.of_notMem _ fun hmark => ?_)
  exact absurd (List.mem_takeWhile_imp hmark) (by decide)

end Keeps

/-! ### Text values -/

theorem ne_of_hexValue? {c : Char} {n : Nat} (h : hexValue? c = some n) : c ≠ '"' ∧ c ≠ '\\' := by
  constructor <;> rintro rfl <;> cases h

theorem insideText_of_hexUnit? {a b c d : Char} {n : Nat} (h : hexUnit? a b c d = some n)
    (rest : List Char) : insideText true (a :: b :: c :: d :: rest) = insideText true rest := by
  simp only [hexUnit?, bind, Option.bind_eq_some_iff, pure, Option.some.injEq] at h
  obtain ⟨_, ha, _, hb, _, hc, _, hd, -⟩ := h
  rw [insideText_true_cons (ne_of_hexValue? ha).1 (ne_of_hexValue? ha).2,
    insideText_true_cons (ne_of_hexValue? hb).1 (ne_of_hexValue? hb).2,
    insideText_true_cons (ne_of_hexValue? hc).1 (ne_of_hexValue? hc).2,
    insideText_true_cons (ne_of_hexValue? hd).1 (ne_of_hexValue? hd).2]

/-- An escape of units stays inside the text value. -/
theorem readUnit_stays {cs rest : List Char} {c : Char} (h : readUnit cs = .ok (c, rest)) :
    ∃ taken, cs = taken ++ rest ∧
      ∀ more, insideText true (taken ++ more) = insideText true more := by
  unfold readUnit at h
  split at h
  · next a b c d next rest' =>
    split at h
    · cases h
    · next high hhigh =>
      have hsingle : ∃ taken, a :: b :: c :: d :: next :: rest' = taken ++ next :: rest' ∧
          ∀ more, insideText true (taken ++ more) = insideText true more :=
        ⟨[a, b, c, d], rfl, insideText_of_hexUnit? hhigh⟩
      split at h
      · cases h
        exact hsingle
      · next hpair =>
        obtain ⟨-, rfl⟩ : isHighSurrogate high = true ∧ next = '\\' := by simpa using hpair
        split at h
        · next a' b' c' d' e' rest'' =>
          split at h
          · cases h
          · next low hlow =>
            split at h
            · obtain ⟨-, rfl⟩ := Prod.mk.inj (Except.ok.inj h)
              refine ⟨[a, b, c, d, '\\', 'u', a', b', c', d'], rfl, fun more => ?_⟩
              exact (insideText_of_hexUnit? hhigh _).trans (insideText_of_hexUnit? hlow more)
            · cases h
              exact hsingle
        · cases h
          exact hsingle
  · cases h

theorem fault_of_readUnit {cs : List Char} {failure : Failure} (h : readUnit cs = .error failure) :
    failure.fault = .unicodeEscape := by
  unfold readUnit at h
  grind

/-- What a reading takes from the inside of a text value closes it; and it fails by the grammar
alone. -/
def TakesText (cs : List Char) : Reading String → Prop
  | .ok (_, rest) => ∃ taken, cs = taken ++ rest ∧ Closes taken
  | .error failure => ∀ count, failure.fault ≠ .digits count

theorem TakesText.after (part : List Char) {cs : List Char} {reading : Reading String}
    (hpart : ∀ more, insideText true (part ++ more) = insideText true more)
    (h : TakesText cs reading) : TakesText (part ++ cs) reading := by
  cases reading with
  | ok result =>
    obtain ⟨taken, rfl, htaken⟩ := h
    refine ⟨part ++ taken, by simp, fun rest => ?_⟩
    rw [List.append_assoc, hpart, htaken]
  | error failure => exact h

theorem readTextFrom_takes (start fuel : Nat) (done cs : List Char) :
    TakesText cs (readTextFrom start fuel done cs) := by
  fun_induction readTextFrom start fuel done cs with
  | case1 | case2 | case4 | case8 | case9 => exact fun _ h => by cases h
  | case3 => exact ⟨['"'], rfl, fun _ => rfl⟩
  | case5 _ _ _ _ rest hunit ih =>
    obtain ⟨taken, rfl, htaken⟩ := readUnit_stays hunit
    exact ih.after ('\\' :: 'u' :: taken) htaken
  | case6 _ _ _ failure hunit =>
    intro count
    rw [fault_of_readUnit hunit]
    exact fun h => by cases h
  | case7 _ _ e _ _ _ _ ih => exact ih.after ['\\', e] fun _ => rfl
  | case10 _ _ c _ hmark hescape _ ih =>
    exact ih.after [c] (insideText_true_cons hmark hescape)

/-- Reading a text value with its marks. -/
theorem readText_keeps (rest : List Char) : Keeps ('"' :: rest) (readText rest) := by
  have h := readTextFrom_takes (rest.length + 1) (rest.length + 1) [] rest
  rw [readText]
  cases hreading : readTextFrom (rest.length + 1) (rest.length + 1) [] rest with
  | ok result =>
    rw [hreading] at h
    obtain ⟨taken, hrest, htaken⟩ := h
    exact ⟨'"' :: taken, by rw [hrest]; rfl, .text htaken⟩
  | error failure =>
    rw [hreading] at h
    exact fun count hcount => absurd hcount (h count)

/-! ### Numbers and words -/

theorem mark_notMem_digits (cs : List Char) : '"' ∉ cs.takeWhile Char.isDigit :=
  fun hmark => absurd (List.mem_takeWhile_imp hmark) (by decide)

theorem wholePart?_eq {cs whole rest : List Char} (h : wholePart? cs = some (whole, rest)) :
    cs = whole ++ rest ∧ (∀ d ∈ whole, d.isDigit) ∧
      (1 < whole.length → ∀ d ∈ rest.head?, ¬ d.isDigit) := by
  unfold wholePart? at h
  split at h
  · cases h
    exact ⟨rfl, List.forall_mem_singleton.mpr rfl, fun hlong => absurd hlong (by decide)⟩
  · next c cs' _ =>
    split at h
    · next hc =>
      cases h
      refine ⟨by simp, ?_, fun _ d hd => ?_⟩
      · rw [List.forall_mem_cons]
        exact ⟨hc, fun d hd => List.mem_takeWhile_imp hd⟩
      · have hends := List.head?_dropWhile_not Char.isDigit cs'
        rw [Option.mem_def.mp hd] at hends
        simpa using hends
    · cases h
  · cases h

theorem fractionPart_eq (cs : List Char) :
    (∃ taken, cs = taken ++ (fractionPart cs).2 ∧ '"' ∉ taken) ∧
      ((fractionPart cs).1 = [] → (fractionPart cs).2 = cs) := by
  unfold fractionPart
  split
  · next c rest =>
    split
    · next hc =>
      refine ⟨⟨'.' :: c :: rest.takeWhile Char.isDigit, by simp, ?_⟩, fun h => by cases h⟩
      have hmark : '"' ≠ c := by
        rintro rfl
        exact absurd hc (by decide)
      simp only [List.mem_cons, not_or]
      exact ⟨by decide, hmark, mark_notMem_digits rest⟩
    · exact ⟨⟨[], rfl, List.not_mem_nil⟩, fun _ => rfl⟩
  · exact ⟨⟨[], rfl, List.not_mem_nil⟩, fun _ => rfl⟩

theorem exponentDigits?_eq {negative : Bool} {cs rest : List Char} {power : Int}
    (h : exponentDigits? negative cs = some (power, rest)) :
    cs = cs.takeWhile Char.isDigit ++ rest := by
  rw [exponentDigits?] at h
  split at h
  · cases h
  · cases h
    exact List.takeWhile_append_dropWhile.symm

theorem exponentPart?_eq {cs rest : List Char} {power : Int}
    (h : exponentPart? cs = some (power, rest)) : ∃ taken, cs = taken ++ rest ∧ '"' ∉ taken := by
  -- The digits are preceded by the letter and at most one sign.
  have hdigits : ∀ (opening : List Char) (negative : Bool) (digits : List Char), '"' ∉ opening →
      exponentDigits? negative digits = some (power, rest) →
      ∃ taken, opening ++ digits = taken ++ rest ∧ '"' ∉ taken := by
    intro opening negative digits hopening hpower
    refine ⟨opening ++ digits.takeWhile Char.isDigit, ?_, ?_⟩
    · rw [List.append_assoc, ← exponentDigits?_eq hpower]
    · rw [List.mem_append, not_or]
      exact ⟨hopening, mark_notMem_digits digits⟩
  have hletter : ∀ c : Char, (c == 'e' || c == 'E') = true → '"' ≠ c := by
    rintro _ hc rfl
    exact absurd hc (by decide)
  unfold exponentPart? at h
  split at h
  · next c digits =>
    split at h
    · next hc => exact hdigits [c, '+'] false digits (by simp [hletter c hc]) h
    · cases h
  · next c digits =>
    split at h
    · next hc => exact hdigits [c, '-'] true digits (by simp [hletter c hc]) h
    · cases h
  · next c digits _ _ =>
    split at h
    · next hc => exact hdigits [c] false digits (by simp [hletter c hc]) h
    · cases h
  · cases h

theorem readNumber_keeps (start : List Char) (negative : Bool) (cs : List Char) :
    Keeps cs (readNumber start negative cs) := by
  unfold readNumber
  split
  · exact .failAt (fun _ h => by cases h) start
  · next whole rest hwhole =>
    obtain ⟨rfl, hdigits, hends⟩ := wholePart?_eq hwhole
    have hplain : IsClosed whole := by
      refine .of_notMem whole fun hmark => ?_
      exact absurd (hdigits _ hmark) (by decide)
    obtain ⟨⟨taken, htaken, hpoint⟩, hnone⟩ := fractionPart_eq rest
    dsimp only
    split
    · next hinteger =>
      rw [Bool.and_eq_true, List.isEmpty_iff, Option.isNone_iff_eq_none] at hinteger
      split
      · next hmany =>
        intro count hcount
        cases hcount
        refine ⟨hmany, [], whole, rest, rfl, rfl, rfl, hdigits, ?_, hinteger.1, ?_⟩
        · exact hends (Nat.lt_trans (by decide) hmany)
        · rw [← hnone hinteger.1]
          exact hinteger.2
      · refine ⟨whole, ?_, hplain⟩
        rw [hnone hinteger.1]
    · -- The fraction and the exponent are taken along.
      have hfraction : IsClosed (whole ++ taken) := hplain.append (.of_notMem taken hpoint)
      cases hexponent : exponentPart? (fractionPart rest).2 with
      | none =>
        refine ⟨whole ++ taken, ?_, hfraction⟩
        rw [List.append_assoc]
        exact congrArg _ htaken
      | some exponent =>
        obtain ⟨power, rest'⟩ := exponent
        obtain ⟨taken', htaken', hpower⟩ := exponentPart?_eq hexponent
        refine ⟨whole ++ taken ++ taken', ?_, hfraction.append (.of_notMem taken' hpower)⟩
        rw [List.append_assoc, List.append_assoc]
        exact congrArg _ (htaken.trans (congrArg _ htaken'))

theorem afterWord?_eq {word : String} {cs rest : List Char} (h : afterWord? word cs = some rest) :
    cs = word.toList ++ rest := by
  rw [afterWord?] at h
  split at h
  · next hprefix =>
    obtain ⟨rest', rfl⟩ := List.isPrefixOf_iff_prefix.mp hprefix
    cases h
    rw [← String.length_toList, List.drop_left]
  · cases h

theorem readAtom_keeps (cs : List Char) : Keeps cs (readAtom cs) := by
  unfold readAtom
  dsimp only
  split
  · next result hword =>
    obtain ⟨⟨word, value⟩, hmem, hresult⟩ := List.exists_of_findSome?_eq_some hword
    obtain ⟨rest, hrest, rfl⟩ := Option.map_eq_some_iff.mp hresult
    refine ⟨word.toList, afterWord?_eq hrest, .of_notMem _ ?_⟩
    simp only [List.mem_cons, Prod.mk.injEq, List.not_mem_nil, or_false] at hmem
    rcases hmem with ⟨rfl, -⟩ | ⟨rfl, -⟩ | ⟨rfl, -⟩ | ⟨rfl, -⟩ | ⟨rfl, -⟩ | ⟨rfl, -⟩ <;> decide
  · split
    · next rest _ => exact (readNumber_keeps _ true rest).cons (by decide)
    · exact readNumber_keeps _ false _

/-! ### Values -/

/-- A character that ends a reading is taken along. -/
theorem Keeps.ends {α : Type} {c : Char} (hc : c ≠ '"') (a : α) (rest : List Char) :
    Keeps (c :: rest) (.ok (a, rest)) :=
  ⟨[c], rfl, .of_notMem [c] (by simpa using hc.symm)⟩

/-- Reading goes on behind what has been read. -/
theorem Keeps.next {α β : Type} {cs rest : List Char} {a : α} {later : Reading β}
    (h : Keeps cs (.ok (a, rest))) (hlater : Keeps (Json.skipSpace rest) later) :
    Keeps cs later := by
  obtain ⟨taken, rfl, htaken⟩ := h
  exact .after htaken (.skipSpace hlater)

section Steps

variable {fuel : Nat}

theorem readValue_succ_keeps (hitems : ∀ done cs, Keeps cs (readItems fuel done cs))
    (hfields : ∀ done cs, Keeps cs (readFields fuel done cs)) (cs : List Char) :
    Keeps cs (readValue (fuel + 1) cs) := by
  unfold readValue
  split
  · next rest =>
    have htext := readText_keeps rest
    split <;> next hread => rw [hread] at htext; exact htext
  · refine .cons (by decide) (.skipSpace ?_)
    split
    · next hspace => rw [hspace]; exact .ends (by decide) _ _
    · exact hitems [] _
  · refine .cons (by decide) (.skipSpace ?_)
    split
    · next hspace => rw [hspace]; exact .ends (by decide) _ _
    · exact hfields [] _
  · exact readAtom_keeps cs

theorem readItems_succ_keeps (hvalue : ∀ cs, Keeps cs (readValue fuel cs))
    (hitems : ∀ done cs, Keeps cs (readItems fuel done cs)) (done : List Json) (cs : List Char) :
    Keeps cs (readItems (fuel + 1) done cs) := by
  unfold readItems
  have hitem := hvalue cs
  split
  · next hread => rw [hread] at hitem; exact hitem
  · next item rest hread =>
    rw [hread] at hitem
    refine hitem.next ?_
    split
    · next hspace => rw [hspace]; exact .ends (by decide) _ _
    · next hspace => rw [hspace]; exact .cons (by decide) (.skipSpace (hitems _ _))
    · exact .failAt (fun _ h => by cases h) _

theorem readFields_succ_keeps (hvalue : ∀ cs, Keeps cs (readValue fuel cs))
    (hfields : ∀ done cs, Keeps cs (readFields fuel done cs)) (done : List (String × Json))
    (cs : List Char) : Keeps cs (readFields (fuel + 1) done cs) := by
  unfold readFields
  split
  · next rest =>
    have hkey := readText_keeps rest
    split
    · next hread => rw [hread] at hkey; exact hkey
    · next key rest' hread =>
      rw [hread] at hkey
      refine hkey.next ?_
      split
      · next rest'' hspace =>
        rw [hspace]
        refine .cons (by decide) (.skipSpace ?_)
        have hentry := hvalue (skipSpace rest'')
        split
        · next hread => rw [hread] at hentry; exact hentry
        · next value left hread =>
          rw [hread] at hentry
          refine hentry.next ?_
          split
          · next hspace => rw [hspace]; exact .ends (by decide) _ _
          · next hspace => rw [hspace]; exact .cons (by decide) (.skipSpace (hfields _ _))
          · exact .failAt (fun _ h => by cases h) _
      · exact .failAt (fun _ h => by cases h) _
  · exact .failAt (fun _ h => by cases h) _

end Steps

/-- Values, items and fields, with fuel for the parts that are nested. -/
theorem reading_keeps (fuel : Nat) :
    (∀ cs, Keeps cs (readValue fuel cs)) ∧ (∀ done cs, Keeps cs (readItems fuel done cs)) ∧
      ∀ done cs, Keeps cs (readFields fuel done cs) := by
  induction fuel with
  | zero =>
    refine ⟨fun cs => ?_, fun done cs => ?_, fun done cs => ?_⟩
    · rw [readValue]
      exact .failAt (fun _ h => by cases h) cs
    · rw [readItems]
      exact .failAt (fun _ h => by cases h) cs
    · rw [readFields]
      exact .failAt (fun _ h => by cases h) cs
  | succ fuel ih =>
    obtain ⟨hvalue, hitems, hfields⟩ := ih
    exact ⟨readValue_succ_keeps hitems hfields, readItems_succ_keeps hvalue hitems,
      readFields_succ_keeps hvalue hfields⟩

/-- A text is refused for the digits of a whole number only if one that long stands in it. -/
theorem hasInteger_of_parse {s : String} {error : ParseError} (h : parse s = .error error)
    {count : Nat} (hfault : error.fault = .digits count) :
    maxDigits < count ∧ HasInteger s.toList count := by
  rw [parse] at h
  split at h
  · cases h
  · next failure hwhole =>
    cases h
    unfold readWhole at hwhole
    split at hwhole
    · cases hwhole
      cases hfault
    · have hfront : Keeps s.toList (readFront (skipSpace s.toList)) :=
        .skipSpace ((reading_keeps _).1 _)
      split at hwhole
      · next hread =>
        cases hwhole
        rw [hread] at hfront
        exact hfront count hfault
      · -- What stands behind a value is a fault of the grammar.
        split at hwhole
        · cases hwhole
        · cases hwhole
          cases hfault

end PluginAtlas.Json
