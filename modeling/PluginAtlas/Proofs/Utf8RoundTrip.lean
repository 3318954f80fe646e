import PluginAtlas.Proofs.JsonRoundTrip
import PluginAtlas.Text.Utf8

/-!
# UTF-8 is read as it is written

The strict reading of bytes is the exact inverse of the encoding: it gives a text for the bytes
of that text and refuses all others. Both sides are compared with one table, which says for
each number of bytes what they are and which character they stand for.

Since every character shows where it ends, bytes that stop inside a character are refused, and
wherever a text is cut, the bytes in front of the cut are those of whole characters and at most
one part of another. The bytes of a character beyond ASCII are all beyond ASCII, so that a line
feed among the bytes is one of the text.

## Main definitions

* `SpelledBy`: the bytes that stand for a character.

## Main results

* `SpelledBy.utf8Step_eq`, `exists_spelledBy_of_utf8Step`: a character is read from its bytes
  and from no others.
* `decode?_eq_some_iff`: bytes are read as a text if and only if they encode it.
* `decode?_eq_none_of_cut`: bytes that stop inside a character are refused.
* `exists_take_encode`: the bytes in front of a cut.
* `notMem_encodeChar`: the bytes of ASCII among others.
-/

namespace PluginAtlas.Text

/-! ### The bytes of one character -/

/-- The bytes that stand for a character, by their number. A longer form is not for characters
that have a shorter one. -/
inductive SpelledBy (c : Char) : List UInt8 → Prop
  | one {a : UInt8} (ha : a.toNat < 0x80) (hc : c.toNat = a.toNat) : SpelledBy c [a]
  | two {a b : UInt8} (ha : 0xC2 ≤ a.toNat ∧ a.toNat < 0xE0) (hb : isContinuation b = true)
      (hc : c.toNat = (a.toNat - 0xC0) * 0x40 + (b.toNat - 0x80)) : SpelledBy c [a, b]
  | three {a b d : UInt8} (ha : 0xE0 ≤ a.toNat ∧ a.toNat < 0xF0) (hb : isContinuation b = true)
      (hd : isContinuation d = true)
      (hc : c.toNat = (a.toNat - 0xE0) * 0x1000 + (b.toNat - 0x80) * 0x40 + (d.toNat - 0x80))
      (hlong : 0x800 ≤ c.toNat) : SpelledBy c [a, b, d]
  | four {a b d e : UInt8} (ha : 0xF0 ≤ a.toNat ∧ a.toNat < 0xF5) (hb : isContinuation b = true)
      (hd : isContinuation d = true) (he : isContinuation e = true)
      (hc : c.toNat = (a.toNat - 0xF0) * 0x40000 + (b.toNat - 0x80) * 0x1000 +
        (d.toNat - 0x80) * 0x40 + (e.toNat - 0x80))
      (hlong : 0x10000 ≤ c.toNat) : SpelledBy c [a, b, d, e]

theorem isContinuation_iff {b : UInt8} :
    isContinuation b = true ↔ 0x80 ≤ b.toNat ∧ b.toNat < 0xC0 := by
  simp [isContinuation]

theorem low_of_isContinuation {b : UInt8} (h : isContinuation b = true) :
    b.toNat % 0x40 = b.toNat - 0x80 := by
  rw [isContinuation_iff] at h
  omega

theorem toNat_byte {n : Nat} (h : n < 0x100) : (UInt8.ofNat n).toNat = n :=
  UInt8.toNat_ofNat_of_lt' h

theorem eq_byte {b : UInt8} {n : Nat} (h : b.toNat = n) : b = UInt8.ofNat n := by
  rw [← h, UInt8.ofNat_toNat]

/-- A number outside the surrogates and up to the last code point is that of a character. -/
theorem toNat_char {n : Nat} (h : n < 0xD800 ∨ 0xDFFF < n ∧ n < 0x110000) :
    (Char.ofNat n).toNat = n := by
  have hvalid : n.isValidChar := h
  rw [Char.ofNat, dif_pos hvalid]
  rfl

/-- The bytes that encode a character stand for it. -/
theorem spelledBy_encodeChar (c : Char) : SpelledBy c (encodeChar c) := by
  have hmax := Json.toNat_lt_of_char c
  have hlow : ∀ n, (UInt8.ofNat (0x80 + n % 0x40)).toNat = 0x80 + n % 0x40 := fun n =>
    toNat_byte (by omega)
  have hcont : ∀ n, isContinuation (UInt8.ofNat (0x80 + n % 0x40)) = true := by
    intro n
    rw [isContinuation_iff, hlow]
    omega
  simp only [encodeChar]
  split_ifs with hone htwo hthree
  · have ha := toNat_byte (n := c.toNat) (by omega)
    exact .one (by omega) ha.symm
  · have ha := toNat_byte (n := 0xC0 + c.toNat / 0x40) (by omega)
    refine .two (by omega) (hcont _) ?_
    rw [ha, hlow]
    omega
  · have ha := toNat_byte (n := 0xE0 + c.toNat / 0x1000) (by omega)
    refine .three (by omega) (hcont _) (hcont _) ?_ (by omega)
    rw [ha, hlow, hlow]
    omega
  · have ha := toNat_byte (n := 0xF0 + c.toNat / 0x40000) (by omega)
    refine .four (by omega) (hcont _) (hcont _) (hcont _) ?_ (by omega)
    rw [ha, hlow, hlow, hlow]
    omega

namespace SpelledBy

variable {c : Char} {bytes : List UInt8}

/-- No other bytes stand for the character. -/
theorem eq_encodeChar (h : SpelledBy c bytes) : bytes = encodeChar c := by
  simp only [encodeChar]
  cases h with
  | one ha hc => rw [if_pos (by omega), eq_byte hc.symm]
  | two ha hb hc =>
    rw [isContinuation_iff] at hb
    rw [if_neg (by omega), if_pos (by omega)]
    simp only [List.cons.injEq, and_true]
    exact ⟨eq_byte (by omega), eq_byte (by omega)⟩
  | three ha hb hd hc hlong =>
    rw [isContinuation_iff] at hb hd
    rw [if_neg (by omega), if_neg (by omega), if_pos (by omega)]
    simp only [List.cons.injEq, and_true]
    exact ⟨eq_byte (by omega), eq_byte (by omega), eq_byte (by omega)⟩
  | four ha hb hd he hc hlong =>
    rw [isContinuation_iff] at hb hd he
    rw [if_neg (by omega), if_neg (by omega), if_neg (by omega)]
    simp only [List.cons.injEq, and_true]
    exact ⟨eq_byte (by omega), eq_byte (by omega), eq_byte (by omega), eq_byte (by omega)⟩

/-- A character of ASCII is one byte. Another is a lead byte, between the highest byte that
continues a character and the last that begins one, and further bytes that continue it. -/
theorem cases_ascii (h : SpelledBy c bytes) :
    (c.toNat < 0x80 ∧ bytes = [UInt8.ofNat c.toNat]) ∨
      0x80 ≤ c.toNat ∧ ∃ lead rest, bytes = lead :: rest ∧ 0xC2 ≤ lead.toNat ∧
        lead.toNat < 0xF5 ∧ ∀ b ∈ rest, isContinuation b = true := by
  cases h with
  | one ha hc => exact .inl ⟨by omega, by rw [← eq_byte hc.symm]⟩
  | two ha hb hc =>
    exact .inr ⟨by omega, _, _, rfl, ha.1, by omega, by simpa using hb⟩
  | three ha hb hd hc hlong =>
    exact .inr ⟨by omega, _, _, rfl, by omega, by omega, by simpa using ⟨hb, hd⟩⟩
  | four ha hb hd he hc hlong =>
    exact .inr ⟨by omega, _, _, rfl, by omega, ha.2, by simpa using ⟨hb, hd, he⟩⟩

end SpelledBy

/-- What a lead byte allows in second place: what continues a character, unless the character
had a shorter form, were a surrogate or lay beyond the last one. -/
theorem in_secondByteRange_iff {a b : UInt8} :
    (secondByteRange a).1 ≤ b.toNat ∧ b.toNat ≤ (secondByteRange a).2 ↔
      isContinuation b = true ∧ (a.toNat = 0xE0 → 0xA0 ≤ b.toNat) ∧
        (a.toNat = 0xED → b.toNat < 0xA0) ∧ (a.toNat = 0xF0 → 0x90 ≤ b.toNat) ∧
        (a.toNat = 0xF4 → b.toNat < 0x90) := by
  rw [isContinuation_iff]
  simp only [secondByteRange]
  split <;> simp_all <;> omega

/-- A character is read from its bytes, whatever follows them. -/
theorem SpelledBy.utf8Step_eq {c : Char} {a : UInt8} {bytes : List UInt8}
    (h : SpelledBy c (a :: bytes)) (rest : List UInt8) :
    utf8Step a (bytes ++ rest) = .char c (bytes.length + 1) := by
  have hchar := Json.not_surrogate c
  have hmax := Json.toNat_lt_of_char c
  have hread : ∀ n, c.toNat = n → Char.ofNat n = c := by
    rintro _ rfl
    exact Char.ofNat_toNat c
  have hsecond : ∀ b : UInt8, isContinuation b = true ∧ (a.toNat = 0xE0 → 0xA0 ≤ b.toNat) ∧
      (a.toNat = 0xED → b.toNat < 0xA0) ∧ (a.toNat = 0xF0 → 0x90 ≤ b.toNat) ∧
      (a.toNat = 0xF4 → b.toNat < 0x90) → ¬ (decide (b.toNat < (secondByteRange a).1) ||
        decide ((secondByteRange a).2 < b.toNat)) = true := by
    intro b hb
    simpa using in_secondByteRange_iff.mpr hb
  simp only [utf8Step]
  cases h with
  | one ha hc =>
    rw [if_pos ha, hread _ hc]
    rfl
  | @two a b ha hb hc =>
    have hfits := hsecond b ⟨hb, by omega, by omega, by omega, by omega⟩
    simp only [List.cons_append, List.nil_append]
    rw [if_neg (by omega), if_neg (by simp; omega), if_neg hfits, if_pos ha.2,
      low_of_isContinuation hb, show a.toNat % 0x20 = a.toNat - 0xC0 by omega, hread _ hc]
    rfl
  | @three a b d ha hb hd hc hlong =>
    have hb' := isContinuation_iff.mp hb
    have hd' := isContinuation_iff.mp hd
    have hfits := hsecond b ⟨hb, by omega, by omega, by omega, by omega⟩
    simp only [List.cons_append, List.nil_append]
    rw [if_neg (by omega), if_neg (by simp; omega), if_neg hfits, if_neg (by omega),
      if_neg (by simp [hd]), if_pos ha.2, low_of_isContinuation hb, low_of_isContinuation hd,
      show a.toNat % 0x10 = a.toNat - 0xE0 by omega, hread _ hc]
    rfl
  | @four a b d e ha hb hd he hc hlong =>
    have hb' := isContinuation_iff.mp hb
    have hd' := isContinuation_iff.mp hd
    have he' := isContinuation_iff.mp he
    have hfits := hsecond b ⟨hb, by omega, by omega, by omega, by omega⟩
    simp only [List.cons_append, List.nil_append]
    rw [if_neg (by omega), if_neg (by simp; omega), if_neg hfits, if_neg (by omega),
      if_neg (by simp [hd]), if_neg (by omega), if_neg (by simp [he]), low_of_isContinuation hb,
      low_of_isContinuation hd, low_of_isContinuation he,
      show a.toNat % 0x08 = a.toNat - 0xF0 by omega, hread _ hc]
    rfl

/-- A character is read only from its own bytes. -/
theorem exists_spelledBy_of_utf8Step {a : UInt8} {bytes : List UInt8} {c : Char} {k : Nat}
    (h : utf8Step a bytes = .char c k) :
    ∃ spelling rest, SpelledBy c spelling ∧ a :: bytes = spelling ++ rest ∧
      k = spelling.length := by
  -- One byte after the other is looked at; whatever is refused on the way gives no character.
  simp only [utf8Step] at h
  by_cases hone : a.toNat < 0x80
  · rw [if_pos hone] at h
    obtain ⟨rfl, rfl⟩ := Utf8Step.char.inj h
    exact ⟨[a], bytes, .one hone (toNat_char (by omega)), rfl, rfl⟩
  rw [if_neg hone] at h
  by_cases hlead : (decide (a.toNat < 0xC2) || decide (0xF4 < a.toNat)) = true
  · rw [if_pos hlead] at h
    cases h
  rw [if_neg hlead] at h
  simp only [Bool.or_eq_true, decide_eq_true_eq, not_or, Nat.not_lt] at hlead
  obtain _ | ⟨b, bytes⟩ := bytes
  · cases h
  dsimp only at h
  by_cases hsecond : (decide (b.toNat < (secondByteRange a).1) ||
      decide ((secondByteRange a).2 < b.toNat)) = true
  · rw [if_pos hsecond] at h
    cases h
  rw [if_neg hsecond] at h
  simp only [Bool.or_eq_true, decide_eq_true_eq, not_or, Nat.not_lt,
    in_secondByteRange_iff] at hsecond
  obtain ⟨hb, hrange⟩ := hsecond
  have hb' := isContinuation_iff.mp hb
  rw [low_of_isContinuation hb] at h
  by_cases htwo : a.toNat < 0xE0
  · rw [if_pos htwo, show a.toNat % 0x20 = a.toNat - 0xC0 by omega] at h
    obtain ⟨rfl, rfl⟩ := Utf8Step.char.inj h
    exact ⟨[a, b], bytes, .two ⟨hlead.1, htwo⟩ hb (toNat_char (by omega)), rfl, rfl⟩
  rw [if_neg htwo] at h
  obtain _ | ⟨d, bytes⟩ := bytes
  · cases h
  dsimp only at h
  by_cases hd : isContinuation d = true
  swap
  · rw [if_pos (by simpa using hd)] at h
    cases h
  rw [if_neg (by simp [hd]), low_of_isContinuation hd] at h
  have hd' := isContinuation_iff.mp hd
  by_cases hthree : a.toNat < 0xF0
  · rw [if_pos hthree, show a.toNat % 0x10 = a.toNat - 0xE0 by omega] at h
    obtain ⟨hc, rfl⟩ := Utf8Step.char.inj h
    have hn := toNat_char (n := (a.toNat - 0xE0) * 0x1000 + (b.toNat - 0x80) * 0x40 +
      (d.toNat - 0x80)) (by omega)
    rw [hc] at hn
    exact ⟨[a, b, d], bytes, .three ⟨by omega, hthree⟩ hb hd hn (by omega), rfl, rfl⟩
  rw [if_neg hthree] at h
  obtain _ | ⟨e, bytes⟩ := bytes
  · cases h
  dsimp only at h
  by_cases he : isContinuation e = true
  swap
  · rw [if_pos (by simpa using he)] at h
    cases h
  rw [if_neg (by simp [he]), low_of_isContinuation he,
    show a.toNat % 0x08 = a.toNat - 0xF0 by omega] at h
  have he' := isContinuation_iff.mp he
  obtain ⟨hc, rfl⟩ := Utf8Step.char.inj h
  have hn := toNat_char (n := (a.toNat - 0xF0) * 0x40000 + (b.toNat - 0x80) * 0x1000 +
    (d.toNat - 0x80) * 0x40 + (e.toNat - 0x80)) (by omega)
  rw [hc] at hn
  exact ⟨[a, b, d, e], bytes, .four ⟨by omega, by omega⟩ hb hd he hn (by omega), rfl, rfl⟩

/-! ### The bytes of a text -/

theorem encodeChar_ne_nil (c : Char) : encodeChar c ≠ [] := by
  have hspelled := spelledBy_encodeChar c
  intro hnil
  rw [hnil] at hspelled
  cases hspelled

theorem encode_ofList (cs : List Char) : encode (String.ofList cs) = cs.flatMap encodeChar := by
  rw [encode, String.toList_ofList]

theorem decodeList?_drop (n : Nat) (bytes : List UInt8) :
    decodeList? n bytes = decodeList? 0 (bytes.drop n) := by
  induction n generalizing bytes with
  | zero => rfl
  | succ n ih =>
    cases bytes with
    | nil => rfl
    | cons b bytes => exact ih bytes

/-- The first character is read, then what follows it. -/
theorem decodeList?_encodeChar (c : Char) (bytes : List UInt8) :
    decodeList? 0 (encodeChar c ++ bytes) = (decodeList? 0 bytes).map (c :: ·) := by
  have hspelled := spelledBy_encodeChar c
  obtain ⟨lead, rest, hbytes⟩ := List.exists_cons_of_ne_nil (encodeChar_ne_nil c)
  rw [hbytes] at hspelled ⊢
  rw [List.cons_append, decodeList?, hspelled.utf8Step_eq bytes]
  simp only [Nat.add_sub_cancel]
  rw [decodeList?_drop, List.drop_left]

theorem decodeList?_flatMap (cs : List Char) (bytes : List UInt8) :
    decodeList? 0 (cs.flatMap encodeChar ++ bytes) = (decodeList? 0 bytes).map (cs ++ ·) := by
  induction cs with
  | nil => simp
  | cons c cs ih =>
    rw [List.flatMap_cons, List.append_assoc, decodeList?_encodeChar, ih, Option.map_map]
    rfl

/-- What is read encodes the bytes that it was read from. -/
theorem drop_eq_of_decodeList? {n : Nat} {bytes : List UInt8} {cs : List Char}
    (h : decodeList? n bytes = some cs) : bytes.drop n = cs.flatMap encodeChar := by
  induction bytes generalizing n cs with
  | nil =>
    cases n <;>
    · obtain rfl := Option.some.inj h
      simp
  | cons b bytes ih =>
    cases n with
    | succ n => exact ih h
    | zero =>
      rw [decodeList?] at h
      split at h
      · next c k hstep =>
        obtain ⟨rest, hrest, rfl⟩ := Option.map_eq_some_iff.mp h
        obtain ⟨spelling, tail, hspelled, hbytes, rfl⟩ := exists_spelledBy_of_utf8Step hstep
        obtain ⟨a, more, rfl⟩ : ∃ a more, spelling = a :: more := by
          cases hspelled <;> exact ⟨_, _, rfl⟩
        have htail := ih hrest
        obtain ⟨rfl, rfl⟩ := List.cons.inj hbytes
        rw [List.length_cons, Nat.add_sub_cancel, List.append_eq, List.drop_left] at htail
        rw [List.drop_zero, List.flatMap_cons, ← hspelled.eq_encodeChar, ← htail]
        rfl
      · cases h

theorem decodeList?_eq_some_iff {bytes : List UInt8} {cs : List Char} :
    decodeList? 0 bytes = some cs ↔ bytes = cs.flatMap encodeChar := by
  constructor
  · exact drop_eq_of_decodeList?
  · rintro rfl
    have hread := decodeList?_flatMap cs []
    simpa [decodeList?] using hread

/-- Bytes are read as a text if and only if they encode it. -/
theorem decode?_eq_some_iff {bytes : List UInt8} {s : String} :
    decode? bytes = some s ↔ bytes = encode s := by
  rw [decode?, Option.map_eq_some_iff]
  constructor
  · rintro ⟨cs, hcs, rfl⟩
    rw [encode_ofList, ← decodeList?_eq_some_iff, hcs]
  · rintro rfl
    exact ⟨s.toList, decodeList?_eq_some_iff.mpr rfl, String.ofList_toList⟩

theorem decode?_encode (s : String) : decode? (encode s) = some s :=
  decode?_eq_some_iff.mpr rfl

/-! ### Cuts -/

/-- A part of the bytes of a character: some of them, but not all. -/
def IsPartOf (part : List UInt8) (c : Char) : Prop :=
  part ≠ [] ∧ ∃ missing, missing ≠ [] ∧ encodeChar c = part ++ missing

/-- A part of a character is not the text of any characters. -/
theorem IsPartOf.ne_flatMap {part : List UInt8} {c : Char} (h : IsPartOf part c) (cs : List Char) :
    part ≠ cs.flatMap encodeChar := by
  obtain ⟨hpart, missing, hmissing, hc⟩ := h
  rintro rfl
  -- Reading all bytes of the character gives the characters of the part, and then more.
  have hone : decodeList? 0 (encodeChar c) = some [c] :=
    decodeList?_eq_some_iff.mpr (by simp)
  rw [hc, decodeList?_flatMap, Option.map_eq_some_iff] at hone
  obtain ⟨more, hmore, hsingle⟩ := hone
  have hmore' := decodeList?_eq_some_iff.mp hmore
  rcases List.append_eq_singleton_iff.mp hsingle with ⟨rfl, -⟩ | ⟨-, rfl⟩
  · exact hpart rfl
  · exact hmissing hmore'

/-- Bytes that stop inside a character are refused. -/
theorem decode?_eq_none_of_cut (cs : List Char) {part : List UInt8} {c : Char}
    (h : IsPartOf part c) : decode? (cs.flatMap encodeChar ++ part) = none := by
  have hpart : decodeList? 0 part = none := by
    rw [Option.eq_none_iff_forall_ne_some]
    intro ds hds
    exact h.ne_flatMap ds (decodeList?_eq_some_iff.mp hds)
  rw [decode?, decodeList?_flatMap, hpart]
  rfl

/-- The bytes in front of a cut: whole characters, and then nothing or a part of the next. -/
theorem exists_take_encode (cs : List Char) (n : Nat) :
    ∃ before after, cs = before ++ after ∧
      ((cs.flatMap encodeChar).take n = before.flatMap encodeChar ∨
        ∃ c rest part, after = c :: rest ∧ IsPartOf part c ∧
          (cs.flatMap encodeChar).take n = before.flatMap encodeChar ++ part) := by
  induction cs generalizing n with
  | nil => exact ⟨[], [], rfl, .inl (by simp)⟩
  | cons c cs ih =>
    rw [List.flatMap_cons]
    rcases Nat.lt_or_ge n (encodeChar c).length with hn | hn
    · -- The cut lies in front of the first character, or inside it.
      refine ⟨[], c :: cs, rfl, ?_⟩
      rw [List.take_append_of_le_length hn.le, List.flatMap_nil]
      rcases Nat.eq_zero_or_pos n with rfl | hpos
      · exact .inl (List.take_zero)
      · refine .inr ⟨c, cs, (encodeChar c).take n, rfl, ⟨?_, (encodeChar c).drop n, ?_, ?_⟩, rfl⟩
        · rw [Ne, List.take_eq_nil_iff]
          have := encodeChar_ne_nil c
          grind
        · rw [Ne, List.drop_eq_nil_iff]
          omega
        · exact (List.take_append_drop n _).symm
    · -- The first character is whole; the cut lies among the others.
      obtain ⟨before, after, rfl, hcut⟩ := ih (n - (encodeChar c).length)
      refine ⟨c :: before, after, rfl, ?_⟩
      rw [List.take_append, List.take_of_length_le hn, List.flatMap_cons]
      rcases hcut with hcut | ⟨d, rest, part, rfl, hpart, hcut⟩
      · exact .inl (by rw [hcut])
      · exact .inr ⟨d, rest, part, rfl, hpart, by rw [hcut, List.append_assoc]⟩

/-! ### Bytes of ASCII -/

/-- A byte of ASCII stands among the bytes of its own character only. -/
theorem notMem_encodeChar {a c : Char} (ha : a.toNat < 0x80) (h : c ≠ a) :
    UInt8.ofNat a.toNat ∉ encodeChar c := by
  rcases (spelledBy_encodeChar c).cases_ascii with
    ⟨hc, hbytes⟩ | ⟨-, lead, rest, hbytes, hlead, -, hrest⟩
  · rw [hbytes, List.mem_singleton]
    intro heq
    have hsame := congrArg UInt8.toNat heq
    rw [toNat_byte (by omega), toNat_byte (by omega)] at hsame
    exact h (Char.toNat_inj.mp hsame).symm
  · -- All bytes lie beyond ASCII.
    rw [hbytes]
    intro hmem
    have hbyte := toNat_byte (n := a.toNat) (by omega)
    rcases List.mem_cons.mp hmem with rfl | hmem
    · omega
    · have := (isContinuation_iff.mp (hrest _ hmem)).1
      omega

end PluginAtlas.Text
