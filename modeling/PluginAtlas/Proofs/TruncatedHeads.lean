import PluginAtlas.Proofs.HeaderLines

/-!
# Heads of files

The head of a file is cut by bytes and only then read. If the cut falls between two characters
of a text, the head is the beginning of the text. If it falls inside a character, the bytes are
no text, and all of them are read in an older charset, one character for each byte: from the
first character beyond ASCII on, the head differs from the file. Only where that character
happens to be what its own first byte stands for in that charset can this go unnoticed.

A header in a head that is cut well is that of the whole file, as long as every line that first
names a field lies in the head.

## Main definitions

* `Content.CutsBetween`: a cut that falls between two characters, or behind the text.
* `Content.firstBeyondAscii?`: the first character that takes up more than one byte.
* `Header.LiesWithin`: a header that lies in the first bytes of a file.

## Main results

* `Content.CutsBetween.head_isPrefix`: the head of a file that is cut between characters.
* `Content.head_not_isPrefix`: the head of a file that is cut inside a character.
* `Header.ofText_of_liesWithin`: the header in a head.
* `head_and_header_of_cut`: all of them together.
-/

namespace PluginAtlas

namespace Content

/-! ### Cuts between characters -/

/-- A cut falls between two characters of a text, or behind its end: the first bytes are those
of whole characters. -/
def CutsBetween (text : String) (size : Nat) : Prop :=
  ∃ before after, text = before ++ after ∧ (Text.encode text).take size = Text.encode before

theorem unmarked_isPrefix (before after : String) :
    (unmarked before).toList <+: (unmarked (before ++ after)).toList := by
  cases hbefore : before.toList with
  | nil =>
    have hempty : before = "" := String.toList_injective hbefore
    rw [unmarked_of_head (by simp [hbefore]), hbefore]
    exact List.nil_prefix
  | cons c cs =>
    have htext : before = String.ofList (c :: cs) := by rw [← hbefore, String.ofList_toList]
    have hwhole : before ++ after = String.ofList (c :: (cs ++ after.toList)) := by
      apply String.toList_injective
      simp [hbefore]
    by_cases hc : c = '\uFEFF'
    · subst hc
      rw [hwhole, htext, unmarked_mark, unmarked_mark]
      simp
    · rw [unmarked_of_head (by simpa [hbefore] using hc),
        unmarked_of_head (by simpa [hbefore] using hc)]
      simp

variable {text : String} {size : Nat}

/-- The head of a file that is cut between two characters: the characters in front of the
cut, without a mark. -/
theorem head_eq_of_take {before : String}
    (h : (Text.encode text).take size = Text.encode before) :
    head size (Text.encode text) = unmarked before := by
  rw [head, h, decode_encode]

theorem CutsBetween.head_isPrefix (h : CutsBetween text size) :
    (head size (Text.encode text)).toList <+: (decode (Text.encode text)).toList := by
  obtain ⟨before, after, rfl, htake⟩ := h
  rw [head_eq_of_take htake, decode_encode]
  exact unmarked_isPrefix before after

/-! ### Cuts inside a character -/

/-- A cut that does not fall between two characters falls inside one. -/
theorem exists_part_of_not_cutsBetween (h : ¬ CutsBetween text size) :
    ∃ before c after part, text.toList = before ++ c :: after ∧ Text.IsPartOf part c ∧
      (Text.encode text).take size = before.flatMap Text.encodeChar ++ part := by
  obtain ⟨before, after, htext, hbetween | ⟨c, rest, part, rfl, hpart, htake⟩⟩ :=
    Text.exists_take_encode text.toList size
  · refine absurd ⟨String.ofList before, String.ofList after, ?_, ?_⟩ h
    · rw [← String.ofList_append, ← htext, String.ofList_toList]
    · rw [Text.encode_ofList]
      exact hbetween
  · exact ⟨before, c, rest, part, htext, hpart, htake⟩

/-- Bytes in an older charset, one character for each byte. -/
def byByte (bytes : List UInt8) : String := (Text.windows1252? bytes).getD (Text.latin1 bytes)

/-- Bytes that are no text are read one by one. -/
theorem decode_eq_byByte {bytes body : List UInt8} (hbody : withoutMark bytes = body)
    (h : Text.decode? body = none) : decode bytes = byByte body := by
  rw [decode_eq, hbody, h]
  rfl

/-- Outside a small range both older charsets have the character of the same number. -/
theorem map_prefix_byByte (front more : List UInt8)
    (h : ∀ b ∈ front, b.toNat < 0x80 ∨ 0xA0 ≤ b.toNat) :
    front.map (fun b => Char.ofNat b.toNat) <+: (byByte (front ++ more)).toList := by
  cases hread : (front ++ more).mapM Text.windows1252Char? with
  | none =>
    rw [byByte, Text.windows1252?, hread, Option.map_none, Option.getD_none, Text.latin1,
      String.toList_ofList, List.map_append]
    exact List.prefix_append _ _
  | some cs =>
    rw [byByte, Text.windows1252?, hread, Option.map_some, Option.getD_some, String.toList_ofList]
    induction front generalizing cs with
    | nil => exact List.nil_prefix
    | cons b front ih =>
      obtain ⟨hb, hfront⟩ := List.forall_mem_cons.mp h
      have hchar : Text.windows1252Char? b = some (Char.ofNat b.toNat) := by
        rw [Text.windows1252Char?]
        exact if_pos (by simpa using hb)
      rw [List.cons_append, List.mapM_cons, hchar] at hread
      simp only [Option.bind_eq_bind, Option.bind_some] at hread
      obtain ⟨cs', hcs', heq⟩ := Option.bind_eq_some_iff.mp hread
      obtain rfl : Char.ofNat b.toNat :: cs' = cs := Option.some.inj heq
      exact (List.prefix_cons_inj _).mpr (ih hfront cs' hcs')

/-- The first character of a text that is beyond ASCII. -/
def firstBeyondAscii? (text : String) : Option Char := text.toList.find? fun c => 0x80 ≤ c.toNat

/-- A character of which only a part is there is beyond ASCII. -/
theorem beyondAscii_of_isPartOf {part : List UInt8} {c : Char} (h : Text.IsPartOf part c) :
    0x80 ≤ c.toNat := by
  rcases (Text.spelledBy_encodeChar c).cases_ascii with ⟨-, hbytes⟩ | ⟨hc, -⟩
  · obtain ⟨hpart, missing, hmissing, heq⟩ := h
    have hlength := congrArg List.length (hbytes.symm.trans heq)
    rw [List.length_singleton, List.length_append] at hlength
    have := List.length_pos_iff.mpr hpart
    have := List.length_pos_iff.mpr hmissing
    omega
  · exact hc

/-- Bytes that stop inside a character have characters of ASCII at their front, and then the
first byte of a character beyond. -/
theorem exists_lead_of_part (before : List Char) {c : Char} (after : List Char)
    {part : List UInt8} (hpart : Text.IsPartOf part c) :
    ∃ ascii d more lead tail rest, before ++ c :: after = ascii ++ d :: more ∧
      (∀ a ∈ ascii, a.toNat < 0x80) ∧ 0x80 ≤ d.toNat ∧ Text.encodeChar d = lead :: tail ∧
      before.flatMap Text.encodeChar ++ part = ascii.flatMap Text.encodeChar ++ lead :: rest := by
  induction before with
  | nil =>
    obtain ⟨lead, rest, rfl⟩ := List.exists_cons_of_ne_nil hpart.1
    obtain ⟨missing, -, hc⟩ := hpart.2
    exact ⟨[], c, after, lead, rest ++ missing, rest, rfl, by simp, beyondAscii_of_isPartOf hpart,
      hc, rfl⟩
  | cons b before ih =>
    rcases Nat.lt_or_ge b.toNat 0x80 with hb | hb
    · obtain ⟨ascii, d, more, lead, tail, rest, htext, hascii, hd, hlead, hbytes⟩ := ih
      refine ⟨b :: ascii, d, more, lead, tail, rest, ?_, ?_, hd, hlead, ?_⟩
      · rw [List.cons_append, htext, List.cons_append]
      · exact List.forall_mem_cons.mpr ⟨hb, hascii⟩
      · rw [List.flatMap_cons, List.append_assoc, hbytes, List.flatMap_cons, List.append_assoc]
    · obtain ⟨lead, tail, hlead⟩ := List.exists_cons_of_ne_nil (Text.encodeChar_ne_nil b)
      refine ⟨[], b, before ++ c :: after, lead, tail,
        tail ++ (before.flatMap Text.encodeChar ++ part), rfl, by simp, hb, hlead, ?_⟩
      rw [List.flatMap_cons, hlead, List.append_assoc]
      rfl

/-- A character that is what its own first byte stands for is a capital A with a tilde. -/
theorem eq_of_lead {d : Char} {lead : UInt8} {tail : List UInt8}
    (hd : Text.encodeChar d = lead :: tail) (hbeyond : 0x80 ≤ d.toNat)
    (h : Char.ofNat lead.toNat = d) : d = 'Ã' := by
  have hspelled := Text.spelledBy_encodeChar d
  rw [hd] at hspelled
  have hlead : lead.toNat < 0x100 := UInt8.toNat_lt lead
  have hvalue : d.toNat = lead.toNat := by
    rw [← h]
    exact Text.toNat_char (by omega)
  have htilde : d.toNat = 'Ã'.toNat := by
    rw [show 'Ã'.toNat = 0xC3 from rfl]
    cases hspelled with
    | one ha hc => omega
    | two ha hb hc =>
      have := Text.isContinuation_iff.mp hb
      omega
    | three ha hb hc' hc hlong => omega
    | four ha hb hc' he hc hlong => omega
  exact Char.toNat_inj.mp htilde

theorem flatMap_encodeChar_ascii {ascii : List Char} (h : ∀ a ∈ ascii, a.toNat < 0x80) :
    ascii.flatMap Text.encodeChar = ascii.map fun a => UInt8.ofNat a.toNat := by
  induction ascii with
  | nil => rfl
  | cons a ascii ih =>
    obtain ⟨ha, hrest⟩ := List.forall_mem_cons.mp h
    rw [List.flatMap_cons, ih hrest, List.map_cons, Text.encodeChar]
    simp only [if_pos ha, List.singleton_append]

/-- The characters of ASCII are read as they are, and then the byte behind them. -/
theorem ascii_prefix_byByte {ascii : List Char} (h : ∀ a ∈ ascii, a.toNat < 0x80) {lead : UInt8}
    (hlead : 0xA0 ≤ lead.toNat) (rest : List UInt8) :
    ascii ++ [Char.ofNat lead.toNat] <+:
      (byByte (ascii.flatMap Text.encodeChar ++ lead :: rest)).toList := by
  have hsame : ascii.map ((fun b => Char.ofNat b.toNat) ∘ fun a => UInt8.ofNat a.toNat) =
      ascii := by
    refine (List.map_congr_left fun a ha => ?_).trans (List.map_id _)
    have := h a ha
    rw [Function.comp_apply, Text.toNat_byte (by omega), Char.ofNat_toNat, id]
  have hfront := map_prefix_byByte (ascii.flatMap Text.encodeChar ++ [lead]) rest ?_
  · rwa [List.append_assoc, List.singleton_append, flatMap_encodeChar_ascii h, List.map_append,
      List.map_map, hsame, ← flatMap_encodeChar_ascii h] at hfront
  · intro b hb
    rw [flatMap_encodeChar_ascii h] at hb
    rcases List.mem_append.mp hb with hb | hb
    · obtain ⟨a, ha, rfl⟩ := List.mem_map.mp hb
      have := h a ha
      rw [Text.toNat_byte (by omega)]
      exact .inl this
    · rw [List.mem_singleton.mp hb]
      exact .inr hlead

/-- Reading a part of a text one by one goes wrong at its first character beyond ASCII. -/
theorem not_prefix_of_part {cs before after : List Char} {c : Char} {part : List UInt8}
    (hcs : cs = before ++ c :: after) (hpart : Text.IsPartOf part c)
    (hfirst : firstBeyondAscii? (String.ofList cs) ≠ some 'Ã') :
    ¬ (byByte (before.flatMap Text.encodeChar ++ part)).toList <+: cs := by
  intro hstarts
  obtain ⟨ascii, d, more, lead, tail, rest, htext, hascii, hd, hlead, hbytes⟩ :=
    exists_lead_of_part before after hpart
  have hrange : 0xC2 ≤ lead.toNat := by
    rcases (Text.spelledBy_encodeChar d).cases_ascii with ⟨hlow, -⟩ | ⟨-, b, bs, hb, hrange, -⟩
    · omega
    · rw [hlead] at hb
      rw [(List.cons.inj hb).1]
      exact hrange
  -- The first byte of the character is read as a character, which can only be the same one.
  have hsame : Char.ofNat lead.toNat = d := by
    rw [hbytes] at hstarts
    have hcommon := (ascii_prefix_byByte hascii (by omega) rest).trans hstarts
    rw [hcs, htext, List.prefix_append_right_inj] at hcommon
    exact ((List.cons_prefix_cons).mp hcommon).1
  refine hfirst ?_
  rw [firstBeyondAscii?, String.toList_ofList, hcs, htext, ← eq_of_lead hlead hd hsame,
    List.find?_append, List.find?_eq_none.mpr (fun a ha => by simpa using hascii a ha),
    Option.none_or, List.find?_cons_of_pos (by simpa using hd)]

/-- A part of the mark is read as a character of its own. -/
theorem not_prefix_of_part_mark {part : List UInt8} (hpart : Text.IsPartOf part '\uFEFF')
    {cs : List Char} (hfirst : firstBeyondAscii? (String.ofList cs) ≠ some 'ï') :
    ¬ (decode part).toList <+: cs := by
  obtain ⟨hne, missing, hmissing, hbytes⟩ := hpart
  have hbody : withoutMark part = part := by
    refine withoutMark_of_ne fun rest hrest => ?_
    have hlength := congrArg List.length hbytes
    rw [hrest, List.length_append, List.length_append] at hlength
    have := List.length_pos_iff.mpr hmissing
    omega
  obtain ⟨lead, more, rfl⟩ := List.exists_cons_of_ne_nil hne
  obtain rfl : 0xEF = lead := by
    rw [encodeChar_mark] at hbytes
    exact (List.cons.inj hbytes).1
  rw [decode_eq_byByte hbody (Text.decode?_eq_none_of_cut [] ⟨hne, missing, hmissing, hbytes⟩)]
  intro hstarts
  have hstart : ['ï'] <+: (byByte (0xEF :: more)).toList :=
    map_prefix_byByte [0xEF] more (List.forall_mem_singleton.mpr (.inr (by decide)))
  obtain ⟨rest, rfl⟩ := hstart.trans hstarts
  refine hfirst ?_
  rw [firstBeyondAscii?, String.toList_ofList]
  rfl

/-- A text that does not begin with a mark does not do so when it is cut. -/
theorem withoutMark_take (h : text.toList.head? ≠ some '\uFEFF') (size : Nat) :
    withoutMark ((Text.encode text).take size) = (Text.encode text).take size := by
  refine withoutMark_of_ne fun rest hrest => ?_
  refine encode_ne_mark h (rest ++ (Text.encode text).drop size) ?_
  rw [← List.append_assoc, ← hrest, List.take_append_drop]
  rfl

/-- The head of a file that is cut inside a character is not the beginning of the file, unless
its first character beyond ASCII is one of two that old charsets read out of first bytes. -/
theorem head_not_isPrefix (hcut : ¬ CutsBetween text size)
    (htilde : firstBeyondAscii? (unmarked text) ≠ some 'Ã')
    (hmark : firstBeyondAscii? (unmarked text) ≠ some 'ï') :
    ¬ (head size (Text.encode text)).toList <+: (decode (Text.encode text)).toList := by
  obtain ⟨before, c, after, part, htext, hpart, htake⟩ := exists_part_of_not_cutsBetween hcut
  rw [decode_encode, head]
  by_cases hmarked : text.toList.head? = some '\uFEFF'
  · obtain ⟨cs, hcs⟩ := List.head?_eq_some_iff.mp hmarked
    have hunmarked : unmarked text = String.ofList cs := by
      rw [← unmarked_mark, ← hcs, String.ofList_toList]
    rw [hunmarked] at htilde hmark ⊢
    rw [String.toList_ofList]
    cases before with
    | nil =>
      obtain ⟨rfl, -⟩ := List.cons.inj (hcs.symm.trans htext)
      rw [htake, List.flatMap_nil, List.nil_append]
      exact not_prefix_of_part_mark hpart hmark
    | cons b before =>
      obtain ⟨rfl, rfl⟩ := List.cons.inj (hcs.symm.trans htext)
      have hbody : withoutMark ((Text.encode text).take size) =
          before.flatMap Text.encodeChar ++ part := by
        rw [htake, List.flatMap_cons, encodeChar_mark]
        rfl
      rw [decode_eq_byByte hbody (Text.decode?_eq_none_of_cut before hpart)]
      exact not_prefix_of_part rfl hpart htilde
  · have hbody := (withoutMark_take hmarked size).trans htake
    rw [unmarked_of_head hmarked] at htilde ⊢
    rw [decode_eq_byByte hbody (Text.decode?_eq_none_of_cut before hpart)]
    refine not_prefix_of_part htext hpart ?_
    rwa [String.ofList_toList]

end Content

/-! ### Headers in heads -/

namespace Header

/-- A header lies in the first bytes of a file: of every field, the first line that names it
ends within them, and so do all lines in front. A mark at the front of the file takes up
some of the bytes. -/
def LiesWithin (size : Nat) (bytes : List UInt8) : Prop :=
  ∀ entry ∈ fields, ∀ before line after,
    (Content.decode bytes).toList.splitOn '\n' = before ++ line :: after →
    (∀ earlier ∈ before, ∀ rest, ¬ GivesField IsOpeningTag entry.1.toList earlier rest) →
    (∃ rest, GivesField IsOpeningTag entry.1.toList line rest) →
      (before.flatMap (· ++ ['\n']) ++ line).flatMap Text.encodeChar <+:
        Content.withoutMark (bytes.take size)

/-- What a line gives to a field grows with the line. -/
theorem GivesField.append {IsTag : List Char → Prop} {field line rest : List Char}
    (h : GivesField IsTag field line rest) (more : List Char) :
    GivesField IsTag field (line ++ more) (rest ++ more) := by
  cases h with
  | plain hline hmarks hname =>
    refine .plain ?_ hmarks hname
    simp [hline]
  | tagged hline hblanks htag hmarks hname =>
    refine .tagged ?_ hblanks htag hmarks hname
    simp [hline]

section Append

variable {field : String} (hfield : IsFieldName field.toList)

include hfield

theorem fieldOfLine?_eq_none_of_append {line : List Char} (more : List Char)
    (h : fieldOfLine? field (String.ofList (line ++ more)) = none) :
    fieldOfLine? field (String.ofList line) = none := by
  rw [fieldOfLine?_eq_none_iff hfield, String.toList_ofList] at h ⊢
  intro rest hrest
  exact h _ (hrest.append more)

/-- The value of a field does not change when a text goes on, unless the first line that names
it ends behind the old end. -/
theorem field?_append (xs ys : List Char)
    (h : ∀ before line after, (xs ++ ys).splitOn '\n' = before ++ line :: after →
      (∀ earlier ∈ before, fieldOfLine? field (String.ofList earlier) = none) →
      (fieldOfLine? field (String.ofList line)).isSome →
        (before.flatMap (· ++ ['\n']) ++ line).length ≤ xs.length) :
    field? field (String.ofList xs) = field? field (String.ofList (xs ++ ys)) := by
  obtain ⟨front, last, hsplit, hxs, -, happend⟩ := Text.exists_splitOn_append '\n' xs
  obtain ⟨first, rest, hys⟩ := List.exists_cons_of_ne_nil (List.splitOn_ne_nil '\n' ys)
  have hwhole := happend ys first rest hys
  have hlength := congrArg List.length hxs
  rw [List.length_append] at hlength
  rw [hwhole] at h
  rw [field?_eq_lines hfield, field?_eq_lines hfield, Text.split, Text.split, String.toList_ofList,
    String.toList_ofList, hsplit, hwhole]
  congr 1
  rw [List.map_append, List.map_append, List.findSome?_append, List.findSome?_append]
  cases hfront : (front.map String.ofList).findSome? (fieldOfLine? field) with
  | some value => rfl
  | none =>
    -- No whole line names the field: the open one decides, or a later one.
    rw [Option.none_or, Option.none_or, List.findSome?_map, List.findSome?_map]
    rw [List.findSome?_map] at hfront
    have hnone := List.findSome?_eq_none_iff.mp hfront
    cases hlater : ((last ++ first) :: rest).findSome? (fieldOfLine? field ∘ String.ofList) with
    | none =>
      have hopen := List.findSome?_eq_none_iff.mp hlater _ List.mem_cons_self
      rw [List.findSome?_eq_none_iff]
      intro line hline
      rw [List.mem_singleton.mp hline]
      exact fieldOfLine?_eq_none_of_append hfield first hopen
    | some value =>
      obtain ⟨before, line, after, heq, hline, hbefore⟩ := List.findSome?_eq_some_iff.mp hlater
      have hends := h (front ++ before) line after (by rw [heq, List.append_assoc])
        (fun earlier hmem => (List.mem_append.mp hmem).elim (hnone earlier) (hbefore earlier))
        (Option.isSome_iff_exists.mpr ⟨value, hline⟩)
      rw [List.flatMap_append, List.length_append, List.length_append, hlength] at hends
      cases before with
      | nil =>
        obtain ⟨rfl, -⟩ := List.cons.inj heq
        rw [List.flatMap_nil, List.length_nil, List.length_append] at hends
        obtain rfl : first = [] := List.eq_nil_of_length_eq_zero (by omega)
        rw [List.append_nil] at hline
        simp only [List.findSome?_cons, hline]
      | cons piece before =>
        obtain ⟨rfl, -⟩ := List.cons.inj heq
        simp only [List.flatMap_cons, List.length_append, List.length_singleton] at hends
        omega

end Append

theorem length_le_of_encode_isPrefix {xs ys : List Char}
    (h : xs.flatMap Text.encodeChar <+: ys.flatMap Text.encodeChar) : xs.length ≤ ys.length := by
  obtain ⟨bytes, hbytes⟩ := h
  have hread := Text.decodeList?_eq_some_iff.mpr hbytes
  rw [Text.decodeList?_flatMap, Option.map_eq_some_iff] at hread
  obtain ⟨more, -, rfl⟩ := hread
  rw [List.length_append]
  exact Nat.le_add_right _ _

/-- The header in a head that is cut between two characters is that of the whole file, if it
lies in the head. -/
theorem ofText_of_liesWithin {text : String} {size : Nat} (hcut : Content.CutsBetween text size)
    (hwithin : LiesWithin size (Text.encode text)) :
    ofText (Content.head size (Text.encode text)) = ofText (Content.decode (Text.encode text)) := by
  obtain ⟨more, hmore⟩ := hcut.head_isPrefix
  obtain ⟨before, after, -, htake⟩ := hcut
  have hbody : Content.withoutMark ((Text.encode text).take size) =
      (Content.head size (Text.encode text)).toList.flatMap Text.encodeChar := by
    rw [Content.head_eq_of_take htake, htake, Content.withoutMark_encode]
    rfl
  refine ext_fields fun entry hentry => ?_
  have hfield := (isFieldName_of_mem hentry).1
  have hsame := field?_append hfield (Content.head size (Text.encode text)).toList more ?_
  · rw [hmore, String.ofList_toList, String.ofList_toList] at hsame
    rw [value_ofText hentry, value_ofText hentry, hsame]
  · intro lines line later hsplit hlines hline
    refine length_le_of_encode_isPrefix ?_
    rw [← hbody]
    refine hwithin entry hentry lines line later (by rw [← hmore, hsplit]) ?_ ?_
    · intro earlier hmem
      have hnone := (fieldOfLine?_eq_none_iff hfield).mp (hlines earlier hmem)
      rwa [String.toList_ofList] at hnone
    · obtain ⟨rest, hrest⟩ := Option.isSome_iff_exists.mp hline
      rw [← String.ofList_toList (s := rest), fieldOfLine?_eq_some_iff hfield,
        String.toList_ofList] at hrest
      exact ⟨_, hrest⟩

end Header

/-- A head agrees with its file if it is cut well. When the cut falls between two characters of
a text, or behind it, the head is the characters in front of it without a mark, and so a
beginning of the file as it is read; and the header of the head is that of the file, as long as
it lies in the head. When the cut falls inside a character, the head is no beginning of the file,
unless the first character beyond ASCII is one that an old charset has for a first byte. -/
theorem head_and_header_of_cut (text : String) (size : Nat) :
    (∀ before after, text = before ++ after →
      (Text.encode text).take size = Text.encode before →
        Content.head size (Text.encode text) = Content.unmarked before ∧
        (Content.head size (Text.encode text)).toList <+:
          (Content.decode (Text.encode text)).toList) ∧
    (¬ Content.CutsBetween text size →
      Content.firstBeyondAscii? (Content.unmarked text) ∉ [some 'Ã', some 'ï'] →
        ¬ (Content.head size (Text.encode text)).toList <+:
          (Content.decode (Text.encode text)).toList) ∧
    (Content.CutsBetween text size → Header.LiesWithin size (Text.encode text) →
      Header.ofText (Content.head size (Text.encode text)) =
        Header.ofText (Content.decode (Text.encode text)) ∧
      (size = Content.headSize →
        Header.ofBytes (Text.encode text) =
          Header.ofText (Content.decode (Text.encode text)))) := by
  refine ⟨fun before after htext htake => ?_, fun hcut hfirst => ?_, fun hcut hwithin => ?_⟩
  · have hcut : Content.CutsBetween text size := ⟨before, after, htext, htake⟩
    exact ⟨Content.head_eq_of_take htake, hcut.head_isPrefix⟩
  · simp only [List.mem_cons, List.not_mem_nil, or_false, not_or] at hfirst
    exact Content.head_not_isPrefix hcut hfirst.1 hfirst.2
  · have hheader := Header.ofText_of_liesWithin hcut hwithin
    refine ⟨hheader, ?_⟩
    rintro rfl
    exact hheader

/-- A file with a header in front of a character of two bytes. -/
def accentedText : String := "Version: 1\né"

theorem accentedText_liesWithin : Header.LiesWithin 11 (Text.encode accentedText) := by
  have hlines : (Content.decode (Text.encode accentedText)).toList.splitOn '\n' =
      ["Version: 1".toList, "é".toList] := by decide +kernel
  intro entry hentry before line after hsplit _ hgives
  rw [hlines] at hsplit
  cases before with
  | nil =>
    obtain ⟨rfl, -⟩ := List.cons.inj hsplit
    rw [← List.isPrefixOf_iff_prefix]
    decide +kernel
  | cons first before =>
    -- The second line names no field.
    exfalso
    obtain ⟨rfl, rfl⟩ : before = [] ∧ line = "é".toList := by
      have hrest := (List.cons.inj hsplit).2
      rcases List.append_eq_singleton_iff.mp hrest.symm with ⟨hnil, hline⟩ | ⟨-, hline⟩
      · exact ⟨hnil, (List.cons.inj hline).1⟩
      · cases hline
    obtain ⟨rest, hrest⟩ := hgives
    have hnone : ∀ name ∈ Header.fields.map Prod.fst, Header.fieldOfLine? name "é" = none := by
      decide +kernel
    have hfield := (Header.isFieldName_of_mem hentry).1
    exact (Header.fieldOfLine?_eq_none_iff hfield).mp
      (hnone _ (List.mem_map_of_mem hentry)) rest hrest

theorem head_and_header_of_cut_accented :
    Content.head 11 (Text.encode accentedText) = "Version: 1\n" ∧
    Header.ofText (Content.head 11 (Text.encode accentedText)) =
      Header.ofText (Content.decode (Text.encode accentedText)) ∧
    ¬ (Content.head 12 (Text.encode accentedText)).toList <+:
      (Content.decode (Text.encode accentedText)).toList := by
  have htext : accentedText = "Version: 1\n" ++ "é" := by decide +kernel
  have htake : (Text.encode accentedText).take 11 = Text.encode "Version: 1\n" := by decide +kernel
  have hinside : ¬ Content.CutsBetween accentedText 12 := by
    rintro ⟨before, -, -, hbefore⟩
    have hread := Text.decode?_eq_some_iff.mpr hbefore
    have hnone : Text.decode? ((Text.encode accentedText).take 12) = none := by decide +kernel
    rw [hnone] at hread
    cases hread
  have hmark : Content.unmarked "Version: 1\n" = "Version: 1\n" := by decide +kernel
  obtain ⟨hbetween, -, hheader⟩ := head_and_header_of_cut accentedText 11
  refine ⟨(hbetween _ _ htext htake).1.trans hmark, ?_, ?_⟩
  · exact (hheader ⟨_, _, htext, htake⟩ accentedText_liesWithin).1
  · exact (head_and_header_of_cut accentedText 12).2.1 hinside (by decide +kernel)

/-- A cut inside the last character of a file spoils the version in front of it. -/
theorem head_inside_character :
    let text := "Version: é\né"
    ¬ (Content.head 13 (Text.encode text)).toList <+:
      (Content.decode (Text.encode text)).toList ∧
    (Header.ofText (Content.head 13 (Text.encode text))).version = some "Ã©" ∧
    (Header.ofText (Content.decode (Text.encode text))).version = some "é" := by
  simp only [← List.isPrefixOf_iff_prefix]
  decide +kernel

end PluginAtlas
