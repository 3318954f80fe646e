import PluginAtlas.Proofs.TruncatedHeads

/-!
# Decoded sources

The bytes of a file become a text in two steps: they are decoded, and then every line end is
written as a line feed.

Bytes of UTF-8 are read as the text that they encode, with or without a byte-order mark in
front. All other bytes are read one by one, in the Windows charset as long as it has every one
of them, and else each as the character of its own number. Since there is a character for every
byte then, nothing is ever replaced.

The line ends are brought to one form by two replacements over the whole text, first of pairs of
a carriage return and a line feed, then of the carriage returns that are left. The result is
what one pass from left to right makes of the text, although a return may stand before a pair.

## Main definitions

* `Text.windows1252Gaps`: the bytes without a character in the Windows charset.
* `Text.withFeeds`: one pass that turns every line end into a line feed.

## Main results

* `Text.substituteList_append`, `Text.substituteList_cons`: the steps of a replacement.
* `Text.windows1252?_eq_none_iff`: when bytes have no text in the Windows charset.
* `Content.decode_marked`: a byte-order mark in front of a text.
* `Content.toList_normalizeLineEnds`: two replacements are one pass.
* `sources_decoded_and_normalized`: all of them together.
-/

namespace PluginAtlas

namespace Text

/-! ### Replacements -/

section Substitution

variable {old new : List Char}

theorem substituteList_drop (n : Nat) (cs : List Char) :
    substituteList old new n cs = substituteList old new 0 (cs.drop n) := by
  induction n generalizing cs with
  | zero => rfl
  | succ n ih =>
    cases cs with
    | nil => rfl
    | cons c cs => exact ih cs

/-- What is replaced at the front of a text does not matter for the rest. -/
theorem substituteList_append (hold : old ≠ []) (cs : List Char) :
    substituteList old new 0 (old ++ cs) = new ++ substituteList old new 0 cs := by
  obtain ⟨c, more, rfl⟩ := List.exists_cons_of_ne_nil hold
  have hfront : (c :: more).isPrefixOf (c :: (more ++ cs)) = true :=
    List.isPrefixOf_iff_prefix.mpr (List.prefix_append (c :: more) cs)
  rw [List.cons_append, substituteList, hfront, if_pos (by simp), substituteList_drop]
  simp

/-- A character stays if nothing that is replaced begins with it. -/
theorem substituteList_cons {c : Char} {cs : List Char} (h : ¬ old <+: c :: cs) :
    substituteList old new 0 (c :: cs) = c :: substituteList old new 0 cs := by
  have hfront : old.isPrefixOf (c :: cs) = false := by
    simpa [← List.isPrefixOf_iff_prefix] using h
  rw [substituteList, hfront, if_neg (by simp)]

/-- A character stays if what is replaced begins with another one. -/
theorem substituteList_cons_of_ne {o c : Char} (h : c ≠ o) (cs : List Char) :
    substituteList (o :: old) new 0 (c :: cs) = c :: substituteList (o :: old) new 0 cs := by
  apply substituteList_cons
  rw [List.cons_prefix_cons]
  exact fun hfront => h hfront.1.symm

/-- A single character is replaced wherever it stands. -/
theorem substituteList_singleton (mark : Char) (new cs : List Char) :
    substituteList [mark] new 0 cs = cs.flatMap fun c => if c = mark then new else [c] := by
  induction cs with
  | nil => rfl
  | cons c cs ih =>
    rw [List.flatMap_cons, ← ih]
    by_cases hc : c = mark
    · subst hc
      rw [if_pos rfl]
      exact substituteList_append (List.cons_ne_nil c []) cs
    · rw [if_neg hc]
      exact substituteList_cons_of_ne hc cs

end Substitution

/-! ### Line ends -/

/-- One pass from left to right over a text, with one line feed for every line end: a carriage
return with a line feed behind it, a carriage return alone, or a line feed. -/
def withFeeds : List Char → List Char
  | [] => []
  | '\r' :: '\n' :: cs => '\n' :: withFeeds cs
  | '\r' :: cs => '\n' :: withFeeds cs
  | c :: cs => c :: withFeeds cs

theorem return_notMem_withFeeds (cs : List Char) : '\r' ∉ withFeeds cs := by
  fun_induction withFeeds cs with
  | case1 => exact List.not_mem_nil
  | case2 cs ih => simpa using ih
  | case3 cs _ ih => simpa using ih
  | case4 c cs _ hc ih =>
    rw [List.mem_cons, not_or]
    exact ⟨fun h => hc h.symm, ih⟩

/-- A text without carriage returns is left as it is. -/
theorem withFeeds_of_notMem {cs : List Char} (h : '\r' ∉ cs) : withFeeds cs = cs := by
  fun_induction withFeeds cs with
  | case1 => rfl
  | case2 cs => exact absurd List.mem_cons_self h
  | case3 cs => exact absurd List.mem_cons_self h
  | case4 c cs _ _ ih => rw [ih fun hmem => h (List.mem_cons_of_mem c hmem)]

/-- Pairs are replaced first, and then the returns that are left. -/
theorem substituteList_returns (cs : List Char) :
    substituteList ['\r'] ['\n'] 0 (substituteList ['\r', '\n'] ['\n'] 0 cs) = withFeeds cs := by
  -- A return is left by the first replacement only if no line feed follows it in the text, so
  -- each step of the pass is one step of both replacements.
  have hstays : ∀ {c cs}, ¬ ['\r', '\n'] <+: c :: cs →
      substituteList ['\r'] ['\n'] 0 (substituteList ['\r', '\n'] ['\n'] 0 (c :: cs)) =
        (if c = '\r' then ['\n'] else [c]) ++
          substituteList ['\r'] ['\n'] 0 (substituteList ['\r', '\n'] ['\n'] 0 cs) := by
    intro c cs hpair
    rw [substituteList_cons hpair, substituteList_singleton, List.flatMap_cons,
      ← substituteList_singleton]
  fun_induction withFeeds cs with
  | case1 => rfl
  | case2 cs ih =>
    have hpair : substituteList ['\r', '\n'] ['\n'] 0 ('\r' :: '\n' :: cs) =
        '\n' :: substituteList ['\r', '\n'] ['\n'] 0 cs :=
      substituteList_append (List.cons_ne_nil '\r' ['\n']) cs
    rw [hpair, ← ih]
    exact substituteList_cons_of_ne (by decide) _
  | case3 cs hfeed ih =>
    have hpair : ¬ ['\r', '\n'] <+: '\r' :: cs := by
      rintro ⟨rest, hrest⟩
      exact hfeed rest (List.cons.inj hrest).2.symm
    rw [hstays hpair, if_pos rfl, ih]
    rfl
  | case4 c cs _ hc ih =>
    have hpair : ¬ ['\r', '\n'] <+: c :: cs := by
      rw [List.cons_prefix_cons]
      exact fun h => hc h.1.symm
    rw [hstays hpair, if_neg hc, ih]
    rfl

/-! ### The Windows charset -/

/-- The bytes to which the Windows charset gives no character. -/
def windows1252Gaps : List UInt8 := [0x81, 0x8D, 0x8F, 0x90, 0x9D]

theorem windows1252Char?_eq_none_iff (b : UInt8) :
    windows1252Char? b = none ↔ b ∈ windows1252Gaps := by
  have hall : ∀ n : Fin 256, windows1252Char? (UInt8.ofNat n) = none ↔
      UInt8.ofNat n ∈ windows1252Gaps := by decide +kernel
  have hb := hall ⟨b.toNat, UInt8.toNat_lt b⟩
  rwa [UInt8.ofNat_toNat] at hb

/-- Bytes have a text in the Windows charset unless one of them has no character there. -/
theorem windows1252?_eq_none_iff (bytes : List UInt8) :
    windows1252? bytes = none ↔ ∃ b ∈ bytes, b ∈ windows1252Gaps := by
  rw [windows1252?, Option.map_eq_none_iff]
  induction bytes with
  | nil => simp
  | cons b bytes ih =>
    rw [List.mapM_cons, List.exists_mem_cons_iff, ← ih, ← windows1252Char?_eq_none_iff]
    cases windows1252Char? b <;> cases bytes.mapM windows1252Char? <;> simp

/-- Such a text has one character for each byte. -/
theorem forall₂_of_windows1252? {bytes : List UInt8} {text : String}
    (h : windows1252? bytes = some text) :
    List.Forall₂ (fun b c => windows1252Char? b = some c) bytes text.toList := by
  obtain ⟨cs, hcs, rfl⟩ := Option.map_eq_some_iff.mp h
  rw [String.toList_ofList]
  clear h
  induction bytes generalizing cs with
  | nil =>
    obtain rfl := Option.some.inj hcs
    exact .nil
  | cons b bytes ih =>
    rw [List.mapM_cons] at hcs
    obtain ⟨c, hc, hrest⟩ := Option.bind_eq_some_iff.mp hcs
    obtain ⟨more, hmore, heq⟩ := Option.bind_eq_some_iff.mp hrest
    obtain rfl := Option.some.inj heq
    exact .cons hc (ih more hmore)

end Text

namespace Content

/-! ### Decoding -/

theorem decode_unmarked {text : String} (h : text.toList.head? ≠ some '\uFEFF') :
    decode (Text.encode text) = text := by
  rw [decode_encode, unmarked_of_head h]

/-- A mark in front of a text is dropped, whatever the text is. -/
theorem decode_marked (text : String) :
    decode ([0xEF, 0xBB, 0xBF] ++ Text.encode text) = text := by
  have hbody : withoutMark ([0xEF, 0xBB, 0xBF] ++ Text.encode text) = Text.encode text := rfl
  rw [decode_eq, hbody, Text.decode?_encode]
  rfl

section Legacy

variable {bytes : List UInt8} (h : ∀ text, withoutMark bytes ≠ Text.encode text)

include h

theorem decode?_eq_none_of_ne : Text.decode? (withoutMark bytes) = none := by
  rw [Option.eq_none_iff_forall_ne_some]
  exact fun text htext => h text (Text.decode?_eq_some_iff.mp htext)

/-- Bytes that are no UTF-8, and that the Windows charset has. -/
theorem decode_windows1252 (hgaps : ∀ b ∈ withoutMark bytes, b ∉ Text.windows1252Gaps) :
    List.Forall₂ (fun b c => Text.windows1252Char? b = some c) (withoutMark bytes)
      (decode bytes).toList := by
  obtain ⟨text, htext⟩ : ∃ text, Text.windows1252? (withoutMark bytes) = some text := by
    rw [← Option.ne_none_iff_exists', Ne, Text.windows1252?_eq_none_iff]
    rintro ⟨b, hb, hgap⟩
    exact hgaps b hb hgap
  rw [decode_eq_byByte rfl (decode?_eq_none_of_ne h), byByte, htext]
  exact Text.forall₂_of_windows1252? htext

/-- Bytes that are no UTF-8, and that the Windows charset does not have. -/
theorem decode_latin1 (hgap : ∃ b ∈ withoutMark bytes, b ∈ Text.windows1252Gaps) :
    (decode bytes).toList = (withoutMark bytes).map fun b => Char.ofNat b.toNat := by
  rw [decode_eq_byByte rfl (decode?_eq_none_of_ne h), byByte,
    (Text.windows1252?_eq_none_iff _).mpr hgap, Option.getD_none, Text.latin1,
    String.toList_ofList]

/-- In either charset there is one character for each byte. -/
theorem length_decode : (decode bytes).length = (withoutMark bytes).length := by
  rw [← String.length_toList]
  by_cases hgap : ∃ b ∈ withoutMark bytes, b ∈ Text.windows1252Gaps
  · rw [decode_latin1 h hgap, List.length_map]
  · have hgaps : ∀ b ∈ withoutMark bytes, b ∉ Text.windows1252Gaps := by
      intro b hb hmem
      exact hgap ⟨b, hb, hmem⟩
    exact (decode_windows1252 h hgaps).length_eq.symm

end Legacy

/-! ### Normalization -/

/-- The two replacements are one pass over the text. -/
theorem toList_normalizeLineEnds (text : String) :
    (normalizeLineEnds text).toList = Text.withFeeds text.toList := by
  simp only [normalizeLineEnds, Text.substitute, String.toList_ofList]
  exact Text.substituteList_returns text.toList

theorem normalizeLineEnds_of_notMem {text : String} (h : '\r' ∉ text.toList) :
    normalizeLineEnds text = text := by
  apply String.toList_injective
  rw [toList_normalizeLineEnds, Text.withFeeds_of_notMem h]

theorem return_notMem_source (bytes : List UInt8) : '\r' ∉ (source bytes).toList := by
  rw [source, toList_normalizeLineEnds]
  exact Text.return_notMem_withFeeds _

end Content

/-- How the bytes of a file become its text. The bytes of a text are read as this text, with or
without a byte-order mark in front. Bytes that are no UTF-8 have one character each, in the
Windows charset if it has them all, and else in the charset whose characters are numbered by the
bytes; so no bytes are given replacement characters and a notice. The source of a file is what
one pass over its text makes of the line ends. It has no carriage returns, so that normalizing
it again changes nothing. -/
theorem sources_decoded_and_normalized (bytes : List UInt8) :
    (∀ text : String, text.toList.head? ≠ some '\uFEFF' →
      Content.decode (Text.encode text) = text ∧
      Content.decode ([0xEF, 0xBB, 0xBF] ++ Text.encode text) = text) ∧
    ((∀ text, Content.withoutMark bytes ≠ Text.encode text) →
      (Content.decode bytes).length = (Content.withoutMark bytes).length ∧
      ((∀ b ∈ Content.withoutMark bytes, b ∉ Text.windows1252Gaps) →
        List.Forall₂ (fun b c => Text.windows1252Char? b = some c) (Content.withoutMark bytes)
          (Content.decode bytes).toList) ∧
      ((∃ b ∈ Content.withoutMark bytes, b ∈ Text.windows1252Gaps) →
        (Content.decode bytes).toList =
          (Content.withoutMark bytes).map fun b => Char.ofNat b.toNat)) ∧
    (∀ file, (Content.decodeNoting file bytes).notices = [] ∧
      (Content.decodeNoting file bytes).value = Content.decode bytes) ∧
    (Content.source bytes).toList = Text.withFeeds (Content.decode bytes).toList ∧
    '\r' ∉ (Content.source bytes).toList ∧
    Content.normalizeLineEnds (Content.source bytes) = Content.source bytes := by
  refine ⟨fun text htext => ?_, fun hlegacy => ?_, fun file => ?_, ?_, ?_, ?_⟩
  · exact ⟨Content.decode_unmarked htext, Content.decode_marked text⟩
  · exact ⟨Content.length_decode hlegacy, Content.decode_windows1252 hlegacy,
      Content.decode_latin1 hlegacy⟩
  · rw [Content.decodeNoting_eq]
    exact ⟨rfl, rfl⟩
  · exact Content.toList_normalizeLineEnds (Content.decode bytes)
  · exact Content.return_notMem_source bytes
  · exact Content.normalizeLineEnds_of_notMem (Content.return_notMem_source bytes)

/-- A mark in front of a text, two bytes that the Windows charset has, two of which it has only
one, and returns in front of a pair. -/
theorem sources_decoded_and_normalized_legacy :
    Content.decode ([0xEF, 0xBB, 0xBF] ++ Text.encode "é") = "é" ∧
    List.Forall₂ (fun b c => Text.windows1252Char? b = some c) [0x80, 0xE9] "€é".toList ∧
    (Content.decode [0x80, 0x81]).toList = [Char.ofNat 0x80, Char.ofNat 0x81] ∧
    (Content.source [0xE9, 13, 13, 10, 10]).toList = ['é', '\n', '\n', '\n'] := by
  have hlegacy : ∀ {bytes}, Text.decode? bytes = none → ∀ text, bytes ≠ Text.encode text := by
    rintro _ hnone text rfl
    rw [Text.decode?_encode] at hnone
    cases hnone
  have heuro : Content.decode [0x80, 0xE9] = "€é" := by decide +kernel
  have hlines : Content.decode [0xE9, 13, 13, 10, 10] = "é\r\r\n\n" := by decide +kernel
  have hgaps : ∀ b ∈ [0x80, 0xE9], b ∉ Text.windows1252Gaps :=
    List.forall_mem_cons.mpr ⟨by decide, List.forall_mem_singleton.mpr (by decide)⟩
  refine ⟨?_, ?_, ?_, ?_⟩
  · exact ((sources_decoded_and_normalized []).1 "é" (by decide)).2
  · rw [← heuro]
    exact ((sources_decoded_and_normalized [0x80, 0xE9]).2.1 (hlegacy (by decide))).2.1 hgaps
  · exact ((sources_decoded_and_normalized [0x80, 0x81]).2.1 (hlegacy (by decide))).2.2
      ⟨0x81, by decide, by decide⟩
  · rw [(sources_decoded_and_normalized [0xE9, 13, 13, 10, 10]).2.2.2.1, hlines]
    rfl

end PluginAtlas
