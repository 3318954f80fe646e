import PluginAtlas.Php.Grammar.Lexicon
import PluginAtlas.Proofs.Utf8RoundTrip
import PluginAtlas.SourceFile
import Mathlib.Data.List.Induction

/-!
# Positions in a source

The rules of a grammar go through a source by positions, which count characters, and place
their nodes by byte offsets. Here both are tied to the text: what stands ahead of a position
decides every test of a rule, and the text of a node is what stands between its positions.

## Main definitions

* `Ahead`: the text from a position on.
* `inputOf`: a text under the conventions of PHP.
* `startsPart`: the characters with which nothing is skipped.

## Main results

* `Source.offset_ofText`: the offset of a position is the number of bytes in front of it.
* `SourceFile.textOf_eq`: the text between two positions.
* `Ahead.holdsText_eq`, `Ahead.skipWhile_eq`, `Ahead.slice_eq`: what a position is tested for.
* `Ahead.trivia_eq`: where nothing stands between two parts.
-/

namespace PluginAtlas

namespace Text

/-! ### Bytes -/

theorem length_encodeChar (c : Char) : (encodeChar c).length = c.utf8Size := by
  simp only [encodeChar, Char.utf8Size, Char.toNat, UInt32.le_iff_toNat_le]
  split_ifs <;> simp_all <;> omega

/-- Where the strict reading succeeds, the lenient one agrees. -/
theorem decodeListLenient_of_decodeList? {n : Nat} {bytes : List UInt8} {cs : List Char}
    (h : decodeList? n bytes = some cs) : decodeListLenient n bytes = cs := by
  fun_induction decodeList? n bytes generalizing cs with
  | case1 => simpa [decodeListLenient] using h
  | case2 n b rest ih => exact ih h
  | case3 b rest c length hstep ih =>
    obtain ⟨more, hmore, rfl⟩ := Option.map_eq_some_iff.mp h
    rw [decodeListLenient, hstep]
    exact congrArg (c :: ·) (ih hmore)
  | case4 => simp at h

theorem decodeLenient_encode (s : String) : decodeLenient (encode s) = s := by
  have hread : decodeList? 0 (encode s) = some s.toList := decodeList?_eq_some_iff.mpr rfl
  rw [decodeLenient, decodeListLenient_of_decodeList? hread, String.ofList_toList]

end Text

namespace Source

/-! ### Offsets -/

/-- One step of the table of offsets. -/
def pushOffset (offsets : Array Nat) (c : Char) : Array Nat :=
  offsets.push (offsets.back?.getD 0 + c.utf8Size)

/-- The table of offsets after any number of characters: one entry per position. -/
theorem foldl_pushOffset (cs : List Char) :
    (cs.foldl pushOffset #[0]).toList =
      (List.range (cs.length + 1)).map fun p => ((cs.take p).flatMap Text.encodeChar).length := by
  -- The table grows at its end, so the induction takes the last character off.
  induction cs using List.reverseRecOn with
  | nil => rfl
  | append_singleton cs c ih =>
    have hlast : (cs.foldl pushOffset #[0]).back? =
        some (cs.flatMap Text.encodeChar).length := by
      rw [← Array.getLast?_toList, ih, List.range_succ, List.map_append, List.map_singleton,
        List.getLast?_concat, List.take_length]
    have hfront : (List.range (cs.length + 1)).map
        (fun p => (((cs ++ [c]).take p).flatMap Text.encodeChar).length) =
        (List.range (cs.length + 1)).map fun p => ((cs.take p).flatMap Text.encodeChar).length := by
      apply List.map_congr_left
      intro p hp
      have hle : p ≤ cs.length := Nat.lt_succ_iff.mp (List.mem_range.mp hp)
      rw [List.take_append_of_le_length hle]
    have hall : (cs ++ [c]).take (cs.length + 1) = cs ++ [c] := List.take_of_length_le (by simp)
    rw [List.foldl_append, List.foldl_cons, List.foldl_nil, pushOffset, hlast, Array.toList_push, ih,
      List.length_append, List.length_singleton, List.range_succ (n := cs.length + 1),
      List.map_append, hfront, List.map_singleton, hall, List.flatMap_append, List.length_append,
      List.flatMap_singleton, Text.length_encodeChar, Option.getD_some]

/-- The offset of a position is the number of bytes in front of it. -/
theorem offset_ofText {s : String} {p : Nat} (h : p ≤ s.length) :
    (ofText s).offset p = ((s.toList.take p).flatMap Text.encodeChar).length := by
  have htable : (ofText s).offsets = s.toList.foldl pushOffset #[0] := by
    simp only [ofText, List.foldl_toArray]
    rfl
  have hentry : (ofText s).offsets[p]? =
      some ((s.toList.take p).flatMap Text.encodeChar).length := by
    have hlt : p < s.toList.length + 1 := by
      rw [String.length_toList]
      omega
    rw [htable, ← Array.getElem?_toList, foldl_pushOffset, List.getElem?_map,
      List.getElem?_range hlt, Option.map_some]
  rw [offset, Array.getD_eq_getD_getElem?, hentry, Option.getD_some]

end Source

/-- The text of a node that stands between two positions. -/
theorem SourceFile.textOf_eq {f : SourceFile} {front middle rest : List Char}
    (hsource : f.source = String.ofList (front ++ (middle ++ rest))) {t : Tree}
    (hstart : t.start = (Source.ofText f.source).offset front.length)
    (hstop : t.stop = (Source.ofText f.source).offset (front.length + middle.length)) :
    f.textOf t = String.ofList middle := by
  have hlength : f.source.length = front.length + (middle.length + rest.length) := by
    rw [hsource, String.length_ofList, List.length_append, List.length_append]
  rw [Source.offset_ofText (by omega), hsource, String.toList_ofList, List.take_left] at hstart
  rw [Source.offset_ofText (by omega), hsource, String.toList_ofList, List.take_length_add_append,
    List.take_left, List.flatMap_append, List.length_append] at hstop
  -- Both offsets fall between characters, so the bytes that are cut out are whole characters.
  have hbytes : (f.bytes.extract t.start t.stop).toList = Text.encode (String.ofList middle) := by
    rw [f.bytes_eq, List.extract_toArray, hstart, hstop, hsource, Text.encode_ofList,
      Text.encode_ofList, List.flatMap_append, List.flatMap_append]
    simp
  rw [textOf, hbytes, Text.decodeLenient_encode]

namespace Php.Grammar

/-! ### What stands ahead -/

/-- The text from a position on, in a source under the conventions of PHP. -/
structure Ahead (input : Input) (p : Nat) (rest : List Char) : Prop where
  lexicon_eq : input.lexicon = lexicon
  drop_eq : input.chars.toList.drop p = rest

/-- A text under the conventions of PHP. -/
def inputOf (source : String) : Input := { Source.ofText source with lexicon := lexicon }

namespace Ahead

variable {input : Input} {p : Nat} {c : Char} {rest : List Char}

theorem of_source {source : String} (front : List Char)
    (h : source = String.ofList (front ++ rest)) : Ahead (inputOf source) front.length rest := by
  refine ⟨rfl, ?_⟩
  subst h
  simp [inputOf, Source.ofText]

theorem append {front : List Char} (h : Ahead input p (front ++ rest)) :
    Ahead input (p + front.length) rest := by
  refine ⟨h.lexicon_eq, ?_⟩
  rw [← List.drop_drop, h.drop_eq, List.drop_left]

theorem next (h : Ahead input p (c :: rest)) : Ahead input (p + 1) rest :=
  append (show Ahead input p ([c] ++ rest) from h)

theorem getElem?_eq (h : Ahead input p rest) : input.chars[p]? = rest.head? := by
  rw [← Array.getElem?_toList, ← h.drop_eq, List.head?_drop]

theorem lt_size (h : Ahead input p (c :: rest)) : p < input.size :=
  (Array.getElem?_eq_some_iff.mp h.getElem?_eq).1

theorem getElem_eq (h : Ahead input p (c :: rest)) (hlt : p < input.chars.size) :
    input.chars[p] = c :=
  (Array.getElem?_eq_some_iff.mp h.getElem?_eq).2

theorem charAt_eq (h : Ahead input p (c :: rest)) : input.charAt p = c := by
  rw [Source.charAt, Array.getD_eq_getD_getElem?, h.getElem?_eq]
  rfl

/-- A loop that starts at or before such a position has fuel for at least one turn. -/
theorem exists_fuel {q : Nat} (h : Ahead input q (c :: rest)) (hle : p ≤ q) :
    ∃ fuel, input.size + 1 - p = fuel + 1 := by
  have hlt := h.lt_size
  exact ⟨input.size - p, by omega⟩

theorem atEnd_eq (h : Ahead input p (c :: rest)) : input.atEnd p = false := by
  simpa [Source.atEnd] using h.lt_size

theorem holds_eq (h : Ahead input p rest) (text : List Char) :
    input.holds p text = text.isPrefixOf rest := by
  induction text generalizing p rest with
  | nil => rfl
  | cons d text ih =>
    rw [Source.holds, h.getElem?_eq]
    cases rest with
    | nil => rfl
    | cons c rest =>
      rw [ih h.next, List.head?_cons, List.isPrefixOf]
      congr 1
      simp [BEq.comm]

/-- A text is found where the source goes on with it. -/
theorem holdsText_eq (h : Ahead input p rest) (text : String) :
    input.holdsText p text = text.toList.isPrefixOf rest :=
  h.holds_eq text.toList

/-- The characters from a position on make up the text between it and a later one. -/
theorem slice_eq (h : Ahead input p rest) (length : Nat) :
    input.slice p (p + length) = String.ofList (rest.take length) := by
  rw [Source.slice, Array.toList_extract, List.extract_eq_take_drop, h.drop_eq,
    Nat.add_sub_cancel_left]

/-- Nothing is skipped before a character outside the class. -/
theorem skipWhile_eq (h : Ahead input p (c :: rest)) {inClass : Char → Bool}
    (hc : inClass c = false) : input.skipWhile inClass p = p := by
  unfold Source.skipWhile
  split_ifs with hlt hclass
  · rw [h.getElem_eq hlt, hc] at hclass
    exact absurd hclass (by decide)
  · rfl
  · rfl

theorem skipWhile_cons (h : Ahead input p (c :: rest)) {inClass : Char → Bool}
    (hc : inClass c = true) : input.skipWhile inClass p = input.skipWhile inClass (p + 1) := by
  have hlt : p < input.chars.size := h.lt_size
  rw [Source.skipWhile, dif_pos hlt, h.getElem_eq, if_pos hc]

theorem wordEnd_eq (h : Ahead input p (c :: rest)) (hc : isNameChar c = false) :
    input.wordEnd p = p := by
  rw [Input.wordEnd, h.lexicon_eq]
  exact h.skipWhile_eq hc

theorem wordEnd_cons (h : Ahead input p (c :: rest)) (hc : isNameChar c = true) :
    input.wordEnd p = input.wordEnd (p + 1) := by
  rw [Input.wordEnd, Input.wordEnd, h.lexicon_eq]
  exact h.skipWhile_cons hc

/-- The words of PHP are read in lower case. -/
theorem wordAt_eq (h : Ahead input p rest) {length : Nat} (hend : input.wordEnd p = p + length) :
    input.wordAt p = String.ofList ((rest.take length).map Char.toLower) := by
  have hcase : lexicon.anyCase = true := rfl
  apply String.toList_inj.mp
  rw [Input.wordAt, hend, h.slice_eq, h.lexicon_eq, if_pos hcase, String.toList_map,
    String.toList_ofList, String.toList_ofList]

end Ahead

/-! ### Blanks and comments -/

/-- Whether nothing is skipped in front of a character. -/
def startsPart (c : Char) : Bool := !isSpace c && c != '/' && c != '#' && c != '?'

namespace Ahead

variable {input : Input} {p : Nat} {c : Char} {rest : List Char}

theorem commentEnd?_eq (h : Ahead input p (c :: rest)) (hslash : c ≠ '/') (hhash : c ≠ '#') :
    commentEnd? input.toSource p = none := by
  have hlong : input.holdsText p "/*" = false := by
    simp [h.holdsText_eq, List.isPrefixOf, hslash.symm]
  have hline : input.holdsText p "//" = false := by
    simp [h.holdsText_eq, List.isPrefixOf, hslash.symm]
  simp [commentEnd?, hlong, hline, h.charAt_eq, hhash]

/-- Only blanks stand in front of a part, without comments. -/
theorem gap_of_skipWhile {q : Nat} (h : Ahead input q (c :: rest)) (hc : startsPart c = true)
    (hblank : input.skipWhile isSpace p = q) (hle : p ≤ q) : gap input.toSource p = ([], q) := by
  simp only [startsPart, Bool.and_eq_true, bne_iff_ne] at hc
  obtain ⟨⟨⟨-, hslash⟩, hhash⟩, -⟩ := hc
  obtain ⟨fuel, hfuel⟩ := h.exists_fuel hle
  simp [gap, hfuel, gapFrom, hblank, h.commentEnd?_eq hslash hhash]

/-- Neither does a passage of plain text. -/
theorem trivia_of_skipWhile {q : Nat} (h : Ahead input q (c :: rest)) (hc : startsPart c = true)
    (hblank : input.skipWhile isSpace p = q) (hle : p ≤ q) : input.trivia p = ([], q) := by
  have hmark : c ≠ '?' := by
    rintro rfl
    exact absurd hc (by decide)
  have hpassage : input.holdsText q "?>" = false := by
    simp [h.holdsText_eq, List.isPrefixOf, hmark.symm]
  obtain ⟨fuel, hfuel⟩ := h.exists_fuel hle
  rw [Input.trivia, h.lexicon_eq]
  simp [lexicon, trivia, hfuel, triviaFrom, h.gap_of_skipWhile hc hblank hle, hpassage]

/-- No blank is skipped in front of a part. -/
theorem skipWhile_isSpace (h : Ahead input p (c :: rest)) (hc : startsPart c = true) :
    input.skipWhile isSpace p = p := by
  simp only [startsPart, Bool.and_eq_true, Bool.not_eq_true'] at hc
  exact h.skipWhile_eq hc.1.1.1

theorem gap_eq (h : Ahead input p (c :: rest)) (hc : startsPart c = true) :
    gap input.toSource p = ([], p) :=
  h.gap_of_skipWhile hc (h.skipWhile_isSpace hc) le_rfl

theorem near_eq (h : Ahead input p (c :: rest)) (hc : startsPart c = true) : near input p = p := by
  rw [near, h.gap_eq hc]

theorem trivia_eq (h : Ahead input p (c :: rest)) (hc : startsPart c = true) :
    input.trivia p = ([], p) :=
  h.trivia_of_skipWhile hc (h.skipWhile_isSpace hc) le_rfl

/-- A blank in front of a part is passed over. -/
theorem trivia_blank (h : Ahead input p (' ' :: c :: rest)) (hc : startsPart c = true) :
    input.trivia p = ([], p + 1) :=
  h.next.trivia_of_skipWhile hc
    ((h.skipWhile_cons (by decide)).trans (h.next.skipWhile_isSpace hc)) (Nat.le_succ p)

end Ahead

end Php.Grammar

end PluginAtlas
