import PluginAtlas.Plugin.Header
import PluginAtlas.Proofs.RestSpellings
import PluginAtlas.Proofs.TextLines

/-!
# Headers, line by line

What a field of a header is, said without the search for a pattern: the first line that names the
field decides, and its value is what stands between the name and the end of the comment, of the
code or of the line. The name may follow an opening tag and comment marks, both at the front of the
line, so a name in the middle of a line does not count. A carriage return at the end of a line
is white space around the value, so it does not matter how the lines end.

## Main definitions

* `GivesField`: a line that names a field, with the text behind the name.
* `fieldOfLine?`: the text that a line gives to a field.
* `IsBeforeEnd`, `IsTrimmed`: the value in this text.
* `FieldValue`: the value of a field in a text, by its lines.
* `Text.withReturns`: a text with another line end.
* `Content.unmarked`: a text without a byte-order mark.

## Main results

* `fieldOfLine?_eq_some_iff`: the scanner finds the lines that name a field.
* `mem_fieldPattern_iff`: the pattern matches at the front of such lines.
* `field?_eq_lines`: the search goes line by line.
* `fieldValue_iff`: a header holds the values of its fields.
* `field?_withReturns`: the line ends do not matter.
* `header_of_lines`: both, for a file that is not too long.
-/

namespace PluginAtlas

/-! ### Words in any letter case -/

namespace Text

/-- A text spells a lower-case word, in any letter case. -/
def SameLetters (word written : List Char) : Prop :=
  List.Forall₂ (fun letter c => isLetter letter c = true) word written

theorem dropWordList?_eq_some_iff {word cs rest : List Char} :
    dropWordList? word cs = some rest ↔
      ∃ written, SameLetters word written ∧ cs = written ++ rest := by
  induction word generalizing cs with
  | nil =>
    constructor
    · intro h
      exact ⟨[], .nil, Option.some.inj h⟩
    · rintro ⟨written, hword, rfl⟩
      obtain rfl := List.forall₂_nil_left_iff.mp hword
      rfl
  | cons letter word ih =>
    cases cs with
    | nil =>
      constructor
      · intro h
        cases h
      · rintro ⟨written, hword, hnil⟩
        obtain ⟨rfl, -⟩ := List.append_eq_nil_iff.mp hnil.symm
        cases hword
    | cons c cs =>
      rw [dropWordList?]
      split
      · next hletter =>
        rw [ih]
        constructor
        · rintro ⟨written, hword, rfl⟩
          exact ⟨c :: written, .cons hletter hword, rfl⟩
        · rintro ⟨_, hword, heq⟩
          obtain ⟨d, written, -, hrest, rfl⟩ := List.forall₂_cons_left_iff.mp hword
          exact ⟨written, hrest, (List.cons.inj heq).2⟩
      · next hletter =>
        constructor
        · intro h
          cases h
        · rintro ⟨_, hword, heq⟩
          obtain ⟨d, written, hd, -, rfl⟩ := List.forall₂_cons_left_iff.mp hword
          obtain ⟨rfl, -⟩ := List.cons.inj heq
          exact absurd hd hletter

theorem dropWordList?_append (word more cs : List Char) :
    dropWordList? (word ++ more) cs = (dropWordList? word cs).bind (dropWordList? more) := by
  induction word generalizing cs with
  | nil => rfl
  | cons letter word ih =>
    cases cs with
    | nil => rfl
    | cons c cs =>
      rw [List.cons_append, dropWordList?, dropWordList?]
      split
      · exact ih cs
      · rfl

/-- A character that is no lower-case letter is the lower case of itself alone. -/
theorem eq_of_toLower_eq {c mark : Char} (hmark : mark.toNat < 'a'.toNat ∨ 'z'.toNat < mark.toNat)
    (h : c.toLower = mark) : c = mark := by
  unfold Char.toLower at h
  split at h
  · next hupper =>
    -- The lower case of a letter lies among the lower-case letters, and the mark does not.
    exfalso
    obtain ⟨hlow, hhigh⟩ := hupper
    subst h
    have hlow' : 65 ≤ c.val.toNat := hlow
    have hhigh' : c.val.toNat ≤ 90 := hhigh
    have hvalue : (c.val + ('a'.val - 'A'.val)).toNat = c.val.toNat + 32 := by
      rw [UInt32.toNat_add]
      have : ('a'.val - 'A'.val).toNat = 32 := rfl
      omega
    simp only [Char.toNat, hvalue] at hmark
    have ha : 'a'.val.toNat = 97 := rfl
    have hz : 'z'.val.toNat = 122 := rfl
    omega
  · exact h

theorem isLetter_colon {c : Char} : isLetter ':' c = true ↔ c = ':' := by
  constructor
  · intro h
    have hvariants : letterVariants.lookup ':' = none := by decide
    simp only [isLetter, hvariants, Option.getD_none, List.contains_nil, Bool.or_false,
      beq_iff_eq] at h
    exact eq_of_toLower_eq (.inl (by decide)) h
  · rintro rfl
    decide

theorem dropWordList?_colon {cs rest : List Char} :
    dropWordList? [':'] cs = some rest ↔ cs = ':' :: rest := by
  rw [dropWordList?_eq_some_iff]
  constructor
  · rintro ⟨written, hword, rfl⟩
    obtain ⟨c, _, hc, hnil, rfl⟩ := List.forall₂_cons_left_iff.mp hword
    obtain rfl := List.forall₂_nil_left_iff.mp hnil
    rw [isLetter_colon.mp hc]
    rfl
  · rintro rfl
    exact ⟨[':'], .cons (isLetter_colon.mpr rfl) .nil, rfl⟩

theorem isLetter_opening {c : Char} (h : isLetter '<' c = true) : c = '<' := by
  have hvariants : letterVariants.lookup '<' = none := by decide
  simp only [isLetter, hvariants, Option.getD_none, List.contains_nil, Bool.or_false,
    beq_iff_eq] at h
  exact eq_of_toLower_eq (.inl (by decide)) h

/-- No letter of a word can be written as a character. -/
theorem isLetter_of_all {word : List Char} {c : Char}
    (h : word.all (fun letter => !isLetter letter c) = true) :
    ∀ letter ∈ word, isLetter letter c = false :=
  fun letter hletter => by simpa using List.all_eq_true.mp h letter hletter

/-! ### Trimmed texts -/

/-- A text without white space at its ends. -/
def IsTrimmed (text : String) : Prop :=
  (∀ c ∈ text.toList.head?, isBlank c = false) ∧ ∀ c ∈ text.toList.getLast?, isBlank c = false

theorem head?_dropWhile_eq_false (p : Char → Bool) (cs : List Char) :
    ∀ c ∈ (cs.dropWhile p).head?, p c = false := by
  intro c hc
  have hfirst := List.head?_dropWhile_not p cs
  rw [hc] at hfirst
  simpa using hfirst

theorem eq_dropEndWhile_append (p : Char → Bool) (cs : List Char) :
    cs = dropEndWhile p cs ++ (cs.reverse.takeWhile p).reverse := by
  rw [dropEndWhile, ← List.reverse_append, List.takeWhile_append_dropWhile, List.reverse_reverse]

/-- What is left of a text stands between blanks in it. -/
theorem pads_strip (s : String) : Pads s (strip s) := by
  refine ⟨s.toList.takeWhile isBlank,
    ((s.toList.dropWhile isBlank).reverse.takeWhile isBlank).reverse,
    fun c hc => List.mem_takeWhile_imp hc, fun c hc => ?_, ?_⟩
  · exact List.mem_takeWhile_imp (List.mem_reverse.mp hc)
  · rw [strip, trim, String.toList_ofList, List.append_assoc, ← eq_dropEndWhile_append,
      List.takeWhile_append_dropWhile]

theorem isTrimmed_strip (s : String) : IsTrimmed (strip s) := by
  rw [IsTrimmed, strip, trim, String.toList_ofList]
  constructor
  · -- What is dropped at the end leaves the first character in its place.
    intro c hc
    refine head?_dropWhile_eq_false isBlank s.toList c ?_
    rw [eq_dropEndWhile_append isBlank (s.toList.dropWhile isBlank), List.head?_append, hc]
    rfl
  · intro c hc
    rw [dropEndWhile, List.getLast?_reverse] at hc
    exact head?_dropWhile_eq_false _ _ c hc

theorem dropWhile_eq_self {p : Char → Bool} {cs : List Char} (h : ∀ c ∈ cs.head?, p c = false) :
    cs.dropWhile p = cs := by
  cases cs with
  | nil => rfl
  | cons c cs => exact List.dropWhile_cons_of_neg (by simp [h c rfl])

theorem IsTrimmed.strip_eq {s : String} (h : IsTrimmed s) : strip s = s := by
  have hend : ∀ c ∈ s.toList.reverse.head?, isBlank c = false := by
    rw [List.head?_reverse]
    exact h.2
  rw [strip, trim, dropWhile_eq_self h.1, dropEndWhile, dropWhile_eq_self hend,
    List.reverse_reverse, String.ofList_toList]

end Text

/-! ### Lines that name a field -/

namespace Header

/-- A line gives a text to a field: at its front may stand a tag behind blanks, and then
comment marks; they are followed by the name of the field in any letter case, a colon and the
text. Which words are tags is left open. -/
inductive GivesField (IsTag : List Char → Prop) (field line rest : List Char) : Prop
  | plain {marks name : List Char} (hline : line = marks ++ (name ++ ':' :: rest))
      (hmarks : ∀ c ∈ marks, isCommentMark c = true) (hname : Text.SameLetters field name)
  | tagged {blanks tag marks name : List Char}
      (hline : line = blanks ++ (tag ++ (marks ++ (name ++ ':' :: rest))))
      (hblanks : ∀ c ∈ blanks, isIndent c = true) (htag : IsTag tag)
      (hmarks : ∀ c ∈ marks, isCommentMark c = true) (hname : Text.SameLetters field name)

/-- The opening tag, in any letter case. -/
def IsOpeningTag (tag : List Char) : Prop := Text.SameLetters "<?php".toList tag

/-- The name of a field begins with a letter, which is neither a comment mark nor the first
character of a tag, and stands in one line. -/
structure IsFieldName (field : List Char) : Prop where
  first : ∃ letter word, field = letter :: word ∧
    ∀ c, Text.isLetter letter c = true → isCommentMark c = false ∧ c ≠ '<'
  inLine : ∀ letter ∈ field, Text.isLetter letter '\n' = false

theorem isFieldName_of_first {letter : Char} {word : List Char}
    (h : [' ', '\t', '/', '*', '#', '@', '<'].all (fun c => !Text.isLetter letter c) = true)
    (hline : (letter :: word).all (fun letter => !Text.isLetter letter '\n') = true) :
    IsFieldName (letter :: word) := by
  refine ⟨⟨letter, word, rfl, fun c hc => ?_⟩, Text.isLetter_of_all hline⟩
  have hnot : c ∉ [' ', '\t', '/', '*', '#', '@', '<'] := by
    intro hmem
    have hother := List.all_eq_true.mp h c hmem
    simp [hc] at hother
  simpa [isCommentMark, isIndent, and_assoc] using hnot

/-- The fields of a header, with their values. -/
def fields : List (String × (Header → Option String)) :=
  [("plugin name", Header.name), ("version", Header.version), ("description", Header.description)]

/-- What follows the opening tag, if a line starts with one. -/
def afterTag (line : List Char) : List Char :=
  (Text.dropWordList? "<?php".toList (line.dropWhile isIndent)).getD line

/-- The text that a line gives to a field. -/
def fieldOfLine? (field : String) (line : String) : Option String :=
  let rest := (afterTag line.toList).dropWhile isCommentMark
  (Text.dropWordList? (field.toList ++ [':']) rest).map String.ofList

section Scanner

variable {field line rest : List Char}

theorem dropNameColon_eq_some_iff :
    Text.dropWordList? (field ++ [':']) line = some rest ↔
      ∃ name, Text.SameLetters field name ∧ line = name ++ ':' :: rest := by
  simp only [Text.dropWordList?_append, Option.bind_eq_some_iff, Text.dropWordList?_colon,
    exists_eq_right]
  exact Text.dropWordList?_eq_some_iff

/-- The scanner behind a tag: comment marks, the name and the colon. -/
theorem dropName_eq_some_iff (hfield : IsFieldName field) :
    Text.dropWordList? (field ++ [':']) (line.dropWhile isCommentMark) = some rest ↔
      ∃ marks name, line = marks ++ (name ++ ':' :: rest) ∧
        (∀ c ∈ marks, isCommentMark c = true) ∧ Text.SameLetters field name := by
  rw [dropNameColon_eq_some_iff]
  constructor
  · rintro ⟨name, hname, hrest⟩
    refine ⟨line.takeWhile isCommentMark, name, ?_, fun c hc => List.mem_takeWhile_imp hc, hname⟩
    rw [← hrest, List.takeWhile_append_dropWhile]
  · rintro ⟨marks, name, rfl, hmarks, hname⟩
    refine ⟨name, hname, ?_⟩
    obtain ⟨letter, word, rfl, hletter⟩ := hfield.first
    obtain ⟨c, more, hc, -, rfl⟩ := List.forall₂_cons_left_iff.mp hname
    -- The marks end where the name begins.
    rw [List.dropWhile_append_of_pos hmarks, List.cons_append,
      List.dropWhile_cons_of_neg (by simp [(hletter c hc).1])]

theorem afterTag_of_tagged {blanks tag : List Char} (hblanks : ∀ c ∈ blanks, isIndent c = true)
    (htag : IsOpeningTag tag) : afterTag (blanks ++ (tag ++ rest)) = rest := by
  obtain ⟨c, more, hc, -, rfl⟩ := List.forall₂_cons_left_iff.mp htag
  obtain rfl := Text.isLetter_opening hc
  have hscan : Text.dropWordList? "<?php".toList (('<' :: more) ++ rest) = some rest :=
    Text.dropWordList?_eq_some_iff.mpr ⟨_, htag, rfl⟩
  rw [afterTag, List.dropWhile_append_of_pos hblanks, List.cons_append,
    List.dropWhile_cons_of_neg (by decide), ← List.cons_append, hscan]
  rfl

/-- Without a tag nothing is taken off the line. -/
theorem afterTag_of_plain {marks name : List Char} (hfield : IsFieldName field)
    (hmarks : ∀ c ∈ marks, isCommentMark c = true) (hname : Text.SameLetters field name) :
    afterTag (marks ++ (name ++ rest)) = marks ++ (name ++ rest) := by
  obtain ⟨letter, word, rfl, hletter⟩ := hfield.first
  obtain ⟨c, more, hc, -, rfl⟩ := List.forall₂_cons_left_iff.mp hname
  -- No character up to the name begins a tag.
  have hfirst : ∀ d ∈ ((marks ++ (c :: more ++ rest)).dropWhile isIndent).head?, d ≠ '<' := by
    clear hname
    induction marks with
    | nil =>
      have hnot : isIndent c = false := by
        have := (hletter c hc).1
        simp only [isCommentMark, Bool.or_eq_false_iff] at this
        exact this.1.1.1.1
      rw [List.nil_append, List.cons_append, List.dropWhile_cons_of_neg (by simp [hnot])]
      rintro d hd
      obtain rfl := Option.some.inj hd
      exact (hletter _ hc).2
    | cons mark marks ih =>
      obtain ⟨hmark, hrest⟩ := List.forall_mem_cons.mp hmarks
      rw [List.cons_append, List.dropWhile_cons]
      split
      · exact ih hrest
      · rintro d hd rfl
        obtain rfl := Option.some.inj hd
        exact absurd hmark (by decide)
  have hnone : Text.dropWordList? "<?php".toList
      ((marks ++ (c :: more ++ rest)).dropWhile isIndent) = none := by
    rw [Option.eq_none_iff_forall_ne_some]
    intro left hleft
    obtain ⟨written, hword, heq⟩ := Text.dropWordList?_eq_some_iff.mp hleft
    obtain ⟨d, _, hd, -, rfl⟩ := List.forall₂_cons_left_iff.mp hword
    refine hfirst d ?_ (Text.isLetter_opening hd)
    rw [heq]
    rfl
  rw [afterTag, hnone]
  rfl

end Scanner

/-- The scanner finds the lines that name a field, and the text behind the name. -/
theorem fieldOfLine?_eq_some_iff {field line : String} {rest : List Char}
    (hfield : IsFieldName field.toList) :
    fieldOfLine? field line = some (String.ofList rest) ↔
      GivesField IsOpeningTag field.toList line.toList rest := by
  have hscan : fieldOfLine? field line = some (String.ofList rest) ↔
      Text.dropWordList? (field.toList ++ [':']) ((afterTag line.toList).dropWhile isCommentMark) =
        some rest := by
    rw [fieldOfLine?, Option.map_eq_some_iff]
    constructor
    · rintro ⟨found, hfound, heq⟩
      rw [hfound, String.ofList_injective heq]
    · intro h
      exact ⟨rest, h, rfl⟩
  rw [hscan]
  constructor
  · intro h
    obtain ⟨marks, name, hline, hmarks, hname⟩ := (dropName_eq_some_iff hfield).mp h
    -- Without a tag the line is scanned from its front, indentation and all.
    rw [afterTag] at hline
    cases htag : Text.dropWordList? "<?php".toList (line.toList.dropWhile isIndent) with
    | none =>
      rw [htag] at hline
      exact .plain hline hmarks hname
    | some left =>
      obtain ⟨tag, hword, hleft⟩ := Text.dropWordList?_eq_some_iff.mp htag
      rw [htag, Option.getD_some] at hline
      have hblanks : ∀ c ∈ line.toList.takeWhile isIndent, isIndent c = true :=
        fun c hc => List.mem_takeWhile_imp hc
      refine .tagged ?_ hblanks hword hmarks hname
      rw [← hline, ← hleft, List.takeWhile_append_dropWhile]
  · intro h
    refine (dropName_eq_some_iff hfield).mpr ?_
    cases h with
    | @plain marks name hline hmarks hname =>
      refine ⟨marks, name, ?_, hmarks, hname⟩
      rw [hline, afterTag_of_plain hfield hmarks hname]
    | @tagged blanks tag marks name hline hblanks htag hmarks hname =>
      refine ⟨marks, name, ?_, hmarks, hname⟩
      rw [hline, afterTag_of_tagged hblanks htag]

theorem fieldOfLine?_eq_none_iff {field line : String} (hfield : IsFieldName field.toList) :
    fieldOfLine? field line = none ↔
      ∀ rest, ¬ GivesField IsOpeningTag field.toList line.toList rest := by
  rw [Option.eq_none_iff_forall_ne_some]
  constructor
  · intro h rest hrest
    exact h _ ((fieldOfLine?_eq_some_iff hfield).mpr hrest)
  · intro h rest hrest
    refine h rest.toList ((fieldOfLine?_eq_some_iff hfield).mp ?_)
    rw [hrest, String.ofList_toList]

/-! ### The search for a pattern -/

end Header

namespace Text.Pattern

variable {cs rest : List Char}

theorem mem_word_iff {w : String} :
    rest ∈ word w cs ↔ ∃ written, SameLetters w.toList written ∧ cs = written ++ rest := by
  rw [word, Option.mem_toList, dropWordList?_eq_some_iff]

theorem mem_run_iff {inside : Char → Bool} :
    rest ∈ run inside cs ↔ ∃ front, (∀ c ∈ front, inside c = true) ∧ cs = front ++ rest := by
  induction cs with
  | nil =>
    rw [run, List.mem_singleton]
    constructor
    · rintro rfl
      exact ⟨[], by simp, rfl⟩
    · rintro ⟨front, -, heq⟩
      exact (List.append_eq_nil_iff.mp heq.symm).2
  | cons c cs ih =>
    rw [run, List.mem_append, List.mem_singleton]
    constructor
    · rintro (hmem | rfl)
      · split at hmem
        · next hinside =>
          obtain ⟨front, hfront, rfl⟩ := ih.mp hmem
          exact ⟨c :: front, List.forall_mem_cons.mpr ⟨hinside, hfront⟩, rfl⟩
        · cases hmem
      · exact ⟨[], by simp, rfl⟩
    · rintro ⟨front, hfront, heq⟩
      cases front with
      | nil => exact .inr heq.symm
      | cons d front =>
        obtain ⟨rfl, rfl⟩ := List.cons.inj heq
        obtain ⟨hinside, hfront⟩ := List.forall_mem_cons.mp hfront
        rw [if_pos hinside]
        exact .inl (ih.mpr ⟨front, hfront, rfl⟩)

/-- Between the fronts of lines a search finds nothing. -/
theorem search_false (p : Pattern) {line : List Char} (hline : '\n' ∉ line) :
    p.search false line = none ∧
      ∀ more, p.search false (line ++ '\n' :: more) = p.search true more := by
  induction line with
  | nil => exact ⟨rfl, fun more => rfl⟩
  | cons c line ih =>
    obtain ⟨hc, hrest⟩ := not_or.mp (mt List.mem_cons.mpr hline)
    have hfront : (c == '\n') = false := by simpa using Ne.symm hc
    obtain ⟨hnone, hnext⟩ := ih hrest
    refine ⟨?_, fun more => ?_⟩
    · rw [search, hfront, hnone]
      rfl
    · rw [List.cons_append, search, hfront, hnext]
      rfl

/-- A search tries a line and goes on with the next one. -/
theorem search_true (p : Pattern) {line : List Char} (hline : '\n' ∉ line) :
    p.search true line = (p line).head? ∧
      ∀ more, p.search true (line ++ '\n' :: more) =
        (p (line ++ '\n' :: more)).head?.or (p.search true more) := by
  cases line with
  | nil => exact ⟨rfl, fun more => rfl⟩
  | cons c line =>
    obtain ⟨hc, hrest⟩ := not_or.mp (mt List.mem_cons.mpr hline)
    have hfront : (c == '\n') = false := by simpa using Ne.symm hc
    obtain ⟨hnone, hnext⟩ := p.search_false hrest
    refine ⟨?_, fun more => ?_⟩
    · rw [search, hfront, hnone, if_pos rfl, Option.or_none]
    · rw [List.cons_append, search, hfront, hnext, if_pos rfl]

end Text.Pattern

namespace Header

section Search

variable {field : String} {cs rest : List Char}

/-- The pattern of a field matches what the field is given by. -/
theorem mem_fieldPattern_iff :
    rest ∈ fieldPattern field cs ↔ GivesField IsOpeningTag field.toList cs rest := by
  -- Tagged or not, a match ends with marks, the name and a colon.
  have hname : ∀ cs, rest ∈ ((Text.Pattern.run isCommentMark).andThen
      (.word (field ++ ":"))) cs ↔ ∃ marks name, cs = marks ++ (name ++ ':' :: rest) ∧
        (∀ c ∈ marks, isCommentMark c = true) ∧ Text.SameLetters field.toList name := by
    intro cs
    have hcolon : (field ++ ":").toList = field.toList ++ [':'] := String.toList_append
    simp only [Text.Pattern.andThen, List.mem_flatMap, Text.Pattern.mem_run_iff,
      Text.Pattern.word, Option.mem_toList, hcolon, dropNameColon_eq_some_iff]
    constructor
    · rintro ⟨_, ⟨marks, hmarks, rfl⟩, name, hname, rfl⟩
      exact ⟨marks, name, rfl, hmarks, hname⟩
    · rintro ⟨marks, name, rfl, hmarks, hname⟩
      exact ⟨_, ⟨marks, hmarks, rfl⟩, name, hname, rfl⟩
  rw [fieldPattern, Text.Pattern.andThen, List.mem_flatMap]
  simp only [Text.Pattern.optional, List.mem_append, List.mem_singleton, hname]
  constructor
  · rintro ⟨left, htagged | rfl, marks, name, rfl, hmarks, hspelled⟩
    · obtain ⟨_, hblanks, htag⟩ := List.mem_flatMap.mp htagged
      obtain ⟨blanks, hindent, rfl⟩ := Text.Pattern.mem_run_iff.mp hblanks
      obtain ⟨tag, hword, rfl⟩ := Text.Pattern.mem_word_iff.mp htag
      exact .tagged rfl hindent hword hmarks hspelled
    · exact .plain rfl hmarks hspelled
  · intro h
    cases h with
    | plain hline hmarks hspelled => exact ⟨_, .inr rfl, _, _, hline, hmarks, hspelled⟩
    | @tagged blanks tag marks name hline hblanks htag hmarks hspelled =>
      have hindent := Text.Pattern.mem_run_iff.mpr ⟨blanks, hblanks, hline⟩
      have hword : _ ∈ Text.Pattern.word "<?php" (tag ++ (marks ++ (name ++ ':' :: rest))) :=
        Text.Pattern.mem_word_iff.mpr ⟨tag, htag, rfl⟩
      exact ⟨_, .inl (List.mem_flatMap.mpr ⟨_, hindent, hword⟩), marks, name, rfl, hmarks, hspelled⟩

/-- A field is given by a front that ends with a colon, whatever follows. -/
theorem givesField_iff_front {IsTag : List Char → Prop} {name : List Char} :
    GivesField IsTag name cs rest ↔
      ∃ front, GivesField IsTag name front [] ∧ cs = front ++ rest := by
  constructor
  · rintro (⟨rfl, hmarks, hname⟩ | ⟨rfl, hblanks, htag, hmarks, hname⟩)
    · exact ⟨_, .plain rfl hmarks hname, by simp⟩
    · exact ⟨_, .tagged rfl hblanks htag hmarks hname, by simp⟩
  · rintro ⟨front, ⟨rfl, hmarks, hname⟩ | ⟨rfl, hblanks, htag, hmarks, hname⟩, rfl⟩
    · exact .plain (by simp) hmarks hname
    · exact .tagged (by simp) hblanks htag hmarks hname

theorem notMem_of_sameLetters {word written : List Char} {c : Char}
    (hword : ∀ letter ∈ word, Text.isLetter letter c = false)
    (h : Text.SameLetters word written) : c ∉ written := by
  induction h with
  | nil => simp
  | cons hletter _ ih =>
    obtain ⟨hfirst, hrest⟩ := List.forall_mem_cons.mp hword
    refine List.not_mem_cons_of_ne_of_not_mem ?_ (ih hrest)
    rintro rfl
    simp [hfirst] at hletter

/-- The front stands in one line. -/
theorem notMem_front (hfield : IsFieldName field.toList) {front : List Char}
    (h : GivesField IsOpeningTag field.toList front []) : '\n' ∉ front := by
  have hmark : ∀ marks : List Char, (∀ c ∈ marks, isCommentMark c = true) → '\n' ∉ marks :=
    fun marks hmarks hmem => absurd (hmarks _ hmem) (by decide)
  have htagged : ∀ letter ∈ "<?php".toList, Text.isLetter letter '\n' = false :=
    Text.isLetter_of_all (by decide)
  cases h with
  | plain hline hmarks hname =>
    simp [hline, hmark _ hmarks, notMem_of_sameLetters hfield.inLine hname]
  | @tagged blanks _ _ _ hline hblanks htag hmarks hname =>
    have hblank : '\n' ∉ blanks := fun hmem => absurd (hblanks _ hmem) (by decide)
    simp [hline, hblank, notMem_of_sameLetters htagged htag, hmark _ hmarks,
      notMem_of_sameLetters hfield.inLine hname]

/-- What a line gives to a field, it gives in front of the next line. -/
theorem givesField_append_iff (hfield : IsFieldName field.toList) {line tail : List Char}
    (htail : ∀ c ∈ tail.head?, c = '\n') :
    GivesField IsOpeningTag field.toList (line ++ tail) rest ↔
      ∃ given, GivesField IsOpeningTag field.toList line given ∧ rest = given ++ tail := by
  rw [givesField_iff_front]
  constructor
  · rintro ⟨front, hfront, heq⟩
    rcases List.append_eq_append_iff.mp heq with ⟨left, rfl, htaken⟩ | ⟨given, rfl, rfl⟩
    · -- The front would end in the next line.
      cases left with
      | nil => exact ⟨[], by simpa using hfront, by simpa using htaken.symm⟩
      | cons c left =>
        have hbreak : c = '\n' := htail c (by rw [htaken]; rfl)
        exact absurd (by simp [hbreak]) (notMem_front hfield hfront)
    · exact ⟨given, givesField_iff_front.mpr ⟨front, hfront, rfl⟩, rfl⟩
  · rintro ⟨given, hgiven, rfl⟩
    obtain ⟨front, hfront, rfl⟩ := givesField_iff_front.mp hgiven
    exact ⟨front, hfront, List.append_assoc _ _ _⟩

theorem restOfLine_append {given tail : List Char} (hgiven : '\n' ∉ given)
    (htail : ∀ c ∈ tail.head?, c = '\n') : restOfLine (given ++ tail) = String.ofList given := by
  have hkept : ∀ c ∈ given, (c != '\n') = true := fun c hc => by
    simpa using ne_of_mem_of_not_mem hc hgiven
  have hend : tail.takeWhile (· != '\n') = [] := by
    cases tail with
    | nil => rfl
    | cons c tail => exact List.takeWhile_cons_of_neg (by simp [htail c rfl])
  rw [restOfLine, List.takeWhile_append_of_pos hkept, hend, List.append_nil]

/-- Tried at the front of a line, the pattern matches if the line gives the field. -/
theorem head?_fieldPattern (hfield : IsFieldName field.toList) {line tail : List Char}
    (hline : '\n' ∉ line) (htail : ∀ c ∈ tail.head?, c = '\n') :
    (fieldPattern field (line ++ tail)).head?.map restOfLine =
      fieldOfLine? field (String.ofList line) := by
  cases hfound : fieldOfLine? field (String.ofList line) with
  | none =>
    have hnone : fieldPattern field (line ++ tail) = [] := by
      refine List.eq_nil_iff_forall_not_mem.mpr fun rest hrest => ?_
      obtain ⟨given, hgiven, -⟩ :=
        (givesField_append_iff hfield htail).mp (mem_fieldPattern_iff.mp hrest)
      rw [fieldOfLine?_eq_none_iff hfield, String.toList_ofList] at hfound
      exact hfound given hgiven
    rw [hnone]
    rfl
  | some given =>
    have hgiven : GivesField IsOpeningTag field.toList line given.toList := by
      rw [← String.ofList_toList (s := given), fieldOfLine?_eq_some_iff hfield,
        String.toList_ofList] at hfound
      exact hfound
    have hmem : given.toList ++ tail ∈ fieldPattern field (line ++ tail) :=
      mem_fieldPattern_iff.mpr ((givesField_append_iff hfield htail).mpr ⟨_, hgiven, rfl⟩)
    -- Which match comes first does not matter, as the line gives one text at most.
    obtain ⟨rest, hrest⟩ := Option.isSome_iff_exists.mp
      (List.isSome_head?.mpr (List.ne_nil_of_mem hmem))
    obtain ⟨other, hother, rfl⟩ := (givesField_append_iff hfield htail).mp
      (mem_fieldPattern_iff.mp (List.mem_of_head? hrest))
    have hsame : other = given.toList := by
      have hfirst : fieldOfLine? field (String.ofList line) = some (String.ofList other) :=
        (fieldOfLine?_eq_some_iff hfield).mpr (by rwa [String.toList_ofList])
      rw [hfound] at hfirst
      rw [Option.some.inj hfirst, String.toList_ofList]
    have hbreak : '\n' ∉ given.toList := by
      obtain ⟨front, -, hsplit⟩ := givesField_iff_front.mp hgiven
      rw [hsplit] at hline
      exact fun hmem => hline (List.mem_append_right front hmem)
    rw [hrest, Option.map_some, hsame, restOfLine_append hbreak htail, String.ofList_toList]

theorem map_search_fieldPattern (hfield : IsFieldName field.toList) (cs : List Char) :
    ((fieldPattern field).search true cs).map restOfLine =
      (cs.splitOn '\n').findSome? fun line => fieldOfLine? field (String.ofList line) := by
  -- One line is taken off at a time.
  induction hlength : cs.length using Nat.strong_induction_on generalizing cs with
  | _ n ih =>
    by_cases hbreak : '\n' ∈ cs
    · obtain ⟨line, more, rfl, hline⟩ := List.eq_append_cons_of_mem hbreak
      have hlater := ih more.length (by simp [← hlength]; omega) more rfl
      rw [((fieldPattern field).search_true hline).2, Option.map_or,
        head?_fieldPattern hfield hline (by simp), hlater,
        List.splitOn_append_cons_self_of_not_mem hline, List.findSome?_cons]
      cases fieldOfLine? field (String.ofList line) <;> rfl
    · have hnone : ∀ c ∈ ([] : List Char).head?, c = '\n' := by simp
      have honly := head?_fieldPattern hfield hbreak hnone
      rw [List.append_nil] at honly
      rw [((fieldPattern field).search_true hbreak).1, honly, List.splitOn_eq_singleton hbreak,
        List.findSome?_cons]
      cases fieldOfLine? field (String.ofList cs) <;> rfl

/-- The value of a field comes from the first line that gives the field. -/
theorem field?_eq_lines (hfield : IsFieldName field.toList) (text : String) :
    field? field text =
      ((Text.split '\n' text).findSome? (fieldOfLine? field)).bind cleanValue? := by
  have hfirst : (Text.split '\n' text).findSome? (fieldOfLine? field) =
      ((fieldPattern field).search true text.toList).map restOfLine := by
    rw [map_search_fieldPattern hfield, Text.split, List.findSome?_map]
    rfl
  simp only [field?, hfirst, Option.bind_map, Function.comp_def]

end Search

/-! ### Values -/

/-- The end of a comment or of the code. -/
def Ends (cs : List Char) : Prop := "*/".toList <+: cs ∨ "?>".toList <+: cs

/-- What stands in front of the first end, or all of a text without one. -/
structure IsBeforeEnd (rest kept : List Char) : Prop where
  split : ∃ tail, rest = kept ++ tail ∧ (tail = [] ∨ Ends tail)
  first : ∀ before after, rest = before ++ after → Ends after → kept.length ≤ before.length

theorem isBeforeEnd_beforeEnd (rest : List Char) : IsBeforeEnd rest (beforeEnd rest) := by
  fun_induction beforeEnd rest with
  | case1 => exact ⟨⟨[], rfl, .inl rfl⟩, fun before after h hends => Nat.zero_le _⟩
  | case2 rest =>
    exact ⟨⟨_, rfl, .inr (.inl (List.prefix_append _ _))⟩,
      fun before after h hends => Nat.zero_le _⟩
  | case3 rest =>
    exact ⟨⟨_, rfl, .inr (.inr (List.prefix_append _ _))⟩,
      fun before after h hends => Nat.zero_le _⟩
  | case4 c cs hcomment hcode ih =>
    obtain ⟨tail, hsplit, htail⟩ := ih.split
    refine ⟨⟨tail, congrArg (c :: ·) hsplit, htail⟩, fun before after h hends => ?_⟩
    cases before with
    | nil =>
      -- The text itself does not begin with an end.
      exfalso
      obtain rfl : c :: cs = after := h
      rcases hends with ⟨more, hmore⟩ | ⟨more, hmore⟩
      · obtain ⟨rfl, rfl⟩ := List.cons.inj hmore
        exact hcomment more rfl rfl
      · obtain ⟨rfl, rfl⟩ := List.cons.inj hmore
        exact hcode more rfl rfl
    | cons d before =>
      have hrest := ih.first before after (List.cons.inj h).2 hends
      exact Nat.succ_le_succ hrest

theorem IsBeforeEnd.length_le {rest kept kept' : List Char} (h : IsBeforeEnd rest kept)
    (h' : IsBeforeEnd rest kept') : kept.length ≤ kept'.length := by
  obtain ⟨tail, hsplit, rfl | htail⟩ := h'.split
  · obtain ⟨left, hleft, -⟩ := h.split
    rw [List.append_nil] at hsplit
    rw [← hsplit, hleft, List.length_append]
    exact Nat.le_add_right _ _
  · exact h.first kept' tail hsplit htail

theorem IsBeforeEnd.unique {rest kept kept' : List Char} (h : IsBeforeEnd rest kept)
    (h' : IsBeforeEnd rest kept') : kept = kept' := by
  obtain ⟨tail, hsplit, -⟩ := h.split
  obtain ⟨tail', hsplit', -⟩ := h'.split
  exact (List.append_inj (hsplit.symm.trans hsplit')
    (Nat.le_antisymm (h.length_le h') (h'.length_le h))).1

/-- A text gives a value: what stands in front of the first end, without the white space
around it. -/
def HasValue (rest : List Char) (value : String) : Prop :=
  ∃ kept, IsBeforeEnd rest kept ∧ Text.Pads (String.ofList kept) value ∧ Text.IsTrimmed value

theorem exists_hasValue (rest : List Char) : ∃ value, HasValue rest value :=
  ⟨_, beforeEnd rest, isBeforeEnd_beforeEnd rest, Text.pads_strip _, Text.isTrimmed_strip _⟩

theorem HasValue.cleanValue?_eq {rest : List Char} {value : String} (h : HasValue rest value) :
    cleanValue? (String.ofList rest) = if value = "" then none else some value := by
  obtain ⟨kept, hkept, hpads, htrimmed⟩ := h
  have hstrip : Text.strip (String.ofList (beforeEnd rest)) = value := by
    rw [(isBeforeEnd_beforeEnd rest).unique hkept, Text.strip_padded hpads, htrimmed.strip_eq]
  rw [cleanValue?, String.toList_ofList]
  simp only [hstrip]

/-- The value of a field in a text: the first line that names the field gives it. There is none
if no line does, or if this line gives nothing. -/
def FieldValue (IsTag : List Char → Prop) (field text : String) (value : Option String) : Prop :=
  (value = none ∧
    ∀ line ∈ Text.split '\n' text, ∀ rest, ¬ GivesField IsTag field.toList line.toList rest) ∨
  ∃ before line after rest found, Text.split '\n' text = before ++ line :: after ∧
    (∀ earlier ∈ before, ∀ rest, ¬ GivesField IsTag field.toList earlier.toList rest) ∧
    GivesField IsTag field.toList line.toList rest ∧ HasValue rest found ∧
    value = if found = "" then none else some found

/-- A header holds the values of its fields and nothing else. -/
theorem fieldValue_iff {field text : String} {value : Option String}
    (hfield : IsFieldName field.toList) :
    FieldValue IsOpeningTag field text value ↔ field? field text = value := by
  constructor
  · rintro (⟨rfl, hlines⟩ | ⟨before, line, after, rest, found, hsplit, hbefore, hline, hfound, rfl⟩)
    · have hnone : (Text.split '\n' text).findSome? (fieldOfLine? field) = none :=
        List.findSome?_eq_none_iff.mpr fun line hmem =>
          (fieldOfLine?_eq_none_iff hfield).mpr (hlines line hmem)
      rw [field?_eq_lines hfield, hnone]
      rfl
    · have hsome : (Text.split '\n' text).findSome? (fieldOfLine? field) =
          some (String.ofList rest) :=
        List.findSome?_eq_some_iff.mpr ⟨before, line, after, hsplit,
          (fieldOfLine?_eq_some_iff hfield).mpr hline, fun earlier hmem =>
            (fieldOfLine?_eq_none_iff hfield).mpr (hbefore earlier hmem)⟩
      rw [field?_eq_lines hfield, hsome, Option.bind_some, hfound.cleanValue?_eq]
  · rintro rfl
    cases hfirst : (Text.split '\n' text).findSome? (fieldOfLine? field) with
    | none =>
      refine .inl ⟨by rw [field?_eq_lines hfield, hfirst]; rfl, fun line hmem => ?_⟩
      exact (fieldOfLine?_eq_none_iff hfield).mp (List.findSome?_eq_none_iff.mp hfirst line hmem)
    | some given =>
      obtain ⟨before, line, after, hsplit, hline, hbefore⟩ := List.findSome?_eq_some_iff.mp hfirst
      obtain ⟨found, hfound⟩ := exists_hasValue given.toList
      rw [← String.ofList_toList (s := given)] at hline
      refine .inr ⟨before, line, after, given.toList, found, hsplit, fun earlier hmem => ?_,
        (fieldOfLine?_eq_some_iff hfield).mp hline, hfound, ?_⟩
      · exact (fieldOfLine?_eq_none_iff hfield).mp (hbefore earlier hmem)
      · rw [field?_eq_lines hfield, hfirst, Option.bind_some, ← hfound.cleanValue?_eq,
          String.ofList_toList]

/-! ### Line ends -/

section LineEnds

theorem dropWhile_concat {p : Char → Bool} {a : Char} (h : p a = false) (cs : List Char) :
    (cs ++ [a]).dropWhile p = cs.dropWhile p ++ [a] := by
  induction cs with
  | nil => exact List.dropWhile_cons_of_neg (by simp [h])
  | cons c cs ih =>
    rw [List.cons_append, List.dropWhile_cons, List.dropWhile_cons]
    split
    · exact ih
    · rfl

/-- A character that is in no word cannot be taken for a part of it. -/
theorem dropWordList?_concat {a : Char} {word : List Char}
    (h : ∀ letter ∈ word, Text.isLetter letter a = false) (cs : List Char) :
    Text.dropWordList? word (cs ++ [a]) = (Text.dropWordList? word cs).map (· ++ [a]) := by
  induction word generalizing cs with
  | nil => rfl
  | cons letter word ih =>
    obtain ⟨hletter, hword⟩ := List.forall_mem_cons.mp h
    cases cs with
    | nil => simp [Text.dropWordList?, hletter]
    | cons c cs =>
      rw [List.cons_append, Text.dropWordList?, Text.dropWordList?]
      split
      · exact ih hword cs
      · rfl

theorem afterTag_concat (cs : List Char) : afterTag (cs ++ ['\r']) = afterTag cs ++ ['\r'] := by
  have htag : ∀ letter ∈ "<?php".toList, Text.isLetter letter '\r' = false :=
    Text.isLetter_of_all (by decide)
  rw [afterTag, dropWhile_concat (by decide), dropWordList?_concat htag, afterTag]
  cases Text.dropWordList? "<?php".toList (cs.dropWhile isIndent) with
  | none => rfl
  | some rest => rfl

variable {field : String} (hfield : ∀ letter ∈ field.toList, Text.isLetter letter '\r' = false)

include hfield

/-- A carriage return at the end of a line becomes part of what the line gives. -/
theorem fieldOfLine?_concat (line : List Char) :
    fieldOfLine? field (String.ofList (line ++ ['\r'])) =
      (fieldOfLine? field (String.ofList line)).map (· ++ "\r") := by
  have hname : ∀ letter ∈ field.toList ++ [':'], Text.isLetter letter '\r' = false := by
    intro letter hmem
    rcases List.mem_append.mp hmem with hmem | hmem
    · exact hfield letter hmem
    · rw [List.mem_singleton.mp hmem]
      decide
  rw [fieldOfLine?, fieldOfLine?, String.toList_ofList, String.toList_ofList, afterTag_concat,
    dropWhile_concat (by decide), dropWordList?_concat hname, Option.map_map, Option.map_map]
  congr 1
  funext rest
  exact String.ofList_append

omit hfield

theorem beforeEnd_concat (cs : List Char) :
    beforeEnd (cs ++ ['\r']) = beforeEnd cs ∨
      beforeEnd (cs ++ ['\r']) = beforeEnd cs ++ ['\r'] := by
  fun_induction beforeEnd cs with
  | case1 => exact .inr rfl
  | case2 rest => exact .inl rfl
  | case3 rest => exact .inl rfl
  | case4 c cs hcomment hcode ih =>
    have hstep : beforeEnd (c :: cs ++ ['\r']) = c :: beforeEnd (cs ++ ['\r']) := by
      refine beforeEnd.eq_4 c (cs ++ ['\r']) ?_ ?_
      · rintro more rfl hmore
        cases cs with
        | nil => cases (List.cons.inj hmore).1
        | cons d cs => exact hcomment cs rfl (by rw [(List.cons.inj hmore).1])
      · rintro more rfl hmore
        cases cs with
        | nil => cases (List.cons.inj hmore).1
        | cons d cs => exact hcode cs rfl (by rw [(List.cons.inj hmore).1])
    rw [hstep]
    exact ih.imp (congrArg (c :: ·)) (congrArg (c :: ·))

/-- It is white space around the value, so it is dropped again. -/
theorem cleanValue?_concat (value : String) : cleanValue? (value ++ "\r") = cleanValue? value := by
  have hpads : Text.strip (String.ofList (beforeEnd (value ++ "\r").toList)) =
      Text.strip (String.ofList (beforeEnd value.toList)) := by
    refine Text.strip_padded ?_
    rw [String.toList_append, show "\r".toList = ['\r'] from rfl]
    rcases beforeEnd_concat value.toList with h | h
    · exact ⟨[], [], by simp, by simp, by simp [h]⟩
    · exact ⟨[], ['\r'], by simp, by simp [Text.isBlank], by simp [h]⟩
  simp only [cleanValue?, hpads]

end LineEnds

end Header

namespace Text

/-- The text with a carriage return in front of every line feed. -/
def withReturns (s : String) : String :=
  String.ofList (s.toList.flatMap fun c => if c = '\n' then ['\r', '\n'] else [c])

/-- Lines that end with carriage returns, the last one excepted. -/
def returned : List (List Char) → List (List Char)
  | [] => []
  | [line] => [line]
  | line :: next :: rest => (line ++ ['\r']) :: returned (next :: rest)

theorem splitOn_withReturns (cs : List Char) :
    (cs.flatMap fun c => if c = '\n' then ['\r', '\n'] else [c]).splitOn '\n' =
      returned (cs.splitOn '\n') := by
  induction cs with
  | nil => rfl
  | cons c cs ih =>
    obtain ⟨first, rest, hsplit⟩ := List.exists_cons_of_ne_nil (List.splitOn_ne_nil '\n' cs)
    rw [List.flatMap_cons]
    by_cases hc : c = '\n'
    · subst hc
      have hreturn : '\n' ∉ ['\r'] := by decide
      have hbreak : ∀ rest, (['\r', '\n'] ++ rest).splitOn '\n' = ['\r'] :: rest.splitOn '\n' :=
        fun rest => List.splitOn_append_cons_self_of_not_mem hreturn rest
      rw [if_pos rfl, hbreak, ih, splitOn_cons_self, hsplit]
      rfl
    · -- The character goes in front of the first line, which may be the last one.
      rw [if_neg hc, List.singleton_append, splitOn_cons_of_ne hc hsplit]
      rw [hsplit] at ih
      cases rest with
      | nil => exact splitOn_cons_of_ne hc ih
      | cons next rest => exact splitOn_cons_of_ne hc ih

theorem split_withReturns (s : String) :
    split '\n' (withReturns s) = (returned (s.toList.splitOn '\n')).map String.ofList := by
  rw [split, withReturns, String.toList_ofList, splitOn_withReturns]

theorem length_encode_le_withReturns (s : String) :
    (encode s).length ≤ (encode (withReturns s)).length := by
  rw [withReturns, encode_ofList, encode]
  induction s.toList with
  | nil => exact Nat.le_refl _
  | cons c cs ih =>
    simp only [List.flatMap_cons, List.flatMap_append, List.length_append]
    split
    · next hc =>
      subst hc
      simp only [List.flatMap_cons, List.length_append]
      omega
    · simp only [List.flatMap_singleton]
      omega

end Text

namespace Header

/-- The value of a field does not depend on how the lines end. -/
theorem field?_withReturns {field : String} (hname : IsFieldName field.toList)
    (hfield : ∀ letter ∈ field.toList, Text.isLetter letter '\r' = false) (text : String) :
    field? field (Text.withReturns text) = field? field text := by
  rw [field?_eq_lines hname, Text.split_withReturns, field?_eq_lines hname, Text.split]
  induction text.toList.splitOn '\n' with
  | nil => rfl
  | cons line lines ih =>
    cases lines with
    | nil => rfl
    | cons next rest =>
      rw [Text.returned, List.map_cons, List.findSome?_cons, fieldOfLine?_concat hfield]
      conv_rhs => rw [List.map_cons, List.findSome?_cons]
      cases fieldOfLine? field (String.ofList line) with
      | none => exact ih
      | some value =>
        simp only [Option.map_some, Option.bind_some]
        exact cleanValue?_concat value

end Header

/-! ### Files -/

namespace Content

/-- The text without a byte-order mark at its front. -/
def unmarked (text : String) : String := (Text.dropStart? "\uFEFF" text).getD text

theorem unmarked_mark (cs : List Char) :
    unmarked (String.ofList ('\uFEFF' :: cs)) = String.ofList cs := by
  have htext : String.ofList ('\uFEFF' :: cs) = "\uFEFF" ++ String.ofList cs := by
    apply String.toList_injective
    simp
  rw [unmarked, htext, Text.dropStart?_append]
  rfl

theorem unmarked_of_head {text : String} (h : text.toList.head? ≠ some '\uFEFF') :
    unmarked text = text := by
  rw [unmarked, Text.dropStart?, Text.startsWith_of_head rfl h]
  rfl

theorem encodeChar_mark : Text.encodeChar '\uFEFF' = [0xEF, 0xBB, 0xBF] := by decide

theorem withoutMark_of_ne {bytes : List UInt8}
    (h : ∀ rest, bytes ≠ Text.encodeChar '\uFEFF' ++ rest) : withoutMark bytes = bytes := by
  unfold withoutMark
  split
  · next rest => exact absurd (by rw [encodeChar_mark]; rfl) (h rest)
  · rfl

/-- A text that does not begin with the mark is not encoded as if it did. -/
theorem encode_ne_mark {cs : List Char} (h : cs.head? ≠ some '\uFEFF') (rest : List UInt8) :
    cs.flatMap Text.encodeChar ≠ Text.encodeChar '\uFEFF' ++ rest := by
  intro heq
  have hread := Text.decodeList?_eq_some_iff.mpr heq.symm
  rw [Text.decodeList?_encodeChar, Option.map_eq_some_iff] at hread
  obtain ⟨more, -, hcs⟩ := hread
  exact h (by rw [← hcs]; rfl)

theorem withoutMark_encode (text : String) :
    withoutMark (Text.encode text) = Text.encode (unmarked text) := by
  by_cases hmark : text.toList.head? = some '\uFEFF'
  · obtain ⟨cs, hcs⟩ := List.head?_eq_some_iff.mp hmark
    have htext : unmarked text = String.ofList cs := by
      rw [← unmarked_mark, ← hcs, String.ofList_toList]
    rw [htext, Text.encode, hcs, List.flatMap_cons, encodeChar_mark, Text.encode_ofList]
    rfl
  · rw [unmarked_of_head hmark]
    exact withoutMark_of_ne (encode_ne_mark hmark)

/-- The bytes of a text are read as this text, without a mark at its front. -/
theorem decode_encode (text : String) : decode (Text.encode text) = unmarked text := by
  rw [decode_eq, withoutMark_encode, Text.decode?_encode]
  rfl

theorem unmarked_withReturns (text : String) :
    unmarked (Text.withReturns text) = Text.withReturns (unmarked text) := by
  by_cases hmark : text.toList.head? = some '\uFEFF'
  · obtain ⟨cs, hcs⟩ := List.head?_eq_some_iff.mp hmark
    have htext : unmarked text = String.ofList cs := by
      rw [← unmarked_mark, ← hcs, String.ofList_toList]
    rw [htext, Text.withReturns, hcs, List.flatMap_cons, if_neg (by decide), List.singleton_append,
      unmarked_mark, Text.withReturns, String.toList_ofList]
  · rw [unmarked_of_head hmark, unmarked_of_head]
    rw [Text.withReturns, String.toList_ofList]
    cases htext : text.toList with
    | nil => simp
    | cons c cs =>
      rw [htext] at hmark
      rw [List.flatMap_cons]
      split
      · simp
      · simpa using hmark

theorem head_eq_decode {size : Nat} {bytes : List UInt8} (h : bytes.length ≤ size) :
    head size bytes = decode bytes := by
  rw [head, List.take_of_length_le h]

end Content

namespace Header

/-- The three fields are names, and none of their letters is a carriage return. -/
theorem isFieldName_of_mem {entry : String × (Header → Option String)} (h : entry ∈ fields) :
    IsFieldName entry.1.toList ∧ ∀ letter ∈ entry.1.toList, Text.isLetter letter '\r' = false := by
  simp only [fields, List.mem_cons, List.not_mem_nil, or_false] at h
  rcases h with rfl | rfl | rfl
  · exact ⟨isFieldName_of_first (by decide) (by decide), Text.isLetter_of_all (by decide)⟩
  · exact ⟨isFieldName_of_first (by decide) (by decide), Text.isLetter_of_all (by decide)⟩
  · exact ⟨isFieldName_of_first (by decide) (by decide), Text.isLetter_of_all (by decide)⟩

theorem value_ofText {entry : String × (Header → Option String)} (h : entry ∈ fields)
    (text : String) : entry.2 (ofText text) = field? entry.1 text := by
  simp only [fields, List.mem_cons, List.not_mem_nil, or_false] at h
  rcases h with rfl | rfl | rfl <;> rfl

theorem ext_fields {a b : Header} (h : ∀ entry ∈ fields, entry.2 a = entry.2 b) : a = b := by
  simp only [fields, List.forall_mem_cons, List.not_mem_nil, false_implies, implies_true,
    and_true] at h
  obtain ⟨hname, hversion, hdescription⟩ := h
  cases a
  cases b
  simp_all

/-- A header is read line by line, whether lines end with line feeds alone or with carriage
returns too. Each field has the value that the first line naming it gives; it is absent if no
line names it or the line gives nothing. A byte-order mark in front does not count, and the
opening tag may stand in any letter case. -/
theorem header_of_lines (text : String)
    (hsize : (Text.encode (Text.withReturns text)).length ≤ Content.headSize) :
    ofBytes (Text.encode (Text.withReturns text)) = ofBytes (Text.encode text) ∧
    ∀ entry ∈ fields, ∀ value,
      FieldValue IsOpeningTag entry.1 (Content.unmarked text) value ↔
        entry.2 (ofBytes (Text.encode text)) = value := by
  have hplain := (Text.length_encode_le_withReturns text).trans hsize
  have hreturns : ofBytes (Text.encode (Text.withReturns text)) =
      ofText (Text.withReturns (Content.unmarked text)) := by
    rw [ofBytes, Content.head_eq_decode hsize, Content.decode_encode, Content.unmarked_withReturns]
  have hfeeds : ofBytes (Text.encode text) = ofText (Content.unmarked text) := by
    rw [ofBytes, Content.head_eq_decode hplain, Content.decode_encode]
  rw [hreturns, hfeeds]
  constructor
  · refine ext_fields fun entry hentry => ?_
    rw [value_ofText hentry, value_ofText hentry,
      field?_withReturns (isFieldName_of_mem hentry).1 (isFieldName_of_mem hentry).2]
  · intro entry hentry value
    rw [value_ofText hentry]
    exact fieldValue_iff (isFieldName_of_mem hentry).1

/-- A header with an end inside a value, and with a second line for one field. -/
def commentedText : String := "<?PHP /* Version: 1 ?> */\n * version: 2"

theorem header_of_lines_comment :
    (Text.encode (Text.withReturns commentedText)).length ≤ Content.headSize ∧
    (ofBytes (Text.encode (Text.withReturns commentedText))).version = some "1" ∧
    FieldValue IsOpeningTag "version" (Content.unmarked commentedText) (some "1") := by
  have hsize : (Text.encode (Text.withReturns commentedText)).length ≤ Content.headSize := by
    decide +kernel
  have hvalue : (ofBytes (Text.encode commentedText)).version = some "1" := by decide +kernel
  have hmem : ("version", Header.version) ∈ fields := by simp [fields]
  obtain ⟨hsame, hfields⟩ := header_of_lines commentedText hsize
  refine ⟨hsize, ?_, ?_⟩
  · rw [hsame]
    exact hvalue
  · exact (hfields _ hmem _).mpr hvalue

/-- No line names a field if neither what follows its comment marks does, nor the line begins
with the tag itself. -/
theorem not_givesField_exact {field line : List Char} (hfield : IsFieldName field)
    (hplain : Text.dropWordList? (field ++ [':']) (line.dropWhile isCommentMark) = none)
    (htag : "<?php".toList.isPrefixOf (line.dropWhile isIndent) = false) (rest : List Char) :
    ¬ GivesField (· = "<?php".toList) field line rest := by
  intro h
  cases h with
  | plain hline hmarks hname =>
    rw [(dropName_eq_some_iff hfield).mpr ⟨_, _, hline, hmarks, hname⟩] at hplain
    cases hplain
  | tagged hline hblanks hopening hmarks hname =>
    rw [hline, List.dropWhile_append_of_pos hblanks, hopening,
      show "<?php".toList = ['<', '?', 'p', 'h', 'p'] from rfl, List.cons_append,
      List.dropWhile_cons_of_neg (by decide)] at htag
    simp at htag

theorem not_fieldValue_exact {text value : String}
    (hscan : ∀ line ∈ Text.split '\n' text,
      Text.dropWordList? ("version".toList ++ [':']) (line.toList.dropWhile isCommentMark) = none ∧
        "<?php".toList.isPrefixOf (line.toList.dropWhile isIndent) = false) :
    ¬ FieldValue (· = "<?php".toList) "version" text (some value) := by
  rintro (⟨hnone, -⟩ | ⟨before, line, after, rest, -, hsplit, -, hgives, -⟩)
  · cases hnone
  · obtain ⟨hplain, htag⟩ := hscan line (by rw [hsplit]; simp)
    exact not_givesField_exact (isFieldName_of_first (by decide) (by decide)) hplain htag rest hgives

/-- A tag in capitals and a byte-order mark are passed over, although neither is an opening tag
to the letter: the version behind them is read. -/
theorem header_of_lines_capital_tag_and_mark :
    ((Text.encode (Text.withReturns "<?PHP Version: 1")).length ≤ Content.headSize ∧
      ¬ FieldValue (· = "<?php".toList) "version" "<?PHP Version: 1"
        (ofBytes (Text.encode "<?PHP Version: 1")).version) ∧
    ((Text.encode (Text.withReturns "\uFEFFVersion: 1")).length ≤ Content.headSize ∧
      ¬ FieldValue (· = "<?php".toList) "version" "\uFEFFVersion: 1"
        (ofBytes (Text.encode "\uFEFFVersion: 1")).version) := by
  have htag : (ofBytes (Text.encode "<?PHP Version: 1")).version = some "1" := by decide +kernel
  have hmark : (ofBytes (Text.encode "\uFEFFVersion: 1")).version = some "1" := by decide +kernel
  rw [htag, hmark]
  exact ⟨⟨by decide +kernel, not_fieldValue_exact (by decide +kernel)⟩,
    by decide +kernel, not_fieldValue_exact (by decide +kernel)⟩

end Header

end PluginAtlas
