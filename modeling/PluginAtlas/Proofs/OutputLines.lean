import PluginAtlas.Proofs.RestSpellings
import PluginAtlas.Script.Reader

/-!
# The lines of an output

An output is divided at every line boundary, its lines are trimmed, and blank ones are left out.
A line in the middle of an output keeps its place among the others, whatever stands before and
behind it, as long as boundaries set it apart.

The last line that is an array is the payload. The search for it goes backwards and is ended by
a line of two kinds: an array, or a list with a number too long to be read. Which of the two
comes last decides whether the search succeeds; if there is neither, there is no payload.

## Main definitions

* `Text.EndsLine`, `Text.StartsLine`: texts in front of and behind a line of its own.
* `HoldsArray`, `HasLongNumber`: the lines that end the search.
* `Payload.StumblesOver`: an output in which a long number comes last.

## Main results

* `contentLines_around`: a line of its own among the lines of an output.
* `Payload.ofOutput_of_array`, `Payload.items_eq_none`: what an output is read as.
* `Payload.exists_stumblesOver`, `Payload.StumblesOver.exists_error`: when it cannot be read.
-/

namespace PluginAtlas

/-! ### Lines at any boundary -/

namespace Text

/-- Nothing, or a text that ends with a line boundary. -/
def EndsLine (s : String) : Prop := ∀ c ∈ s.toList.getLast?, isLineEnd c = true

/-- Nothing, or a text that begins with a line boundary. -/
def StartsLine (s : String) : Prop := ∀ c ∈ s.toList.head?, isLineEnd c = true

theorem endsLine_append_newline (s : String) : EndsLine (s ++ "\n") := by
  intro c hc
  rw [String.toList_append, show "\n".toList = ['\n'] from rfl, List.getLast?_concat] at hc
  obtain rfl : '\n' = c := Option.some.inj hc
  decide

theorem StartsLine.append_newline {s : String} (h : StartsLine s) (rest : String) :
    StartsLine (s ++ "\n" ++ rest) := by
  intro c hc
  rw [String.toList_append, String.toList_append, List.append_assoc] at hc
  cases hs : s.toList with
  | nil =>
    obtain rfl : '\n' = c := by simpa [hs] using hc
    rfl
  | cons d ds =>
    rw [hs] at hc
    exact h c (by rw [hs]; exact hc)

theorem linesFrom_append_of_plain {cs : List Char} (h : ∀ c ∈ cs, isLineEnd c = false)
    (line rest : List Char) :
    linesFrom line (cs ++ rest) = linesFrom (cs.reverse ++ line) rest := by
  induction cs generalizing line with
  | nil => rfl
  | cons c cs ih =>
    obtain ⟨hc, hcs⟩ := List.forall_mem_cons.mp h
    have hreturn : c ≠ '\r' := by
      rintro rfl
      exact absurd hc (by decide)
    rw [List.cons_append, linesFrom]
    · rw [if_neg (by simp [hc]), ih hcs, List.reverse_cons, List.append_assoc]
      rfl
    · rintro _ rfl
      exact absurd rfl hreturn

theorem linesFrom_boundary {c : Char} (h : isLineEnd c = true) (line rest : List Char)
    (hpair : c = '\r' → rest.head? ≠ some '\n') :
    linesFrom line (c :: rest) = line.reverse :: linesFrom [] rest := by
  rw [linesFrom]
  · exact if_pos h
  · rintro more rfl rfl
    exact hpair rfl rfl

/-- Behind a line boundary the lines begin anew, unless it goes on as a pair. -/
theorem linesFrom_append (line front rest : List Char) (hne : front ≠ [])
    (hends : ∀ c ∈ front.getLast?, isLineEnd c = true) (hpair : rest.head? ≠ some '\n') :
    linesFrom line (front ++ rest) = linesFrom line front ++ linesFrom [] rest := by
  -- What follows is either all of the rest or again a text that ends with a boundary.
  have hnext : ∀ {more : List Char}, (more ≠ [] → (∀ c ∈ more.getLast?, isLineEnd c = true) →
      linesFrom [] (more ++ rest) = linesFrom [] more ++ linesFrom [] rest) →
      (more = [] ∨ ∀ c ∈ more.getLast?, isLineEnd c = true) →
      linesFrom [] (more ++ rest) = linesFrom [] more ++ linesFrom [] rest := by
    intro more ih hmore
    by_cases hnil : more = []
    · subst hnil
      rfl
    · exact ih hnil (hmore.resolve_left hnil)
  fun_induction linesFrom line front with
  | case1 => exact absurd rfl hne
  | case2 => exact absurd rfl hne
  | case3 line more ih =>
    rw [List.cons_append, List.cons_append, linesFrom, List.cons_append]
    congr 1
    refine hnext ih ?_
    cases more with
    | nil => exact .inl rfl
    | cons d more => exact .inr (by simpa using hends)
  | case4 line c more hnot hc ih =>
    rw [List.cons_append, linesFrom_boundary hc, List.cons_append]
    · congr 1
      refine hnext ih ?_
      cases more with
      | nil => exact .inl rfl
      | cons d more => exact .inr (by simpa using hends)
    · rintro rfl hhead
      cases more with
      | nil => exact hpair hhead
      | cons d more =>
        obtain rfl : d = '\n' := by simpa using hhead
        exact hnot more rfl rfl
  | case5 line c more hnot hc ih =>
    cases more with
    | nil => exact absurd (hends c rfl) hc
    | cons d more =>
      rw [List.cons_append, linesFrom]
      · rw [if_neg hc]
        exact ih (List.cons_ne_nil _ _) (by simpa using hends)
      · rintro _ rfl heq
        obtain ⟨rfl, -⟩ := List.cons.inj heq
        exact hnot more rfl rfl

/-- A line goes on up to the next boundary. -/
theorem linesFrom_of_boundary {line rest : List Char} (hline : line ≠ [])
    (hrest : ∀ c ∈ rest.head?, isLineEnd c = true) :
    linesFrom line rest = line.reverse :: (linesFrom [] rest).tail := by
  cases rest with
  | nil =>
    rw [linesFrom, if_neg (by simpa using hline)]
    rfl
  | cons c rest =>
    have hc := hrest c rfl
    by_cases hpair : c = '\r' ∧ rest.head? = some '\n'
    · obtain ⟨rfl, hhead⟩ := hpair
      obtain ⟨more, rfl⟩ := List.head?_eq_some_iff.mp hhead
      rfl
    · have hnot : c = '\r' → rest.head? ≠ some '\n' := fun h h' => hpair ⟨h, h'⟩
      rw [linesFrom_boundary hc _ _ hnot, linesFrom_boundary hc _ _ hnot]
      rfl

end Text

namespace Script

namespace Payload

/-- The lines of characters that are not blank, trimmed. -/
def contentOf (lines : List (List Char)) : List String :=
  ((lines.map String.ofList).map Text.strip).filter (· != "")

theorem contentLines_eq (output : String) :
    contentLines output = contentOf (Text.linesFrom [] output.toList) := rfl

theorem contentOf_append (lines more : List (List Char)) :
    contentOf (lines ++ more) = contentOf lines ++ contentOf more := by
  simp only [contentOf, List.map_append, List.filter_append]

theorem contentOf_cons {line : List Char} (h : Text.strip (String.ofList line) ≠ "")
    (lines : List (List Char)) :
    contentOf (line :: lines) = Text.strip (String.ofList line) :: contentOf lines := by
  simp [contentOf, h]

/-- What begins with a boundary has an empty line in front, which does not count. -/
theorem contentOf_tail {rest : List Char} (hrest : ∀ c ∈ rest.head?, Text.isLineEnd c = true) :
    contentOf (Text.linesFrom [] rest).tail = contentOf (Text.linesFrom [] rest) := by
  cases rest with
  | nil => rfl
  | cons c rest =>
    have hc := hrest c rfl
    have hempty : Text.strip (String.ofList []) = "" := by decide +kernel
    have hskip : ∀ lines, contentOf ([] :: lines) = contentOf lines := by
      intro lines
      simp [contentOf, hempty]
    by_cases hpair : c = '\r' ∧ rest.head? = some '\n'
    · obtain ⟨rfl, hhead⟩ := hpair
      obtain ⟨more, rfl⟩ := List.head?_eq_some_iff.mp hhead
      exact (hskip _).symm
    · rw [Text.linesFrom_boundary hc _ _ fun h h' => hpair ⟨h, h'⟩]
      exact (hskip _).symm

/-- A line of its own keeps its place among the lines of an output. -/
theorem contentLines_around {before line rest : String} (hbefore : Text.EndsLine before)
    (hline : ∀ c ∈ line.toList, Text.isLineEnd c = false) (hne : Text.strip line ≠ "")
    (hrest : Text.StartsLine rest) :
    contentLines (before ++ line ++ rest) =
      contentLines before ++ Text.strip line :: contentLines rest := by
  have hchars : line.toList ≠ [] := by
    intro hnil
    obtain rfl : line = "" := String.toList_injective hnil
    exact hne (by decide +kernel)
  have hown : contentOf (Text.linesFrom [] (line.toList ++ rest.toList)) =
      Text.strip line :: contentLines rest := by
    rw [Text.linesFrom_append_of_plain hline, List.append_nil,
      Text.linesFrom_of_boundary (by simpa using hchars) hrest, List.reverse_reverse,
      contentOf_cons (by rwa [String.ofList_toList]), contentOf_tail hrest, String.ofList_toList]
    rfl
  rw [contentLines_eq, String.toList_append, String.toList_append, List.append_assoc]
  by_cases hempty : before.toList = []
  · obtain rfl : before = "" := String.toList_injective hempty
    exact hown
  · rw [Text.linesFrom_append [] _ _ hempty hbefore, contentOf_append, hown]
    · rfl
    · obtain ⟨c, cs, hcs⟩ := List.exists_cons_of_ne_nil hchars
      rw [hcs]
      rintro hhead
      obtain rfl : c = '\n' := by simpa using hhead
      exact absurd (hline '\n' (by rw [hcs]; exact List.mem_cons_self)) (by decide)

end Payload

/-! ### The search for the payload -/

/-- A line that begins as a list and is an array. -/
def HoldsArray (line : String) : Prop :=
  Text.startsWith "[" line = true ∧ ∃ items, Json.parse line = .ok (.arr items)

/-- A line that begins as a list and has a number with too many digits. -/
def HasLongNumber (line : String) (count : Nat) : Prop :=
  Text.startsWith "[" line = true ∧ ∃ e, Json.parse line = .error e ∧ e.fault = .digits count

/-- A line that the search goes past. -/
def IsPassed (line : String) : Prop := ¬ HoldsArray line ∧ ∀ count, ¬ HasLongNumber line count

theorem isPassed_of_not_list {line : String} (h : Text.startsWith "[" line = false) :
    IsPassed line :=
  ⟨fun harray => absurd harray.1 (by rw [h]; exact Bool.false_ne_true),
    fun _ hlong => absurd hlong.1 (by rw [h]; exact Bool.false_ne_true)⟩

theorem isPassed_of_malformed {line : String} {e : Json.ParseError}
    (h : Json.parse line = .error e) (hmalformed : e.isMalformed = true) : IsPassed line := by
  constructor
  · rintro ⟨-, items, hread⟩
    cases h.symm.trans hread
  · rintro count ⟨-, e', hread, hcount⟩
    obtain rfl := Except.error.inj (h.symm.trans hread)
    rw [Json.ParseError.isMalformed, hcount] at hmalformed
    cases hmalformed

namespace Payload

theorem isMalformed_eq_false_iff {e : Json.ParseError} :
    e.isMalformed = false ↔ ∃ count, e.fault = .digits count := by
  unfold Json.ParseError.isMalformed
  split <;> simp_all

/-- The search goes past a line that is neither an array nor has a long number. -/
theorem search_cons_of_isPassed {line : String} (h : IsPassed line) (before : List String) :
    search (line :: before) = search before := by
  rw [search]
  split
  · next hstart =>
    split
    · next items hread => exact absurd ⟨hstart, items, hread⟩ h.1
    · rfl
    · next e hread =>
      refine if_pos ?_
      by_contra hmalformed
      obtain ⟨count, hcount⟩ := isMalformed_eq_false_iff.mp (Bool.eq_false_iff.mpr hmalformed)
      exact h.2 count ⟨hstart, e, hread, hcount⟩
  · rfl

theorem search_append_of_isPassed {later : List String} (h : ∀ line ∈ later, IsPassed line)
    (before : List String) : search (later ++ before) = search before := by
  induction later with
  | nil => rfl
  | cons line later ih =>
    obtain ⟨hline, hlater⟩ := List.forall_mem_cons.mp h
    rw [List.cons_append, search_cons_of_isPassed hline, ih hlater]

theorem search_of_array {line : String} {items : List Json} (hstart : Text.startsWith "[" line = true)
    (hread : Json.parse line = .ok (.arr items)) (before : List String) :
    search (line :: before) = .ok (some (items, before.reverse)) := by
  rw [search, if_pos hstart, hread]

theorem search_of_hasLongNumber {line : String} {count : Nat} (h : HasLongNumber line count)
    (before : List String) : ∃ e, search (line :: before) = .error e ∧ e.fault = .digits count := by
  obtain ⟨hstart, e, hread, hfault⟩ := h
  refine ⟨e, ?_, hfault⟩
  rw [search, if_pos hstart, hread]
  exact if_neg (by rw [isMalformed_eq_false_iff.mpr ⟨count, hfault⟩]; exact Bool.false_ne_true)

/-- A search that fails has gone past all lines in front of one with a long number. -/
theorem exists_of_search_eq_error {lines : List String} {e : Json.ParseError}
    (h : search lines = .error e) :
    ∃ later line before count, lines = later ++ line :: before ∧ HasLongNumber line count ∧
      e.fault = .digits count ∧ ∀ l ∈ later, IsPassed l := by
  induction lines with
  | nil => cases h
  | cons line lines ih =>
    by_cases harray : HoldsArray line
    · obtain ⟨hstart, items, hread⟩ := harray
      rw [search_of_array hstart hread] at h
      cases h
    by_cases hlong : ∃ count, HasLongNumber line count
    · obtain ⟨count, hlong⟩ := hlong
      obtain ⟨e', he', hcount⟩ := search_of_hasLongNumber hlong lines
      obtain rfl := Except.error.inj (he'.symm.trans h)
      exact ⟨[], line, lines, count, rfl, hlong, hcount, List.forall_mem_nil _⟩
    -- The line is neither of the two, so that the search goes on.
    · have hpassed : IsPassed line := ⟨harray, not_exists.mp hlong⟩
      rw [search_cons_of_isPassed hpassed] at h
      obtain ⟨later, found, before, count, rfl, hfound, hcount, hlater⟩ := ih h
      exact ⟨line :: later, found, before, count, rfl, hfound, hcount,
        List.forall_mem_cons.mpr ⟨hpassed, hlater⟩⟩

/-- Behind the last line that has a long number, no line of an output is an array. -/
def StumblesOver (output : String) (count : Nat) : Prop :=
  ∃ before line later, contentLines output = before ++ line :: later ∧
    HasLongNumber line count ∧ ∀ l ∈ later, IsPassed l

theorem reverse_of_eq {output line : String} {before later : List String}
    (h : contentLines output = before ++ line :: later) :
    (contentLines output).reverse = later.reverse ++ line :: before.reverse := by
  simp [h]

theorem isPassed_reverse {later : List String} (h : ∀ l ∈ later, IsPassed l) :
    ∀ l ∈ later.reverse, IsPassed l := fun l hl => h l (List.mem_reverse.mp hl)

/-- The last array of an output is its payload, and the lines in front are diagnostics. -/
theorem ofOutput_of_array {output line : String} {before later : List String} {items : List Json}
    (h : contentLines output = before ++ line :: later)
    (hstart : Text.startsWith "[" line = true) (hread : Json.parse line = .ok (.arr items))
    (hlater : ∀ l ∈ later, IsPassed l) : ofOutput output = .ok ⟨some items, before⟩ := by
  have hsearch : search (contentLines output).reverse = .ok (some (items, before)) := by
    rw [reverse_of_eq h, search_append_of_isPassed (isPassed_reverse hlater),
      search_of_array hstart hread, List.reverse_reverse]
  simp only [ofOutput, hsearch]
  rfl

/-- What the search finds is one of the lines that it went over. -/
theorem exists_of_search_eq_some {lines : List String} {found : List Json × List String}
    (h : search lines = .ok (some found)) : ∃ line ∈ lines, HoldsArray line := by
  induction lines with
  | nil => cases h
  | cons line lines ih =>
    by_cases harray : HoldsArray line
    · exact ⟨line, List.mem_cons_self, harray⟩
    by_cases hlong : ∃ count, HasLongNumber line count
    · obtain ⟨count, hlong⟩ := hlong
      obtain ⟨e, he, -⟩ := search_of_hasLongNumber hlong lines
      cases he.symm.trans h
    · rw [search_cons_of_isPassed ⟨harray, not_exists.mp hlong⟩] at h
      obtain ⟨found, hmem, hfound⟩ := ih h
      exact ⟨found, List.mem_cons_of_mem line hmem, hfound⟩

/-- An output without an array has no payload. -/
theorem items_eq_none {output : String} {payload : Payload} (h : ofOutput output = .ok payload)
    (hlines : ∀ line ∈ contentLines output, ¬ HoldsArray line) : payload.items = none := by
  cases hsearch : search (contentLines output).reverse with
  | error e =>
    simp only [ofOutput, hsearch] at h
    cases h
  | ok found =>
    simp only [ofOutput, hsearch] at h
    cases found with
    | none =>
      obtain rfl := Except.ok.inj h
      rfl
    | some found =>
      obtain ⟨line, hmem, hfound⟩ := exists_of_search_eq_some hsearch
      exact absurd hfound (hlines line (List.mem_reverse.mp hmem))

theorem search_eq_error {output : String} {e : Json.ParseError} (h : ofOutput output = .error e) :
    search (contentLines output).reverse = .error e := by
  cases hsearch : search (contentLines output).reverse with
  | error e' =>
    simp only [ofOutput, hsearch] at h
    exact congrArg Except.error (Except.error.inj h)
  | ok found =>
    simp only [ofOutput, hsearch] at h
    cases found <;> cases h

/-- Reading an output fails only over a long number behind the last array. -/
theorem exists_stumblesOver {output : String} {e : Json.ParseError} (h : ofOutput output = .error e) :
    ∃ count, e.fault = .digits count ∧ StumblesOver output count := by
  obtain ⟨later, line, before, count, hlines, hlong, hcount, hlater⟩ :=
    exists_of_search_eq_error (search_eq_error h)
  refine ⟨count, hcount, before.reverse, line, later.reverse, ?_, hlong, isPassed_reverse hlater⟩
  rw [← List.reverse_reverse (contentLines output), hlines]
  simp

/-- There it does fail. -/
theorem StumblesOver.exists_error {output : String} {count : Nat} (h : StumblesOver output count) :
    ∃ e, ofOutput output = .error e ∧ e.fault = .digits count := by
  obtain ⟨before, line, later, hlines, hlong, hlater⟩ := h
  obtain ⟨e, hsearch, hcount⟩ := search_of_hasLongNumber hlong before.reverse
  rw [← search_append_of_isPassed (isPassed_reverse hlater), ← reverse_of_eq hlines] at hsearch
  refine ⟨e, ?_, hcount⟩
  simp only [ofOutput, hsearch]
  rfl

end Payload

end Script

end PluginAtlas
