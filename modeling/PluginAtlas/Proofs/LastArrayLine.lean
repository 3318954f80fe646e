import PluginAtlas.Proofs.ExtractorReports
import PluginAtlas.Proofs.JsonFronts

/-!
# The last array line of an output

The search for the payload goes backwards over the lines of an output, and it looks only at
lines that begin with a bracket. No array is lost that way: a line is trimmed of more characters
than may stand in front of a value, so that an array begins its line.

What the search finds is told by a relation that knows neither the direction nor the bracket:
the last line that is an array with the lines in front of it, or all lines if none is one. A
third case is left. A line that begins as a list may have a number with too many digits, and
behind the last array such a line ends the search with an error.

## Main definitions

* `Payload.IsNoise`: a line that says nothing about the payload.
* `Payload.FoundIn`: what there is to find in lines.

## Main results

* `Payload.startsWith_of_array`: an array begins its line.
* `Payload.ofOutput_finds_last_array`: an output is read as what there is to find in it.
-/

namespace PluginAtlas.Script.Payload

/-! ### Arrays at the front of their lines -/

theorem isTrimmed_of_mem_contentLines {output line : String} (h : line ∈ contentLines output) :
    Text.IsTrimmed line := by
  obtain ⟨s, -, rfl⟩ := List.mem_map.mp (List.mem_filter.mp h).1
  exact Text.isTrimmed_strip s

/-- What may stand in front of a value is trimmed, so that an array begins its line. -/
theorem startsWith_of_array {line : String} (h : Text.IsTrimmed line) {items : List Json}
    (hread : Json.parse line = .ok (.arr items)) : Text.startsWith "[" line = true := by
  rw [← String.ofList_toList (s := line)] at hread
  obtain ⟨before, own, after, hline, hbefore, -, hown⟩ := Json.exists_of_parse hread
  obtain ⟨c, more, rfl, -, -, hbracket⟩ := hown.exists_start
  obtain rfl := hbracket items rfl
  cases before with
  | nil =>
    rw [← String.ofList_toList (s := line), hline]
    exact startsWith_bracket _
  | cons d before =>
    -- the line would begin with a blank
    have hblank := Json.isBlank_of_isSpace (hbefore d List.mem_cons_self)
    have hdark : Text.isBlank d = false := h.1 d (by rw [hline]; rfl)
    cases hblank.symm.trans hdark

/-! ### What there is to find -/

/-- A line that is no array and does not end the search either. -/
def IsNoise (line : String) : Prop :=
  (∀ items, Json.parse line ≠ .ok (.arr items)) ∧ ∀ count, ¬ HasLongNumber line count

theorem IsNoise.isPassed {line : String} (h : IsNoise line) : IsPassed line :=
  ⟨fun ⟨_, items, hread⟩ => h.1 items hread, h.2⟩

/-- What there is to find in lines. -/
inductive FoundIn (lines : List String) : Except Json.ParseError Payload → Prop
  /-- The last array, and the lines in front of it. -/
  | array {before later : List String} {line : String} {items : List Json} :
      lines = before ++ line :: later → Json.parse line = .ok (.arr items) →
      (∀ l ∈ later, IsNoise l) → FoundIn lines (.ok ⟨some items, before⟩)
  /-- Noise only. -/
  | missing : (∀ l ∈ lines, IsNoise l) → FoundIn lines (.ok ⟨none, lines⟩)
  /-- A list with a number that is too long, behind the last array. -/
  | unreadable {before later : List String} {line : String} {e : Json.ParseError} {count : Nat} :
      lines = before ++ line :: later → Text.startsWith "[" line = true →
      Json.parse line = .error e → e.fault = .digits count →
      (∀ l ∈ later, IsNoise l) → FoundIn lines (.error e)

/-- More noise behind the lines hides nothing that is in them. -/
theorem FoundIn.exists_concat {lines : List String} {result : Except Json.ParseError Payload}
    (h : FoundIn lines result) {line : String} (hline : IsNoise line) :
    ∃ result', FoundIn (lines ++ [line]) result' := by
  have hlater : ∀ {later : List String}, (∀ l ∈ later, IsNoise l) →
      ∀ l ∈ later ++ [line], IsNoise l := by
    intro later hlater
    exact List.forall_mem_append.mpr ⟨hlater, List.forall_mem_singleton.mpr hline⟩
  have hsplit : ∀ {before later : List String} {found : String}, lines = before ++ found :: later →
      lines ++ [line] = before ++ found :: (later ++ [line]) := by
    rintro before later found rfl
    rw [List.append_assoc, List.cons_append]
  cases h with
  | array hlines hread hnoise => exact ⟨_, .array (hsplit hlines) hread (hlater hnoise)⟩
  | missing hnoise => exact ⟨_, .missing (hlater hnoise)⟩
  | unreadable hlines hstart hread hcount hnoise =>
    exact ⟨_, .unreadable (hsplit hlines) hstart hread hcount (hlater hnoise)⟩

/-- There is something to find in any lines. -/
theorem exists_foundIn (lines : List String) : ∃ result, FoundIn lines result := by
  -- the last line decides if it is not noise, so the induction takes lines from the end
  induction lines using List.reverseRecOn with
  | nil => exact ⟨_, .missing (List.forall_mem_nil _)⟩
  | append_singleton lines line ih =>
    by_cases harray : ∃ items, Json.parse line = .ok (.arr items)
    · obtain ⟨items, hread⟩ := harray
      exact ⟨_, .array rfl hread (List.forall_mem_nil _)⟩
    by_cases hlong : ∃ count, HasLongNumber line count
    · obtain ⟨count, hstart, e, hread, hcount⟩ := hlong
      exact ⟨_, .unreadable rfl hstart hread hcount (List.forall_mem_nil _)⟩
    · obtain ⟨result, hresult⟩ := ih
      exact hresult.exists_concat ⟨not_exists.mp harray, not_exists.mp hlong⟩

/-! ### What is found -/

theorem ofOutput_of_noise {output : String} (h : ∀ l ∈ contentLines output, IsNoise l) :
    ofOutput output = .ok ⟨none, contentLines output⟩ := by
  have hpassed : ∀ l ∈ (contentLines output).reverse, IsPassed l :=
    isPassed_reverse fun l hl => (h l hl).isPassed
  have hsearch := search_append_of_isPassed hpassed []
  rw [List.append_nil, search] at hsearch
  simp only [ofOutput, hsearch]
  rfl

theorem ofOutput_of_unreadable {output line : String} {before later : List String}
    {e : Json.ParseError} {count : Nat} (h : contentLines output = before ++ line :: later)
    (hstart : Text.startsWith "[" line = true) (hread : Json.parse line = .error e)
    (hcount : e.fault = .digits count) (hlater : ∀ l ∈ later, IsPassed l) :
    ofOutput output = .error e := by
  have hsearch : search (contentLines output).reverse = .error e := by
    rw [reverse_of_eq h, search_append_of_isPassed (isPassed_reverse hlater), search,
      if_pos hstart, hread]
    refine if_neg ?_
    rw [isMalformed_eq_false_iff.mpr ⟨count, hcount⟩]
    exact Bool.false_ne_true
  simp only [ofOutput, hsearch]
  rfl

/-- What there is to find in the lines of an output is what the output is read as. -/
theorem FoundIn.ofOutput_eq {output : String} {result : Except Json.ParseError Payload}
    (h : FoundIn (contentLines output) result) : ofOutput output = result := by
  cases h with
  | @array before later line _ hlines hread hnoise =>
    have hmem : line ∈ contentLines output := by
      rw [hlines]
      exact List.mem_append_right before List.mem_cons_self
    exact ofOutput_of_array hlines (startsWith_of_array (isTrimmed_of_mem_contentLines hmem) hread)
      hread fun l hl => (hnoise l hl).isPassed
  | missing hnoise => exact ofOutput_of_noise hnoise
  | unreadable hlines hstart hread hcount hnoise =>
    exact ofOutput_of_unreadable hlines hstart hread hcount fun l hl => (hnoise l hl).isPassed

/-- An output is read as what there is to find in its lines, and no array is overlooked for
want of a bracket. -/
theorem ofOutput_finds_last_array (output : String) :
    (∀ line ∈ contentLines output, ∀ items, Json.parse line = .ok (.arr items) →
      Text.startsWith "[" line = true) ∧
    ∀ result, ofOutput output = result ↔ FoundIn (contentLines output) result := by
  constructor
  · intro line hline items hread
    exact startsWith_of_array (isTrimmed_of_mem_contentLines hline) hread
  · intro result
    constructor
    · rintro rfl
      obtain ⟨result, hresult⟩ := exists_foundIn (contentLines output)
      rwa [hresult.ofOutput_eq]
    · exact FoundIn.ofOutput_eq

/-- The only array of an output is not found if a list that is never closed stands behind it
and has a number with too many digits. -/
theorem ofOutput_fails_behind_array :
    let noise := External.openList (List.replicate 4301 '1')
    let output := "[]" ++ "\n" ++ noise
    contentLines output = ["[]", noise] ∧ Json.parse "[]" = .ok (.arr []) ∧
      (∀ items, Json.parse noise ≠ .ok (.arr items)) ∧
      ∃ e, ofOutput output = .error e ∧ e.fault = .digits 4301 := by
  intro noise output
  have hwhole : Json.IsWhole (List.replicate 4301 '1') := by
    refine ⟨⟨List.cons_ne_nil _ _, fun d hd => ?_⟩, fun hhead => ?_⟩
    · rw [List.eq_of_mem_replicate hd]
      rfl
    · exact absurd (Option.some.inj hhead) (by decide)
  have hlong : Json.maxDigits < (List.replicate 4301 '1').length := by
    rw [List.length_replicate]
    decide
  have hlines : contentLines output = contentLines ("[]" ++ "\n") ++ [noise] :=
    External.contentLines_openList hwhole (Text.endsLine_append_newline "[]")
  obtain ⟨hstart, e, hread, hcount⟩ := External.openList_hasLongNumber hwhole hlong
  rw [List.length_replicate] at hcount
  refine ⟨?_, by cbv, fun items hitems => ?_, e, ?_, hcount⟩
  · rw [hlines]
    have harray : contentLines ("[]" ++ "\n") = ["[]"] := by decide +kernel
    rw [harray]
    rfl
  · cases hread.symm.trans hitems
  · exact ofOutput_of_unreadable hlines hstart hread hcount (List.forall_mem_nil _)

end PluginAtlas.Script.Payload
