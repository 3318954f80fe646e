import PluginAtlas.Describe.Reply
import PluginAtlas.Proofs.JsonLayouts

/-!
# Replies are read through their wrapping

A reply holds an object, written in any of its texts, with prose and code fences around it.
What is read is the object, whatever the keys and the texts inside hold: backticks, whole
fences, braces, line ends of any kind.

Fences are removed from the whole reply before the first brace is looked for. They never reach
into the object. In front of it, a fence ends at the brace at the latest. Inside, a backtick
stands between two quotation marks of its line, for a line end is written as an escape: so no
backtick begins a line, as that of an opening fence does, and none has only blanks between
itself and the end of its line, as a closing fence has.

## Main definitions

* `QuotesBackticks`: every backtick stands between two quotation marks of its line.

## Main results

* `Json.WrittenAs.quotesBackticks`: texts of values are such texts.
* `exists_removeFences`: fences around an object do not reach into it.
* `descriptionsIn_wrapped`: the texts of the object are what is read.
-/

namespace PluginAtlas

/-! ### Backticks -/

/-- A character that is not the last of a text has the last behind it. -/
theorem exists_of_append_singleton {cs before after : List Char} {c last : Char} (hne : c ≠ last)
    (h : cs ++ [last] = before ++ c :: after) :
    ∃ more, cs = before ++ c :: more ∧ after = more ++ [last] := by
  rcases List.append_eq_append_iff.mp h with ⟨more, -, hlast⟩ | ⟨more, rfl, hafter⟩
  · have hmem : c ∈ [last] := hlast ▸ List.mem_append_right more List.mem_cons_self
    exact absurd (List.mem_singleton.mp hmem) hne
  · cases more with
    | nil => exact absurd (List.cons.inj hafter).1 hne
    | cons d more =>
      obtain ⟨rfl, rfl⟩ := List.cons.inj hafter
      exact ⟨more, rfl, rfl⟩

/-- Every backtick stands between two quotation marks of its line. -/
def QuotesBackticks (cs : List Char) : Prop :=
  ∀ before after, cs = before ++ '\x60' :: after →
    (∃ front line, before = front ++ '"' :: line ∧ '\n' ∉ line) ∧
      ∃ line back, after = line ++ '"' :: back ∧ '\n' ∉ line

namespace QuotesBackticks

variable {cs ds : List Char}

theorem of_notMem (h : '\x60' ∉ cs) : QuotesBackticks cs := by
  rintro before after rfl
  simp at h

theorem append (h : QuotesBackticks cs) (h' : QuotesBackticks ds) :
    QuotesBackticks (cs ++ ds) := by
  intro before after heq
  rcases List.append_eq_append_iff.mp heq with ⟨more, rfl, hds⟩ | ⟨more, hcs, hafter⟩
  · obtain ⟨⟨front, line, rfl, hline⟩, hback⟩ := h' more after hds
    exact ⟨⟨cs ++ front, line, by simp, hline⟩, hback⟩
  · cases more with
    | nil =>
      -- A text of this kind does not begin with a backtick.
      obtain ⟨⟨front, line, hnil, -⟩, -⟩ := h' [] after (by simpa using hafter.symm)
      simp at hnil
    | cons c more =>
      obtain ⟨rfl, rfl⟩ := List.cons.inj hafter
      obtain ⟨hfront, line, back, rfl, hline⟩ := h before more hcs
      exact ⟨hfront, line, back ++ ds, by simp, hline⟩

theorem cons {c : Char} (hc : c ≠ '\x60') (h : QuotesBackticks cs) : QuotesBackticks (c :: cs) :=
  (of_notMem (mt List.mem_singleton.mp hc.symm)).append h

theorem quoted (h : '\n' ∉ cs) : QuotesBackticks ('"' :: (cs ++ ['"'])) := by
  intro before after heq
  cases before with
  | nil => exact absurd (List.cons.inj heq).1 (by decide)
  | cons c before =>
    obtain ⟨rfl, hrest⟩ := List.cons.inj heq
    obtain ⟨line, rfl, rfl⟩ := exists_of_append_singleton (by decide) hrest
    simp only [List.mem_append, List.mem_cons, not_or] at h
    exact ⟨⟨[], before, rfl, h.1⟩, line, [], rfl, h.2.2⟩

/-- No backtick begins a line. -/
theorem ne_newline (h : QuotesBackticks cs) (before after : List Char) :
    cs ≠ before ++ '\n' :: '\x60' :: after := by
  rintro rfl
  obtain ⟨⟨front, line, heq, hline⟩, -⟩ := h (before ++ ['\n']) after (by simp)
  obtain ⟨more, -, rfl⟩ := exists_of_append_singleton (by decide) heq
  exact hline (List.mem_append_right more List.mem_cons_self)

theorem intercalate {parts : List (List Char)} (h : ∀ part ∈ parts, QuotesBackticks part) :
    QuotesBackticks ([','].intercalate parts) := by
  induction parts with
  | nil => exact of_notMem (by simp)
  | cons part parts ih =>
    cases parts with
    | nil => simpa using h
    | cons next parts =>
      rw [List.intercalate_cons_cons]
      refine ((h part List.mem_cons_self).append (of_notMem (by simp))).append (ih fun p hp => ?_)
      exact h p (List.mem_cons_of_mem part hp)

end QuotesBackticks

namespace Json

/-- A line end is no part of what characters are written as. -/
theorem SpellsChar.newline_notMem {c : Char} {piece : List Char} (h : SpellsChar c piece) :
    '\n' ∉ piece := by
  have hhex : ∀ {d₁ d₂ d₃ d₄ : Char} {n : Nat}, hexUnit? d₁ d₂ d₃ d₄ = some n →
      '\n' ∉ [d₁, d₂, d₃, d₄] := by
    intro d₁ d₂ d₃ d₄ n h hmem
    have hnone : hexValue? '\n' = none := by decide
    simp only [List.mem_cons, List.not_mem_nil, or_false] at hmem
    rcases hmem with rfl | rfl | rfl | rfl <;> simp [hexUnit?, hnone] at h
  have hu : '\n' ∉ ['\\', 'u'] := by decide
  cases h with
  | plain hmark hescape hcontrol =>
    rw [List.mem_singleton]
    rintro rfl
    exact hcontrol (by decide)
  | @letter e h =>
    simp only [List.mem_cons, List.not_mem_nil, or_false]
    rintro (hslash | rfl)
    · exact absurd hslash (by decide)
    · simp [simpleEscape?] at h
  | unit h => exact fun hmem => (List.mem_append.mp hmem).elim hu (hhex h)
  | pair hhigh hlow =>
    have hfirst := fun hmem => (List.mem_append.mp hmem).elim hu (hhex hhigh)
    have hsecond := fun hmem => (List.mem_append.mp hmem).elim hu (hhex hlow)
    exact fun hmem => (List.mem_append.mp hmem).elim hfirst hsecond

theorem SpellsText.newline_notMem {cs text : List Char} (h : SpellsText cs text) : '\n' ∉ text := by
  induction h with
  | nil => exact List.not_mem_nil
  | cons hc _ ih => exact fun hmem => (List.mem_append.mp hmem).elim hc.newline_notMem ih

theorem backtick_notMem_of_isDigit {ds : List Char} (h : ∀ d ∈ ds, d.isDigit = true) :
    '\x60' ∉ ds :=
  fun hmem => absurd (h _ hmem) (by decide)

theorem IsBlank.backtick_notMem {cs : List Char} (h : IsBlank cs) : '\x60' ∉ cs :=
  fun hmem => absurd (h _ hmem) (by decide)

theorem SpellsDouble.backtick_notMem {text : List Char} (h : SpellsDouble text) :
    '\x60' ∉ text := by
  cases h with
  | word h =>
    have hwords : ∀ word ∈ ["NaN", "Infinity", "-Infinity"], '\x60' ∉ word.toList := by decide
    exact hwords _ h
  | number hsign hwhole hfraction hexponent =>
    simp only [List.mem_append, not_or]
    refine ⟨?_, backtick_notMem_of_isDigit hwhole.1.2, ?_, ?_⟩
    · rcases hsign with rfl | rfl <;> decide
    · cases hfraction with
      | none => exact List.not_mem_nil
      | digits h => simpa using backtick_notMem_of_isDigit h.2
    · cases hexponent with
      | none => exact List.not_mem_nil
      | digits he hsign h =>
        simp only [List.mem_cons, List.mem_append, not_or]
        refine ⟨?_, ?_, backtick_notMem_of_isDigit h.2⟩
        · rcases he with rfl | rfl <;> decide
        · rcases hsign with rfl | rfl | rfl <;> decide

theorem SpellsKey.quotesBackticks {key : String} {cs : List Char} (h : SpellsKey key cs) :
    QuotesBackticks cs := by
  obtain ⟨before, inside, after, rfl, hbefore, hinside, hafter⟩ := h
  have hquoted := QuotesBackticks.quoted hinside.newline_notMem
  have hall := (QuotesBackticks.of_notMem hbefore.backtick_notMem).append
    (hquoted.append (.of_notMem hafter.backtick_notMem))
  simpa using hall

/-- In every text of a value, the backticks stand in quotation marks. -/
theorem WrittenAs.quotesBackticks {value : Json} {text : List Char} (h : value.WrittenAs text) :
    QuotesBackticks text := by
  induction h with
  | null => exact .of_notMem (by decide)
  | bool b => exact .of_notMem (by cases b <;> decide)
  | @int n =>
    have hdigits := (isWhole_toDigits n.natAbs).1.2
    refine .of_notMem ?_
    rw [toList_ofInt, List.mem_append, not_or]
    exact ⟨by split <;> decide, backtick_notMem_of_isDigit hdigits⟩
  | float x h => exact .of_notMem h.backtick_notMem
  | str h => exact .quoted h.newline_notMem
  | @arr blank hblank items hitems ih =>
    have hparts := QuotesBackticks.intercalate (List.forall_mem_map.mpr ih)
    exact .cons (by decide) <| (QuotesBackticks.of_notMem hblank.backtick_notMem).append <|
      hparts.append (.of_notMem (by decide))
  | @obj blank hblank fields hkeys hvalues ih =>
    have hfields : ∀ field ∈ fields, QuotesBackticks field.text := fun field hfield =>
      (hkeys field hfield).quotesBackticks.append (.cons (by decide) (ih field hfield))
    have hparts := QuotesBackticks.intercalate (List.forall_mem_map.mpr hfields)
    exact .cons (by decide) <| (QuotesBackticks.of_notMem hblank.backtick_notMem).append <|
      hparts.append (.of_notMem (by decide))
  | padded hbefore _ hafter ih =>
    exact (QuotesBackticks.of_notMem hbefore.backtick_notMem).append <|
      ih.append (.of_notMem hafter.backtick_notMem)

/-- A text of an object is an object in braces with blanks around it. -/
theorem WrittenAs.exists_braces {fields : List (String × Json)} {text : List Char}
    (h : (Json.obj fields).WrittenAs text) :
    ∃ before inside after, text = before ++ ('\x7b' :: (inside ++ ['\x7d']) ++ after) ∧
      IsBlank before ∧ IsBlank after ∧
      (Json.obj fields).WrittenAs ('\x7b' :: (inside ++ ['\x7d'])) := by
  generalize hvalue : Json.obj fields = value at h
  induction h with
  | null | bool | int | float | str | arr => cases hvalue
  | @obj blank hblank fields hkeys hvalues =>
    refine ⟨[], blank ++ [','].intercalate (fields.map FieldText.text), [], by simp,
      List.forall_mem_nil _, List.forall_mem_nil _, ?_⟩
    rw [List.append_assoc]
    exact .obj hblank hkeys hvalues
  | @padded value before text after hbefore _ hafter ih =>
    obtain ⟨front, inside, back, rfl, hfront, hback, hwritten⟩ := ih hvalue
    refine ⟨before ++ front, inside, back ++ after, by simp, ?_, ?_, hwritten⟩
    · exact List.forall_mem_append.mpr ⟨hbefore, hfront⟩
    · exact List.forall_mem_append.mpr ⟨hback, hafter⟩

end Json

namespace Describe

/-! ### Fences in front of a mark

A mark is a character that is neither a blank nor part of a fence. No fence reaches over it. -/

section Mark

variable {c : Char} {cs rest : List Char}

theorem takeWhile_append_mark {p : Char → Bool} (hc : p c = false) (cs rest : List Char) :
    (cs ++ c :: rest).takeWhile p = cs.takeWhile p := by
  induction cs with
  | nil => simp [hc]
  | cons d cs ih => simp only [List.cons_append, List.takeWhile_cons, ih]

/-- A word without the mark ends in front of it. -/
theorem exists_of_isPrefixOf {word : List Char} (hc : c ∉ word)
    (h : word.isPrefixOf (cs ++ c :: rest) = true) : ∃ more, cs = word ++ more := by
  obtain ⟨more, hmore⟩ := List.isPrefixOf_iff_prefix.mp h
  rcases List.append_eq_append_iff.mp hmore with ⟨front, rfl, -⟩ | ⟨front, rfl, hfront⟩
  · exact ⟨front, rfl⟩
  · cases front with
    | nil => exact ⟨[], by simp⟩
    | cons d front =>
      obtain ⟨rfl, -⟩ := List.cons.inj hfront
      exact absurd (List.mem_append_right cs List.mem_cons_self) hc

theorem afterFence?_of_mark (hc : c ≠ '\x60') {after : List Char}
    (h : afterFence? (cs ++ c :: rest) = some after) :
    ∃ more, cs = fence ++ more ∧ after = more ++ c :: rest := by
  have hfence : c ∉ fence := by simpa [fence] using hc
  rw [afterFence?] at h
  split at h
  · next hbegins =>
    obtain ⟨more, rfl⟩ := exists_of_isPrefixOf hfence hbegins
    rw [List.append_assoc, List.drop_left] at h
    exact ⟨more, rfl, (Option.some.inj h).symm⟩
  · exact absurd h (by simp)

theorem openingLength?_le {n : Nat} (h : openingLength? (cs ++ '\x7b' :: rest) = some n) :
    n ≤ cs.length := by
  have hblank : Text.isBlank '\x7b' = false := by decide
  obtain ⟨after, hafter, rfl⟩ := Option.map_eq_some_iff.mp h
  obtain ⟨more, rfl, rfl⟩ := afterFence?_of_mark (by decide) hafter
  simp only [List.length_append]
  split
  · next hjson =>
    obtain ⟨more, rfl⟩ := exists_of_isPrefixOf (by decide) hjson
    have hdrop : ("json".toList ++ more ++ '\x7b' :: rest).drop 4 = more ++ '\x7b' :: rest := rfl
    have hle := (List.takeWhile_sublist (l := more) Text.isBlank).length_le
    rw [hdrop, takeWhile_append_mark hblank, List.length_append,
      show "json".toList.length = 4 from rfl]
    omega
  · have hle := (List.takeWhile_sublist (l := more) Text.isBlank).length_le
    rw [List.drop_zero, takeWhile_append_mark hblank]
    omega

theorem closingBlanks?_le (hc : Text.isBlank c = false) {n : Nat}
    (h : closingBlanks? (cs ++ c :: rest) = some n) : n ≤ cs.length := by
  have hle := (List.takeWhile_sublist (l := cs) Text.isBlank).length_le
  simp only [closingBlanks?, takeWhile_append_mark hc] at h
  split at h
  · have := Option.some.inj h
    omega
  split at h
  · have hdrop := (List.dropWhile_suffix (l := (cs.takeWhile Text.isBlank).reverse)
      (· != '\n')).length_le
    rw [List.length_reverse] at hdrop
    have := Option.some.inj h
    rw [Nat.pred_eq_sub_one] at this
    omega
  · exact absurd h (by simp)

/-- A closing fence begins behind the blanks in front of the mark. -/
theorem closingLength?_of_mark (hc : Text.isBlank c = false) :
    closingLength? (cs ++ c :: rest) =
      (afterFence? (cs.dropWhile Text.isBlank ++ c :: rest)).bind fun after =>
        (closingBlanks? after).map fun more =>
          (cs.takeWhile Text.isBlank).length + fence.length + more := by
  have hdrop : (cs ++ c :: rest).drop (cs.takeWhile Text.isBlank).length =
      cs.dropWhile Text.isBlank ++ c :: rest := by
    calc (cs ++ c :: rest).drop (cs.takeWhile Text.isBlank).length
        = (cs.takeWhile Text.isBlank ++ (cs.dropWhile Text.isBlank ++ c :: rest)).drop
            (cs.takeWhile Text.isBlank).length := by
          rw [← List.append_assoc, List.takeWhile_append_dropWhile]
      _ = cs.dropWhile Text.isBlank ++ c :: rest := List.drop_left
  simp only [closingLength?, takeWhile_append_mark hc, hdrop]

theorem closingLength?_le {n : Nat} (h : closingLength? (cs ++ '\x7b' :: rest) = some n) :
    n ≤ cs.length := by
  rw [closingLength?_of_mark (by decide)] at h
  obtain ⟨after, hafter, hclosing⟩ := Option.bind_eq_some_iff.mp h
  obtain ⟨more, hmore, rfl⟩ := Option.map_eq_some_iff.mp hclosing
  obtain ⟨text, htext, rfl⟩ := afterFence?_of_mark (by decide) hafter
  have hle := closingBlanks?_le (by decide) hmore
  have hcs := congrArg List.length (List.takeWhile_append_dropWhile (p := Text.isBlank) (l := cs))
  rw [htext] at hcs
  simp only [List.length_append] at hcs
  omega

end Mark

/-! ### Removing fences around an object -/

/-- In front of a brace, some characters are left of a text without braces, and then the brace
is reached. -/
theorem exists_removeOpening (rest : List Char) :
    ∀ (cs : List Char) (n : Nat) (start : Bool), n ≤ cs.length → '\x7b' ∉ cs →
      ∃ left start', '\x7b' ∉ left ∧
        removeOpening start n (cs ++ '\x7b' :: rest) =
          left ++ removeOpening start' 0 ('\x7b' :: rest) := by
  intro cs
  induction cs with
  | nil =>
    intro n start hn _
    obtain rfl : n = 0 := Nat.le_zero.mp hn
    exact ⟨[], start, List.not_mem_nil, rfl⟩
  | cons c cs ih =>
    intro n start hn hbrace
    obtain ⟨hc, hcs⟩ := not_or.mp (mt List.mem_cons.mpr hbrace)
    cases n with
    | succ n => exact ih n (c == '\n') (Nat.le_of_succ_le_succ hn) hcs
    | zero =>
      rw [List.cons_append, removeOpening]
      split
      · next length hlength =>
        -- The fence is over before the brace.
        have hle : length ≤ (c :: cs).length := by
          split at hlength
          · exact openingLength?_le hlength
          · exact absurd hlength (by simp)
        exact ih (length - 1) (c == '\n') (Nat.sub_le_of_le_add hle) hcs
      · obtain ⟨left, start', hleft, heq⟩ := ih 0 (c == '\n') (Nat.zero_le _) hcs
        exact ⟨c :: left, start', by simp [hc, hleft], by rw [heq]; rfl⟩

theorem exists_removeClosing (rest : List Char) :
    ∀ (cs : List Char) (n : Nat), n ≤ cs.length → '\x7b' ∉ cs →
      ∃ left, '\x7b' ∉ left ∧
        removeClosing n (cs ++ '\x7b' :: rest) = left ++ removeClosing 0 ('\x7b' :: rest) := by
  intro cs
  induction cs with
  | nil =>
    intro n hn _
    obtain rfl : n = 0 := Nat.le_zero.mp hn
    exact ⟨[], List.not_mem_nil, rfl⟩
  | cons c cs ih =>
    intro n hn hbrace
    obtain ⟨hc, hcs⟩ := not_or.mp (mt List.mem_cons.mpr hbrace)
    cases n with
    | succ n => exact ih n (Nat.le_of_succ_le_succ hn) hcs
    | zero =>
      rw [List.cons_append, removeClosing, ← List.cons_append]
      cases hlength : closingLength? (c :: cs ++ '\x7b' :: rest) with
      | some length =>
        have hle : length ≤ (c :: cs).length := closingLength?_le hlength
        exact ih (length - 1) (Nat.sub_le_of_le_add hle) hcs
      | none =>
        obtain ⟨left, hleft, heq⟩ := ih 0 (Nat.zero_le _) hcs
        refine ⟨c :: left, by simp [hc, hleft], ?_⟩
        rw [Option.elim_none, heq, List.cons_append]

/-- Where no backtick begins a line, no opening fence does. -/
theorem exists_removeOpening_append (rest : List Char) :
    ∀ (cs : List Char) (start : Bool), (∀ before after, cs ≠ before ++ '\n' :: '\x60' :: after) →
      (start = true → cs.head? ≠ some '\x60') →
      ∃ start', removeOpening start 0 (cs ++ rest) = cs ++ removeOpening start' 0 rest := by
  intro cs
  induction cs with
  | nil => exact fun start _ _ => ⟨start, rfl⟩
  | cons c cs ih =>
    intro start hlines hstart
    have hnone : (if start then openingLength? (c :: (cs ++ rest)) else none) = none := by
      split
      · next htrue =>
        have hc : '\x60' ≠ c := by simpa using (hstart htrue).symm
        simp [openingLength?, afterFence?, fence, List.isPrefixOf, hc]
      · rfl
    obtain ⟨start', heq⟩ := ih (c == '\n') (fun before after hcs => hlines (c :: before) after
      (by rw [hcs]; rfl)) fun hc hhead => by
        obtain rfl := beq_iff_eq.mp hc
        obtain ⟨after, rfl⟩ : ∃ after, cs = '\x60' :: after := List.head?_eq_some_iff.mp hhead
        exact hlines [] after rfl
    exact ⟨start', by rw [List.cons_append, removeOpening, hnone, heq]; rfl⟩

/-- Where no closing fence begins, nothing is removed. -/
theorem removeClosing_append {rest : List Char} :
    ∀ {cs : List Char}, (∀ before c after, cs = before ++ c :: after →
      closingLength? (c :: after ++ rest) = none) →
      removeClosing 0 (cs ++ rest) = cs ++ removeClosing 0 rest := by
  intro cs
  induction cs with
  | nil => exact fun _ => rfl
  | cons c cs ih =>
    intro hnone
    have heq := ih fun before d after hcs => hnone (c :: before) d after (by rw [hcs]; rfl)
    have hfirst := hnone [] c cs rfl
    rw [List.cons_append] at hfirst ⊢
    rw [removeClosing, hfirst, Option.elim_none, heq, List.cons_append]

theorem closingBlanks?_eq_none {line : List Char} (h : '\n' ∉ line) (rest : List Char) :
    closingBlanks? (line ++ '"' :: rest) = none := by
  have hblanks := List.takeWhile_sublist (l := line) Text.isBlank
  have hlength : (line.takeWhile Text.isBlank).length ≠ (line ++ '"' :: rest).length := by
    have := hblanks.length_le
    rw [List.length_append, List.length_cons]
    omega
  have hlines : ¬ (line.takeWhile Text.isBlank).contains '\n' = true := by
    rw [List.contains_iff_mem]
    exact fun hmem => h (hblanks.subset hmem)
  simp only [closingBlanks?, takeWhile_append_mark (show Text.isBlank '"' = false by decide),
    if_neg hlength, if_neg hlines]

/-- No closing fence begins inside braces where backticks stand in quotation marks. -/
theorem closingLength?_eq_none {front cs : List Char}
    (h : QuotesBackticks (front ++ (cs ++ ['\x7d']))) (rest : List Char) :
    closingLength? (cs ++ '\x7d' :: rest) = none := by
  rw [closingLength?_of_mark (by decide)]
  cases hafter : afterFence? (cs.dropWhile Text.isBlank ++ '\x7d' :: rest) with
  | none => rfl
  | some after =>
    obtain ⟨more, hmore, rfl⟩ := afterFence?_of_mark (by decide) hafter
    -- Behind the first backtick of the fence stands a quotation mark of its line.
    have hcs : cs = cs.takeWhile Text.isBlank ++ (fence ++ more) := by
      rw [← hmore, List.takeWhile_append_dropWhile]
    obtain ⟨-, line, back, hline, hnewline⟩ := h (front ++ cs.takeWhile Text.isBlank)
      ('\x60' :: '\x60' :: (more ++ ['\x7d'])) (by
        conv_lhs => rw [hcs]
        simp [fence])
    rcases line with _ | ⟨d, _ | ⟨d', line⟩⟩
    · exact absurd (List.cons.inj hline).1 (by decide)
    · exact absurd (List.cons.inj (List.cons.inj hline).2).1 (by decide)
    · have hmark : more ++ ['\x7d'] = line ++ '"' :: back :=
        (List.cons.inj (List.cons.inj hline).2).2
      have hrest : more ++ '\x7d' :: rest = line ++ '"' :: (back ++ rest) := by
        rw [← List.singleton_append, ← List.append_assoc, hmark, List.append_assoc,
          List.cons_append]
      simp only [List.mem_cons, not_or] at hnewline
      rw [Option.bind_some, hrest, closingBlanks?_eq_none hnewline.2.2, Option.map_none]

/-- Fences around an object do not reach into it, and what is left in front of it still has no
brace. -/
theorem exists_removeFences {before inside : List Char} (hbefore : '\x7b' ∉ before)
    (h : QuotesBackticks ('\x7b' :: (inside ++ ['\x7d']))) (after : List Char) :
    ∃ left right, '\x7b' ∉ left ∧
      removeFences (before ++ ('\x7b' :: (inside ++ ['\x7d']) ++ after)) =
        left ++ ('\x7b' :: (inside ++ ['\x7d']) ++ right) := by
  obtain ⟨front, start, hfront, hopening⟩ := exists_removeOpening (inside ++ ['\x7d'] ++ after)
    before 0 true (Nat.zero_le _) hbefore
  obtain ⟨start', hinside⟩ := exists_removeOpening_append after ('\x7b' :: (inside ++ ['\x7d']))
    start h.ne_newline fun _ => by simp
  obtain ⟨left, hleft, hclosing⟩ := exists_removeClosing
    (inside ++ ['\x7d'] ++ removeOpening start' 0 after) front 0 (Nat.zero_le _) hfront
  refine ⟨left, removeClosing 0 (removeOpening start' 0 after), hleft, ?_⟩
  rw [List.cons_append] at hinside ⊢
  rw [removeFences, hopening, hinside, List.cons_append, hclosing, ← List.cons_append,
    removeClosing_append, List.cons_append]
  intro first c last heq
  -- What begins inside the braces ends with the closing one.
  obtain ⟨more, hmore⟩ : ∃ more, c :: last = more ++ ['\x7d'] := by
    rcases List.append_eq_append_iff.mp (show '\x7b' :: inside ++ ['\x7d'] = first ++ c :: last from
      heq) with ⟨more, -, hlast⟩ | ⟨more, -, hlast⟩
    · obtain rfl : more = [] := List.length_eq_zero_iff.mp (by
        have := congrArg List.length hlast
        simp only [List.length_append, List.length_cons, List.length_nil] at this
        omega)
      exact ⟨[], by simpa using hlast.symm⟩
    · exact ⟨more, hlast⟩
  rw [heq, hmore] at h
  rw [hmore, List.append_assoc]
  exact closingLength?_eq_none h _

/-- The texts among the fields depend on their keys and texts alone. -/
theorem textsOf_obj (fields : List (String × Json)) :
    textsOf (.obj fields) = (fields.map fun field => (field.1, field.2.text?)).filterMap
      fun field => field.2.map (field.1, ·) := by
  rw [textsOf, List.filterMap_map]
  congr 1
  funext ⟨key, value⟩
  cases value <;> rfl

/-- An object at the front of a text is read, whatever follows it. -/
theorem readObject_of_written {fields : List (String × Json)} {text : List Char}
    (hkeys : (fields.map Prod.fst).Nodup) (h : (Json.obj fields).WrittenAs ('\x7b' :: text))
    (rest : List Char) :
    ∃ read, readObject ('\x7b' :: text ++ rest) = .ok (some read) ∧
      textsOf read = textsOf (.obj fields) := by
  obtain ⟨read, left, hsame, hread, -⟩ := h.reads (2 * ('\x7b' :: text ++ rest).length + 2) rest
    (by rw [List.length_append]; omega) fun hnumber => hnumber.elim
  obtain ⟨fields', rfl, hfields⟩ := hsame.sameTexts.fields fields rfl hkeys
  rw [List.cons_append, Json.skipSpace_cons rfl] at hread
  refine ⟨.obj fields', ?_, ?_⟩
  · rw [List.cons_append, readObject, Json.readFront, hread]
  · rw [textsOf_obj, textsOf_obj, hfields]

/-- Without its fences, a reply has its first brace where the object begins. -/
theorem exists_dropWhile_removeFences {before inside : List Char} (hbefore : '\x7b' ∉ before)
    (h : QuotesBackticks ('\x7b' :: (inside ++ ['\x7d']))) (after : List Char) :
    ∃ right, (removeFences (before ++ ('\x7b' :: (inside ++ ['\x7d']) ++ after))).dropWhile
      (· != '\x7b') = '\x7b' :: (inside ++ ['\x7d']) ++ right := by
  obtain ⟨left, right, hleft, hfences⟩ := exists_removeFences hbefore h after
  have hmarks : ∀ c ∈ left, (c != '\x7b') = true :=
    fun c hc => bne_iff_ne.mpr fun heq => hleft (heq ▸ hc)
  refine ⟨right, ?_⟩
  rw [hfences, List.dropWhile_append_of_pos hmarks]
  rfl

/-- A reply is read through its wrapping. Around any text of an object with distinct keys may
stand anything, but no brace in front of it: what is read are the fields with texts, unchanged
and in their order, without a notice. What a layout writes is such a text, if the whole numbers
of the object are short enough to be read. -/
theorem descriptionsIn_wrapped (fields : List (String × Json))
    (hkeys : (fields.map Prod.fst).Nodup) :
    (∀ text before after : String, (Json.obj fields).WrittenAs text.toList →
      '\x7b' ∉ before.toList →
      descriptionsIn (before ++ text ++ after) =
        pure (.ok (fields.filterMap fun field => field.2.text?.map (field.1, ·)))) ∧
    ((Json.obj fields).HasShortIntegers → ∀ (layout : Json.Layout) (before after : String),
      '\x7b' ∉ before.toList →
      descriptionsIn (before ++ Json.render layout (.obj fields) ++ after) =
        pure (.ok (fields.filterMap fun field => field.2.text?.map (field.1, ·)))) := by
  have hwrapped : ∀ text before after : String, (Json.obj fields).WrittenAs text.toList →
      '\x7b' ∉ before.toList →
      descriptionsIn (before ++ text ++ after) = pure (.ok (textsOf (.obj fields))) := by
    intro text before after htext hbefore
    -- The blanks around the object belong to what stands around it.
    obtain ⟨front, inside, back, hsplit, hfront, -, hwritten⟩ := htext.exists_braces
    have hbrace : '\x7b' ∉ before.toList ++ front := by
      rw [List.mem_append, not_or]
      exact ⟨hbefore, fun hmem => absurd (hfront _ hmem) (by decide)⟩
    have hreply : (before ++ text ++ after).toList = before.toList ++ front ++
        ('\x7b' :: (inside ++ ['\x7d']) ++ (back ++ after.toList)) := by
      rw [String.toList_append, String.toList_append, hsplit]
      simp only [List.append_assoc]
    obtain ⟨right, hdrop⟩ := exists_dropWhile_removeFences hbrace hwritten.quotesBackticks
      (back ++ after.toList)
    obtain ⟨read, hread, htexts⟩ := readObject_of_written hkeys hwritten right
    rw [descriptionsIn, hreply, hdrop]
    rw [List.cons_append] at hread ⊢
    simp only [hread, htexts]
  have htexts : textsOf (.obj fields) =
      fields.filterMap fun field => field.2.text?.map (field.1, ·) := by
    rw [textsOf_obj, List.filterMap_map]
    rfl
  rw [← htexts]
  exact ⟨hwrapped, fun hshort layout before after =>
    hwrapped _ before after (hshort.render_writtenAs layout)⟩

/-- A reply whose texts hold fences, braces and line separators. -/
def fencedFields : List (String × Json) := [
  ("\x60\u2028\x7b", .str "\x60\x60\x60json\n\x7b\x7d\n\x60\x60\x60"),
  ("sizes", .arr [.int 7, .float Decimal.Binary64.nan, .obj [("\x60", .null), ("\x60", .null)]]),
  ("\n\x60\x60\x60\n", .str "\x7d\"\x60\x60\x60\u0085")]

theorem descriptionsIn_wrapped_fenced :
    (Json.obj fencedFields).HasShortIntegers ∧
      descriptionsIn ("Sure:\n\x60\x60\x60json\n" ++ Json.render .pretty (.obj fencedFields) ++
        "\n\x60\x60\x60\n\x7b\x7d") =
      pure (.ok [("\x60\u2028\x7b", "\x60\x60\x60json\n\x7b\x7d\n\x60\x60\x60"),
        ("\n\x60\x60\x60\n", "\x7d\"\x60\x60\x60\u0085")]) := by
  have hshort : (Json.obj fencedFields).HasShortIntegers := by
    refine .obj ?_
    simp only [fencedFields, List.forall_mem_cons]
    refine ⟨.str _, .arr ?_, .str _, List.forall_mem_nil _⟩
    simp only [List.forall_mem_cons]
    refine ⟨.int (by decide), .float _, .obj ?_, List.forall_mem_nil _⟩
    simp only [List.forall_mem_cons]
    exact ⟨.null, .null, List.forall_mem_nil _⟩
  exact ⟨hshort, (descriptionsIn_wrapped fencedFields (by decide)).2 hshort .pretty _ _ (by decide)⟩

end Describe

end PluginAtlas
