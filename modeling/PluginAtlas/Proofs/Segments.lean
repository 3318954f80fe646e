import PluginAtlas.Ident
import Mathlib.Data.List.Induction
import Mathlib.Data.List.TakeWhile

/-!
# Segments of names

Backslashes divide a qualified name into segments. The operations on names work on the text
and look for backslashes in it, before and after a change of letter case; here each of them
is given by what it does to the segments. The letter case of one segment does not depend on
the others, and no letter becomes a backslash, so that a name can be taken apart before or
after it is brought to lower case.

## Main definitions

* `segments`, `joined`: a name taken apart and put together.
* `lastWord`: the last segment that is not empty.

## Main results

* `split_join`: pieces that are put together are taken apart again.
* `joined_segments`, `segments_cons`, `joined_append`: taking apart and putting together.
* `cut_cases`: a name without a backslash, or its first segment and the rest.
* `startsWith_lower_iff`: when a name in lower case begins with a given segment.
* `shortName_joined`, `shortName_of_getLast?`: the short name of a name.
-/

namespace PluginAtlas.Text

/-! ### Taking apart and putting together -/

/-- The segments of a name. The empty name has one segment, which is empty. -/
def segments (name : String) : List String := split '\\' name

/-- The name with the given segments. -/
def joined (pieces : List String) : String := join "\\" pieces

theorem dropStart?_append (start rest : String) : dropStart? start (start ++ rest) = some rest := by
  simp [dropStart?, startsWith, drop, ← String.length_toList]

theorem eq_append_of_dropStart? {start text rest : String}
    (h : dropStart? start text = some rest) : text = start ++ rest := by
  unfold dropStart? at h
  split at h
  · rename_i hstart
    rw [startsWith, List.isPrefixOf_iff_prefix] at hstart
    obtain ⟨tail, htail⟩ := hstart
    rw [← Option.some.inj h, ← String.toList_inj, String.toList_append, drop,
      String.toList_ofList, ← htail, ← String.length_toList, List.drop_left]
  · cases h

/-- A text does not start with a mark that is not its first character. -/
theorem startsWith_of_head {start text : String} {mark : Char} (hstart : start.toList = [mark])
    (h : text.toList.head? ≠ some mark) : startsWith start text = false := by
  rw [startsWith, hstart]
  cases htext : text.toList with
  | nil => rfl
  | cons c cs =>
    have hc : mark ≠ c := fun hc => h (by rw [htext, hc]; rfl)
    simp [List.isPrefixOf, hc]

/-- Pieces that are put together with a mark that none of them has are taken apart again. -/
theorem split_join {sep : String} {mark : Char} (hsep : sep.toList = [mark]) {pieces : List String}
    (hne : pieces ≠ []) (h : ∀ piece ∈ pieces, mark ∉ piece.toList) :
    split mark (join sep pieces) = pieces := by
  have hmark : ∀ cs ∈ pieces.map String.toList, mark ∉ cs := by
    intro cs hcs
    obtain ⟨piece, hpiece, rfl⟩ := List.mem_map.mp hcs
    exact h piece hpiece
  rw [split, join, String.toList_intercalate, hsep,
    List.splitOn_intercalate mark hmark (mt List.map_eq_nil_iff.mp hne), List.map_map]
  simp [Function.comp_def]

theorem exists_join_cons (sep piece : String) (rest : List String) :
    ∃ more, join sep (piece :: rest) = piece ++ more := by
  by_cases hrest : rest = []
  · exact ⟨"", by simp [hrest, join]⟩
  · refine ⟨sep ++ join sep rest, ?_⟩
    have hjoin := String.intercalate_append_of_ne_nil (s := sep) (List.cons_ne_nil piece []) hrest
    simpa [join, String.append_assoc] using hjoin

theorem exists_join_concat (sep : String) (front : List String) (piece : String) :
    ∃ start, join sep (front ++ [piece]) = start ++ piece := by
  by_cases hfront : front = []
  · exact ⟨"", by simp [hfront, join]⟩
  · refine ⟨join sep front ++ sep, ?_⟩
    have hjoin := String.intercalate_append_of_ne_nil (s := sep) hfront (List.cons_ne_nil piece [])
    simpa [join, String.append_assoc] using hjoin

theorem segments_ne_nil (name : String) : segments name ≠ [] := by
  simp [segments, split, List.splitOn_ne_nil]

@[simp] theorem joined_segments (name : String) : joined (segments name) = name := by
  have hlists : (segments name).map String.toList = name.toList.splitOn '\\' := by
    simp [segments, split, Function.comp_def]
  apply String.toList_injective
  rw [joined, join, String.toList_intercalate, hlists]
  exact List.intercalate_splitOn '\\'

theorem segments_joined {pieces : List String} (hne : pieces ≠ [])
    (h : ∀ piece ∈ pieces, '\\' ∉ piece.toList) : segments (joined pieces) = pieces :=
  split_join rfl hne h

/-- A name without a backslash is its only segment. -/
theorem segments_of_not_mem {name : String} (h : '\\' ∉ name.toList) : segments name = [name] := by
  rw [segments, split, List.splitOn_eq_singleton h, List.map_singleton, String.ofList_toList]

/-- What stands before the first backslash is the first segment. -/
theorem segments_cons {head : String} (h : '\\' ∉ head.toList) (rest : String) :
    segments (head ++ "\\" ++ rest) = head :: segments rest := by
  have hlist : (head ++ "\\" ++ rest).toList = head.toList ++ '\\' :: rest.toList := by simp
  rw [segments, split, hlist, List.splitOn_append_cons_self_of_not_mem h, List.map_cons,
    String.ofList_toList]
  rfl

theorem not_mem_of_mem_splitOn {α : Type} [BEq α] [LawfulBEq α] {a : α} {xs part : List α}
    (h : part ∈ xs.splitOn a) : a ∉ part := by
  induction xs generalizing part with
  | nil =>
    obtain rfl : part = [] := by simpa using h
    exact List.not_mem_nil
  | cons x xs ih =>
    rw [List.splitOn_cons_eq_if_modifyHead] at h
    -- The new element divides, or it goes in front of the first part.
    split at h
    · rcases List.mem_cons.mp h with rfl | h
      · exact List.not_mem_nil
      · exact ih h
    · rename_i hx
      obtain ⟨first, rest, hsplit⟩ := List.exists_cons_of_ne_nil (List.splitOn_ne_nil a xs)
      rw [hsplit] at h ih
      rcases List.mem_cons.mp h with rfl | h
      · refine List.not_mem_cons_of_ne_of_not_mem ?_ (ih List.mem_cons_self)
        rintro rfl
        exact hx (beq_self_eq_true a)
      · exact ih (List.mem_cons_of_mem _ h)

/-- No segment has a backslash. -/
theorem not_mem_of_mem_segments {name piece : String} (h : piece ∈ segments name) :
    '\\' ∉ piece.toList := by
  obtain ⟨part, hpart, rfl⟩ := List.mem_map.mp h
  rw [String.toList_ofList]
  exact not_mem_of_mem_splitOn hpart

@[simp] theorem joined_singleton (name : String) : joined [name] = name := by
  simp [joined, join]

theorem joined_append {front rest : List String} (hfront : front ≠ []) (hrest : rest ≠ []) :
    joined (front ++ rest) = joined front ++ "\\" ++ joined rest :=
  String.intercalate_append_of_ne_nil hfront hrest

theorem cutList_cases {α : Type} [BEq α] [LawfulBEq α] (a : α) (xs : List α) :
    cutList [a] xs = (xs, none) ∧ a ∉ xs ∨
      ∃ head rest, cutList [a] xs = (head, some rest) ∧ xs = head ++ a :: rest ∧ a ∉ head := by
  induction xs with
  | nil => exact Or.inl ⟨rfl, List.not_mem_nil⟩
  | cons x xs ih =>
    by_cases hx : a = x
    · subst hx
      exact Or.inr ⟨[], xs, by simp [cutList], rfl, List.not_mem_nil⟩
    · have hcut : cutList [a] (x :: xs) = (x :: (cutList [a] xs).1, (cutList [a] xs).2) := by
        simp [cutList, hx]
      rcases ih with ⟨hxs, hmem⟩ | ⟨head, rest, hxs, rfl, hmem⟩
      · exact Or.inl ⟨by rw [hcut, hxs], List.not_mem_cons_of_ne_of_not_mem hx hmem⟩
      · refine Or.inr ⟨x :: head, rest, by rw [hcut, hxs], rfl, ?_⟩
        exact List.not_mem_cons_of_ne_of_not_mem hx hmem

/-- A name has no backslash, or it is cut behind its first segment. -/
theorem cut_cases (name : String) :
    cut "\\" name = (name, none) ∧ '\\' ∉ name.toList ∨
      ∃ head rest, cut "\\" name = (head, some rest) ∧ name = head ++ "\\" ++ rest ∧
        '\\' ∉ head.toList := by
  have hcut : cut "\\" name = (String.ofList (cutList ['\\'] name.toList).1,
      (cutList ['\\'] name.toList).2.map String.ofList) := rfl
  rcases cutList_cases '\\' name.toList with ⟨hlist, hmem⟩ | ⟨head, rest, hlist, hname, hmem⟩
  · exact Or.inl ⟨by rw [hcut, hlist]; simp, hmem⟩
  · refine Or.inr ⟨String.ofList head, String.ofList rest, by rw [hcut, hlist]; rfl, ?_, ?_⟩
    · apply String.toList_injective
      simp [hname]
    · simpa using hmem

/-! ### Letter case -/

/-- A backslash ends a word. -/
theorem nextIsCased_append (cs rest : List Char) :
    nextIsCased (cs ++ '\\' :: rest) = nextIsCased cs := by
  have hseparator : nextIsCased ('\\' :: rest) = false := by
    have hcounts : inRanges caseIgnorable '\\'.toNat = false := by decide +kernel
    have hcase : inRanges cased '\\'.toNat = false := by decide +kernel
    rw [nextIsCased, List.dropWhile_cons_of_neg (by rw [hcounts]; decide)]
    exact hcase
  unfold nextIsCased at hseparator ⊢
  rw [List.dropWhile_append]
  cases hdrop : cs.dropWhile fun c => inRanges caseIgnorable c.toNat with
  | nil => simpa using hseparator
  | cons c cs => rfl

/-- The letter case before a backslash does not depend on what follows. -/
theorem lowerList_append (before cs rest : List Char) :
    ∃ more, lowerList before (cs ++ '\\' :: rest) = lowerList before cs ++ '\\' :: more := by
  -- A sigma looks at both sides: at the letters before it, which the induction carries along,
  -- and at the letters behind it, which a backslash hides.
  induction cs generalizing before with
  | nil =>
    have hseparator : lowerChar '\\' = ['\\'] := by decide
    exact ⟨_, by simp [lowerList, hseparator]; rfl⟩
  | cons c cs ih =>
    obtain ⟨more, hmore⟩ := ih (c :: before)
    refine ⟨more, ?_⟩
    rw [List.cons_append, lowerList, lowerList, hmore, nextIsCased_append, List.append_assoc]

/-- A letter that is mapped by a run is beyond the backslash. -/
theorem lt_of_image? {n m : Nat} (h : lowerRuns.findSome? (·.image? n) = some m) :
    '\\'.toNat < m := by
  obtain ⟨run, hrun, himage⟩ := List.exists_of_findSome?_eq_some h
  have hbeyond : ∀ run ∈ lowerRuns, (92 : Int) < run.first + run.delta := by decide +kernel
  have hdelta := hbeyond run hrun
  simp only [CaseRun.image?] at himage
  split at himage
  · rename_i hin
    have hfirst : run.first ≤ n := by simp at hin; omega
    have hm : m = Int.toNat (n + run.delta) := (Option.some.inj himage).symm
    have hseparator : '\\'.toNat = 92 := rfl
    omega
  · cases himage

theorem ofNat_ne_separator {m : Nat} (h : '\\'.toNat < m) : Char.ofNat m ≠ '\\' := by
  intro hm
  by_cases hvalid : m.isValidChar
  · have hnat : (Char.ofNat m).toNat = m := by
      rw [Char.ofNat, dif_pos hvalid]
      rfl
    rw [hm] at hnat
    omega
  · rw [Char.ofNat, dif_neg hvalid] at hm
    cases hm

theorem toLower_ne_separator {c : Char} (h : c ≠ '\\') : c.toLower ≠ '\\' := by
  unfold Char.toLower
  split
  · -- Thirty-two places before the backslash there is no capital letter.
    rename_i hcapital
    intro hc
    have hplace : (c.val + ('a'.val - 'A'.val)).toNat = '\\'.val.toNat := by rw [← hc]
    have hfirst := UInt32.le_iff_toNat_le.mp hcapital.1
    have hlast := UInt32.le_iff_toNat_le.mp hcapital.2
    simp at hplace hfirst hlast
    omega
  · exact h

/-- A letter in lower case is one character, or an `i` under a dot of its own, and no
backslash unless it was one. -/
theorem lowerChar_cases (c : Char) :
    lowerChar c = ['i', '\u0307'] ∨ ∃ d, lowerChar c = [d] ∧ (c ≠ '\\' → d ≠ '\\') := by
  unfold lowerChar
  split
  · exact Or.inr ⟨_, rfl, toLower_ne_separator⟩
  · unfold mapCase
    cases hspecial : lowerSpecial.lookup c.toNat with
    | some image =>
      -- The only special mapping is that of the dotted capital.
      rw [lowerSpecial, List.lookup_cons] at hspecial
      split at hspecial
      · obtain rfl := Option.some.inj hspecial
        exact Or.inl rfl
      · cases hspecial
    | none =>
      cases hrun : lowerRuns.findSome? (·.image? c.toNat) with
      | some m => exact Or.inr ⟨_, rfl, fun _ => ofNat_ne_separator (lt_of_image? hrun)⟩
      | none => exact Or.inr ⟨c, rfl, id⟩

/-- What stands for one character in lower case. -/
theorem lowerList_cons_cases (before : List Char) (c : Char) (cs : List Char) :
    ∃ image, lowerList before (c :: cs) = image ++ lowerList (c :: before) cs ∧
      (image = ['i', '\u0307'] ∨ ∃ d, image = [d] ∧ (c ≠ '\\' → d ≠ '\\')) := by
  rw [lowerList]
  split
  · exact ⟨_, rfl, Or.inr ⟨_, rfl, fun _ => by decide⟩⟩
  · exact ⟨_, rfl, lowerChar_cases c⟩

theorem not_mem_lowerList {before cs : List Char} (h : '\\' ∉ cs) :
    '\\' ∉ lowerList before cs := by
  induction cs generalizing before with
  | nil => exact List.not_mem_nil
  | cons c cs ih =>
    rw [List.mem_cons, not_or] at h
    obtain ⟨hc, hcs⟩ := h
    obtain ⟨image, heq, himage⟩ := lowerList_cons_cases before c cs
    rw [heq, List.mem_append, not_or]
    refine ⟨?_, ih hcs⟩
    rcases himage with rfl | ⟨d, rfl, hd⟩
    · decide
    · exact fun hmem => hd (Ne.symm hc) (List.mem_singleton.mp hmem).symm

/-- Lower case keeps the number of characters, unless it brings in a dot. -/
theorem length_lowerList {before cs : List Char} (h : '\u0307' ∉ lowerList before cs) :
    (lowerList before cs).length = cs.length := by
  induction cs generalizing before with
  | nil => rfl
  | cons c cs ih =>
    obtain ⟨image, heq, himage⟩ := lowerList_cons_cases before c cs
    rw [heq, List.mem_append, not_or] at h
    rcases himage with rfl | ⟨d, rfl, -⟩
    · exact absurd (by decide) h.1
    · rw [heq, List.length_append, ih h.2, List.length_singleton, List.length_cons, Nat.add_comm]

theorem toList_lower (name : String) : (lower name).toList = lowerList [] name.toList := by
  rw [lower, String.toList_ofList]

/-- A name without a backslash has none in lower case. -/
theorem not_mem_lower {name : String} (h : '\\' ∉ name.toList) : '\\' ∉ (lower name).toList := by
  rw [toList_lower]
  exact not_mem_lowerList h

/-- The first segment of a name in lower case is its first segment, in lower case. -/
theorem startsWith_lower_iff {head word : String} (hhead : '\\' ∉ head.toList)
    (hword : '\\' ∉ word.toList) (rest : String) :
    startsWith (word ++ "\\") (lower (head ++ "\\" ++ rest)) ↔ lower head = word := by
  have hlist : (head ++ "\\" ++ rest).toList = head.toList ++ '\\' :: rest.toList := by simp
  obtain ⟨more, hmore⟩ := lowerList_append [] head.toList rest.toList
  have hlower : '\\' ∉ (lower head).toList := not_mem_lower hhead
  rw [startsWith, toList_lower, hlist, hmore, ← toList_lower, List.isPrefixOf_iff_prefix]
  constructor
  · rintro ⟨tail, htail⟩
    -- Both sides are divided at their first backslash.
    have hsplit := congrArg (List.splitOn '\\') htail
    have hfront : (word ++ "\\").toList ++ tail = word.toList ++ '\\' :: tail := by simp
    rw [hfront, List.splitOn_append_cons_self_of_not_mem hword,
      List.splitOn_append_cons_self_of_not_mem hlower] at hsplit
    exact String.toList_injective (List.cons.inj hsplit).1.symm
  · rintro rfl
    exact ⟨more, by simp⟩

/-- A name without a backslash has no first segment with something behind it. -/
theorem not_startsWith_lower {name : String} (h : '\\' ∉ name.toList) (word : String) :
    startsWith (word ++ "\\") (lower name) = false := by
  rw [Bool.eq_false_iff, startsWith, ne_eq, List.isPrefixOf_iff_prefix]
  intro hstarts
  exact not_mem_lower h (hstarts.subset (by simp))

/-- A name and its lower case have the same length, unless a dot came in. -/
theorem length_of_lower_eq {name word : String} (h : lower name = word)
    (hword : '\u0307' ∉ word.toList) : name.toList.length = word.toList.length := by
  subst h
  rw [toList_lower] at hword ⊢
  exact (length_lowerList hword).symm

/-! ### Short names -/

/-- The last segment that is not empty. -/
def lastWord (pieces : List String) : String := ((pieces.filter (· ≠ "")).getLast?).getD ""

theorem lastWord_concat (pieces : List String) (last : String) :
    lastWord (pieces ++ [last]) = if last = "" then lastWord pieces else last := by
  by_cases h : last = "" <;> simp [lastWord, List.filter_append, h]

/-- The characters behind the last backslash that has some behind it. -/
def lastPart (cs : List Char) : List Char :=
  ((cs.reverse.dropWhile (· == '\\')).takeWhile (· != '\\')).reverse

theorem takeWhile_append_separator (cs rest : List Char) :
    (cs ++ '\\' :: rest).takeWhile (· != '\\') = cs.takeWhile (· != '\\') := by
  induction cs with
  | nil => rfl
  | cons c cs ih => rw [List.cons_append, List.takeWhile_cons, ih, List.takeWhile_cons]

theorem lastPart_separator (cs : List Char) : lastPart ('\\' :: cs) = lastPart cs := by
  rw [lastPart, List.reverse_cons, List.dropWhile_append, lastPart]
  split
  · rename_i hempty
    rw [List.isEmpty_iff.mp hempty]
    rfl
  · rw [takeWhile_append_separator]

/-- Backslashes in front do not count. -/
theorem lastPart_dropWhile (cs : List Char) : lastPart (cs.dropWhile (· == '\\')) = lastPart cs := by
  induction cs with
  | nil => rfl
  | cons c cs ih =>
    by_cases h : c = '\\'
    · subst h
      rw [List.dropWhile_cons_of_pos rfl, ih, lastPart_separator]
    · rw [List.dropWhile_cons_of_neg (by simpa using h)]

theorem lastPart_append (front : List Char) {last : List Char} (h : '\\' ∉ last) :
    lastPart (front ++ '\\' :: last) = if last = [] then lastPart front else last := by
  rw [lastPart, List.reverse_append, List.reverse_cons, List.append_assoc, List.singleton_append]
  have hall : ∀ c ∈ last.reverse, (c != '\\') = true := by
    intro c hc
    simp only [bne_iff_ne]
    rintro rfl
    exact h (List.mem_reverse.mp hc)
  by_cases hnil : last = []
  · subst hnil
    rw [if_pos rfl, List.reverse_nil, List.nil_append, List.dropWhile_cons_of_pos rfl, lastPart]
  · obtain ⟨c, init, hreverse⟩ := List.exists_cons_of_ne_nil (List.reverse_ne_nil_iff.mpr hnil)
    -- No backslash is dropped, as the last part ends with another character.
    have hdrop : (last.reverse ++ '\\' :: front.reverse).dropWhile (· == '\\') =
        last.reverse ++ '\\' :: front.reverse := by
      have hc := hall c (hreverse ▸ List.mem_cons_self)
      rw [hreverse, List.cons_append, List.dropWhile_cons_of_neg (by simpa using hc)]
    rw [if_neg hnil, hdrop, takeWhile_append_separator, List.takeWhile_eq_self_iff.mpr hall,
      List.reverse_reverse]

theorem shortName_eq (name : String) : shortName name = String.ofList (lastPart name.toList) := by
  rw [← lastPart_dropWhile, lastPart]
  simp [shortName, trim, lastSegment, dropEndWhile]

/-- The short name of a name is its last segment that is not empty. -/
theorem shortName_joined {pieces : List String} (h : ∀ piece ∈ pieces, '\\' ∉ piece.toList) :
    shortName (joined pieces) = lastWord pieces := by
  rw [shortName_eq]
  induction pieces using List.reverseRecOn with
  | nil => rfl
  | append_singleton pieces last ih =>
    obtain ⟨hpieces, hlast⟩ := List.forall_mem_append.mp h
    -- A backslash in front makes the first piece no special case.
    have hlist : lastPart (joined (pieces ++ [last])).toList =
        lastPart ((joined pieces).toList ++ '\\' :: last.toList) := by
      by_cases hnil : pieces = []
      · subst hnil
        rw [List.nil_append, joined_singleton, ← lastPart_separator]
        rfl
      · simp [joined_append hnil (List.cons_ne_nil last [])]
    rw [hlist, lastPart_append _ (hlast last List.mem_cons_self), lastWord_concat,
      ← ih hpieces]
    by_cases hempty : last = "" <;> simp [hempty]

/-- A name without a backslash is its own short name. -/
theorem shortName_of_not_mem {name : String} (h : '\\' ∉ name.toList) : shortName name = name := by
  have hpieces : ∀ piece ∈ [name], '\\' ∉ piece.toList := by simpa using h
  have hjoined := shortName_joined hpieces
  rw [joined_singleton] at hjoined
  rw [hjoined, ← List.nil_append [name], lastWord_concat]
  split_ifs with hempty
  · exact hempty.symm
  · rfl

/-- A name whose last segment is a given word is as short as the word. -/
theorem shortName_of_getLast? {name last : String} (h : (segments name).getLast? = some last)
    (hne : last ≠ "") : shortName name = shortName last := by
  obtain ⟨front, hsegments⟩ := List.getLast?_eq_some_iff.mp h
  have hplain : ∀ piece ∈ front ++ [last], '\\' ∉ piece.toList := fun piece hpiece =>
    not_mem_of_mem_segments (hsegments ▸ hpiece)
  have hword : '\\' ∉ last.toList := hplain last (by simp)
  rw [← joined_segments name, hsegments, shortName_joined hplain, lastWord_concat, if_neg hne,
    shortName_of_not_mem hword]

end PluginAtlas.Text
