import PluginAtlas.Json.Reader
import PluginAtlas.Json.Writer
import Mathlib.Data.List.TakeWhile
import Mathlib.Tactic.IntervalCases
import Mathlib.Tactic.SplitIfs

/-!
# Written values are read back

The text of a JSON value, in whatever layout, has this value: nothing is lost between
writing and reading, neither the order of the fields nor a character of a text. Three
things do not survive in every value and are left out. Doubles are rounded, a whole
number of more than `maxDigits` digits is refused, and of two fields with one key only
the last is kept.

Reading is followed over the text of a value and whatever comes after it. What comes
after must not go on with a number, and two units of fuel for every character are
enough.

## Main definitions

* `Json.IsPlain`: the values that are kept.
* `Json.ClosesValue`: what may stand behind a value.
* `Json.ReadsBack`: reading the text of a value wherever it stands.

## Main results

* `Json.readText_written`: every escape is undone.
* `Json.IsPlain.readsBack`: a plain value is read back in front of any text.
* `Json.parse_render`: the text of a plain value has this value.
-/

namespace PluginAtlas.Json

/-! ### Escapes -/

theorem hexValue?_digitChar {d : Nat} (h : d < 16) : hexValue? d.digitChar = some d := by
  revert d
  decide

/-- The four digits of a UTF-16 unit. -/
theorem toList_hex {n : Nat} (h : n < 0x10000) :
    (Text.hex 4 n).toList =
      [(n / 4096).digitChar, (n / 256 % 16).digitChar, (n / 16 % 16).digitChar,
        (n % 16).digitChar] := by
  have hzero : Nat.digitChar 0 = '0' := rfl
  have hdigits : ∀ m, 16 ≤ m →
      Nat.toDigits 16 m = Nat.toDigits 16 (m / 16) ++ [(m % 16).digitChar] :=
    fun m hm => Nat.toDigits_of_base_le (by omega) hm
  simp only [Text.hex, String.toList_ofList]
  -- a number of fewer digits is filled up with zeros, so that each length is a case
  rcases Nat.lt_or_ge n 16 with hn | hn
  · rw [Nat.toDigits_of_lt_base hn]
    simp [Nat.div_eq_of_lt (show n < 4096 by omega), Nat.div_eq_of_lt (show n < 256 by omega),
      Nat.div_eq_of_lt hn, Nat.mod_eq_of_lt hn, hzero, List.replicate]
  · rw [hdigits n hn]
    rcases Nat.lt_or_ge (n / 16) 16 with hn' | hn'
    · rw [Nat.toDigits_of_lt_base hn']
      simp [Nat.div_eq_of_lt (show n < 4096 by omega), Nat.div_eq_of_lt (show n < 256 by omega),
        Nat.mod_eq_of_lt hn', hzero, List.replicate]
    · rw [hdigits _ hn', Nat.div_div_eq_div_mul]
      rcases Nat.lt_or_ge (n / 256) 16 with hn'' | hn''
      · rw [Nat.toDigits_of_lt_base hn'']
        simp [Nat.div_eq_of_lt (show n < 4096 by omega), Nat.mod_eq_of_lt hn'', hzero]
      · rw [hdigits _ hn'', Nat.div_div_eq_div_mul, Nat.toDigits_of_lt_base (by omega)]
        simp

theorem hexUnit?_digits {n : Nat} (h : n < 0x10000) :
    hexUnit? (n / 4096).digitChar (n / 256 % 16).digitChar (n / 16 % 16).digitChar
      (n % 16).digitChar = some n := by
  simp only [hexUnit?, hexValue?_digitChar (show n / 4096 < 16 by omega),
    hexValue?_digitChar (Nat.mod_lt _ (by omega : 0 < 16))]
  simp only [Option.pure_def, Option.bind_eq_bind, Option.bind_some]
  congr 1
  omega

theorem readUnit_single {n : Nat} (h : n < 0x10000) (hhigh : isHighSurrogate n = false)
    (next : Char) (rest : List Char) :
    readUnit ((Text.hex 4 n).toList ++ next :: rest) = .ok (unitChar n, next :: rest) := by
  simp [toList_hex h, readUnit, hexUnit?_digits h, hhigh]

theorem readUnit_pair {high low : Nat} (hhigh : isHighSurrogate high = true)
    (hlow : isLowSurrogate low = true) (next : Char) (rest : List Char) :
    readUnit ((Text.hex 4 high).toList ++ unitEscape low ++ next :: rest) =
      .ok (Char.ofNat (0x10000 + (high - 0xD800) * 0x400 + (low - 0xDC00)), next :: rest) := by
  have hhigh' : high < 0x10000 := by
    simp only [isHighSurrogate, Bool.and_eq_true, decide_eq_true_eq] at hhigh
    omega
  have hlow' : low < 0x10000 := by
    simp only [isLowSurrogate, Bool.and_eq_true, decide_eq_true_eq] at hlow
    omega
  simp [toList_hex hhigh', toList_hex hlow', unitEscape, readUnit, hexUnit?_digits hhigh',
    hexUnit?_digits hlow', hhigh, hlow]

theorem toNat_lt_of_char (c : Char) : c.toNat < 0x110000 := by
  have := c.valid
  simp only [UInt32.isValidChar, Nat.isValidChar] at this
  simp only [Char.toNat]
  omega

/-- A character is no half of a pair. -/
theorem not_surrogate (c : Char) : ¬ (0xD800 ≤ c.toNat ∧ c.toNat < 0xE000) := by
  have := c.valid
  simp only [UInt32.isValidChar, Nat.isValidChar] at this
  simp only [Char.toNat]
  omega

theorem unitChar_toNat (c : Char) : unitChar c.toNat = c := by
  simp only [unitChar, Bool.and_eq_true, decide_eq_true_eq, if_neg (not_surrogate c),
    Char.ofNat_toNat]

theorem readUnit_toNat {c : Char} (h : c.toNat < 0x10000) (next : Char) (rest : List Char) :
    readUnit ((Text.hex 4 c.toNat).toList ++ next :: rest) = .ok (c, next :: rest) := by
  have hhigh : isHighSurrogate c.toNat = false := by
    have := not_surrogate c
    simp only [isHighSurrogate, Bool.and_eq_false_iff, decide_eq_false_iff_not]
    omega
  rw [readUnit_single h hhigh, unitChar_toNat]

theorem readTextFrom_unit {cs : List Char} {c : Char} {rest : List Char}
    (h : readUnit cs = .ok (c, rest)) (start fuel : Nat) (done : List Char) :
    readTextFrom start (fuel + 1) done ('\\' :: 'u' :: cs) =
      readTextFrom start fuel (c :: done) rest := by
  simp only [readTextFrom, h]

theorem readTextFrom_simple {e c : Char} (h : simpleEscape? e = some c) (start fuel : Nat)
    (done rest : List Char) :
    readTextFrom start (fuel + 1) done ('\\' :: e :: rest) =
      readTextFrom start fuel (c :: done) rest := by
  have hu : e ≠ 'u' := by
    rintro rfl
    simp [simpleEscape?] at h
  rw [readTextFrom, h]
  exact hu

/-- A character is written by a one-letter escape, by one or two UTF-16 units, or as
itself. -/
theorem escapeChar_cases (ascii : Bool) (c : Char) :
    (∃ e, simpleEscape? e = some c ∧ escapeChar ascii c = ['\\', e]) ∨
    (c.toNat < 0x10000 ∧ escapeChar ascii c = unitEscape c.toNat) ∨
    (∃ high low, isHighSurrogate high = true ∧ isLowSurrogate low = true ∧
      Char.ofNat (0x10000 + (high - 0xD800) * 0x400 + (low - 0xDC00)) = c ∧
      escapeChar ascii c = unitEscape high ++ unitEscape low) ∨
    (c ≠ '"' ∧ c ≠ '\\' ∧ ¬ c.toNat < 0x20 ∧ ¬ (ascii = true ∧ 0x7E < c.toNat) ∧
      escapeChar ascii c = [c]) := by
  have hcode : ∀ n, c.toNat = n → Char.ofNat n = c := fun n hn => hn ▸ Char.ofNat_toNat c
  simp only [escapeChar, beq_iff_eq, Bool.and_eq_true, decide_eq_true_eq]
  by_cases hquote : c = '"'
  · exact .inl ⟨'"', by rw [hquote]; rfl, if_pos hquote⟩
  rw [if_neg hquote]
  by_cases hslash : c = '\\'
  · exact .inl ⟨'\\', by rw [hslash]; rfl, if_pos hslash⟩
  rw [if_neg hslash]
  by_cases hfeed : c = '\n'
  · exact .inl ⟨'n', hfeed ▸ rfl, if_pos hfeed⟩
  rw [if_neg hfeed]
  by_cases hreturn : c = '\r'
  · exact .inl ⟨'r', hreturn ▸ rfl, if_pos hreturn⟩
  rw [if_neg hreturn]
  by_cases htab : c = '\t'
  · exact .inl ⟨'t', htab ▸ rfl, if_pos htab⟩
  rw [if_neg htab]
  by_cases hbell : c.toNat = 8
  · exact .inl ⟨'b', congrArg some (hcode 8 hbell), if_pos hbell⟩
  rw [if_neg hbell]
  by_cases hform : c.toNat = 12
  · exact .inl ⟨'f', congrArg some (hcode 12 hform), if_pos hform⟩
  rw [if_neg hform]
  by_cases hcontrol : c.toNat < 0x20
  · exact .inr (.inl ⟨by omega, if_pos hcontrol⟩)
  rw [if_neg hcontrol]
  by_cases hascii : ascii = true ∧ 0x7E < c.toNat
  · rw [if_pos hascii]
    by_cases hplane : c.toNat < 0x10000
    · exact .inr (.inl ⟨hplane, if_pos hplane⟩)
    -- the two halves of the offset, each within its range
    have hmax := toNat_lt_of_char c
    refine .inr (.inr (.inl ⟨0xD800 + (c.toNat - 0x10000) / 0x400,
      0xDC00 + (c.toNat - 0x10000) % 0x400, ?_, ?_, hcode _ ?_, if_neg hplane⟩))
    · simp only [isHighSurrogate, Bool.and_eq_true, decide_eq_true_eq]
      omega
    · simp only [isLowSurrogate, Bool.and_eq_true, decide_eq_true_eq]
      omega
    · omega
  · exact .inr (.inr (.inr ⟨hquote, hslash, hcontrol, hascii, if_neg hascii⟩))

/-- A written character is read in one step. -/
theorem readTextFrom_escapeChar (start fuel : Nat) (done : List Char) (ascii : Bool) (c : Char)
    (next : Char) (rest : List Char) :
    readTextFrom start (fuel + 1) done (escapeChar ascii c ++ next :: rest) =
      readTextFrom start fuel (c :: done) (next :: rest) := by
  obtain ⟨e, he, heq⟩ | ⟨hplane, heq⟩ | ⟨high, low, hhigh, hlow, hc, heq⟩ |
    ⟨hquote, hslash, hcontrol, -, heq⟩ := escapeChar_cases ascii c
  · rw [heq]
    exact readTextFrom_simple he ..
  · rw [heq]
    exact readTextFrom_unit (readUnit_toNat hplane next rest) ..
  · rw [heq]
    exact readTextFrom_unit (hc ▸ readUnit_pair hhigh hlow next rest) ..
  · rw [heq, List.singleton_append, readTextFrom]
    · exact if_neg hcontrol
    · exact hquote
    · exact hslash

theorem escapeChar_ne_nil (ascii : Bool) (c : Char) : escapeChar ascii c ≠ [] := by
  obtain ⟨e, -, heq⟩ | ⟨-, heq⟩ | ⟨high, low, -, -, -, heq⟩ | ⟨-, -, -, -, heq⟩ :=
    escapeChar_cases ascii c <;> rw [heq] <;> exact List.cons_ne_nil _ _

theorem length_le_escaped (ascii : Bool) (cs : List Char) :
    cs.length ≤ (cs.flatMap (escapeChar ascii)).length := by
  induction cs with
  | nil => simp
  | cons c cs ih =>
    have hc := List.length_pos_iff.mpr (escapeChar_ne_nil ascii c)
    simp only [List.flatMap_cons, List.length_append, List.length_cons]
    omega

theorem readTextFrom_escaped (start : Nat) (ascii : Bool) (cs rest : List Char) :
    ∀ {fuel : Nat} (done : List Char), cs.length < fuel →
      readTextFrom start fuel done (cs.flatMap (escapeChar ascii) ++ '"' :: rest) =
        .ok (String.ofList (done.reverse ++ cs), rest) := by
  induction cs with
  | nil =>
    intro fuel done hfuel
    obtain ⟨fuel, rfl⟩ := Nat.exists_eq_add_one.mpr hfuel
    simp [readTextFrom]
  | cons c cs ih =>
    intro fuel done hfuel
    obtain ⟨fuel, rfl⟩ := Nat.exists_eq_add_one.mpr (Nat.zero_lt_of_lt hfuel)
    have hrest := ih (c :: done) (Nat.lt_of_succ_lt_succ hfuel)
    -- the closing mark is still ahead, so that a character is left behind any escape
    obtain ⟨next, more, hnext⟩ := List.exists_cons_of_ne_nil
      (show cs.flatMap (escapeChar ascii) ++ '"' :: rest ≠ [] by simp)
    rw [List.flatMap_cons, List.append_assoc, hnext, readTextFrom_escapeChar, ← hnext, hrest]
    simp

/-- A written text is read back, and what follows it is left. -/
theorem readText_written (ascii : Bool) (s : String) (rest : List Char) :
    readText (s.toList.flatMap (escapeChar ascii) ++ '"' :: rest) = .ok (s, rest) := by
  have hlen := length_le_escaped ascii s.toList
  rw [readText, readTextFrom_escaped]
  · simp
  · simp only [List.length_append, List.length_cons]
    omega

/-! ### Whole numbers -/

/-- What may stand behind a value: nothing, or a character that goes on with none. -/
def ClosesValue (rest : List Char) : Prop :=
  ∀ c ∈ rest.head?, c = ',' ∨ c = '\n' ∨ c = ']' ∨ c = '\x7d'

theorem digitsValue_toDigits (n : Nat) : digitsValue (Nat.toDigits 10 n) = n := by
  have h := Nat.ofDigitChars_toDigits (b := 10) (n := n) (by omega) (by omega)
  rw [Nat.ofDigitChars_eq_foldl] at h
  simpa only [digitsValue, Nat.mul_comm, show '0'.toNat = 48 from rfl] using h

theorem exists_toDigits_eq_cons (n : Nat) :
    ∃ c cs, Nat.toDigits 10 n = c :: cs ∧ c.isDigit = true := by
  obtain ⟨c, cs, hcs⟩ := List.exists_cons_of_ne_nil (Nat.toDigits_ne_nil (n := n) (b := 10))
  exact ⟨c, cs, hcs, Nat.isDigit_of_mem_toDigits (by omega) (by omega) (hcs ▸ List.mem_cons_self)⟩

/-- A number that is not zero does not begin with one. -/
theorem head_toDigits_ne_zero {n : Nat} (h : 0 < n) :
    ∃ c cs, Nat.toDigits 10 n = c :: cs ∧ c ≠ '0' := by
  induction n using Nat.strongRecOn with
  | ind n ih =>
    rcases Nat.lt_or_ge n 10 with hn | hn
    · refine ⟨n.digitChar, [], Nat.toDigits_of_lt_base hn, ?_⟩
      interval_cases n <;> decide
    · obtain ⟨c, cs, hcs, hc⟩ := ih (n / 10) (by omega) (by omega)
      exact ⟨c, cs ++ [(n % 10).digitChar],
        by rw [Nat.toDigits_of_base_le (by omega) hn, hcs, List.cons_append], hc⟩

theorem wholePart?_toDigits (n : Nat) {rest : List Char}
    (h : ∀ c ∈ rest.head?, c.isDigit = false) :
    wholePart? (Nat.toDigits 10 n ++ rest) = some (Nat.toDigits 10 n, rest) := by
  rcases Nat.eq_zero_or_pos n with rfl | hn
  · rfl
  · obtain ⟨c, cs, hcs, hc⟩ := head_toDigits_ne_zero hn
    have hdigits : ∀ d ∈ c :: cs, d.isDigit = true := fun d hd =>
      Nat.isDigit_of_mem_toDigits (by omega) (by omega) (hcs ▸ hd)
    have hcs' : ∀ d ∈ cs, d.isDigit = true := fun d hd => hdigits d (List.mem_cons_of_mem _ hd)
    -- the run of digits ends where the number does
    have htake : rest.takeWhile Char.isDigit = [] := by
      cases rest with
      | nil => rfl
      | cons d rest => simp [h d rfl]
    have hdrop : rest.dropWhile Char.isDigit = rest := by
      cases rest with
      | nil => rfl
      | cons d rest => simp [h d rfl]
    rw [hcs, List.cons_append, wholePart?]
    · rw [if_pos (hdigits c List.mem_cons_self), List.takeWhile_append_of_pos hcs',
        List.dropWhile_append_of_pos hcs', htake, hdrop, List.append_nil]
    · exact hc

theorem fractionPart_of_closes {rest : List Char} (h : ClosesValue rest) :
    fractionPart rest = ([], rest) := by
  rw [fractionPart.eq_def]
  split
  · have := h '.' rfl
    simp at this
  · rfl

theorem exponentPart?_of_closes {rest : List Char} (h : ClosesValue rest) :
    exponentPart? rest = none := by
  cases rest with
  | nil => rfl
  | cons c rest =>
    have hc : (c == 'e' || c == 'E') = false := by
      rcases h c rfl with rfl | rfl | rfl | rfl <;> rfl
    rw [exponentPart?.eq_def]
    split <;> simp_all

theorem readNumber_toDigits (start : List Char) (negative : Bool) {n : Nat}
    (hn : (Nat.toDigits 10 n).length ≤ maxDigits) {rest : List Char} (h : ClosesValue rest) :
    readNumber start negative (Nat.toDigits 10 n ++ rest) =
      .ok (.int (if negative then -n else n), rest) := by
  have hdigit : ∀ c ∈ rest.head?, c.isDigit = false := by
    intro c hc
    rcases h c hc with rfl | rfl | rfl | rfl <;> rfl
  simp only [readNumber, wholePart?_toDigits n hdigit, fractionPart_of_closes h,
    exponentPart?_of_closes h, if_neg (Nat.not_lt.mpr hn), digitsValue_toDigits]
  rfl

theorem toList_ofInt (n : Int) :
    (Text.ofInt n).toList = (if n < 0 then ['-'] else []) ++ Nat.toDigits 10 n.natAbs := by
  cases n with
  | ofNat n => simp [Text.ofInt, Text.ofNat]
  | negSucc n => simp [Text.ofInt, Text.ofNat, Int.natAbs, Int.negSucc_lt_zero]

theorem ne_of_isDigit {c d : Char} (hc : c.isDigit = true) (hd : d.isDigit = false) : d ≠ c := by
  rintro rfl
  simp [hd] at hc

theorem findSome?_afterWord_eq_none {cs : List Char} {words : List (String × Json)}
    (h : ∀ word ∈ words.map Prod.fst, word.toList.isPrefixOf cs = false) :
    (words.findSome? fun (word, value) => (afterWord? word cs).map (value, ·)) = none := by
  rw [List.findSome?_eq_none_iff]
  rintro ⟨word, value⟩ hword
  have hcs := h word (List.mem_map_of_mem hword)
  simp [afterWord?, hcs]

/-- A value that no word stands for is a number. -/
theorem readAtom_of_no_word {cs : List Char}
    (h : ∀ word ∈ ["null", "true", "false", "NaN", "Infinity", "-Infinity"],
      word.toList.isPrefixOf cs = false) :
    readAtom cs = if cs.head? = some '-' then readNumber cs true cs.tail
      else readNumber cs false cs := by
  simp only [readAtom]
  -- the list of words is passed without a hit
  rw [findSome?_afterWord_eq_none]
  · split_ifs with hminus
    · obtain ⟨rest, rfl⟩ := List.head?_eq_some_iff.mp hminus
      rfl
    · match cs with
      | [] => rfl
      | c :: rest =>
        have hc : c ≠ '-' := by simpa using hminus
        simp [hc]
  · exact h

theorem readAtom_digit {c : Char} (hc : c.isDigit = true) (cs : List Char) :
    readAtom (c :: cs) = readNumber (c :: cs) false (c :: cs) := by
  have hne : ∀ d : Char, d.isDigit = false → d ≠ c := fun d hd => ne_of_isDigit hc hd
  rw [readAtom_of_no_word, if_neg (by simpa using (hne '-' rfl).symm)]
  simp [List.isPrefixOf, hne 'n' rfl, hne 't' rfl, hne 'f' rfl, hne 'N' rfl, hne 'I' rfl,
    hne '-' rfl]

theorem readAtom_minus {c : Char} (hc : c.isDigit = true) (cs : List Char) :
    readAtom ('-' :: c :: cs) = readNumber ('-' :: c :: cs) true (c :: cs) := by
  have hword : 'I' ≠ c := ne_of_isDigit hc rfl
  rw [readAtom_of_no_word, List.head?_cons, if_pos rfl, List.tail_cons]
  simp [List.isPrefixOf, hword]

theorem readAtom_ofInt {n : Int} (hn : (Nat.toDigits 10 n.natAbs).length ≤ maxDigits)
    {rest : List Char} (h : ClosesValue rest) :
    readAtom ((Text.ofInt n).toList ++ rest) = .ok (.int n, rest) := by
  obtain ⟨c, cs, hcs, hc⟩ := exists_toDigits_eq_cons n.natAbs
  rw [toList_ofInt]
  split_ifs with hneg
  · rw [List.append_assoc, List.singleton_append, hcs, List.cons_append, readAtom_minus hc,
      ← List.cons_append, ← hcs, readNumber_toDigits _ _ hn h, if_pos rfl]
    congr 3
    omega
  · rw [List.nil_append, hcs, List.cons_append, readAtom_digit hc, ← List.cons_append, ← hcs,
      readNumber_toDigits _ _ hn h, if_neg Bool.false_ne_true]
    congr 3
    omega

/-! ### Blanks -/

theorem skipSpace_append {blank : List Char} (h : ∀ c ∈ blank, isSpace c = true)
    (cs : List Char) : skipSpace (blank ++ cs) = skipSpace cs :=
  List.dropWhile_append_of_pos h

theorem skipSpace_cons {c : Char} (h : isSpace c = false) (cs : List Char) :
    skipSpace (c :: cs) = c :: cs := by
  simp [skipSpace, h]

theorem isSpace_of_mem_newline (layout : Layout) (level : Nat) :
    ∀ c ∈ (layout.newline level).toList, isSpace c = true := by
  intro c hc
  rw [Layout.newline] at hc
  split at hc
  · simp at hc
  · rw [String.toList_ofList, List.mem_cons] at hc
    rcases hc with rfl | hc
    · rfl
    · rw [List.eq_of_mem_replicate hc]
      rfl

/-- A comma and blanks stand between two items. -/
theorem exists_separator (layout : Layout) (level : Nat) :
    ∃ blank, (layout.separator level).toList = ',' :: blank ∧
      ∀ c ∈ blank, isSpace c = true := by
  rw [Layout.separator]
  split
  · exact ⟨[' '], rfl, by simp [isSpace]⟩
  · exact ⟨(layout.newline level).toList, by simp, isSpace_of_mem_newline layout level⟩

theorem closesValue_cons {c : Char} (h : c = ',' ∨ c = '\n' ∨ c = ']' ∨ c = '\x7d')
    (rest : List Char) : ClosesValue (c :: rest) := by
  intro d hd
  obtain rfl : c = d := by simpa using hd
  exact h

theorem closesValue_newline (layout : Layout) (level : Nat) {rest : List Char}
    (h : ClosesValue rest) : ClosesValue ((layout.newline level).toList ++ rest) := by
  rw [Layout.newline]
  split
  · simpa using h
  · rw [String.toList_ofList]
    exact closesValue_cons (by simp) _

theorem closesValue_separator (layout : Layout) (level : Nat) (rest : List Char) :
    ClosesValue ((layout.separator level).toList ++ rest) := by
  obtain ⟨blank, hsep, -⟩ := exists_separator layout level
  rw [hsep]
  exact closesValue_cons (by simp) _

/-! ### Values -/

/-- Values without doubles, whose whole numbers are short enough to be read, and whose
objects list each key once. -/
inductive IsPlain : Json → Prop
  | null : IsPlain .null
  | bool (b : Bool) : IsPlain (.bool b)
  | int {n : Int} (hdigits : (Nat.toDigits 10 n.natAbs).length ≤ maxDigits) : IsPlain (.int n)
  | str (s : String) : IsPlain (.str s)
  | arr {items : List Json} (hitems : ∀ item ∈ items, IsPlain item) : IsPlain (.arr items)
  | obj {fields : List (String × Json)} (hkeys : (fields.map Prod.fst).Nodup)
      (hvalues : ∀ field ∈ fields, IsPlain field.2) : IsPlain (.obj fields)

/-- A value is read back from its text wherever it stands, and what follows is left.
Two steps for every character suffice. -/
def ReadsBack (layout : Layout) (value : Json) : Prop :=
  ∀ {level fuel : Nat} {rest : List Char},
    2 * (write layout level value).toList.length ≤ fuel → ClosesValue rest →
      readValue fuel ((write layout level value).toList ++ rest) = .ok (value, rest)

/-- The characters that a value begins with. -/
def startsValue (c : Char) : Bool := c.isDigit || c ∈ ['-', 'n', 't', 'f', '"', '[', '\x7b']

theorem ne_of_startsValue {c d : Char} (hc : startsValue c = true) (hd : startsValue d = false) :
    c ≠ d := by
  rintro rfl
  simp [hd] at hc

theorem isSpace_of_startsValue {c : Char} (h : startsValue c = true) : isSpace c = false := by
  simp [isSpace, ne_of_startsValue h (d := ' ') rfl, ne_of_startsValue h (d := '\t') rfl,
    ne_of_startsValue h (d := '\n') rfl, ne_of_startsValue h (d := '\r') rfl]

theorem exists_head_ofInt (n : Int) :
    ∃ c, (Text.ofInt n).toList.head? = some c ∧ (c = '-' ∨ c.isDigit = true) := by
  obtain ⟨c, cs, hcs, hc⟩ := exists_toDigits_eq_cons n.natAbs
  rw [toList_ofInt, hcs]
  split_ifs
  · exact ⟨'-', rfl, .inl rfl⟩
  · exact ⟨c, rfl, .inr hc⟩

theorem exists_head_write (layout : Layout) (level : Nat) {value : Json} (h : IsPlain value) :
    ∃ c, (write layout level value).toList.head? = some c ∧ startsValue c = true := by
  cases h with
  | null => exact ⟨'n', by simp [write], rfl⟩
  | bool b =>
    cases b with
    | false => exact ⟨'f', by simp [write], rfl⟩
    | true => exact ⟨'t', by simp [write], rfl⟩
  | @int n hdigits =>
    obtain ⟨c, hhead, hc⟩ := exists_head_ofInt n
    refine ⟨c, by rw [write, hhead], ?_⟩
    rcases hc with rfl | hc
    · rfl
    · simp [startsValue, hc]
  | str s => exact ⟨'"', by simp [write, writeText], rfl⟩
  | @arr items hitems =>
    refine ⟨'[', ?_, rfl⟩
    cases items with
    | nil => simp [write]
    | cons item items => simp [write]
  | @obj fields hkeys hvalues =>
    refine ⟨'\x7b', ?_, rfl⟩
    cases fields with
    | nil => simp [write]
    | cons field fields => simp [write]

theorem skipSpace_write (layout : Layout) (level : Nat) {value : Json} (h : IsPlain value)
    (rest : List Char) :
    skipSpace ((write layout level value).toList ++ rest) =
      (write layout level value).toList ++ rest := by
  obtain ⟨c, hhead, hc⟩ := exists_head_write layout level h
  obtain ⟨cs, hcs⟩ := List.head?_eq_some_iff.mp hhead
  rw [hcs, List.cons_append, skipSpace_cons (isSpace_of_startsValue hc)]

theorem length_write_pos (layout : Layout) (level : Nat) {value : Json} (h : IsPlain value) :
    0 < (write layout level value).toList.length := by
  obtain ⟨c, hhead, -⟩ := exists_head_write layout level h
  obtain ⟨cs, hcs⟩ := List.head?_eq_some_iff.mp hhead
  simp [hcs]

theorem length_separator_pos (layout : Layout) (level : Nat) :
    0 < (layout.separator level).toList.length := by
  obtain ⟨blank, hsep, -⟩ := exists_separator layout level
  simp [hsep]

/-- The items of a list are read one after the other up to its end. -/
theorem readItems_written (layout : Layout) (level outer : Nat) (rest : List Char) :
    ∀ (items : List Json) (item : Json) (fuel : Nat) (done : List Json),
      (∀ i ∈ item :: items, IsPlain i ∧ ReadsBack layout i) →
      2 * ((write layout level item).toList ++ (writeItems layout level items).toList).length
        < fuel →
      readItems fuel done ((write layout level item).toList ++
          ((writeItems layout level items).toList ++
            ((layout.newline outer).toList ++ ']' :: rest))) =
        .ok (.arr (done.reverse ++ item :: items), rest) := by
  intro items
  induction items with
  | nil =>
    intro item fuel done hitems hfuel
    obtain ⟨fuel, rfl⟩ := Nat.exists_eq_add_one.mpr (Nat.zero_lt_of_lt hfuel)
    have hcloses : ClosesValue ((layout.newline outer).toList ++ ']' :: rest) :=
      closesValue_newline layout outer (closesValue_cons (by simp) rest)
    simp only [writeItems, String.toList_empty, List.nil_append, List.append_nil] at hfuel ⊢
    rw [readItems, (hitems item List.mem_cons_self).2 (by omega) hcloses]
    simp [skipSpace_append (isSpace_of_mem_newline layout outer),
      skipSpace_cons (show isSpace ']' = false from rfl)]
  | cons next items ih =>
    intro item fuel done hitems hfuel
    obtain ⟨fuel, rfl⟩ := Nat.exists_eq_add_one.mpr (Nat.zero_lt_of_lt hfuel)
    have hnext : IsPlain next := (hitems next (by simp)).1
    -- the separator pays for the step to the next item
    have hpos := length_separator_pos layout level
    simp only [writeItems, String.toList_append, List.length_append, List.append_assoc] at hfuel ⊢
    rw [readItems, (hitems item List.mem_cons_self).2 (by omega)
      (closesValue_separator layout level _)]
    obtain ⟨blank, hsep, hblank⟩ := exists_separator layout level
    have hread := ih next fuel (item :: done) (fun i hi => hitems i (List.mem_cons_of_mem _ hi))
      (by simp only [List.length_append]; omega)
    simp only [hsep, List.cons_append, skipSpace_cons (show isSpace ',' = false from rfl),
      skipSpace_append hblank, skipSpace_write layout level hnext, hread]
    simp

theorem insertField_of_notMem {key : String} (value : Json) {fields : List (String × Json)}
    (h : key ∉ fields.map Prod.fst) :
    insertField key value fields = fields ++ [(key, value)] := by
  induction fields with
  | nil => rfl
  | cons field fields ih =>
    obtain ⟨hne, hrest⟩ : ¬ key = field.1 ∧ key ∉ fields.map Prod.fst := by simpa using h
    rw [insertField, if_neg (Ne.symm hne), ih hrest, List.cons_append]

theorem toList_writeText (layout : Layout) (s : String) :
    (writeText layout s).toList =
      '"' :: (s.toList.flatMap (escapeChar layout.escapeNonAscii) ++ ['"']) := by
  rw [writeText, String.toList_ofList, List.cons_append]

theorem skipSpace_writeText (layout : Layout) (s : String) (rest : List Char) :
    skipSpace ((writeText layout s).toList ++ rest) = (writeText layout s).toList ++ rest := by
  rw [toList_writeText, List.cons_append, skipSpace_cons rfl]

theorem skipSpace_blank (cs : List Char) : skipSpace (' ' :: cs) = skipSpace cs := by
  simp [skipSpace, isSpace]

section Field

variable {layout : Layout} {level fuel : Nat} {key : String} {value : Json}
  {done : List (String × Json)} {rest rest' : List Char} (hplain : IsPlain value)
  (hreads : ReadsBack layout value) (hkey : key ∉ done.map Prod.fst)
  (hfuel : 2 * (write layout level value).toList.length ≤ fuel) (hcloses : ClosesValue rest)

include hplain hreads hkey hfuel hcloses

/-- A field whose key is new is added behind the others, and a brace ends the object. -/
theorem readFields_last (hend : skipSpace rest = '\x7d' :: rest') :
    readFields (fuel + 1) done ((writeText layout key).toList ++
        ':' :: ' ' :: ((write layout level value).toList ++ rest)) =
      .ok (.obj (done ++ [(key, value)]), rest') := by
  simp only [toList_writeText, List.cons_append, List.append_assoc, List.nil_append, readFields,
    readText_written, skipSpace_cons (show isSpace ':' = false from rfl), skipSpace_blank,
    skipSpace_write layout level hplain, hreads hfuel hcloses, insertField_of_notMem value hkey,
    hend]

/-- A field whose key is new is added behind the others, and a comma leads to the next. -/
theorem readFields_next (hcomma : skipSpace rest = ',' :: rest') :
    readFields (fuel + 1) done ((writeText layout key).toList ++
        ':' :: ' ' :: ((write layout level value).toList ++ rest)) =
      readFields fuel (done ++ [(key, value)]) (skipSpace rest') := by
  simp only [toList_writeText, List.cons_append, List.append_assoc, List.nil_append, readFields,
    readText_written, skipSpace_cons (show isSpace ':' = false from rfl), skipSpace_blank,
    skipSpace_write layout level hplain, hreads hfuel hcloses, insertField_of_notMem value hkey,
    hcomma]

end Field

theorem notMem_keys_of_nodup {done fields : List (String × Json)} {key : String} {value : Json}
    (h : ((done ++ (key, value) :: fields).map Prod.fst).Nodup) : key ∉ done.map Prod.fst := by
  intro hmem
  rw [List.map_append, List.nodup_append] at h
  exact h.2.2 key hmem key List.mem_cons_self rfl

/-- The fields of an object are read one after the other up to its end. No key comes
twice, so that every field is added behind the others. -/
theorem readFields_written (layout : Layout) (level outer : Nat) (rest : List Char) :
    ∀ (fields : List (String × Json)) (key : String) (value : Json) (fuel : Nat)
      (done : List (String × Json)),
      (∀ field ∈ (key, value) :: fields, IsPlain field.2 ∧ ReadsBack layout field.2) →
      ((done ++ (key, value) :: fields).map Prod.fst).Nodup →
      2 * ((write layout level value).toList ++ (writeFields layout level fields).toList).length
        < fuel →
      readFields fuel done ((writeText layout key).toList ++ ':' :: ' ' ::
          ((write layout level value).toList ++
            ((writeFields layout level fields).toList ++
              ((layout.newline outer).toList ++ '\x7d' :: rest)))) =
        .ok (.obj (done ++ (key, value) :: fields), rest) := by
  intro fields
  induction fields with
  | nil =>
    intro key value fuel done hfields hkeys hfuel
    obtain ⟨fuel, rfl⟩ := Nat.exists_eq_add_one.mpr (Nat.zero_lt_of_lt hfuel)
    obtain ⟨hplain, hreads⟩ : IsPlain value ∧ ReadsBack layout value :=
      hfields (key, value) List.mem_cons_self
    have hkey := notMem_keys_of_nodup hkeys
    have hcloses : ClosesValue ((layout.newline outer).toList ++ '\x7d' :: rest) :=
      closesValue_newline layout outer (closesValue_cons (by simp) rest)
    have hend : skipSpace ((layout.newline outer).toList ++ '\x7d' :: rest) = '\x7d' :: rest := by
      rw [skipSpace_append (isSpace_of_mem_newline layout outer), skipSpace_cons rfl]
    simp only [writeFields, String.toList_empty, List.nil_append, List.append_nil] at hfuel ⊢
    exact readFields_last hplain hreads hkey (by omega) hcloses hend
  | cons field fields ih =>
    intro key value fuel done hfields hkeys hfuel
    obtain ⟨fuel, rfl⟩ := Nat.exists_eq_add_one.mpr (Nat.zero_lt_of_lt hfuel)
    obtain ⟨hplain, hreads⟩ : IsPlain value ∧ ReadsBack layout value :=
      hfields (key, value) List.mem_cons_self
    have hkey := notMem_keys_of_nodup hkeys
    obtain ⟨nextKey, next⟩ := field
    obtain ⟨blank, hsep, hblank⟩ := exists_separator layout level
    have hpos := length_separator_pos layout level
    have hcomma : ∀ more, skipSpace ((layout.separator level).toList ++ more) =
        ',' :: (blank ++ more) := by
      intro more
      rw [hsep, List.cons_append, skipSpace_cons rfl]
    simp only [writeFields, String.toList_append, List.length_append, List.append_assoc] at hfuel ⊢
    have hread := ih nextKey next fuel (done ++ [(key, value)])
      (fun i hi => hfields i (List.mem_cons_of_mem _ hi)) (by simpa using hkeys)
      (by simp only [List.length_append]; omega)
    rw [readFields_next hplain hreads hkey (by omega) (closesValue_separator layout level _)
      (hcomma _), skipSpace_append hblank]
    simpa [skipSpace_writeText] using hread

theorem readValue_of_atom {fuel : Nat} {cs : List Char}
    (h : ∀ c ∈ cs.head?, c ≠ '"' ∧ c ≠ '[' ∧ c ≠ '\x7b') :
    readValue (fuel + 1) cs = readAtom cs := by
  match cs with
  | [] => rfl
  | c :: cs =>
    obtain ⟨hquote, hbracket, hbrace⟩ := h c rfl
    rw [readValue] <;> simp_all

theorem readValue_list {fuel : Nat} {cs rest : List Char} (hcs : skipSpace cs = rest)
    (hrest : rest.head? ≠ some ']') :
    readValue (fuel + 1) ('[' :: cs) = readItems fuel [] rest := by
  simp only [readValue, hcs]
  split
  · exact absurd rfl hrest
  · rfl

theorem readValue_object {fuel : Nat} {cs rest : List Char} (hcs : skipSpace cs = rest)
    (hrest : rest.head? ≠ some '\x7d') :
    readValue (fuel + 1) ('\x7b' :: cs) = readFields fuel [] rest := by
  simp only [readValue, hcs]
  split
  · exact absurd rfl hrest
  · rfl

theorem readAtom_null (rest : List Char) :
    readAtom ('n' :: 'u' :: 'l' :: 'l' :: rest) = .ok (.null, rest) := by
  simp [readAtom, afterWord?, show "null".length = 4 from rfl]

theorem readAtom_true (rest : List Char) :
    readAtom ('t' :: 'r' :: 'u' :: 'e' :: rest) = .ok (.bool true, rest) := by
  simp [readAtom, afterWord?, show "true".length = 4 from rfl]

theorem readAtom_false (rest : List Char) :
    readAtom ('f' :: 'a' :: 'l' :: 's' :: 'e' :: rest) = .ok (.bool false, rest) := by
  simp [readAtom, afterWord?, show "false".length = 5 from rfl]

theorem toList_write_list (layout : Layout) (level : Nat) (item : Json) (items : List Json) :
    (write layout level (.arr (item :: items))).toList =
      '[' :: ((layout.newline (level + 1)).toList ++ ((write layout (level + 1) item).toList ++
        ((writeItems layout (level + 1) items).toList ++
          ((layout.newline level).toList ++ [']'])))) := by
  simp [write]

theorem toList_write_object (layout : Layout) (level : Nat) (key : String) (value : Json)
    (fields : List (String × Json)) :
    (write layout level (.obj ((key, value) :: fields))).toList =
      '\x7b' :: ((layout.newline (level + 1)).toList ++ ((writeText layout key).toList ++
        ':' :: ' ' :: ((write layout (level + 1) value).toList ++
          ((writeFields layout (level + 1) fields).toList ++
            ((layout.newline level).toList ++ ['\x7d']))))) := by
  simp [write]

theorem exists_fuel {layout : Layout} {level fuel : Nat} {value : Json} (h : IsPlain value)
    (hfuel : 2 * (write layout level value).toList.length ≤ fuel) : ∃ n, fuel = n + 1 := by
  have hpos := length_write_pos layout level h
  exact ⟨fuel - 1, by omega⟩

/-- Every plain value is read back in every layout. -/
theorem IsPlain.readsBack {value : Json} (h : IsPlain value) (layout : Layout) :
    ReadsBack layout value := by
  induction h with
  | null =>
    intro level fuel rest hfuel hrest
    obtain ⟨fuel, rfl⟩ := exists_fuel .null hfuel
    rw [readValue_of_atom (by simp [write])]
    simp [write, readAtom_null]
  | bool b =>
    intro level fuel rest hfuel hrest
    obtain ⟨fuel, rfl⟩ := exists_fuel (.bool b) hfuel
    cases b with
    | false =>
      rw [readValue_of_atom (by simp [write])]
      simp [write, readAtom_false]
    | true =>
      rw [readValue_of_atom (by simp [write])]
      simp [write, readAtom_true]
  | @int n hdigits =>
    intro level fuel rest hfuel hrest
    obtain ⟨fuel, rfl⟩ := exists_fuel (.int hdigits) hfuel
    rw [readValue_of_atom, write, readAtom_ofInt hdigits hrest]
    -- neither a sign nor a digit opens a text, a list or an object
    obtain ⟨c, hhead, hc⟩ := exists_head_ofInt n
    simp only [write, List.head?_append, hhead, Option.some_or, Option.mem_def, Option.some.injEq,
      forall_eq']
    rcases hc with rfl | hc
    · decide
    · exact ⟨(ne_of_isDigit hc rfl).symm, (ne_of_isDigit hc rfl).symm, (ne_of_isDigit hc rfl).symm⟩
  | str s =>
    intro level fuel rest hfuel hrest
    obtain ⟨fuel, rfl⟩ := exists_fuel (.str s) hfuel
    simp only [write, toList_writeText, List.cons_append, List.append_assoc, List.nil_append,
      readValue, readText_written]
  | @arr items hitems ih =>
    intro level fuel rest hfuel hrest
    obtain ⟨fuel, rfl⟩ := exists_fuel (.arr hitems) hfuel
    cases items with
    | nil => simp [write, readValue, skipSpace, isSpace]
    | cons item items =>
      have hitem := hitems item List.mem_cons_self
      -- the first item does not look like the end of the list
      obtain ⟨c, hhead, hc⟩ := exists_head_write layout (level + 1) hitem
      rw [toList_write_list] at hfuel ⊢
      simp only [List.length_cons, List.length_append, List.length_nil] at hfuel
      simp only [List.cons_append, List.append_assoc, List.nil_append]
      rw [readValue_list, readItems_written layout (level + 1) level rest items item fuel []
        (fun i hi => ⟨hitems i hi, ih i hi⟩) (by rw [List.length_append]; omega), List.reverse_nil,
        List.nil_append]
      · rw [skipSpace_append (isSpace_of_mem_newline layout (level + 1)),
          skipSpace_write layout (level + 1) hitem]
      · simp [hhead, ne_of_startsValue hc (d := ']') rfl]
  | @obj fields hkeys hvalues ih =>
    intro level fuel rest hfuel hrest
    obtain ⟨fuel, rfl⟩ := exists_fuel (.obj hkeys hvalues) hfuel
    match fields with
    | [] => simp [write, readValue, skipSpace, isSpace]
    | (key, value) :: fields =>
      rw [toList_write_object] at hfuel ⊢
      simp only [List.length_cons, List.length_append, List.length_nil] at hfuel
      simp only [List.cons_append, List.append_assoc, List.nil_append]
      rw [readValue_object, readFields_written layout (level + 1) level rest fields key value fuel
        [] (fun i hi => ⟨hvalues i hi, ih i hi⟩) hkeys (by rw [List.length_append]; omega),
        List.nil_append]
      · rw [skipSpace_append (isSpace_of_mem_newline layout (level + 1)), skipSpace_writeText]
      · simp [toList_writeText]

/-- The text of a plain value has this value. -/
theorem parse_render (layout : Layout) {value : Json} (h : IsPlain value) :
    parse (render layout value) = .ok value := by
  have hskip := skipSpace_write layout 0 h []
  have hread : readValue (2 * (write layout 0 value).toList.length + 2)
      ((write layout 0 value).toList ++ []) = .ok (value, []) :=
    h.readsBack layout (Nat.le_add_right _ 2) (by simp [ClosesValue])
  rw [List.append_nil] at hskip hread
  obtain ⟨c, hhead, hc⟩ := exists_head_write layout 0 h
  have hwhole : readWhole (write layout 0 value).toList = .ok value := by
    rw [readWhole]
    · rw [hskip, readFront, hread]
      rfl
    · -- no byte order mark stands in front
      intro rest hrest
      rw [hrest] at hhead
      exact ne_of_startsValue hc (d := '\ufeff') rfl (by simpa using hhead.symm)
  rw [parse, render, hwhole]

end PluginAtlas.Json
