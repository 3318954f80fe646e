import PluginAtlas.Proofs.DecodedSources
import PluginAtlas.Proofs.Expressions

/-!
# Texts between quotes

A text can be written between apostrophes or between double quotes, and each form escapes
characters of its own. The one is opened by three replacements, the other by a scan that
looks one character ahead. Both give back the text that was written.

## Main definitions

* `Quote`: the two quotes, with what each of them escapes.
* `LiteralStyle`: a quote, the mark of a binary literal, and parentheses around.
* `IsLiteral`, `IsSpelled`: the nodes that write a text in a style.

## Main results

* `Text.substituteList_flatMap`: a replacement in a text that is put together from parts.
* `Quote.unescapeSingle_body`, `Quote.unescapeDouble_body`: opening undoes escaping.
* `IsSpelled.stringValue?_eq`: the value of a literal is what was written.
-/

namespace PluginAtlas

namespace Text

variable {old new : List Char}

/-- A replacement in a text that is put together from parts. No occurrence may reach from one
part into the next, whatever follows. -/
theorem substituteList_flatMap {α : Type} {xs : List α} {written kept : α → List Char}
    (h : ∀ x ∈ xs, ∀ rest, substituteList old new 0 (written x ++ rest) =
      kept x ++ substituteList old new 0 rest) :
    substituteList old new 0 (xs.flatMap written) = xs.flatMap kept := by
  induction xs with
  | nil => rfl
  | cons x xs ih =>
    obtain ⟨hx, hxs⟩ := List.forall_mem_cons.mp h
    rw [List.flatMap_cons, hx, ih hxs, List.flatMap_cons]

end Text

namespace Php

/-! ### Escapes -/

/-- The quotes between which a text is written. -/
inductive Quote where
  | single
  | double
deriving DecidableEq, Repr

namespace Quote

/-- The quote itself. -/
def mark : Quote → Char
  | single => '\''
  | double => '"'

/-- What stands behind the backslash where a character is escaped; `none` for the
characters that stand for themselves. -/
def letter? : Quote → Char → Option Char
  | single, '\\' => some '\\'
  | single, '\'' => some '\''
  | double, '\\' => some '\\'
  | double, '"' => some '"'
  | double, '$' => some '$'
  | double, '\n' => some 'n'
  | double, '\t' => some 't'
  | double, '\r' => some 'r'
  | _, _ => none

/-- A character as it is written between the quotes. -/
def escape (quote : Quote) (c : Char) : List Char :=
  match quote.letter? c with
  | some letter => ['\\', letter]
  | none => [c]

/-- Characters as they are written between the quotes. -/
def body (quote : Quote) (cs : List Char) : List Char := cs.flatMap quote.escape

variable {quote : Quote} {c letter : Char} {cs : List Char}

@[simp]
theorem body_nil : quote.body [] = [] := rfl

theorem body_cons : quote.body (c :: cs) = quote.escape c ++ quote.body cs := List.flatMap_cons

theorem escape_of_letter? (h : quote.letter? c = some letter) : quote.escape c = ['\\', letter] := by
  rw [escape, h]

theorem escape_of_plain (h : quote.letter? c = none) : quote.escape c = [c] := by
  rw [escape, h]

/-- A character that stands for itself is neither a backslash nor the quote. -/
theorem ne_of_plain (h : quote.letter? c = none) : c ≠ '\\' ∧ c ≠ quote.mark := by
  constructor <;> rintro rfl <;> cases quote <;> exact absurd h (by decide)

/-- Nor does it begin a variable between double quotes. -/
theorem ne_dollar_of_plain (h : double.letter? c = none) : c ≠ '$' := by
  rintro rfl
  exact absurd h (by decide)

/-- Between apostrophes a character is a backslash, an apostrophe, or stands for itself. -/
theorem single_cases (c : Char) : c = '\\' ∨ c = '\'' ∨ single.letter? c = none := by
  unfold letter?
  split <;> simp_all

theorem doubleEscape?_of_letter? (h : double.letter? c = some letter) :
    doubleEscape? letter = some c := by
  unfold letter? at h
  split at h <;> simp_all <;> subst h <;> rfl

/-! ### Opening the escapes -/

/-- Pairs of backslashes are set aside. An apostrophe keeps its backslash, since this one
does not belong to a pair. -/
theorem substituteList_pairs (nul : Char) (cs : List Char) :
    Text.substituteList ['\\', '\\'] [nul] 0 (single.body cs) =
      cs.flatMap fun c => if c = '\\' then [nul] else single.escape c := by
  apply Text.substituteList_flatMap
  intro c _ rest
  rcases single_cases c with rfl | rfl | hplain
  · exact Text.substituteList_append (by decide) rest
  · have hescape : ¬ ['\\', '\\'] <+: '\\' :: '\'' :: rest := by simp [List.cons_prefix_cons]
    exact (Text.substituteList_cons hescape).trans
      (congrArg _ (Text.substituteList_cons_of_ne (by decide) rest))
  · have hbackslash := (ne_of_plain hplain).1
    rw [escape_of_plain hplain, if_neg hbackslash]
    exact Text.substituteList_cons_of_ne hbackslash rest

/-- With the pairs aside, each backslash that is left belongs to an apostrophe. -/
theorem substituteList_apostrophes {nul : Char} (hnul : nul ≠ '\\') (cs : List Char) :
    Text.substituteList ['\\', '\''] ['\''] 0
      (cs.flatMap fun c => if c = '\\' then [nul] else single.escape c) =
      cs.flatMap fun c => if c = '\\' then [nul] else [c] := by
  apply Text.substituteList_flatMap
  intro c _ rest
  rcases single_cases c with rfl | rfl | hplain
  · exact Text.substituteList_cons_of_ne hnul rest
  · exact Text.substituteList_append (by decide) rest
  · have hbackslash := (ne_of_plain hplain).1
    rw [escape_of_plain hplain, if_neg hbackslash]
    exact Text.substituteList_cons_of_ne hbackslash rest

/-- The pairs return as single backslashes, if nothing else was taken for one. -/
theorem substituteList_aside {nul : Char} (h : nul ∉ cs) :
    Text.substituteList [nul] ['\\'] 0 (cs.flatMap fun c => if c = '\\' then [nul] else [c]) =
      cs := by
  have hunits : Text.substituteList [nul] ['\\'] 0
      (cs.flatMap fun c => if c = '\\' then [nul] else [c]) = cs.flatMap fun c => [c] := by
    apply Text.substituteList_flatMap
    intro c hc rest
    by_cases hbackslash : c = '\\'
    · subst hbackslash
      exact Text.substituteList_append (List.cons_ne_nil nul []) rest
    · rw [if_neg hbackslash]
      have hne : c ≠ nul := fun heq => h (heq ▸ hc)
      exact Text.substituteList_cons_of_ne hne rest
  rw [hunits, List.flatMap_singleton']

/-- Opening undoes escaping between apostrophes. The character that stands in for the pairs
must not occur in the text. -/
theorem unescapeSingle_body (h : Char.ofNat 0 ∉ cs) :
    unescapeSingle (String.ofList (single.body cs)) = String.ofList cs := by
  simp only [unescapeSingle, Text.substitute, String.toList_ofList]
  apply congrArg
  calc
    _ = Text.substituteList [Char.ofNat 0] ['\\'] 0 (Text.substituteList ['\\', '\''] ['\''] 0
          (Text.substituteList ['\\', '\\'] [Char.ofNat 0] 0 (single.body cs))) := rfl
    _ = cs := by
      rw [substituteList_pairs, substituteList_apostrophes (by decide), substituteList_aside h]

theorem unescapeDoubleList_plain (h : c ≠ '\\') (rest : List Char) :
    unescapeDoubleList (c :: rest) = c :: unescapeDoubleList rest := by
  cases rest with
  | nil => rfl
  | cons d rest => simp [unescapeDoubleList, h]

theorem unescapeDoubleList_escape (h : doubleEscape? letter = some c) (rest : List Char) :
    unescapeDoubleList ('\\' :: letter :: rest) = c :: unescapeDoubleList rest := by
  simp [unescapeDoubleList, h]

/-- Opening undoes escaping between double quotes. -/
theorem unescapeDouble_body (cs : List Char) :
    unescapeDouble (String.ofList (double.body cs)) = String.ofList cs := by
  rw [unescapeDouble, String.toList_ofList]
  apply congrArg
  induction cs with
  | nil => rfl
  | cons c cs ih =>
    rw [body_cons]
    cases hletter : double.letter? c with
    | none =>
      rw [escape_of_plain hletter, List.singleton_append,
        unescapeDoubleList_plain (ne_of_plain hletter).1, ih]
    | some letter =>
      rw [escape_of_letter? hletter]
      -- The letter is taken together with its backslash, also where it is a backslash itself.
      exact (unescapeDoubleList_escape (doubleEscape?_of_letter? hletter) _).trans
        (congrArg (c :: ·) ih)

end Quote

/-! ### Styles -/

/-- The mark in front of a binary literal, if it has one. -/
inductive BinaryMark where
  | none
  | lower
  | upper
deriving DecidableEq, Repr

/-- The mark as it is written. -/
def BinaryMark.written : BinaryMark → List Char
  | .none => []
  | .lower => ['b']
  | .upper => ['B']

/-- A way to write a text. -/
structure LiteralStyle where
  quote : Quote
  binary : BinaryMark := .none
  /-- The number of parentheses around the literal. -/
  parentheses : Nat := 0
deriving DecidableEq, Repr

namespace LiteralStyle

/-- The literal of a text. -/
def literal (style : LiteralStyle) (s : String) : List Char :=
  style.binary.written ++ style.quote.mark :: (style.quote.body s.toList ++ [style.quote.mark])

/-- The literal of a text with the parentheses around. -/
def written (style : LiteralStyle) (s : String) : List Char :=
  List.replicate style.parentheses '(' ++ style.literal s ++ List.replicate style.parentheses ')'

end LiteralStyle

theorem between?_marked (mark : Char) (body : List Char) :
    between? mark (String.ofList (mark :: (body ++ [mark]))) = some (String.ofList body) := by
  simp [between?]

theorem between?_of_ne {mark c : Char} (h : c ≠ mark) (body : List Char) :
    between? mark (String.ofList (c :: body)) = none := by
  simp [between?, h]

/-- The mark of a binary literal is dropped, and a quote is not taken for one. -/
theorem dropBinaryMark_literal (style : LiteralStyle) (s : String) :
    dropBinaryMark (String.ofList (style.literal s)) =
      String.ofList (style.quote.mark :: (style.quote.body s.toList ++ [style.quote.mark])) := by
  obtain ⟨quote, binary, _⟩ := style
  cases binary <;> cases quote <;>
    simp [dropBinaryMark, LiteralStyle.literal, BinaryMark.written, Quote.mark]

/-! ### Nodes -/

/-- A node writes a text in a style. Between double quotes the text may be divided into
parts, as long as none of them is an inserted expression. -/
structure IsLiteral (f : SourceFile) (style : LiteralStyle) (s : String) (t : Tree) : Prop where
  kind : t.kind = "string" ∨ style.quote = .double ∧ t.kind = "encapsed_string"
  parts : ∀ child ∈ t.namedChildren, isLiteralPart child.kind = true
  text : f.textOf t = String.ofList (style.literal s)

/-- An expression writes a text in a style, inside any parentheses. -/
def IsSpelled (f : SourceFile) (style : LiteralStyle) (s : String) (t : Tree) : Prop :=
  ∃ literal, t.Encloses literal ∧ IsLiteral f style s literal

variable {f : SourceFile} {style : LiteralStyle} {s : String} {t : Tree}

theorem IsLiteral.kind_cases (h : IsLiteral f style s t) :
    t.kind = "string" ∨ t.kind = "encapsed_string" :=
  h.kind.imp_right And.right

/-- The value of a literal is the text that was written. -/
theorem IsLiteral.stringValue?_eq (h : IsLiteral f style s t) (hnul : Char.ofNat 0 ∉ s.toList) :
    stringValue? f (some t) = some s := by
  have hplain : t.kind ≠ "parenthesized_expression" := by
    rcases h.kind_cases with hkind | hkind <;> simp [hkind]
  have hparts : (t.namedChildren.any fun child => !isLiteralPart child.kind) = false := by
    simpa [List.any_eq_false] using h.parts
  simp only [stringValue?, Option.bind_eq_bind, Option.bind_some, unwrap?_eq_self hplain, h.text,
    dropBinaryMark_literal]
  cases hquote : style.quote with
  | single =>
    have hkind : t.kind = "string" := h.kind.resolve_right (by simp [hquote])
    simp only [if_pos hkind, Quote.mark, between?_marked, Quote.unescapeSingle_body hnul,
      String.ofList_toList]
  | double =>
    have hvalue : (between? '"' (String.ofList ('"' :: (Quote.double.body s.toList ++ ['"'])))).map
        unescapeDouble = some s := by
      rw [between?_marked, Option.map_some, Quote.unescapeDouble_body, String.ofList_toList]
    rcases h.kind_cases with hkind | hkind
    · simp only [if_pos hkind, Quote.mark, between?_of_ne (show '"' ≠ '\'' by decide), hvalue]
    · have hstring : t.kind ≠ "string" := by simp [hkind]
      simp only [if_neg hstring, if_pos hkind, hparts, Quote.mark, hvalue, Bool.false_eq_true,
        if_false]

/-- The style in which a text is written does not change its value. -/
theorem IsSpelled.stringValue?_eq (h : IsSpelled f style s t) (hnul : Char.ofNat 0 ∉ s.toList) :
    stringValue? f (some t) = some s := by
  obtain ⟨literal, hencloses, hliteral⟩ := h
  rw [stringValue?_of_encloses hencloses, hliteral.stringValue?_eq hnul]

/-- A literal is no comment, and neither are parentheses. -/
theorem IsSpelled.isComment_eq (h : IsSpelled f style s t) : t.isComment = false := by
  obtain ⟨literal, hencloses, hliteral⟩ := h
  cases hencloses with
  | self => rcases hliteral.kind_cases with hkind | hkind <;> simp [Tree.isComment, hkind]
  | parentheses hkind _ _ => simp [Tree.isComment, hkind]

theorem IsSpelled.isText (h : IsSpelled f style s t) (hnul : Char.ofNat 0 ∉ s.toList) :
    IsText f t s := by
  obtain ⟨literal, hencloses, hliteral⟩ := h
  exact ⟨literal, hencloses, hliteral.kind_cases, hliteral.stringValue?_eq hnul⟩

end Php

end PluginAtlas
