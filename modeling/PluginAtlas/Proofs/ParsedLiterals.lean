import PluginAtlas.Php.Parse
import PluginAtlas.Proofs.QuotedLiterals
import PluginAtlas.Proofs.SourcePositions

/-!
# Literals in the grammar

A text that is written in any style is read by the grammar as the literal it is meant to
be, wherever an expression is expected: the scan for the closing quote does not stop inside
the text, no expression is found inserted, and what follows does not become a part of it.

## Main definitions

* `Grammar.IsLiteralNode`: the node of a literal between two positions.
* `Grammar.closesExpression`: the marks behind an expression that do not belong to it.

## Main results

* `Grammar.textLiteral_literal`: a literal is read to its end.
* `Grammar.fix_isSpelled`: so is one in parentheses, as an expression that spells the text.
* `firstExpression?_written`: the expression of a file that consists of such a literal.
-/

namespace PluginAtlas.Php

/-- The kind of the nodes for a quote. -/
def Quote.kind : Quote → String
  | single => "string"
  | double => "encapsed_string"

namespace Grammar

open Rule

variable {r : Goal → Rule} {input : Input} {p start : Nat} {c : Char} {cs rest : List Char}

/-! ### The closing quote -/

/-- Between apostrophes each escaped character is passed over together with its backslash, so
the scan ends at the apostrophe behind the text. -/
theorem closingApostrophe_body (h : Ahead input p (Quote.single.body cs ++ '\'' :: rest)) :
    closingApostrophe input p = p + (Quote.single.body cs).length := by
  induction cs generalizing p with
  | nil =>
    have hlt : p < input.chars.size := h.lt_size
    rw [closingApostrophe, dif_pos hlt, h.getElem_eq, if_pos rfl]
    rfl
  | cons c cs ih =>
    rw [Quote.body_cons] at h ⊢
    cases hletter : Quote.single.letter? c with
    | none =>
      obtain ⟨hbackslash, hmark⟩ := Quote.ne_of_plain hletter
      rw [Quote.escape_of_plain hletter] at h ⊢
      have hlt : p < input.chars.size := h.lt_size
      have hquote : c ≠ '\'' := hmark
      rw [closingApostrophe, dif_pos hlt, h.getElem_eq, if_neg hquote, if_neg hbackslash, ih h.next,
        List.length_append, List.length_singleton, Nat.add_assoc]
    | some letter =>
      rw [Quote.escape_of_letter? hletter] at h ⊢
      have hlt : p < input.chars.size := h.lt_size
      rw [closingApostrophe, dif_pos hlt, h.getElem_eq, if_neg (by decide), if_pos rfl,
        ih h.next.next, List.length_append, ← Nat.add_assoc]
      rfl

/-- No expression is inserted at a character, unless a dollar sign stands at it or behind it. -/
theorem insertion_eq_none (h : Ahead input p (c :: rest)) (hc : c ≠ '$')
    (hrest : rest.head? ≠ some '$') : insertion r input p = none := by
  have hbraced : input.holdsText p "\x7b$" = false := by
    rw [h.holdsText_eq]
    cases rest with
    | nil => simp [List.isPrefixOf]
    | cons d rest =>
      have hd : '$' ≠ d := by
        rintro rfl
        exact hrest rfl
      simp [List.isPrefixOf, hd]
  have hplain : input.holdsText p "$\x7b" = false := by
    simp [h.holdsText_eq, List.isPrefixOf, hc.symm]
  simp [insertion, hbraced, hplain, h.charAt_eq, hc]

/-- Between double quotes no text begins with a dollar sign. -/
theorem head?_body (cs rest : List Char) :
    (Quote.double.body cs ++ '"' :: rest).head? ≠ some '$' := by
  cases cs with
  | nil => simp
  | cons c cs =>
    rw [Quote.body_cons]
    cases hletter : Quote.double.letter? c with
    | none => simpa [Quote.escape_of_plain hletter] using Quote.ne_dollar_of_plain hletter
    | some letter => simp [Quote.escape_of_letter? hletter]

/-- Between double quotes the text is one part. -/
theorem textParts_body {fuel run : Nat} {done : List Tree}
    (h : Ahead input p (Quote.double.body cs ++ '"' :: rest))
    (hfuel : (Quote.double.body cs).length < fuel) :
    textParts r (fun i => input.charAt i == '"') input fuel run p done =
      (textRun "string_content" input run (p + (Quote.double.body cs).length) ++ done,
        p + (Quote.double.body cs).length) := by
  induction cs generalizing p fuel with
  | nil =>
    obtain ⟨fuel, rfl⟩ := Nat.exists_eq_add_of_lt hfuel
    simp [textParts, h.charAt_eq]
  | cons c cs ih =>
    obtain ⟨fuel, rfl⟩ : ∃ more, fuel = more + 1 := ⟨fuel - 1, by omega⟩
    rw [Quote.body_cons] at h hfuel ⊢
    cases hletter : Quote.double.letter? c with
    | none =>
      obtain ⟨hbackslash, hmark⟩ := Quote.ne_of_plain hletter
      have hquote : c ≠ '"' := hmark
      rw [Quote.escape_of_plain hletter, List.length_append, List.length_singleton] at hfuel ⊢
      rw [Quote.escape_of_plain hletter] at h
      have hinsertion : insertion r input p = none :=
        insertion_eq_none h (Quote.ne_dollar_of_plain hletter) (head?_body cs rest)
      simp only [textParts, h.atEnd_eq, h.charAt_eq, hinsertion, beq_iff_eq, hquote, hbackslash,
        Bool.false_or, if_false]
      rw [ih h.next (by omega), ← Nat.add_assoc]
    | some letter =>
      have hpair : ['\\', letter].length = 2 := rfl
      rw [Quote.escape_of_letter? hletter, List.length_append, hpair] at hfuel ⊢
      rw [Quote.escape_of_letter? hletter] at h
      have hquote : ('\\' == '"') = false := by decide
      simp only [textParts, h.atEnd_eq, h.charAt_eq, hquote, beq_self_eq_true, Bool.false_or,
        Bool.false_eq_true, if_false, if_true]
      rw [ih h.next.next (by omega), ← Nat.add_assoc]

/-! ### The literal -/

/-- The node of a literal between two positions. -/
structure IsLiteralNode (input : Input) (quote : Quote) (p stop : Nat) (t : Tree) : Prop where
  kind : t.kind = quote.kind
  isNamed : t.isNamed = true
  start : t.start = input.offset p
  stop : t.stop = input.offset stop
  parts : ∀ child ∈ t.namedChildren, isLiteralPart child.kind = true

theorem isLiteralPart_of_mem_textRun {stop : Nat} {child : Tree}
    (h : child ∈ textRun "string_content" input start stop) : isLiteralPart child.kind = true := by
  unfold textRun at h
  split at h
  · rw [List.mem_singleton.mp h]
    rfl
  · simp at h

theorem reverse_textRun (kind : String) (start stop : Nat) :
    (textRun kind input start stop).reverse = textRun kind input start stop := by
  unfold textRun
  split <;> rfl

/-- The text between the quotes is all that the grammar names in a literal. -/
theorem isLiteralNode_node {quote : Quote} {stop q : Nat} {first last : Tree}
    (hfirst : first.isNamed = false) (hlast : last.isNamed = false) :
    IsLiteralNode input quote p stop (.node quote.kind true (input.offset p) (input.offset stop) none
      (first :: (textRun "string_content" input start q ++ [last]))) := by
  refine ⟨rfl, rfl, rfl, rfl, ?_⟩
  intro child hchild
  obtain ⟨hmem, hnamed⟩ := List.mem_filter.mp hchild
  rcases List.mem_cons.mp hmem with rfl | hmem
  · simp [hfirst] at hnamed
  · rcases List.mem_append.mp hmem with hmem | hmem
    · exact isLiteralPart_of_mem_textRun hmem
    · rw [List.mem_singleton.mp hmem, hlast] at hnamed
      simp at hnamed

theorem plainText_body (h : Ahead input (start + 1) (Quote.single.body cs ++ '\'' :: rest)) :
    ∃ t, plainText start input p = some ([t], start + (Quote.single.body cs).length + 2) ∧
      IsLiteralNode input .single p (start + (Quote.single.body cs).length + 2) t := by
  have hstop : start + 1 + (Quote.single.body cs).length + 1 =
      start + (Quote.single.body cs).length + 2 := by omega
  rw [plainText, closingApostrophe_body h, h.append.atEnd_eq, hstop]
  exact ⟨_, rfl, isLiteralNode_node rfl rfl⟩

theorem insertedText_body (h : Ahead input (start + 1) (Quote.double.body cs ++ '"' :: rest)) :
    ∃ t, insertedText r "encapsed_string" '"' start input p =
        some ([t], start + (Quote.double.body cs).length + 2) ∧
      IsLiteralNode input .double p (start + (Quote.double.body cs).length + 2) t := by
  have hstop : start + 1 + (Quote.double.body cs).length + 1 =
      start + (Quote.double.body cs).length + 2 := by omega
  have hfuel : (Quote.double.body cs).length < input.size + 1 := by
    have hlt := h.append.lt_size
    omega
  rw [insertedText, textParts_body h hfuel, List.append_nil]
  simp only [h.append.atEnd_eq, hstop, reverse_textRun]
  exact ⟨_, rfl, isLiteralNode_node rfl rfl⟩

variable {style : LiteralStyle} {s : String}

theorem length_literal (style : LiteralStyle) (s : String) : (style.literal s).length =
    style.binary.written.length + (style.quote.body s.toList).length + 2 := by
  simp [LiteralStyle.literal]
  omega

theorem length_written_pos (style : LiteralStyle) (s : String) : 0 < (style.written s).length := by
  simp only [LiteralStyle.written, List.length_append, length_literal]
  omega

/-- How a literal is read from the quote on that opens it. -/
def quotedText (r : Goal → Rule) (start : Nat) : Quote → Rule
  | .single => plainText start
  | .double => insertedText r "encapsed_string" '"' start

/-- The quote stands at the position, or behind the mark of a binary literal. -/
theorem textLiteral_eq {quote : Quote} {binary : BinaryMark}
    (h : Ahead input p (binary.written ++ quote.mark :: rest)) :
    textLiteral r input p = quotedText r (p + binary.written.length) quote input p := by
  simp only [BinaryMark.written, Quote.mark] at h
  cases binary with
  | none => cases quote <;> simp [textLiteral, quotedText, h.charAt_eq, BinaryMark.written]
  | lower =>
    cases quote <;>
      simp [textLiteral, quotedText, h.charAt_eq, h.next.charAt_eq, BinaryMark.written]
  | upper =>
    cases quote <;>
      simp [textLiteral, quotedText, h.charAt_eq, h.next.charAt_eq, BinaryMark.written]

/-- A literal is read to its end, whatever follows. -/
theorem textLiteral_literal (h : Ahead input p (style.literal s ++ rest)) :
    ∃ t, textLiteral r input p = some ([t], p + (style.literal s).length) ∧
      IsLiteralNode input style.quote p (p + (style.literal s).length) t := by
  rw [length_literal]
  simp only [LiteralStyle.literal, List.append_assoc, List.cons_append, List.nil_append] at h
  have hmark := h.append
  obtain ⟨quote, binary, _⟩ := style
  rw [textLiteral_eq h, ← Nat.add_assoc, ← Nat.add_assoc]
  cases quote with
  | single => exact plainText_body hmark.next
  | double => exact insertedText_body hmark.next

/-! ### What follows -/

/-- The marks behind an expression that do not belong to it. -/
def closesExpression (c : Char) : Bool := c == ')' || c == ';' || c == ','

theorem cases_of_closesExpression (h : closesExpression c = true) : c = ')' ∨ c = ';' ∨ c = ',' := by
  simpa [closesExpression, or_assoc] using h

theorem startsPart_of_closesExpression (h : closesExpression c = true) : startsPart c = true := by
  rcases cases_of_closesExpression h with rfl | rfl | rfl <;> decide

/-- Nothing behind a closing mark is applied to an operand. -/
theorem tails_eq (h : Ahead input p (c :: rest)) (hc : closesExpression c = true) (fuel : Nat)
    (base : List Tree) : tails r true input fuel base p = (base, p) := by
  cases fuel with
  | zero => rfl
  | succ fuel =>
    have hnear := h.near_eq (startsPart_of_closesExpression hc)
    have hnone : tail r base true input p = none := by
      rcases cases_of_closesExpression hc with rfl | rfl | rfl <;>
        simp [tail, hnear, h.holdsText_eq, h.charAt_eq, List.isPrefixOf]
    rw [tails, hnone]

/-- No operator begins with a closing mark. -/
theorem operations_eq (h : Ahead input p (c :: rest)) (hc : closesExpression c = true)
    (level fuel : Nat) (left : List Tree) :
    operations r level input fuel left p = (left, p) := by
  cases fuel with
  | zero => rfl
  | succ fuel =>
    have hnear := h.near_eq (startsPart_of_closesExpression hc)
    have hoperator : operatorAt? input p = none := by
      rcases cases_of_closesExpression hc with rfl | rfl | rfl <;>
        simp [operatorAt?, h.holdsText_eq, h.charAt_eq, isNameStart, markOperators, List.isPrefixOf]
    have hchoice : isChoice input p = false := by
      rcases cases_of_closesExpression hc with rfl | rfl | rfl <;> simp [isChoice, h.charAt_eq]
    rw [operations, operation, hnear, hchoice, hoperator]
    simp

/-! ### Expressions -/

/-- The characters with which a written text begins. -/
def startsWritten (c : Char) : Bool := c == '(' || c == '\'' || c == '"' || c == 'b' || c == 'B'

theorem cases_of_startsWritten (h : startsWritten c = true) :
    c = '(' ∨ c = '\'' ∨ c = '"' ∨ c = 'b' ∨ c = 'B' := by
  simpa [startsWritten, or_assoc] using h

theorem exists_literal_eq (style : LiteralStyle) (s : String) :
    ∃ c more, style.literal s = c :: more ∧ startsWritten c = true ∧ c ≠ '(' := by
  obtain ⟨quote, binary, _⟩ := style
  cases binary with
  | none => cases quote <;> exact ⟨_, _, rfl, rfl, by simp [Quote.mark]⟩
  | lower => exact ⟨'b', _, rfl, rfl, by decide⟩
  | upper => exact ⟨'B', _, rfl, rfl, by decide⟩

/-- The signs in front of an operand. -/
def isSign (c : Char) : Bool := c == '!' || c == '~' || c == '+' || c == '-' || c == '@'

theorem isSign_of_startsWritten (h : startsWritten c = true) : isSign c = false := by
  rcases cases_of_startsWritten h with rfl | rfl | rfl | rfl | rfl <;> decide

/-- An operand without a sign is the whole expression if nothing is done with it. -/
theorem expression_of_plainOperand {q level : Nat} {d : Char} {more : List Char} {t : Tree}
    (h : Ahead input p (c :: rest)) (hc : isSign c = false)
    (hoperand : plainOperand r input p = some ([t], q)) (hkind : isAssignable t.kind = false)
    (hq : Ahead input q (d :: more)) (hd : closesExpression d = true) :
    expression r level input p = some ([t], q) := by
  have hassignment : assignment r [t] input q = some ([t], q) := by simp [assignment, hkind]
  simp only [isSign, Bool.or_eq_false_iff, beq_eq_false_iff_ne] at hc
  obtain ⟨⟨⟨⟨hnot, hbits⟩, hplus⟩, hminus⟩, hat⟩ := hc
  have hoperand' : operand r input p = some ([t], q) := by
    simp [operand, h.holdsText_eq, h.charAt_eq, List.isPrefixOf, hoperand, hassignment, hnot, hbits,
      hplus, hplus.symm, hminus, hminus.symm, hat]
  simp [expression, hoperand', operations_eq hq hd]

/-- A literal is an expression. -/
theorem expression_literal {level : Nat} (h : Ahead input p (style.literal s ++ c :: rest))
    (hc : closesExpression c = true) :
    ∃ t, expression r level input p = some ([t], p + (style.literal s).length) ∧
      IsLiteralNode input style.quote p (p + (style.literal s).length) t := by
  obtain ⟨t, hliteral, hnode⟩ := textLiteral_literal (r := r) h
  refine ⟨t, ?_, hnode⟩
  have hkind : isAssignable t.kind = false := by
    rw [hnode.kind]
    cases style.quote <;> decide
  have hstop := h.append
  have htails := fun fuel base => tails_eq (r := r) hstop hc fuel base
  obtain ⟨d, more, hfirst, hd, hopen⟩ := exists_literal_eq style s
  rw [hfirst, List.cons_append] at h
  refine expression_of_plainOperand h (isSign_of_startsWritten hd) ?_ hkind hstop hc
  rcases cases_of_startsWritten hd with rfl | rfl | rfl | rfl | rfl
  · exact absurd rfl hopen
  all_goals simp [plainOperand, h.charAt_eq, hliteral, htails]

/-! ### Parentheses -/

/-- A part of a node that stands right at the position. -/
theorem seq_cons {rule : Rule} {rules : List Rule} {trees : List Tree} {q : Nat}
    (h : Ahead input p (c :: rest)) (hc : startsPart c = true)
    (hrule : rule input p = some (trees, q)) (hq : q ≠ p) :
    seq (rule :: rules) input p =
      (seq rules input q).map fun (more, stop) => (trees ++ more, stop) := by
  cases hrest : seq rules input q <;> simp [seq, h.trivia_eq hc, hrule, hq, hrest]

theorem mark_eq (text : String) (h : Ahead input p (text.toList ++ rest)) :
    mark text input p = some ([input.leaf text false p (p + text.length)], p + text.length) := by
  have hholds : input.holdsText p text = true := by
    rw [h.holdsText_eq, List.isPrefixOf_iff_prefix]
    exact List.prefix_append _ _
  rw [mark, if_pos hholds]

/-- An expression in parentheses is the one node that the grammar names there. -/
theorem parenthesized_eq {q : Nat} {d : Char} {more after : List Char} {t : Tree}
    (h : Ahead input p ('(' :: d :: more)) (hd : startsPart d = true)
    (ht : anyExpression r input (p + 1) = some ([t], q)) (hnamed : t.isNamed = true)
    (hlt : p + 1 < q) (hq : Ahead input q (')' :: after)) :
    ∃ outer, parenthesized r input p = some ([outer], q + 1) ∧ outer.isNamed = true ∧
      outer.kind = "parenthesized_expression" ∧ outer.namedChildren = [t] := by
  have hopen : mark "(" input p = some ([input.leaf "(" false p (p + 1)], p + 1) := mark_eq "(" h
  have hclose : mark ")" input q = some ([input.leaf ")" false q (q + 1)], q + 1) := mark_eq ")" hq
  have hchildren : [input.leaf "(" false p (p + 1), t, input.leaf ")" false q (q + 1)].filter
      Tree.isNamed = [t] := by
    have hleaf : ∀ kind start stop, (input.leaf kind false start stop).isNamed = false := fun _ _ _ => rfl
    simp [hnamed, hleaf]
  rw [parenthesized, node, seq_cons h (by decide) hopen (by omega),
    seq_cons h.next hd ht (by omega), seq_cons hq (by decide) hclose (by omega)]
  exact ⟨_, rfl, rfl, rfl, hchildren⟩

theorem exists_written_eq (style : LiteralStyle) (s : String) (n : Nat) (rest : List Char) :
    ∃ c more, List.replicate n '(' ++ (style.literal s ++ rest) = c :: more ∧
      startsWritten c = true := by
  cases n with
  | zero =>
    obtain ⟨c, more, hfirst, hc, -⟩ := exists_literal_eq style s
    exact ⟨c, more ++ rest, by rw [hfirst]; rfl, hc⟩
  | succ n => exact ⟨'(', _, rfl, rfl⟩

theorem startsPart_of_startsWritten (h : startsWritten c = true) : startsPart c = true := by
  rcases cases_of_startsWritten h with rfl | rfl | rfl | rfl | rfl <;> decide

/-- The only word at the front of a written text is the mark of a binary literal, and behind it
the text goes on with a parenthesis or a quote. -/
theorem exists_wordEnd_written {n : Nat}
    (h : Ahead input p (List.replicate n '(' ++ (style.literal s ++ rest))) :
    ∃ d more, Ahead input (input.wordEnd p) (d :: more) ∧ (d = '(' ∨ d = '\'' ∨ d = '"') ∧
      (input.wordAt p = "" ∨ input.wordAt p = "b") := by
  -- Without a mark there is no word at all.
  have hempty : ∀ {c more}, Ahead input p (c :: more) → (c = '(' ∨ c = '\'' ∨ c = '"') →
      ∃ d more, Ahead input (input.wordEnd p) (d :: more) ∧ (d = '(' ∨ d = '\'' ∨ d = '"') ∧
        (input.wordAt p = "" ∨ input.wordAt p = "b") := by
    intro c more h hc
    have hend : input.wordEnd p = p + 0 := by
      apply h.wordEnd_eq
      rcases hc with rfl | rfl | rfl <;> decide
    exact ⟨c, more, hend ▸ h, hc, .inl (h.wordAt_eq hend)⟩
  have hmark : style.quote.mark = '(' ∨ style.quote.mark = '\'' ∨ style.quote.mark = '"' := by
    cases style.quote <;> simp [Quote.mark]
  cases n with
  | zero =>
    simp only [List.replicate_zero, List.nil_append, LiteralStyle.literal, List.append_assoc] at h
    cases hbinary : style.binary <;> rw [hbinary] at h
    · exact hempty h hmark
    all_goals
      have hend : input.wordEnd p = p + 1 := by
        apply (h.wordEnd_cons (by decide)).trans
        apply h.next.wordEnd_eq
        cases style.quote <;> decide
      exact ⟨_, _, hend ▸ h.next, hmark, .inr (h.wordAt_eq hend)⟩
  | succ n => exact hempty h (.inl rfl)

/-- Parentheses around a written text are not those of a cast. -/
theorem isCast_eq_false {n : Nat}
    (h : Ahead input (p + 1) (List.replicate n '(' ++ (style.literal s ++ rest))) :
    isCast input p = false := by
  obtain ⟨-, -, -, -, hword⟩ := exists_wordEnd_written h
  obtain ⟨c, more, hfirst, hc⟩ := exists_written_eq style s n rest
  rw [hfirst] at h
  have hnear := h.near_eq (startsPart_of_startsWritten hc)
  rcases hword with hword | hword <;> simp [isCast, hnear, hword, castTypes]

/-- Parentheses around an expression make an expression. -/
theorem expression_parenthesized {q level : Nat} {d : Char} {more : List Char} {t : Tree}
    (hopen : Ahead input p ('(' :: d :: more)) (hd : startsPart d = true)
    (hcast : isCast input p = false) (ht : anyExpression r input (p + 1) = some ([t], q))
    (hnamed : t.isNamed = true) (hlt : p + 1 < q) (hclose : Ahead input q (')' :: c :: rest))
    (hc : closesExpression c = true) :
    ∃ outer, expression r level input p = some ([outer], q + 1) ∧ outer.isNamed = true ∧
      ∀ {inner}, t.Encloses inner → outer.Encloses inner := by
  have htails := fun fuel base => tails_eq (r := r) hclose.next hc fuel base
  obtain ⟨outer, houter, hnamed', hkind, hchildren⟩ :=
    parenthesized_eq hopen hd ht hnamed hlt hclose
  have hoperand : plainOperand r input p = some ([outer], q + 1) := by
    simp [plainOperand, hopen.charAt_eq, hcast, withTails, houter, htails]
  have hassignable : isAssignable outer.kind = false := by
    rw [hkind]
    decide
  have hexpression : expression r level input p = some ([outer], q + 1) :=
    expression_of_plainOperand hopen (by decide) hoperand hassignable hclose.next hc
  refine ⟨outer, hexpression, hnamed', fun hinner => .parentheses hkind ?_ hinner⟩
  rw [hchildren, List.head?_cons]

/-- A literal in parentheses is read as an expression, if the grammar may recurse deeply
enough. The induction is on the parentheses; each takes one level of the recursion. -/
theorem fix_written {n : Nat} (depth level : Nat) (hdepth : n < depth)
    (h : Ahead input p
      (List.replicate n '(' ++ (style.literal s ++ (List.replicate n ')' ++ c :: rest))))
    (hc : closesExpression c = true) :
    ∃ t literal, fix rules depth (.expression level) input p =
        some ([t], p + n + (style.literal s).length + n) ∧
      t.isNamed = true ∧ t.Encloses literal ∧
      IsLiteralNode input style.quote (p + n) (p + n + (style.literal s).length) literal := by
  induction n generalizing p depth level c rest with
  | zero =>
    obtain ⟨depth, rfl⟩ : ∃ less, depth = less + 1 := ⟨depth - 1, by omega⟩
    obtain ⟨t, ht, hnode⟩ := expression_literal (r := fix rules depth) h hc
    exact ⟨t, t, ht, hnode.isNamed, .self t, hnode⟩
  | succ n ih =>
    obtain ⟨depth, rfl⟩ : ∃ less, depth = less + 1 := ⟨depth - 1, by omega⟩
    -- The outermost closing parenthesis is what follows the text inside.
    rw [List.replicate_succ' (a := ')'), List.append_assoc] at h
    have hinside : Ahead input (p + 1)
        (List.replicate n '(' ++ (style.literal s ++ (List.replicate n ')' ++ ')' :: c :: rest))) :=
      h.next
    have hcast := isCast_eq_false hinside
    obtain ⟨t, literal, ht, hnamed, hencloses, hnode⟩ :=
      ih depth 0 (by omega) hinside (by decide)
    have hclose := hinside.append.append.append
    simp only [List.length_replicate] at hclose
    obtain ⟨d, more, hfirst, hd⟩ :=
      exists_written_eq style s n (List.replicate n ')' ++ ')' :: c :: rest)
    have hopen : Ahead input p ('(' :: d :: more) := hfirst ▸ h
    have hlength := length_literal style s
    obtain ⟨outer, houter, hnamed', hall⟩ := expression_parenthesized hopen
      (startsPart_of_startsWritten hd) hcast ht hnamed (by omega) hclose hc
    have hstop : p + 1 + n + (style.literal s).length + n + 1 =
        p + (n + 1) + (style.literal s).length + (n + 1) := by omega
    rw [show p + 1 + n = p + (n + 1) by omega] at hnode
    exact ⟨outer, literal, hstop ▸ houter, hnamed', hall hencloses, hnode⟩

/-- The place of a literal inside its parentheses. -/
theorem isLiteral_of_isLiteralNode {f : SourceFile} {t : Tree} (front : List Char)
    (hsource : f.source = String.ofList (front ++ (style.literal s ++ rest)))
    (h : IsLiteralNode (inputOf f.source) style.quote front.length
      (front.length + (style.literal s).length) t) : IsLiteral f style s t := by
  refine ⟨?_, h.parts, SourceFile.textOf_eq hsource h.start h.stop⟩
  rw [h.kind]
  cases style.quote
  · exact .inl rfl
  · exact .inr ⟨rfl, rfl⟩

/-- Wherever an expression is expected, a written text is read as an expression that spells
the text, if a mark follows that closes the expression. -/
theorem fix_isSpelled {f : SourceFile} {front : List Char} (depth level : Nat)
    (hsource : f.source = String.ofList (front ++ (style.written s ++ c :: rest)))
    (hc : closesExpression c = true) (hdepth : style.parentheses < depth) :
    ∃ t, fix rules depth (.expression level) (inputOf f.source) front.length =
        some ([t], front.length + (style.written s).length) ∧
      t.isNamed = true ∧ IsSpelled f style s t := by
  have h := Ahead.of_source front hsource
  simp only [LiteralStyle.written, List.append_assoc] at h hsource
  obtain ⟨t, literal, ht, hnamed, hencloses, hnode⟩ := fix_written depth level hdepth h hc
  refine ⟨t, ?_, hnamed, literal, hencloses, ?_⟩
  · rw [ht]
    simp [LiteralStyle.written, Nat.add_assoc]
  · apply isLiteral_of_isLiteralNode (front ++ List.replicate style.parentheses '(')
    · rw [hsource, List.append_assoc]
    · rwa [List.length_append, List.length_replicate]

/-- The parentheses of a written text take no more room than the source. -/
theorem parentheses_lt_size {f : SourceFile} {front : List Char}
    (hsource : f.source = String.ofList (front ++ (style.written s ++ c :: rest))) :
    style.parentheses < (inputOf f.source).size := by
  have hlt := (Ahead.of_source front hsource).append.lt_size
  simp only [LiteralStyle.written, List.length_append, List.length_replicate] at hlt
  omega

/-! ### Files -/

/-- An expression in front of a semicolon is a statement. -/
theorem expressionStatement_eq {q : Nat} {t : Tree} (h : Ahead input p (c :: rest))
    (hc : startsPart c = true) (ht : anyExpression r input p = some ([t], q))
    (hnamed : t.isNamed = true) (hlt : p < q) {after : List Char} (hq : Ahead input q (';' :: after)) :
    ∃ statement, expressionStatement r input p = some ([statement], q + 1) ∧
      statement.isNamed = true ∧ statement.kind = "expression_statement" ∧
      statement.namedChildren = [t] := by
  have hsequence : sequenceRule r input p = some ([t], q) := by
    simp [sequenceRule, ht, hq.near_eq (by decide), hq.charAt_eq]
  have hsemicolon : semicolon input q = some ([input.leaf ";" false q (q + 1)], q + 1) := by
    simp [semicolon, hq.gap_eq (by decide), hq.charAt_eq]
  have hparts : endingIn semicolon [sequenceRule r] input p =
      some ([t, input.leaf ";" false q (q + 1)], q + 1) := by
    have hseq : seq [sequenceRule r] input p = some ([t], q) := by
      rw [seq_cons h hc hsequence (by omega)]
      rfl
    simp [endingIn, hseq, hsemicolon]
  have hchildren : [t, input.leaf ";" false q (q + 1)].filter Tree.isNamed = [t] := by
    have hleaf : (input.leaf ";" false q (q + 1)).isNamed = false := rfl
    simp [hnamed, hleaf]
  rw [expressionStatement, nodeEndingIn, hparts]
  exact ⟨_, rfl, rfl, rfl, hchildren⟩

/-- A written text begins a statement that consists of an expression; the mark of a binary
literal is not taken for a word. -/
theorem statement_written (style : LiteralStyle) (s : String)
    (h : Ahead input p (List.replicate style.parentheses '(' ++ (style.literal s ++ rest))) :
    statement r input p = expressionStatement r input p := by
  obtain ⟨d, more, hend, hd, -⟩ := exists_wordEnd_written h
  have hbackslash : d ≠ '\\' := by rcases hd with rfl | rfl | rfl <;> decide
  cases hparentheses : style.parentheses with
  | succ n =>
    rw [hparentheses] at h
    simp [statement, h.charAt_eq, isNameStart]
  | zero =>
    rw [hparentheses] at h
    obtain ⟨t, hliteral, -⟩ := textLiteral_literal (r := r) h
    obtain ⟨c, later, hfirst, hc, -⟩ := exists_literal_eq style s
    rw [hfirst] at h
    rcases cases_of_startsWritten hc with rfl | rfl | rfl | rfl | rfl <;>
      simp [statement, h.charAt_eq, hend.charAt_eq, hbackslash, hliteral, isNameStart]

theorem exists_written_cons (style : LiteralStyle) (s : String) (rest : List Char) :
    ∃ c more, style.written s ++ rest = c :: more ∧ startsWritten c = true := by
  obtain ⟨c, more, hfirst, hc⟩ := exists_written_eq style s style.parentheses
    (List.replicate style.parentheses ')' ++ rest)
  refine ⟨c, more, ?_, hc⟩
  rw [← hfirst, LiteralStyle.written, List.append_assoc, List.append_assoc]

/-- What was read first stays. -/
theorem manyFrom_suffix (rule : Rule) (input : Input) (fuel : Nat) (done : List Tree) (p : Nat) :
    done <:+ (manyFrom rule input fuel done p).1 := by
  induction fuel generalizing done p with
  | zero => exact List.suffix_rfl
  | succ fuel ih =>
    simp only [manyFrom]
    split
    · exact List.suffix_rfl
    · split_ifs
      · exact List.suffix_rfl
      · exact ((List.suffix_append _ _).trans (List.suffix_append _ _)).trans (ih _ _)

/-- A repetition keeps what it reads first. -/
theorem exists_many_eq {rule : Rule} {q : Nat} {t : Tree} (hle : p ≤ input.size)
    (htrivia : input.trivia p = ([], start)) (ht : rule input start = some ([t], q))
    (hlt : start < q) : ∃ more stop, many rule input p = some (t :: more, stop) := by
  obtain ⟨fuel, hfuel⟩ : ∃ fuel, input.size + 1 - p = fuel + 1 := ⟨input.size - p, by omega⟩
  have hstep : manyFrom rule input (fuel + 1) [] p = manyFrom rule input fuel [t] q := by
    simp [manyFrom, htrivia, ht, Nat.not_le.mpr hlt]
  obtain ⟨later, hlater⟩ := manyFrom_suffix rule input fuel [t] q
  refine ⟨later.reverse, (manyFrom rule input fuel [t] q).2, ?_⟩
  simp only [many, hfuel, hstep, ← hlater, List.reverse_append, List.reverse_singleton,
    List.singleton_append]

end Grammar

open Grammar Rule

/-- The opening of a file of code. -/
def openTag : List Char := ['<', '?', 'p', 'h', 'p', ' ']

/-- The first statement of a file stands behind its opening. -/
theorem exists_children_parse {source : String} {c : Char} {rest : List Char} {statement : Tree}
    {q : Nat} (hsource : source = String.ofList (openTag ++ c :: rest)) (hc : startsPart c = true)
    (hstatement : rule .statement (inputOf source) openTag.length = some ([statement], q))
    (hlt : openTag.length < q) :
    ∃ tag more, (parse source).children = tag :: statement :: more ∧ tag.kind = "php_tag" := by
  have h : Ahead (inputOf source) 0 (openTag ++ c :: rest) := Ahead.of_source [] hsource
  have htag : (Source.ofText source).skipUntil ((Source.ofText source).holdsText · "<?") 0 = 0 := by
    have hholds : (Source.ofText source).holdsText 0 "<?" = true := h.holdsText_eq "<?"
    have hlt : 0 < (Source.ofText source).chars.size := h.lt_size
    rw [Source.skipUntil, if_pos hlt, if_pos hholds]
  have hend : (Source.ofText source).atEnd 0 = false := h.atEnd_eq
  have hopen : openTagEnd (Source.ofText source) 0 = 5 := by
    have hword : (Source.ofText source).slice 2 5 = "php" := h.next.next.slice_eq 3
    have hlower : "php".map Char.toLower = "php" := by decide +kernel
    rw [openTagEnd, hword, if_pos hlower]
  have hblank : Ahead (inputOf source) 5 (' ' :: c :: rest) := h.next.next.next.next.next
  obtain ⟨more, stop, hmany⟩ : ∃ more stop, many (rule .statement)
      { toSource := Source.ofText source, lexicon := lexicon } 5 = some (statement :: more, stop) :=
    exists_many_eq (Nat.le_of_lt hblank.lt_size) (hblank.trivia_blank hc) hstatement hlt
  simp only [parse, parsed, htag, hend, hopen, hmany, Bool.false_eq_true, if_false, Nat.lt_irrefl,
    List.nil_append, Option.getD_some, Tree.children]
  exact ⟨_, _, rfl, rfl⟩

theorem firstExpression?_eq {root tag statement : Tree} {more : List Tree}
    (hchildren : root.children = tag :: statement :: more) (htag : tag.kind = "php_tag")
    (hnamed : statement.isNamed = true) (hkind : statement.kind = "expression_statement") :
    firstExpression? root = statement.namedChildren.head? := by
  have hfirst : root.namedChildren.find? (fun t => t.kind = "expression_statement") =
      some statement := by
    rw [Tree.namedChildren, hchildren, List.find?_filter]
    simp [htag, hnamed, hkind]
  rw [firstExpression?, hfirst]
  rfl

/-- The expression of a file whose first statement consists of an expression. The statement
takes one level of the recursion, the expression has the others. -/
theorem firstExpression?_of_expression {f : SourceFile} {c : Char} {code rest : List Char} {t : Tree}
    (hsource : f.source = String.ofList (openTag ++ (c :: code ++ ';' :: rest)))
    (hc : startsPart c = true)
    (hstatement : ∀ r, statement r (inputOf f.source) openTag.length =
      expressionStatement r (inputOf f.source) openTag.length)
    (ht : fix rules (8 * (inputOf f.source).size + 63) (.expression 0) (inputOf f.source)
      openTag.length = some ([t], openTag.length + (c :: code).length))
    (hnamed : t.isNamed = true) : firstExpression? (parse f.source) = some t := by
  have h := Ahead.of_source openTag hsource
  obtain ⟨statement, hread, hnamed', hkind, hexpression⟩ :=
    expressionStatement_eq h hc ht hnamed (by simp) h.append
  have hrule : rule .statement (inputOf f.source) openTag.length =
      some ([statement], openTag.length + (c :: code).length + 1) :=
    (hstatement _).trans hread
  obtain ⟨tag, later, hchildren, htag⟩ := exists_children_parse hsource hc hrule (by omega)
  rw [firstExpression?_eq hchildren htag hnamed' hkind, hexpression, List.head?_cons]

/-- The expression of a file that begins with a written text spells the text. -/
theorem firstExpression?_written {f : SourceFile} {style : LiteralStyle} {s : String}
    {rest : List Char}
    (hsource : f.source = String.ofList (openTag ++ (style.written s ++ ';' :: rest))) :
    ∃ t, firstExpression? (parse f.source) = some t ∧ IsSpelled f style s t := by
  have hroom := parentheses_lt_size hsource
  obtain ⟨t, ht, hnamed, hspelled⟩ :=
    fix_isSpelled (8 * (inputOf f.source).size + 63) 0 hsource (by decide) (by omega)
  have hstatement : ∀ r, statement r (inputOf f.source) openTag.length =
      expressionStatement r (inputOf f.source) openTag.length := by
    intro r
    apply statement_written style s
    simpa [LiteralStyle.written] using Ahead.of_source openTag hsource
  obtain ⟨c, code, hfirst, hc⟩ := exists_written_cons style s []
  rw [List.append_nil] at hfirst
  rw [hfirst] at hsource ht
  exact ⟨t, firstExpression?_of_expression hsource (startsPart_of_startsWritten hc) hstatement ht
    hnamed, hspelled⟩

end PluginAtlas.Php
