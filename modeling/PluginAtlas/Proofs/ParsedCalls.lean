import PluginAtlas.Proofs.ParsedLiterals

/-!
# Calls in the grammar

A call of a function by its name, with written texts as arguments, is read by the grammar as
the call it is meant to be. So what is said of calls in a tree holds of the files in which
such calls are written.

## Main definitions

* `isFunctionName`: the names that are no words of the language.
* `writtenCall`: a call as it is written.
* `IsCallOf`: a call of a function in a tree.

## Main results

* `Grammar.arguments_written`: the arguments of a call, each with its value.
* `exists_call_of_parse`: the call that a file consists of.
-/

namespace PluginAtlas.Php

/-! ### Names of functions -/

/-- A character of a function name in lower case. -/
def isFunctionChar (c : Char) : Bool := c.isLower || c.isDigit || c == '_'

/-- The words that begin something other than a call. -/
def reservedWords : List String :=
  ["if", "switch", "while", "do", "for", "foreach", "try", "declare", "return", "break", "continue",
    "goto", "echo", "exit", "unset", "global", "const", "use", "namespace", "function", "class",
    "abstract", "final", "readonly", "interface", "trait", "enum", "static", "new", "clone", "yield",
    "fn", "match", "list", "array", "true", "false", "null"] ++
  Grammar.closingWords ++ Grammar.leadingWords.map (·.1)

/-- Whether a text is the name of a function, in lower case. -/
def isFunctionName (name : String) : Bool :=
  (name.toList.head?.any Grammar.isNameStart) && name.toList.all isFunctionChar &&
    decide (name ∉ reservedWords)

section FunctionChar

variable {c : Char}

theorem lt_of_isFunctionChar (h : isFunctionChar c = true) : c.toNat < 0x80 := by
  simp only [isFunctionChar, Bool.or_eq_true, beq_iff_eq] at h
  rcases h with (h | h) | rfl
  · have hle : c.val ≤ 'z'.val := of_decide_eq_true ((Bool.and_eq_true _ _).mp h).2
    exact Nat.lt_of_le_of_lt hle (by decide)
  · have hle : c.val ≤ '9'.val := of_decide_eq_true ((Bool.and_eq_true _ _).mp h).2
    exact Nat.lt_of_le_of_lt hle (by decide)
  · decide

/-- What holds of all such characters can be looked up. -/
theorem of_isFunctionChar {P : Char → Prop} (h : isFunctionChar c = true)
    (hall : ∀ n : Fin 0x80, isFunctionChar (Char.ofNat n) = true → P (Char.ofNat n)) : P c := by
  have hchar : Char.ofNat c.toNat = c := Char.ofNat_toNat c
  have hc := hall ⟨c.toNat, lt_of_isFunctionChar h⟩ (by rw [hchar]; exact h)
  rwa [hchar] at hc

theorem toLower_of_isFunctionChar (h : isFunctionChar c = true) : c.toLower = c :=
  of_isFunctionChar (P := fun c => c.toLower = c) h (by decide +kernel)

theorem isNameChar_of_isFunctionChar (h : isFunctionChar c = true) : Grammar.isNameChar c = true :=
  of_isFunctionChar (P := fun c => Grammar.isNameChar c = true) h (by decide +kernel)

/-- Neither blanks nor comments begin with such a character, and no sign is one. -/
theorem startsPart_of_isFunctionChar (h : isFunctionChar c = true) :
    Grammar.startsPart c = true ∧ Grammar.isSign c = false :=
  of_isFunctionChar (P := fun c => Grammar.startsPart c = true ∧ Grammar.isSign c = false) h
    (by decide +kernel)

/-- Names do not begin with digits. -/
theorem isDigit_of_isFunctionChar (h : isFunctionChar c = true)
    (hstart : Grammar.isNameStart c = true) : c.isDigit = false :=
  of_isFunctionChar (P := fun c => Grammar.isNameStart c = true → c.isDigit = false) h
    (by decide +kernel) hstart

end FunctionChar

theorem lowerList_of_isFunctionChar {before cs : List Char}
    (h : ∀ c ∈ cs, isFunctionChar c = true) : Text.lowerList before cs = cs := by
  induction cs generalizing before with
  | nil => rfl
  | cons c cs ih =>
    obtain ⟨hc, hcs⟩ := List.forall_mem_cons.mp h
    have hascii := lt_of_isFunctionChar hc
    have hsigma : c ≠ 'Σ' := by
      rintro rfl
      exact absurd hascii (by decide)
    rw [Text.lowerList, ih hcs]
    simp [hsigma, Text.lowerChar, hascii, toLower_of_isFunctionChar hc]

theorem ne_of_isFunctionChar {c d : Char} (hc : isFunctionChar c = true)
    (hd : isFunctionChar d = false) : c ≠ d := by
  rintro rfl
  rw [hc] at hd
  exact absurd hd (by decide)

theorem isFunctionName_facts {name : String} (h : isFunctionName name = true) :
    (∃ c rest, name.toList = c :: rest ∧ Grammar.isNameStart c = true) ∧
      (∀ c ∈ name.toList, isFunctionChar c = true) ∧ name ∉ reservedWords := by
  simp only [isFunctionName, Bool.and_eq_true, decide_eq_true_eq, List.all_eq_true] at h
  obtain ⟨⟨hfirst, hall⟩, hreserved⟩ := h
  refine ⟨?_, hall, hreserved⟩
  cases hname : name.toList with
  | nil => simp [hname] at hfirst
  | cons c rest => exact ⟨c, rest, rfl, by simpa [hname] using hfirst⟩

namespace Grammar

open Rule

variable {r : Goal → Rule} {input : Input} {p start : Nat} {c : Char} {rest : List Char}

/-- The word at the front of a call is the name of the function. -/
theorem wordEnd_name {cs : List Char} (hcs : ∀ c ∈ cs, isFunctionChar c = true)
    (h : Ahead input p (cs ++ '(' :: rest)) : input.wordEnd p = p + cs.length := by
  induction cs generalizing p with
  | nil => exact h.wordEnd_eq (by decide)
  | cons c cs ih =>
    obtain ⟨hc, hcs⟩ := List.forall_mem_cons.mp hcs
    rw [h.wordEnd_cons (isNameChar_of_isFunctionChar hc), ih hcs h.next, List.length_cons]
    omega

theorem wordAt_name {name : String} (hname : isFunctionName name = true)
    (h : Ahead input p (name.toList ++ '(' :: rest)) : input.wordAt p = name := by
  obtain ⟨-, hall, -⟩ := isFunctionName_facts hname
  have hlower : name.toList.map Char.toLower = name.toList :=
    (List.map_congr_left fun c hc => toLower_of_isFunctionChar (hall c hc)).trans (List.map_id _)
  rw [h.wordAt_eq (wordEnd_name hall h), List.take_left, hlower, String.ofList_toList]

/-- A name is no literal, although one may begin with the same letter. -/
theorem textLiteral_name {name : String} (hname : isFunctionName name = true)
    (h : Ahead input p (name.toList ++ '(' :: rest)) : textLiteral r input p = none := by
  obtain ⟨⟨c, cs, hcons, -⟩, hall, -⟩ := isFunctionName_facts hname
  rw [hcons] at h hall
  obtain ⟨hc, hcs⟩ := List.forall_mem_cons.mp hall
  -- Behind the first letter stands another one, or the parenthesis, but no quote.
  obtain ⟨d, more, hd, hnext⟩ : ∃ d more, Ahead input (p + 1) (d :: more) ∧
      d ≠ '\'' ∧ d ≠ '"' ∧ d ≠ '<' := by
    cases cs with
    | nil => exact ⟨'(', rest, h.next, by decide, by decide, by decide⟩
    | cons d cs =>
      have hletter := (List.forall_mem_cons.mp hcs).1
      exact ⟨d, _, h.next, ne_of_isFunctionChar hletter (by decide),
        ne_of_isFunctionChar hletter (by decide), ne_of_isFunctionChar hletter (by decide)⟩
  have hlabel : input.holdsText (p + 1) "<<<" = false := by
    simp [hd.holdsText_eq, List.isPrefixOf, hnext.2.2.symm]
  have hmark : ((c == 'b' || c == 'B') && (d == '\'' || d == '"' || input.holdsText (p + 1) "<<<")) =
      false := by
    simp [hlabel, hnext]
  simp only [textLiteral, h.charAt_eq, hd.charAt_eq, hmark, Bool.false_eq_true, if_false]
  split
  · exact absurd rfl (ne_of_isFunctionChar hc (by decide))
  · exact absurd rfl (ne_of_isFunctionChar hc (by decide))
  · exact absurd rfl (ne_of_isFunctionChar hc (by decide))
  · exact absurd rfl (ne_of_isFunctionChar hc (by decide))
  · rfl

/-! ### Arguments -/

/-- The last part of a node. -/
theorem seq_singleton {rule : Rule} (h : Ahead input p (c :: rest)) (hc : startsPart c = true) :
    seq [rule] input p = rule input p := by
  cases hrule : rule input p with
  | none => simp [seq, h.trivia_eq hc, hrule]
  | some read =>
    obtain ⟨trees, q⟩ := read
    by_cases hq : q = p <;> simp [seq, h.trivia_eq hc, hrule, hq]

/-- A part of a node that is left out. -/
theorem seq_skip {rule : Rule} {rules : List Rule} (h : Ahead input p (c :: rest))
    (hc : startsPart c = true) (hrule : rule input p = some ([], p)) :
    seq (rule :: rules) input p = seq rules input p := by
  cases hrest : seq rules input p <;> simp [seq, h.trivia_eq hc, hrule, hrest]

/-- A written text in the place of an argument is not named. -/
theorem isNamedArgument_written {style : LiteralStyle} {s : String}
    (h : Ahead input p (style.written s ++ rest)) : isNamedArgument input p = false := by
  rw [LiteralStyle.written, List.append_assoc, List.append_assoc] at h
  obtain ⟨d, more, hend, hd, -⟩ := exists_wordEnd_written h
  rcases hd with rfl | rfl | rfl <;>
    simp [isNamedArgument, hend.near_eq (by decide), hend.charAt_eq]

/-- An argument that is a written text. -/
theorem argument_written {style : LiteralStyle} {s : String} {q : Nat} {t : Tree}
    (h : Ahead input p (style.written s ++ rest)) (ht : anyExpression r input p = some ([t], q))
    (hnamed : t.isNamed = true) (hplain : t.isComment = false) :
    ∃ node, argument r input p = some ([node], q) ∧ node.isNamed = true ∧
      argumentValue? node = some t := by
  have hname := isNamedArgument_written h
  obtain ⟨c, more, hfirst, hwritten⟩ := exists_written_cons style s rest
  have hc := startsPart_of_startsWritten hwritten
  rw [hfirst] at h
  -- A placeholder and a spread argument begin with dots, which no written text does.
  have hdots : input.holdsText p "..." = false := by
    rcases cases_of_startsWritten hwritten with rfl | rfl | rfl | rfl | rfl <;>
      simp [h.holdsText_eq, List.isPrefixOf]
  have hspread : spread r input p = none := by
    simp [spread, node, seq, h.trivia_eq hc, mark, hdots]
  have hvalue : alt [spread r, anyExpression r, seq [referenceMark, anyExpression r]] input p =
      some ([t], q) := by
    simp [alt, hspread, ht]
  have hparts : seq [opt (when isNamedArgument (seq [field "name" name, mark ":"])),
      alt [spread r, anyExpression r, seq [referenceMark, anyExpression r]]] input p =
      some ([t], q) := by
    rw [seq_skip h hc (by simp [opt, alt, «when», hname, empty]), seq_singleton h hc, hvalue]
  have hchild : (Tree.node "argument" true (input.offset p) (input.offset q) none [t]).parts =
      [t] := by
    simp [Tree.parts, Tree.namedChildren, Tree.children, hnamed, hplain]
  refine ⟨.node "argument" true (input.offset p) (input.offset q) none [t], ?_, rfl, ?_⟩
  · simp [argument, isPlaceholder, hdots, node, hparts]
  · simp [argumentValue?, hchild, Tree.isComment, Tree.kind]

/-- The further arguments of a call, each behind a comma. -/
def writtenFurther (arguments : List (LiteralStyle × String)) : List Char :=
  arguments.flatMap fun (style, s) => ',' :: style.written s

/-- The arguments of a call as they are written. -/
def writtenArguments : List (LiteralStyle × String) → List Char
  | [] => []
  | (style, s) :: more => style.written s ++ writtenFurther more

/-- Nodes give the values of arguments, among others that the grammar does not name. -/
def GivesArguments (f : SourceFile) (arguments : List (LiteralStyle × String))
    (trees : List Tree) : Prop :=
  List.Forall₂ (fun (style, s) t => IsSpelled f style s t) arguments
    ((trees.filter Tree.isNamed).filterMap argumentValue?)

section GivesArguments

variable {f : SourceFile} {arguments : List (LiteralStyle × String)} {trees : List Tree} {node : Tree}

theorem GivesArguments.cons {style : LiteralStyle} {s : String} {t : Tree}
    (hnamed : node.isNamed = true) (hvalue : argumentValue? node = some t)
    (ht : IsSpelled f style s t) (h : GivesArguments f arguments trees) :
    GivesArguments f ((style, s) :: arguments) (node :: trees) := by
  rw [GivesArguments, List.filter_cons_of_pos hnamed, List.filterMap_cons_some hvalue]
  exact .cons ht h

theorem GivesArguments.skip (hnamed : node.isNamed = false) (h : GivesArguments f arguments trees) :
    GivesArguments f arguments (node :: trees) := by
  rwa [GivesArguments, List.filter_cons_of_neg (by simp [hnamed])]

theorem GivesArguments.append_mark (hnamed : node.isNamed = false)
    (h : GivesArguments f arguments trees) : GivesArguments f arguments (trees ++ [node]) := by
  have hmark : [node].filter Tree.isNamed = [] := List.filter_cons_of_neg (by simp [hnamed])
  rwa [GivesArguments, List.filter_append, hmark, List.append_nil]

end GivesArguments

/-- One argument at the front of a list of arguments. -/
theorem exists_argument_eq {f : SourceFile} {style : LiteralStyle} {s : String} {front : List Char}
    {depth : Nat} (hsource : f.source = String.ofList (front ++ (style.written s ++ c :: rest)))
    (hc : closesExpression c = true) (hdepth : style.parentheses < depth) :
    ∃ node, argument (fix rules depth) (inputOf f.source) front.length =
        some ([node], front.length + (style.written s).length) ∧
      node.isNamed = true ∧ ∃ t, argumentValue? node = some t ∧ IsSpelled f style s t := by
  obtain ⟨t, ht, hnamed, hspelled⟩ := fix_isSpelled depth 0 hsource hc hdepth
  obtain ⟨node, hnode, hnamed', hvalue⟩ :=
    argument_written (Ahead.of_source front hsource) ht hnamed hspelled.isComment_eq
  exact ⟨node, hnode, hnamed', t, hvalue, hspelled⟩

theorem exists_further_cons (arguments : List (LiteralStyle × String)) (rest : List Char) :
    ∃ c more, writtenFurther arguments ++ ')' :: rest = c :: more ∧ closesExpression c = true := by
  cases arguments with
  | nil => exact ⟨')', rest, rfl, rfl⟩
  | cons first arguments => exact ⟨',', _, rfl, rfl⟩

/-- A comma and an argument. -/
theorem exists_further_eq {f : SourceFile} {style : LiteralStyle} {s : String} {front : List Char}
    {depth : Nat}
    (hsource : f.source = String.ofList (front ++ ',' :: (style.written s ++ c :: rest)))
    (hc : closesExpression c = true) (hdepth : style.parentheses < depth) :
    ∃ comma node, seq [mark ",", argument (fix rules depth)] (inputOf f.source) front.length =
        some ([comma, node], front.length + (',' :: style.written s).length) ∧
      comma.isNamed = false ∧ node.isNamed = true ∧
      ∃ t, argumentValue? node = some t ∧ IsSpelled f style s t := by
  have h := Ahead.of_source front hsource
  have hcomma : mark "," (inputOf f.source) front.length =
      some ([(inputOf f.source).leaf "," false front.length (front.length + 1)],
        front.length + 1) := mark_eq "," h
  have hfront : front ++ ',' :: (style.written s ++ c :: rest) =
      (front ++ [',']) ++ (style.written s ++ c :: rest) := by simp
  obtain ⟨node, hnode, hnamed, hvalue⟩ := exists_argument_eq (hfront ▸ hsource) hc hdepth
  rw [List.length_append, List.length_singleton] at hnode
  obtain ⟨d, more, hcons, hd⟩ := exists_written_cons style s (c :: rest)
  have hnext := h.next
  rw [hcons] at hnext
  refine ⟨(inputOf f.source).leaf "," false front.length (front.length + 1), node, ?_, rfl, hnamed,
    hvalue⟩
  rw [seq_cons h (by decide) hcomma (by omega),
    seq_singleton hnext (startsPart_of_startsWritten hd), hnode, List.length_cons, Nat.add_assoc,
    Nat.add_comm 1]
  rfl

/-- The repetition reads the further arguments one by one, and stops at the parenthesis. -/
theorem manyFrom_arguments {f : SourceFile} {depth fuel : Nat}
    {arguments : List (LiteralStyle × String)} {front : List Char} (done : List Tree)
    (hsource : f.source = String.ofList (front ++ (writtenFurther arguments ++ ')' :: rest)))
    (hdepth : ∀ written ∈ arguments, written.1.parentheses < depth)
    (hfuel : arguments.length < fuel) :
    ∃ trees, manyFrom (seq [mark ",", argument (fix rules depth)]) (inputOf f.source) fuel done
        front.length = (trees.reverse ++ done, front.length + (writtenFurther arguments).length) ∧
      GivesArguments f arguments trees := by
  induction arguments generalizing front fuel done with
  | nil =>
    obtain ⟨fuel, rfl⟩ : ∃ less, fuel = less + 1 := ⟨fuel - 1, by omega⟩
    have h := Ahead.of_source front hsource
    have hcomma : mark "," (inputOf f.source) front.length = none := by
      simp [mark, h.holdsText_eq, writtenFurther, List.isPrefixOf]
    refine ⟨[], ?_, .nil⟩
    simp [manyFrom, seq, h.trivia_eq (by decide), hcomma, writtenFurther]
  | cons first arguments ih =>
    obtain ⟨style, s⟩ := first
    obtain ⟨fuel, rfl⟩ : ∃ less, fuel = less + 1 := ⟨fuel - 1, by omega⟩
    obtain ⟨(hfirst : style.parentheses < depth), hothers⟩ := List.forall_mem_cons.mp hdepth
    have hcons : writtenFurther ((style, s) :: arguments) =
        ',' :: style.written s ++ writtenFurther arguments := rfl
    rw [hcons, List.append_assoc] at hsource
    obtain ⟨c, more, hfurther, hc⟩ := exists_further_cons arguments rest
    obtain ⟨comma, node, hpair, hcomma, hnamed, t, hvalue, hspelled⟩ :=
      exists_further_eq (hfurther ▸ hsource) hc hfirst
    have h := Ahead.of_source front hsource
    rw [← List.append_assoc] at hsource
    -- One turn of the repetition takes the comma and the argument behind it.
    have hless : arguments.length < fuel := Nat.lt_of_succ_lt_succ hfuel
    obtain ⟨trees, htrees, hgives⟩ := ih (node :: comma :: done) hsource hothers hless
    refine ⟨comma :: node :: trees, ?_, (hgives.cons hnamed hvalue hspelled).skip hcomma⟩
    have hlt : ¬ front.length + (',' :: style.written s).length ≤ front.length := by
      simp
    rw [List.length_append] at htrees
    simp only [manyFrom, h.trivia_eq (by decide), hpair, hlt, if_false]
    refine htrees.trans ?_
    rw [hcons, List.length_append, ← Nat.add_assoc]
    simp

theorem length_le_writtenFurther (arguments : List (LiteralStyle × String)) :
    arguments.length ≤ (writtenFurther arguments).length := by
  induction arguments with
  | nil => exact Nat.zero_le _
  | cons first arguments ih =>
    rw [writtenFurther, List.flatMap_cons, ← writtenFurther, List.length_append, List.length_cons,
      List.length_cons]
    omega

section Arguments

variable {f : SourceFile} {depth : Nat} {style : LiteralStyle} {s : String}
  {further : List (LiteralStyle × String)} {front : List Char}

/-- The further arguments of a call, up to the closing parenthesis. -/
theorem many_arguments
    (hsource : f.source = String.ofList (front ++ (writtenFurther further ++ ')' :: rest)))
    (hdepth : ∀ written ∈ further, written.1.parentheses < depth) :
    ∃ trees, many (seq [mark ",", argument (fix rules depth)]) (inputOf f.source) front.length =
        some (trees, front.length + (writtenFurther further).length) ∧
      GivesArguments f further trees := by
  -- The source is longer than the arguments, so the repetition does not stop early.
  have hfuel : further.length < (inputOf f.source).size + 1 - front.length := by
    have hle := length_le_writtenFurther further
    have hlt := (Ahead.of_source front hsource).append.lt_size
    omega
  obtain ⟨trees, htrees, hgives⟩ := manyFrom_arguments [] hsource hdepth hfuel
  exact ⟨trees, by simp [many, htrees], hgives⟩

/-- All arguments of a call, up to the closing parenthesis. -/
theorem sepEndBy_written
    (hsource : f.source = String.ofList
      (front ++ (writtenArguments ((style, s) :: further) ++ ')' :: rest)))
    (hdepth : ∀ written ∈ (style, s) :: further, written.1.parentheses < depth) :
    ∃ trees, sepEndBy (mark ",") (argument (fix rules depth)) (inputOf f.source) front.length =
        some (trees, front.length + (writtenArguments ((style, s) :: further)).length) ∧
      GivesArguments f ((style, s) :: further) trees := by
  obtain ⟨(hfirst : style.parentheses < depth), hothers⟩ := List.forall_mem_cons.mp hdepth
  rw [writtenArguments, List.append_assoc] at hsource
  obtain ⟨c, more, hfurther, hc⟩ := exists_further_cons further rest
  obtain ⟨d, later, hwritten, hd⟩ :=
    exists_written_cons style s (writtenFurther further ++ ')' :: rest)
  obtain ⟨node, hnode, hnamed, t, hvalue, hspelled⟩ :=
    exists_argument_eq (hfurther ▸ hsource) hc hfirst
  have hstart := Ahead.of_source front hsource
  have hnext := hstart.append
  have hlast := hnext.append
  rw [hwritten] at hstart
  rw [hfurther] at hnext
  rw [← List.append_assoc] at hsource
  obtain ⟨trees, htrees, hgives⟩ := many_arguments hsource hothers
  rw [List.length_append] at htrees
  have hlength := length_written_pos style s
  have hall : sepBy1 (mark ",") (argument (fix rules depth)) (inputOf f.source) front.length =
      some (node :: trees, front.length + (style.written s).length +
        (writtenFurther further).length) := by
    rw [sepBy1, seq_cons hstart (startsPart_of_startsWritten hd) hnode (by omega),
      seq_singleton hnext (startsPart_of_closesExpression hc), htrees]
    rfl
  -- A comma behind the last argument would be allowed, but there is none.
  have hcomma : opt (mark ",") (inputOf f.source)
      (front.length + (style.written s).length + (writtenFurther further).length) =
      some ([], front.length + (style.written s).length + (writtenFurther further).length) := by
    simp [opt, alt, mark, hlast.holdsText_eq, List.isPrefixOf, empty]
  have hlist : sepEndBy1 (mark ",") (argument (fix rules depth)) (inputOf f.source) front.length =
      some (node :: trees, front.length + (writtenArguments ((style, s) :: further)).length) := by
    rw [sepEndBy1, seq_cons hstart (startsPart_of_startsWritten hd) hall (by omega),
      seq_singleton hlast (by decide), hcomma, writtenArguments, List.length_append, Nat.add_assoc]
    simp
  refine ⟨node :: trees, ?_, hgives.cons hnamed hvalue hspelled⟩
  simp [sepEndBy, opt, alt, hlist]

/-- The arguments of a call in their parentheses. -/
theorem arguments_written
    (hsource : f.source = String.ofList
      (front ++ '(' :: (writtenArguments ((style, s) :: further) ++ ')' :: rest)))
    (hdepth : ∀ written ∈ (style, s) :: further, written.1.parentheses < depth) :
    ∃ node, arguments (fix rules depth) (inputOf f.source) front.length =
        some ([node], front.length + (writtenArguments ((style, s) :: further)).length + 2) ∧
      node.isNamed = true ∧ node.kind = "arguments" ∧ node.field = none ∧
      GivesArguments f ((style, s) :: further) node.children := by
  have hstart := Ahead.of_source front hsource
  have hnext := hstart.next
  have hlast := hnext.append
  obtain ⟨c, more, hwritten, hc⟩ :=
    exists_written_cons style s (writtenFurther further ++ ')' :: rest)
  rw [writtenArguments, List.append_assoc, hwritten] at hnext
  have hcons : front ++ '(' :: (writtenArguments ((style, s) :: further) ++ ')' :: rest) =
      (front ++ ['(']) ++ (writtenArguments ((style, s) :: further) ++ ')' :: rest) := by simp
  obtain ⟨trees, htrees, hgives⟩ := sepEndBy_written (hcons ▸ hsource) hdepth
  rw [List.length_append, List.length_singleton] at htrees
  have hopen : mark "(" (inputOf f.source) front.length =
      some ([(inputOf f.source).leaf "(" false front.length (front.length + 1)],
        front.length + 1) := mark_eq "(" hstart
  have hclose := mark_eq ")" hlast
  have hlength : 0 < (writtenArguments ((style, s) :: further)).length := by
    have hpos := length_written_pos style s
    rw [writtenArguments, List.length_append]
    omega
  have hstop : front.length + 1 + (writtenArguments ((style, s) :: further)).length + ")".length =
      front.length + (writtenArguments ((style, s) :: further)).length + 2 := by
    rw [show ")".length = 1 from rfl]
    omega
  rw [hstop] at hclose
  rw [arguments, node, seq_cons hstart (by decide) hopen (by omega),
    seq_cons hnext (startsPart_of_startsWritten hc) htrees (by omega),
    seq_singleton hlast (by decide), hclose]
  exact ⟨_, rfl, rfl, rfl, rfl, (hgives.append_mark rfl).skip rfl⟩

end Arguments

/-! ### Calls -/

section Calls

variable {function : String} {q : Nat}

/-- The name of a function is read as a plain name. -/
theorem wordOperand_name (hname : isFunctionName function = true)
    (h : Ahead input p (function.toList ++ '(' :: rest)) :
    wordOperand r input p = withTails r true (alt [relativeScope, name]) input p := by
  obtain ⟨-, hall, hreserved⟩ := isFunctionName_facts hname
  have hend := wordEnd_name hall h
  have hopen := h.append
  have hlookup : leadingWords.lookup function = none := by
    rw [List.lookup_eq_none_iff]
    intro pair hpair
    have hmem : pair.1 ∈ reservedWords := List.mem_append_right _ (List.mem_map_of_mem hpair)
    exact bne_iff_ne.mpr fun heq => hreserved (heq ▸ hmem)
  simp only [reservedWords, List.mem_append, List.mem_cons, not_or] at hreserved
  simp [wordOperand, wordAt_name hname h, hend, hopen.charAt_eq, hlookup, hreserved]

/-- The statement of a call begins with a word that is no word of the language. -/
theorem statement_name (hname : isFunctionName function = true)
    (h : Ahead input p (function.toList ++ '(' :: rest)) :
    statement r input p = expressionStatement r input p := by
  obtain ⟨⟨c, cs, hcons, hstart⟩, hall, hreserved⟩ := isFunctionName_facts hname
  have hend := wordEnd_name hall h
  have hopen := h.append
  have hword := wordAt_name hname h
  have hliteral := textLiteral_name (r := r) hname h
  have hlabel : isLabel input p = false := by
    simp [isLabel, hend, hopen.near_eq (by decide), hopen.charAt_eq]
  have hwords : wordStatements r function input p = expressionStatement r input p := by
    have hclosing : function ∉ closingWords := fun hmem =>
      hreserved (List.mem_append_left _ (List.mem_append_right _ hmem))
    unfold wordStatements
    -- Each word that begins another statement is reserved; what is left are all other words.
    split
    all_goals try exact absurd (by decide) hreserved
    simp [hclosing, hlabel]
  rw [hcons] at h hall
  have hc := (List.forall_mem_cons.mp hall).1
  unfold statement
  rw [h.charAt_eq]
  split
  · exact absurd rfl (ne_of_isFunctionChar hc (by decide))
  · exact absurd rfl (ne_of_isFunctionChar hc (by decide))
  · exact absurd rfl (ne_of_isFunctionChar hc (by decide))
  · simp [hstart, hend, hopen.charAt_eq, hliteral, hword, hwords]

/-- The arguments behind an operand make a call. -/
theorem exists_tail_eq {stop : Nat} {node : Tree} (callee : Tree) (h : Ahead input p ('(' :: rest))
    (hnode : arguments r input p = some ([node], stop)) :
    ∃ call, tail r [callee] true input p = some ([call], stop) ∧ call.isNamed = true ∧
      call.kind = "function_call_expression" ∧
      call.children = [intoField "function" callee, intoField "arguments" node] := by
  have hfield : field "arguments" (arguments r) input p =
      some ([intoField "arguments" node], stop) := by
    simp [field, hnode]
  have htail : tail r [callee] true input p = extend "function_call_expression"
      [intoField "function" callee] [field "arguments" (arguments r)] input p := by
    simp [tail, h.near_eq (by decide), h.holdsText_eq, h.charAt_eq, List.isPrefixOf]
  rw [htail, extend, seq_singleton h (by decide), hfield]
  exact ⟨_, rfl, rfl, rfl, rfl⟩

/-- A name is no operator, no sign and no literal, so it is read as a word. -/
theorem plainOperand_name (hname : isFunctionName function = true)
    (h : Ahead input p (function.toList ++ '(' :: rest)) :
    plainOperand r input p = withTails r true (alt [relativeScope, name]) input p := by
  obtain ⟨⟨c, cs, hcons, hstart⟩, hall, -⟩ := isFunctionName_facts hname
  have hword := wordOperand_name (r := r) hname h
  have hliteral := textLiteral_name (r := r) hname h
  rw [hcons] at h hall
  have hc := (List.forall_mem_cons.mp hall).1
  have hne : ∀ d, isFunctionChar d = false → c ≠ d := fun d hd => ne_of_isFunctionChar hc hd
  simp [plainOperand, h.charAt_eq, hliteral, hword, hstart, isDigit_of_isFunctionChar hc hstart,
    hne '(' (by decide), hne '$' (by decide), hne '[' (by decide), hne '#' (by decide),
    hne '.' (by decide), hne '\\' (by decide)]

/-- The name by itself, without what follows. -/
theorem alt_name (hname : isFunctionName function = true)
    (h : Ahead input p (function.toList ++ '(' :: rest)) :
    alt [relativeScope, name] input p =
      some ([input.leaf "name" true p (p + function.toList.length)],
        p + function.toList.length) := by
  obtain ⟨⟨c, cs, hcons, hstart⟩, hall, -⟩ := isFunctionName_facts hname
  have hend := wordEnd_name hall h
  have hopen := h.append
  have hscope : relativeScope input p = none := by
    simp [relativeScope, hend, hopen.near_eq (by decide), hopen.holdsText_eq, List.isPrefixOf]
  rw [hcons] at h
  simp [alt, hscope, name, leaf, nameEnd?, h.charAt_eq, hstart, hend]

/-- A name and the arguments behind it are an expression. -/
theorem exists_expression_eq {stop : Nat} {node : Tree} {more : List Char} (level : Nat)
    (hname : isFunctionName function = true) (h : Ahead input p (function.toList ++ '(' :: rest))
    (hnode : arguments r input (p + function.toList.length) = some ([node], stop))
    (hstop : Ahead input stop (c :: more)) (hc : closesExpression c = true) :
    ∃ call, expression r level input p = some ([call], stop) ∧ call.isNamed = true ∧
      call.kind = "function_call_expression" ∧
      call.children = [intoField "function"
        (input.leaf "name" true p (p + function.toList.length)), intoField "arguments" node] := by
  have hopen := h.append
  obtain ⟨call, hcall, hnamed, hkind, hchildren⟩ :=
    exists_tail_eq (input.leaf "name" true p (p + function.toList.length)) hopen hnode
  obtain ⟨fuel, hfuel⟩ := hopen.exists_fuel le_rfl
  have hoperand : plainOperand r input p = some ([call], stop) := by
    simp [plainOperand_name hname h, withTails, alt_name hname h, hfuel, tails, hcall,
      tails_eq hstop hc]
  have hassignable : isAssignable call.kind = false := by
    rw [hkind]
    decide
  obtain ⟨⟨d, cs, hcons, -⟩, hall, -⟩ := isFunctionName_facts hname
  rw [hcons] at h hall
  have hsign := (startsPart_of_isFunctionChar (List.forall_mem_cons.mp hall).1).2
  exact ⟨call, expression_of_plainOperand h hsign hoperand hassignable hstop hc, hnamed, hkind,
    hchildren⟩

end Calls

end Grammar

open Grammar Rule

/-! ### Files -/

/-- A call as it is written. -/
def writtenCall (function : String) (arguments : List (LiteralStyle × String)) : List Char :=
  function.toList ++ '(' :: (writtenArguments arguments ++ [')'])

/-- A call of a function in a tree, with written texts as arguments. -/
structure IsCallOf (f : SourceFile) (function : String) (arguments : List (LiteralStyle × String))
    (call : Tree) : Prop where
  kind : call.kind = "function_call_expression"
  function : functionName? f call = some function
  arguments : List.Forall₂ (fun (style, s) t => IsSpelled f style s t) arguments (callArguments call)

variable {f : SourceFile} {function : String} {arguments : List (LiteralStyle × String)}

theorem parentheses_le_writtenFurther {written : LiteralStyle × String} (h : written ∈ arguments) :
    written.1.parentheses ≤ (writtenFurther arguments).length := by
  induction arguments with
  | nil => simp at h
  | cons first arguments ih =>
    rw [writtenFurther, List.flatMap_cons, ← writtenFurther, List.length_append]
    rcases List.mem_cons.mp h with rfl | hmem
    · simp only [LiteralStyle.written, List.length_cons, List.length_append, List.length_replicate]
      omega
    · exact (ih hmem).trans (Nat.le_add_left _ _)

theorem functionName?_eq {call callee : Tree} (hname : isFunctionName function = true)
    (hcallee : call.byField? "function" = some callee) (hkind : callee.kind = "name")
    (htext : f.textOf callee = function) : functionName? f call = some function := by
  obtain ⟨⟨c, cs, hcons, -⟩, hall, -⟩ := isFunctionName_facts hname
  have hlower : Text.lower function = function := by
    rw [Text.lower, lowerList_of_isFunctionChar hall, String.ofList_toList]
  have htrim : Text.trimStart (· == '\\') function = function := by
    rw [hcons] at hall
    have hc : c ≠ '\\' := ne_of_isFunctionChar (List.forall_mem_cons.mp hall).1 (by decide)
    rw [Text.trimStart, hcons, List.dropWhile_cons_of_neg (by simpa using hc), ← hcons,
      String.ofList_toList]
  simp [functionName?, hcallee, hkind, isNameKind, htext, htrim, hlower]

theorem intoField_facts {t : Tree} (name : String) (hfield : t.field = none)
    (hkind : t.kind ≠ "comment") :
    (intoField name t).field = some name ∧ (intoField name t).children = t.children := by
  obtain ⟨kind, named, start, stop, field, children⟩ := t
  obtain rfl : field = none := hfield
  have hplain : kind ≠ "comment" := hkind
  simp [intoField, hplain, Tree.field, Tree.children]

/-- A call is known by the name in front and the arguments behind it. -/
theorem isCallOf_of_children {start stop : Nat} {call node : Tree}
    (hname : isFunctionName function = true) (hkind : call.kind = "function_call_expression")
    (hchildren : call.children = [intoField "function" (.node "name" true start stop none []),
      intoField "arguments" node])
    (htext : f.textOf (.node "name" true start stop (some "function") []) = function)
    (hfield : node.field = none) (hlist : node.kind = "arguments")
    (hgives : GivesArguments f arguments node.children) : IsCallOf f function arguments call := by
  obtain ⟨hfield', hinside⟩ := intoField_facts "arguments" hfield (by simp [hlist])
  have hcallee : call.byField? "function" =
      some (.node "name" true start stop (some "function") []) := by
    rw [Tree.byField?, hchildren]
    rfl
  have harguments : call.byField? "arguments" = some (intoField "arguments" node) := by
    rw [Tree.byField?, hchildren, List.find?_cons_of_neg (by simp [intoField, Tree.field]),
      List.find?_cons_of_pos (by simp [hfield'])]
  refine ⟨hkind, functionName?_eq hname hcallee rfl htext, ?_⟩
  rw [callArguments, harguments]
  simp only [Tree.namedChildren, hinside]
  exact hgives

section WrittenCall

variable {style : LiteralStyle} {s : String} {front rest : List Char} {c : Char}

theorem writtenCall_append (rest : List Char) :
    writtenCall function arguments ++ rest =
      function.toList ++ '(' :: (writtenArguments arguments ++ ')' :: rest) := by
  simp [writtenCall]

/-- Wherever an expression is expected, a written call is read as a call, if a mark follows that
closes the expression. -/
theorem fix_isCallOf (depth level : Nat) (hname : isFunctionName function = true)
    (hsource : f.source = String.ofList
      (front ++ (writtenCall function ((style, s) :: arguments) ++ c :: rest)))
    (hc : closesExpression c = true)
    (hdepth : ∀ written ∈ (style, s) :: arguments, written.1.parentheses < depth) :
    ∃ call, fix rules (depth + 1) (.expression level) (inputOf f.source) front.length =
        some ([call], front.length + (writtenCall function ((style, s) :: arguments)).length) ∧
      call.isNamed = true ∧ IsCallOf f function ((style, s) :: arguments) call := by
  have hstop := (Ahead.of_source front hsource).append
  rw [writtenCall_append] at hsource
  have h := Ahead.of_source front hsource
  obtain ⟨node, hnode, -, hkind, hfield, hgives⟩ :=
    arguments_written ((List.append_assoc front _ _).symm ▸ hsource) hdepth
  have hend : (front ++ function.toList).length +
      (writtenArguments ((style, s) :: arguments)).length + 2 =
      front.length + (writtenCall function ((style, s) :: arguments)).length := by
    simp only [writtenCall, List.length_append, List.length_cons, List.length_nil]
    omega
  rw [hend, List.length_append] at hnode
  obtain ⟨call, hcall, hnamed, hcallKind, hchildren⟩ :=
    exists_expression_eq level hname h hnode hstop hc
  have htext : f.textOf (.node "name" true ((inputOf f.source).offset front.length)
      ((inputOf f.source).offset (front.length + function.toList.length)) (some "function") []) =
      function := by
    rw [SourceFile.textOf_eq hsource rfl rfl, String.ofList_toList]
  exact ⟨call, hcall, hnamed,
    isCallOf_of_children hname hcallKind hchildren htext hfield hkind hgives⟩

/-- The call that a file begins with. -/
theorem exists_call_of_parse (hname : isFunctionName function = true)
    (hsource : f.source = String.ofList
      (openTag ++ (writtenCall function ((style, s) :: arguments) ++ ';' :: rest))) :
    ∃ call, firstExpression? (parse f.source) = some call ∧
      IsCallOf f function ((style, s) :: arguments) call := by
  have h := Ahead.of_source openTag hsource
  rw [writtenCall_append] at h
  -- Parentheses are characters of the source, and the recursion is bounded by its size.
  have hdepth : ∀ written ∈ (style, s) :: arguments,
      written.1.parentheses < 8 * (inputOf f.source).size + 62 := by
    intro written hmem
    have hle := parentheses_le_writtenFurther hmem
    have hlength : (writtenFurther ((style, s) :: arguments)).length =
        (writtenArguments ((style, s) :: arguments)).length + 1 := rfl
    have hlt := h.append.next.append.lt_size
    omega
  obtain ⟨call, hcall, hnamed, hcallOf⟩ := fix_isCallOf _ 0 hname hsource (by decide) hdepth
  refine ⟨call, ?_, hcallOf⟩
  obtain ⟨⟨c, cs, hcons, -⟩, hall, -⟩ := isFunctionName_facts hname
  have hpart := (startsPart_of_isFunctionChar (hall c (by simp [hcons]))).1
  have hcode : writtenCall function ((style, s) :: arguments) =
      c :: (cs ++ '(' :: (writtenArguments ((style, s) :: arguments) ++ [')'])) := by
    rw [writtenCall, hcons]
    rfl
  rw [hcode] at hcall hsource
  exact firstExpression?_of_expression hsource hpart (fun r => statement_name hname h) hcall hnamed

end WrittenCall

end PluginAtlas.Php
