import PluginAtlas.Proofs.NameResolution
import Mathlib.Data.List.Forall2

/-!
# What a `use` declaration records

A `use` declaration imports names one by one, as a list or as a group below a common
beginning, each with or without an alias. A word in front says that functions or constants
are imported instead of classes. In a group it may stand in front of single clauses; in a
list it covers all of them, though the grammar makes it a part of the first clause.

The table of a scope is for classes only, but just one place is looked at for the word. A
declaration with the word in front of its group is passed over. The word of a clause is
not seen, so that functions and constants get into the table by it.

## Main definitions

* `QualifiedName`, `UseClause`, `UseDeclaration`: declarations as they are meant.
* `UseDeclaration.entry`, `UseDeclaration.classTable`: what the table should get.
* `IsClause`, `IsUseDeclaration`: the trees of declarations.

## Main results

* `IsClause.clauseImport?_eq`: what is made of one clause.
* `IsUseDeclaration.useClausesOf_eq`: the clauses that are found in a tree.
* `use_declaration_records`: what is recorded, and when it is the table of classes.
-/

namespace PluginAtlas.Php

open Text (segments joined)

/-! ### Declarations as they are meant -/

/-- A name of one or more segments. -/
structure QualifiedName where
  segments : List String
  ne_nil : segments ≠ []
  plain : ∀ segment ∈ segments, segment ≠ "" ∧ '\\' ∉ segment.toList

namespace QualifiedName

/-- The last segment. -/
def last (name : QualifiedName) : String := name.segments.getLast name.ne_nil

/-- A node writes a name, with or without a backslash in front. -/
def WrittenBy (name : QualifiedName) (f : SourceFile) (t : Tree) : Prop :=
  f.textOf t = joined name.segments ∨ f.textOf t = "\\" ++ joined name.segments

end QualifiedName

/-- The words for imports that are no classes. -/
inductive ImportWord where
  | function | const
deriving DecidableEq, Repr

/-- How a word is written, in any letter case. -/
def ImportWord.text : ImportWord → String
  | function => "function"
  | const => "const"

/-- One import of a declaration: a word in front of it, the name, and the alias. -/
structure UseClause where
  word? : Option ImportWord
  name : QualifiedName
  stated? : Option String

/-- A declaration: a word in front of all, the common beginning of a group, and the
clauses. Clauses without a common beginning form a list. -/
structure UseDeclaration where
  word? : Option ImportWord
  group? : Option QualifiedName
  clauses : List UseClause

namespace UseDeclaration

variable (d : UseDeclaration)

/-- The segments that are put in front of every name. -/
def common : List String := (d.group?.map QualifiedName.segments).getD []

/-- A clause imports a class: no word stands in front of it, nor in front of all, nor
anywhere in a list. -/
def importsClass (clause : UseClause) : Bool :=
  d.word?.isNone && clause.word?.isNone &&
    (d.group?.isSome || d.clauses.all fun other => other.word?.isNone)

/-- What a clause says: the alias in lower case, which is the last segment if none is
stated, and the full name. -/
def entry (clause : UseClause) : String × String :=
  (Text.lower (clause.stated?.getD clause.name.last), joined (d.common ++ clause.name.segments))

/-- What a table of classes gets from a declaration, in the order of the clauses. -/
def classTable : List (String × String) := (d.clauses.filter d.importsClass).map d.entry

end UseDeclaration

/-! ### Trees of declarations -/

/-- The fixed word of a node for imports that are no classes, if it has one. -/
def HasWord (f : SourceFile) (t : Tree) : Option ImportWord → Prop
  | some word => ∃ mark ∈ t.children, mark.isNamed = false ∧ Text.lower (f.textOf mark) = word.text
  | none => ∀ mark ∈ t.children, mark.isNamed = false →
    Text.lower (f.textOf mark) ≠ ImportWord.function.text ∧
      Text.lower (f.textOf mark) ≠ ImportWord.const.text

instance (f : SourceFile) (t : Tree) (word? : Option ImportWord) : Decidable (HasWord f t word?) :=
  match word? with
  | some word => inferInstanceAs (Decidable (∃ mark ∈ t.children,
      mark.isNamed = false ∧ Text.lower (f.textOf mark) = word.text))
  | none => inferInstanceAs (Decidable (∀ mark ∈ t.children, mark.isNamed = false →
      Text.lower (f.textOf mark) ≠ ImportWord.function.text ∧
        Text.lower (f.textOf mark) ≠ ImportWord.const.text))

/-- The alias that a clause states, in a field or in a clause of its own. -/
inductive StatesAlias (f : SourceFile) (t : Tree) : Option String → Prop
  | none (hfield : t.byField? "alias" = .none)
      (hclause : t.ofKind? "namespace_aliasing_clause" = .none) : StatesAlias f t .none
  | field {stated : Tree} {text : String} (h : t.byField? "alias" = some stated)
      (htext : f.textOf stated = text) : StatesAlias f t (some text)
  | clause {clause stated : Tree} {text : String} (hfield : t.byField? "alias" = .none)
      (hclause : t.ofKind? "namespace_aliasing_clause" = some clause)
      (h : clause.ofKind? "name" = some stated) (htext : f.textOf stated = text) :
      StatesAlias f t (some text)

/-- The tree of a clause. The name comes first; comments may stand anywhere. -/
structure IsClause (f : SourceFile) (t : Tree) (clause : UseClause) : Prop where
  kind : t.kind = "namespace_use_clause" ∨ t.kind = "namespace_use_group_clause"
  word : HasWord f t clause.word?
  name : ∃ target, t.parts.head? = some target ∧ clause.name.WrittenBy f target ∧
    (target.kind = "qualified_name" ∨
      target.kind = "name" ∧ t.ofKind? "qualified_name" = none)
  stated : StatesAlias f t clause.stated?

/-- The tree of a declaration: a list of clauses, or a common beginning with a group. -/
structure IsUseDeclaration (f : SourceFile) (t : Tree) (d : UseDeclaration) : Prop where
  kind : t.kind = "namespace_use_declaration"
  word : HasWord f t d.word?
  clauses : match d.group? with
    | none => List.Forall₂ (IsClause f) t.parts d.clauses
    | some common => ∃ front group, t.parts = [front, group] ∧ front.kind = "namespace_name" ∧
      common.WrittenBy f front ∧ group.kind = "namespace_use_group" ∧
      List.Forall₂ (IsClause f) group.parts d.clauses

/-! ### Names in trees -/

section Names

theorem trimSeparators_of_ends {text : String} (hfirst : text.toList.head? ≠ some '\\')
    (hlast : text.toList.getLast? ≠ some '\\') : trimSeparators text = text := by
  have hdrop : ∀ {cs : List Char}, cs.head? ≠ some '\\' → cs.dropWhile (· == '\\') = cs := by
    intro cs hcs
    cases cs with
    | nil => rfl
    | cons c cs =>
      have hc : ¬ (c == '\\') = true := fun heq => hcs (by rw [List.head?_cons, eq_of_beq heq])
      exact List.dropWhile_cons_of_neg hc
  rw [← List.head?_reverse] at hlast
  rw [trimSeparators, Text.trim, hdrop hfirst, Text.dropEndWhile, hdrop hlast, List.reverse_reverse,
    String.ofList_toList]

namespace QualifiedName

variable (name : QualifiedName)

theorem exists_first :
    ∃ first more, first ∈ name.segments ∧ joined name.segments = first ++ more := by
  obtain ⟨first, rest, hsegments⟩ := List.exists_cons_of_ne_nil name.ne_nil
  obtain ⟨more, hmore⟩ := Text.exists_join_cons "\\" first rest
  rw [hsegments]
  exact ⟨first, more, List.mem_cons_self, hmore⟩

theorem exists_last : ∃ front, joined name.segments = front ++ name.last := by
  rw [← List.dropLast_concat_getLast name.ne_nil]
  exact Text.exists_join_concat "\\" name.segments.dropLast name.last

theorem last_mem : name.last ∈ name.segments := List.getLast_mem name.ne_nil

theorem joined_ne_empty : joined name.segments ≠ "" := by
  obtain ⟨first, more, hfirst, hjoined⟩ := name.exists_first
  rw [hjoined]
  intro hempty
  exact (name.plain first hfirst).1 (String.append_eq_empty_iff.mp hempty).1

/-- A name begins and ends with a segment, so with no backslash. -/
theorem ends_ne : (joined name.segments).toList.head? ≠ some '\\' ∧
    (joined name.segments).toList.getLast? ≠ some '\\' := by
  have hlist : ∀ segment ∈ name.segments, segment.toList ≠ [] := fun segment hsegment =>
    mt String.toList_eq_nil_iff.mp (name.plain segment hsegment).1
  constructor
  · obtain ⟨first, more, hfirst, hjoined⟩ := name.exists_first
    rw [hjoined, String.toList_append, List.head?_append_of_ne_nil _ (hlist first hfirst)]
    exact fun hhead => (name.plain first hfirst).2 (List.mem_of_mem_head? hhead)
  · obtain ⟨front, hjoined⟩ := name.exists_last
    rw [hjoined, String.toList_append, List.getLast?_append_of_ne_nil _ (hlist _ name.last_mem)]
    exact fun hlast => (name.plain _ name.last_mem).2 (List.mem_of_getLast? hlast)

end QualifiedName

variable {f : SourceFile} {t : Tree}

/-- A name loses nothing but a backslash in front. -/
theorem QualifiedName.WrittenBy.trimSeparators_eq {name : QualifiedName}
    (h : name.WrittenBy f t) : trimSeparators (f.textOf t) = joined name.segments := by
  obtain ⟨hfirst, hlast⟩ := name.ends_ne
  have hplain := trimSeparators_of_ends hfirst hlast
  rcases h with htext | htext
  · rw [htext, hplain]
  · have hfront : trimSeparators ("\\" ++ joined name.segments) =
        trimSeparators (joined name.segments) := by simp [trimSeparators, Text.trim]
    rw [htext, hfront, hplain]

end Names

/-! ### Clauses -/

section Clauses

variable {f : SourceFile} {t : Tree}

/-- A kind of child can be looked for among the parts of a node. -/
theorem ofKind?_eq_find? {kind : String} (hkind : kind ≠ "comment") :
    t.ofKind? kind = t.parts.find? fun child => child.kind = kind := by
  rw [Tree.ofKind?, Tree.parts, List.find?_filter]
  congr 1
  funext child
  by_cases hchild : child.kind = kind
  · simp [hchild, Tree.isComment, hkind]
  · simp [hchild]

theorem IsClause.importedName?_eq {clause : UseClause} (h : IsClause f t clause) :
    ∃ target, importedName? t = some target ∧ clause.name.WrittenBy f target := by
  obtain ⟨target, hfirst, hwritten, hkind⟩ := h.name
  refine ⟨target, ?_, hwritten⟩
  obtain ⟨rest, hparts⟩ := List.head?_eq_some_iff.mp hfirst
  rcases hkind with hkind | ⟨hkind, hnone⟩
  · have hfound : t.ofKind? "qualified_name" = some target := by
      rw [ofKind?_eq_find? (by decide), hparts, List.find?_cons_of_pos (by simpa using hkind)]
    rw [importedName?, hfound, Option.some_or]
  · have hfound : t.ofKind? "name" = some target := by
      rw [ofKind?_eq_find? (by decide), hparts, List.find?_cons_of_pos (by simpa using hkind)]
    rw [importedName?, hnone, hfound, Option.none_or]

theorem StatesAlias.statedAlias?_eq {stated? : Option String} (h : StatesAlias f t stated?) :
    (statedAlias? t).map f.textOf = stated? := by
  cases h with
  | none hfield hclause => simp [statedAlias?, hfield, hclause]
  | field h htext => simp [statedAlias?, h, htext]
  | clause hfield hclause h htext => simp [statedAlias?, hfield, hclause, h, htext]

/-- The full name of a clause, put together as a clause is read. -/
theorem UseDeclaration.joined_common (d : UseDeclaration) (name : QualifiedName) :
    (if joined d.common = "" then joined name.segments
      else joined d.common ++ "\\" ++ joined name.segments) =
        joined (d.common ++ name.segments) := by
  cases hgroup : d.group? with
  | none =>
    have hcommon : d.common = [] := by simp [UseDeclaration.common, hgroup]
    rw [hcommon]
    rfl
  | some group =>
    have hcommon : d.common = group.segments := by simp [UseDeclaration.common, hgroup]
    rw [hcommon, if_neg group.joined_ne_empty, Text.joined_append group.ne_nil name.ne_nil]

/-- The short name of what a clause imports is its last segment. -/
theorem UseDeclaration.shortName_eq (d : UseDeclaration) (name : QualifiedName) :
    shortName (joined (d.common ++ name.segments)) = name.last := by
  have hcommon : ∀ piece ∈ d.common, '\\' ∉ piece.toList := by
    intro piece hpiece
    cases hgroup : d.group? with
    | none => simp [UseDeclaration.common, hgroup] at hpiece
    | some group =>
      rw [UseDeclaration.common, hgroup] at hpiece
      exact (group.plain piece hpiece).2
  have hplain : ∀ piece ∈ d.common ++ name.segments, '\\' ∉ piece.toList :=
    List.forall_mem_append.mpr ⟨hcommon, fun piece hpiece => (name.plain piece hpiece).2⟩
  have hlast : d.common ++ name.segments = d.common ++ name.segments.dropLast ++ [name.last] := by
    rw [List.append_assoc, QualifiedName.last, List.dropLast_concat_getLast]
  rw [Text.shortName_joined hplain, hlast, Text.lastWord_concat,
    if_neg (name.plain _ name.last_mem).1]

/-- One clause is recorded under its alias or its last segment, with its full name. -/
theorem IsClause.clauseImport?_eq {d : UseDeclaration} {clause : UseClause}
    (h : IsClause f t clause) : clauseImport? f (joined d.common) t = some (d.entry clause) := by
  obtain ⟨target, htarget, hwritten⟩ := h.importedName?_eq
  have hfound : (t.ofKind? "qualified_name" <|> t.ofKind? "name") = some target := by
    rw [← htarget]
    exact Option.orElse_eq_or
  rw [clauseImport?, hfound]
  simp only [Option.bind_eq_bind, Option.bind_some, hwritten.trimSeparators_eq, d.joined_common,
    clauseAlias_eq, h.stated.statedAlias?_eq, d.shortName_eq]
  rfl

end Clauses

/-! ### Declarations -/

section Declarations

variable {f : SourceFile} {t : Tree} {d : UseDeclaration}

theorem useClausesOf_eq (children : List Tree) :
    useClausesOf children = (children.filter Tree.isNamed).flatMap useClauses := by
  induction children with
  | nil => rfl
  | cons child children ih =>
    cases hnamed : child.isNamed <;> simp [useClausesOf, hnamed, ih]

/-- Other nodes than clauses and groups hold no clauses. -/
theorem useClauses_eq_nil (hclause : t.kind ≠ "namespace_use_clause")
    (hinner : t.kind ≠ "namespace_use_group_clause") (hgroup : t.kind ≠ "namespace_use_group") :
    useClauses t = [] := by
  obtain ⟨kind, named, start, stop, field, children⟩ := t
  simp only [Tree.kind] at hclause hinner hgroup
  simp [useClauses, hclause, hinner, hgroup]

/-- Clauses can be looked for among the parts of a node. -/
theorem useClausesOf_children (t : Tree) :
    useClausesOf t.children = t.parts.flatMap useClauses := by
  rw [useClausesOf_eq, Tree.parts, ← Tree.namedChildren]
  induction t.namedChildren with
  | nil => rfl
  | cons child children ih =>
    cases hchild : child.isComment with
    | true =>
      have hkind : child.kind = "comment" := of_decide_eq_true hchild
      have hnil : useClauses child = [] :=
        useClauses_eq_nil (by simp [hkind]) (by simp [hkind]) (by simp [hkind])
      simp [hchild, hnil, ih]
    | false => simp [hchild, ih]

theorem useClauses_group (h : t.kind = "namespace_use_group") :
    useClauses t = t.parts.flatMap useClauses := by
  rw [← useClausesOf_children]
  obtain ⟨kind, named, start, stop, field, children⟩ := t
  have hkind : kind = "namespace_use_group" := h
  simp [useClauses, hkind, Tree.children]

theorem IsClause.useClauses_eq {clause : UseClause} (h : IsClause f t clause) :
    useClauses t = [t] := by
  obtain ⟨kind, named, start, stop, field, children⟩ := t
  have hkind : kind = "namespace_use_clause" ∨ kind = "namespace_use_group_clause" := h.kind
  simp [useClauses, hkind]

section Lists

variable {trees : List Tree} {clauses : List UseClause}

theorem flatMap_useClauses (h : List.Forall₂ (IsClause f) trees clauses) :
    trees.flatMap useClauses = trees := by
  induction h with
  | nil => rfl
  | cons hclause _ ih =>
    rw [List.flatMap_cons, hclause.useClauses_eq, ih]
    rfl

theorem find?_namespace_name (h : List.Forall₂ (IsClause f) trees clauses) :
    (trees.find? fun tree => tree.kind = "namespace_name") = none := by
  induction h with
  | nil => rfl
  | cons hclause _ ih =>
    refine (List.find?_cons_of_neg ?_).trans ih
    rcases hclause.kind with hkind | hkind <;> simp [hkind]

/-- Every clause is recorded, in order. -/
theorem filterMap_clauseImport? (d : UseDeclaration)
    (h : List.Forall₂ (IsClause f) trees clauses) :
    trees.filterMap (clauseImport? f (joined d.common)) = clauses.map d.entry := by
  induction h with
  | nil => rfl
  | cons hclause _ ih => rw [List.filterMap_cons_some hclause.clauseImport?_eq, ih, List.map_cons]

end Lists

namespace IsUseDeclaration

/-- The clauses that are found in the tree of a declaration are its clauses, in order. -/
theorem forall₂_useClausesOf (h : IsUseDeclaration f t d) :
    List.Forall₂ (IsClause f) (useClausesOf t.children) d.clauses := by
  have hclauses := h.clauses
  rw [useClausesOf_children]
  cases hgroup : d.group? with
  | none =>
    rw [hgroup] at hclauses
    rwa [flatMap_useClauses hclauses]
  | some common =>
    rw [hgroup] at hclauses
    obtain ⟨front, group, hparts, hfront, -, hkind, hinner⟩ := hclauses
    -- The common beginning holds no clause, and the group holds all.
    have hnil : useClauses front = [] :=
      useClauses_eq_nil (by simp [hfront]) (by simp [hfront]) (by simp [hfront])
    rw [hparts, List.flatMap_cons, List.flatMap_singleton, hnil, List.nil_append,
      useClauses_group hkind]
    rwa [flatMap_useClauses hinner]

/-- The common beginning of a group is found in front of it. -/
theorem common_eq (h : IsUseDeclaration f t d) :
    trimSeparators (f.textOf? (t.ofKind? "namespace_name")) = joined d.common := by
  have hclauses := h.clauses
  rw [ofKind?_eq_find? (by decide), UseDeclaration.common]
  cases hgroup : d.group? with
  | none =>
    -- In a list the parts are clauses, so nothing is taken for a common beginning.
    rw [hgroup] at hclauses
    rw [find?_namespace_name hclauses]
    rfl
  | some common =>
    rw [hgroup] at hclauses
    obtain ⟨front, group, hparts, hfront, hwritten, -⟩ := hclauses
    rw [hparts, List.find?_cons_of_pos (by simpa using hfront)]
    exact hwritten.trimSeparators_eq

end IsUseDeclaration

theorem HasWord.importsNoClass_eq {word? : Option ImportWord} (h : HasWord f t word?) :
    importsNoClass f t = word?.isSome := by
  cases word? with
  | none =>
    refine List.any_eq_false.mpr fun mark hmark hfound => ?_
    simp only [Bool.and_eq_true, Bool.not_eq_true', Bool.or_eq_true, decide_eq_true_eq] at hfound
    obtain ⟨hfunction, hconst⟩ := h mark hmark hfound.1
    exact hfound.2.elim hfunction hconst
  | some word =>
    obtain ⟨mark, hmark, hnamed, htext⟩ := h
    refine List.any_eq_true.mpr ⟨mark, hmark, ?_⟩
    cases word <;> simp [hnamed, htext, ImportWord.text]

/-- What is recorded: nothing if a word stands in front of all, and else every clause. -/
theorem IsUseDeclaration.imports_eq (h : IsUseDeclaration f t d) :
    imports f t = if d.word?.isSome then [] else d.clauses.map d.entry := by
  rw [imports, h.word.importsNoClass_eq, h.common_eq,
    filterMap_clauseImport? d h.forall₂_useClausesOf]

namespace UseDeclaration

/-- Nothing is in the table of classes if a word stands in front of all. -/
theorem classTable_of_word {word : ImportWord} (h : d.word? = some word) : d.classTable = [] := by
  have hnone : d.clauses.filter d.importsClass = [] := by
    refine List.filter_eq_nil_iff.mpr fun clause _ => ?_
    simp [importsClass, h]
  rw [classTable, hnone, List.map_nil]

/-- Otherwise, all clauses are in the table exactly if no word stands in front of one. -/
theorem classTable_eq_iff (h : d.word? = none) :
    d.clauses.map d.entry = d.classTable ↔ ∀ clause ∈ d.clauses, clause.word? = none := by
  constructor
  · intro heq clause hclause
    -- Entries of different clauses may be alike, so it is the number of clauses that tells.
    have hlength := congrArg List.length heq
    rw [classTable, List.length_map, List.length_map, eq_comm,
      List.length_filter_eq_length_iff] at hlength
    have himports := hlength clause hclause
    simp only [importsClass, Bool.and_eq_true, Option.isNone_iff_eq_none] at himports
    exact himports.1.2
  · intro hwords
    have hall : ∀ clause ∈ d.clauses, d.importsClass clause = true := by
      intro clause hclause
      have hevery : d.clauses.all (fun other => other.word?.isNone) = true :=
        List.all_eq_true.mpr fun other hother => by simp [hwords other hother]
      simp [importsClass, h, hwords clause hclause, hevery]
    rw [classTable, List.filter_eq_self.mpr hall]

end UseDeclaration

end Declarations

/-- What a `use` declaration records. Its tree may be a list or a group, with comments, with
or without aliases and words for functions and constants. If a word stands in front of a
group, nothing is recorded. Else every clause is recorded, in order, under its alias or its
last segment in lower case, with the full name. That is the table of classes, exactly if
a word stands in front of all, or none in front of a clause. The scope takes over what is
recorded. -/
theorem use_declaration_records {f : SourceFile} {t : Tree} {d : UseDeclaration}
    (h : IsUseDeclaration f t d) :
    imports f t = (if d.word?.isSome then [] else d.clauses.map d.entry) ∧
    (imports f t = d.classTable ↔
      d.word?.isSome ∨ ∀ clause ∈ d.clauses, clause.word? = none) ∧
    ∀ s : Scope, (s.enter f t).imported = (imports f t).reverse ++ s.imported := by
  refine ⟨h.imports_eq, ?_, fun s => ?_⟩
  · rw [h.imports_eq]
    cases hword : d.word? with
    | some word => simp [UseDeclaration.classTable_of_word hword]
    | none => simp [UseDeclaration.classTable_eq_iff hword]
  · have hform : ScopeForm.of? t.kind = some .useForm := by rw [h.kind]; rfl
    rw [Scope.enter, hform]

/-- A name of one segment. -/
def QualifiedName.single (segment : String) (h : segment ≠ "" ∧ '\\' ∉ segment.toList) :
    QualifiedName :=
  ⟨[segment], List.cons_ne_nil _ _, by simpa using h⟩

/-- A group below `A` with a class `B` called `C` and a constant `d`. -/
def mixedGroup : UseDeclaration where
  word? := none
  group? := some (.single "A" (by decide))
  clauses :=
    [⟨none, .single "B" (by decide), some "C"⟩, ⟨some .const, .single "d" (by decide), none⟩]

@[inherit_doc mixedGroup]
def mixedClauses : List Tree :=
  [.node "namespace_use_clause" true 1 3 none
      [.node "name" true 1 2 none [], .node "name" true 2 3 (some "alias") []],
    .node "namespace_use_clause" true 3 9 none
      [.node "const" false 3 8 (some "type") [], .node "name" true 8 9 none []]]

@[inherit_doc mixedGroup]
def mixedTree : Tree :=
  .node "namespace_use_declaration" true 0 9 none
    [.node "namespace_name" true 0 1 none [],
      .node "namespace_use_group" true 1 9 (some "body") mixedClauses]

@[inherit_doc mixedGroup]
def mixedFile : SourceFile := { path := "/p/m.php", source := "ABCconstd" }

/-- The class and the constant of a group are both recorded. -/
theorem use_declaration_records_mixed :
    IsUseDeclaration mixedFile mixedTree mixedGroup ∧
    mixedGroup.classTable = [("c", "A\\B")] ∧
    imports mixedFile mixedTree = [("c", "A\\B"), ("d", "A\\d")] ∧
    imports mixedFile mixedTree ≠ mixedGroup.classTable := by
  have hclauses : List.Forall₂ (IsClause mixedFile) mixedClauses mixedGroup.clauses := by
    refine .cons ⟨.inl rfl, by decide +kernel, ?_, ?_⟩
      (.cons ⟨.inl rfl, by decide +kernel, ?_, ?_⟩ .nil)
    · exact ⟨_, rfl, .inl (by decide +kernel), .inr ⟨rfl, rfl⟩⟩
    · exact .field rfl (by decide +kernel)
    · exact ⟨_, rfl, .inl (by decide +kernel), .inr ⟨rfl, rfl⟩⟩
    · exact .none rfl rfl
  have htree : IsUseDeclaration mixedFile mixedTree mixedGroup :=
    ⟨rfl, by decide +kernel, _, _, rfl, rfl, .inl (by decide +kernel), rfl, hclauses⟩
  obtain ⟨hrecorded, htable, -⟩ := use_declaration_records htree
  refine ⟨htree, by decide +kernel, hrecorded.trans (by decide +kernel), fun heq => ?_⟩
  rcases htable.mp heq with hword | hwords
  · cases hword
  · exact absurd (hwords _ (List.mem_cons_of_mem _ List.mem_cons_self)) (by decide)

/-- The import of a function `X\y`, with the word in its clause, as the grammar has it. -/
def functionUse : UseDeclaration where
  word? := none
  group? := none
  clauses := [⟨some .function, ⟨["X", "y"], by decide, by decide⟩, none⟩]

@[inherit_doc functionUse]
def functionClause : Tree :=
  .node "namespace_use_clause" true 4 16 none
    [.node "function" false 4 12 (some "type") [],
      .node "qualified_name" true 13 16 none
        [.node "namespace_name" true 13 14 (some "prefix") [.node "name" true 13 14 none []],
          .node "\\" false 14 15 (some "prefix") [], .node "name" true 15 16 none []]]

@[inherit_doc functionUse]
def functionTree : Tree :=
  .node "namespace_use_declaration" true 0 17 none
    [.node "use" false 0 3 none [], functionClause, .node ";" false 16 17 none []]

@[inherit_doc functionUse]
def functionFile : SourceFile := { path := "/p/u.php", source := "use function X\\y;" }

/-- A function that is imported on its own is recorded as a class. -/
theorem function_recorded_as_class :
    IsUseDeclaration functionFile functionTree functionUse ∧ functionUse.classTable = [] ∧
    imports functionFile functionTree = [("y", "X\\y")] ∧
    (Scope.enter {} functionFile functionTree).qualifyPlain "y" = "X\\y" := by
  have hclause : IsClause functionFile functionClause functionUse.clauses[0] :=
    ⟨.inl rfl, by decide +kernel, ⟨_, rfl, .inl (by decide +kernel), .inl rfl⟩, .none rfl rfl⟩
  exact ⟨⟨rfl, by decide +kernel, .cons hclause .nil⟩, rfl, by decide +kernel, by decide +kernel⟩

end PluginAtlas.Php
