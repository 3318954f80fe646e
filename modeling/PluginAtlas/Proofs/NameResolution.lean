import PluginAtlas.Proofs.NamespaceInForce
import PluginAtlas.Proofs.Segments
import Mathlib.Data.List.Basic

/-!
# What a class name means

In a namespace a class is named by a text as it is written. The rules say what class that
is, segment by segment: a leading backslash makes a name absolute, the word `namespace` in
front stands for the namespace in force, a first segment that is the alias of an import
stands for what was imported, and any other name lies below the namespace in force. A scope
works on texts instead, with a table of imports in lower case; it comes to the same name.
Its table also holds functions and constants whose mark stands on a clause of their own, and
a name that begins like one of them is led astray.

## Main definitions

* `Import`: what a clause of a `use` declaration imports, in segments.
* `resolve`: the rules of names.
* `importedClasses`, `strayImports`, `importedNames`: the classes that are imported, the
  functions and constants that are taken for such, and both.

## Main results

* `Scope.qualifyPlain_eq`: a scope follows the rules.
* `imports_eq`: what is recorded of a `use` declaration is what all its clauses import.
* `resolve_importedNames`: when imports astray do not matter.
* `qualifyPlain_at_enter`: the name that is meant at a node.
-/

namespace PluginAtlas.Php

open Text (segments joined lastWord)

/-! ### The rules -/

/-- Two words are the same up to letter case. -/
def SameWord (word other : String) : Prop := Text.lower word = Text.lower other

instance (word other : String) : Decidable (SameWord word other) :=
  inferInstanceAs (Decidable (_ = _))

/-- What is imported: what it is called where it is imported, and the segments of the name
that it means. -/
structure Import where
  called : String
  means : List String
  means_ne_nil : means ≠ []

/-- The segments of the name of a namespace; outside namespaces there are none. -/
def spaceSegments (name : String) : List String := if name = "" then [] else segments name

theorem not_mem_of_mem_spaceSegments {name piece : String} (h : piece ∈ spaceSegments name) :
    '\\' ∉ piece.toList := by
  unfold spaceSegments at h
  split at h
  · cases h
  · exact Text.not_mem_of_mem_segments h

/-- The class that a written name means in a namespace with imports, the latest last. -/
def resolve (space : List String) (uses : List Import) : List String → List String
  | [] => space
  | head :: rest =>
    if head = "" ∧ rest ≠ [] then rest
    else if SameWord head "namespace" ∧ rest ≠ [] then space ++ rest
    else
      match (uses.filter fun use => SameWord use.called head).getLast? with
      | some use => use.means ++ rest
      | none => space ++ head :: rest

section Resolve

variable {space rest : List String} {uses : List Import} {head : String}

theorem resolve_absolute (hrest : rest ≠ []) : resolve space uses ("" :: rest) = rest := by
  rw [resolve, if_pos ⟨rfl, hrest⟩]

theorem resolve_relative (hhead : head ≠ "") (hword : SameWord head "namespace")
    (hrest : rest ≠ []) : resolve space uses (head :: rest) = space ++ rest := by
  rw [resolve, if_neg (fun h => hhead h.1), if_pos ⟨hword, hrest⟩]

theorem resolve_by_alias (h : rest = [] ∨ head ≠ "" ∧ ¬ SameWord head "namespace") :
    resolve space uses (head :: rest) =
      match (uses.filter fun use => SameWord use.called head).getLast? with
      | some use => use.means ++ rest
      | none => space ++ head :: rest := by
  rcases h with rfl | ⟨hhead, hword⟩
  · simp [resolve]
  · rw [resolve, if_neg (fun h => hhead h.1), if_neg (fun h => hword h.1)]

/-- A name of one segment that is no alias lies in the namespace. -/
theorem resolve_singleton (h : ∀ use ∈ uses, ¬ SameWord use.called head) :
    resolve space uses [head] = space ++ [head] := by
  have hnone : (uses.filter fun use => SameWord use.called head) = [] := by
    simpa [List.filter_eq_nil_iff] using h
  rw [resolve_by_alias (Or.inl rfl), hnone]
  rfl

end Resolve

/-! ### What a scope makes of a name -/

/-- An import as the table of a scope holds it. -/
def Import.record (use : Import) : String × String := (Text.lower use.called, joined use.means)

section Qualify

variable {s : Scope} {uses : List Import}

theorem lookup_records (h : s.imported = (uses.map Import.record).reverse) (head : String) :
    s.imported.lookup (Text.lower head) =
      ((uses.filter fun use => SameWord use.called head).getLast?).map
        fun use => joined use.means := by
  rw [h, lookup_reverse, List.filter_map, List.getLast?_map, Option.map_map]
  rfl

theorem joined_space (space rest : String) :
    joined (spaceSegments space ++ segments rest) =
      if space = "" then rest else space ++ "\\" ++ rest := by
  unfold spaceSegments
  split
  · rw [List.nil_append, Text.joined_segments]
  · rw [Text.joined_append (Text.segments_ne_nil _) (Text.segments_ne_nil _), Text.joined_segments,
      Text.joined_segments]

theorem dropStart?_of_head {name : String} (h : name.toList.head? ≠ some '\\') :
    Text.dropStart? "\\" name = none := by
  rw [Text.dropStart?, Text.startsWith_of_head rfl h]
  rfl

/-- Behind a leading backslash the name is absolute. -/
theorem qualifyPlain_absolute (s : Scope) (rest : String) :
    s.qualifyPlain ("\\" ++ rest) = rest := by
  rw [Scope.qualifyPlain, Text.dropStart?_append]

/-- A name that is not absolute lies below the namespace in force if it says so, or else it
is looked up. -/
theorem qualifyPlain_of_head {name : String} (hname : name.toList.head? ≠ some '\\') :
    s.qualifyPlain name =
      if Text.startsWith "namespace\\" (Text.lower name) then
        joined (spaceSegments s.namespaceName ++ segments (Text.drop 10 name))
      else
        match s.imported.lookup (Text.lower (Text.cut "\\" name).1), (Text.cut "\\" name).2 with
        | some full, some rest => full ++ "\\" ++ rest
        | some full, none => full
        | none, _ => joined (spaceSegments s.namespaceName ++ segments name) := by
  rw [joined_space, joined_space, Scope.qualifyPlain]
  exact dropStart?_of_head hname ▸ rfl

/-- A scope that holds the imports in its table gives a name the meaning that it has by the
rules. -/
theorem Scope.qualifyPlain_eq (h : s.imported = (uses.map Import.record).reverse)
    (name : String) :
    s.qualifyPlain name =
      joined (resolve (spaceSegments s.namespaceName) uses (segments name)) := by
  rcases Text.cut_cases name with ⟨hcut, hname⟩ | ⟨head, rest, hcut, rfl, hhead⟩
  · -- A name of one segment is neither absolute nor relative to the namespace.
    have habsolute : name.toList.head? ≠ some '\\' := fun hc => hname (List.mem_of_mem_head? hc)
    have hrelative : Text.startsWith "namespace\\" (Text.lower name) = false :=
      Text.not_startsWith_lower hname "namespace"
    rw [qualifyPlain_of_head habsolute, hrelative, hcut, lookup_records h,
      Text.segments_of_not_mem hname, resolve_by_alias (Or.inl rfl)]
    cases (uses.filter fun use => SameWord use.called name).getLast? with
    | none => rfl
    | some use => simp
  · rw [Text.segments_cons hhead]
    have hrest : segments rest ≠ [] := Text.segments_ne_nil rest
    by_cases hempty : head = ""
    · subst hempty
      rw [String.empty_append, qualifyPlain_absolute, resolve_absolute hrest, Text.joined_segments]
    · have habsolute : (head ++ "\\" ++ rest).toList.head? ≠ some '\\' := by
        have hnil : head.toList ≠ [] := by simpa using hempty
        obtain ⟨c, cs, hcs⟩ := List.exists_cons_of_ne_nil hnil
        rw [String.append_assoc, String.toList_append, hcs]
        rintro ⟨⟩
        exact hhead (hcs ▸ List.mem_cons_self)
      have hplain : '\\' ∉ "namespace".toList := by decide
      have hrelative : Text.startsWith "namespace\\" (Text.lower (head ++ "\\" ++ rest)) ↔
          SameWord head "namespace" := Text.startsWith_lower_iff hhead hplain rest
      rw [qualifyPlain_of_head habsolute, hcut]
      by_cases hword : SameWord head "namespace"
      · -- The word has as many characters in any case, so what is dropped is the word.
        have hdrop : Text.drop 10 (head ++ "\\" ++ rest) = rest := by
          have hlength : head.toList.length = 9 := Text.length_of_lower_eq hword (by decide)
          have hfront : (head ++ "\\").toList.length = 10 := by simp [hlength]
          rw [Text.drop, String.toList_append, List.drop_left' hfront, String.ofList_toList]
        rw [if_pos (hrelative.mpr hword), resolve_relative hempty hword hrest, hdrop]
      · rw [if_neg (fun hc => hword (hrelative.mp hc)), resolve_by_alias (Or.inr ⟨hempty, hword⟩),
          lookup_records h]
        cases (uses.filter fun use => SameWord use.called head).getLast? with
        | none => simp only [Option.map_none, Text.segments_cons hhead]
        | some use =>
          simp only [Option.map_some]
          rw [Text.joined_append use.means_ne_nil hrest, Text.joined_segments]

end Qualify

/-! ### What a declaration imports -/

/-- The node of the alias that a clause states. -/
def statedAlias? (clause : Tree) : Option Tree :=
  (clause.byField? "alias").or
    ((clause.ofKind? "namespace_aliasing_clause").bind fun t => t.ofKind? "name")

/-- The node of the name that a clause imports. -/
def importedName? (clause : Tree) : Option Tree :=
  (clause.ofKind? "qualified_name").or (clause.ofKind? "name")

/-- What a clause imports below a group's common beginning, called by the alias or else by its
last segment. -/
def clauseUse? (f : SourceFile) (common : String) (clause : Tree) : Option Import :=
  (importedName? clause).map fun target =>
    let full := spaceSegments common ++ segments (trimSeparators (f.textOf target))
    { called := ((statedAlias? clause).map f.textOf).getD (lastWord full)
      means := full
      means_ne_nil := List.append_ne_nil_of_right_ne_nil _ (Text.segments_ne_nil _) }

/-- What the clauses of one sort import in a `use` declaration, in order. A declaration that is
for functions or constants as a whole imports no class. -/
def importsBy (sort : Tree → Bool) (f : SourceFile) (declaration : Tree) : List Import :=
  if importsNoClass f declaration then []
  else
    let common := trimSeparators (f.textOf? (declaration.ofKind? "namespace_name"))
    ((useClausesOf declaration.children).filter sort).filterMap (clauseUse? f common)

/-- The classes that the `use` declarations among steps import, the latest last. -/
def importedClasses (f : SourceFile) (steps : List (List Tree × Step)) : List Import :=
  (usesEntered steps).flatMap (importsBy (fun clause => !importsNoClass f clause) f)

/-- The functions and constants that the `use` declarations among steps import by clauses marked
on their own. -/
def strayImports (f : SourceFile) (steps : List (List Tree × Step)) : List Import :=
  (usesEntered steps).flatMap (importsBy (importsNoClass f) f)

/-- All that the table of a scope holds: classes, and what is imported astray. -/
def importedNames (f : SourceFile) (steps : List (List Tree × Step)) : List Import :=
  (usesEntered steps).flatMap (importsBy (fun _ => true) f)

section Imports

variable {f : SourceFile}

theorem clauseAlias_eq (clause : Tree) (full : String) :
    clauseAlias f clause full = ((statedAlias? clause).map f.textOf).getD (shortName full) := by
  unfold clauseAlias statedAlias?
  cases clause.byField? "alias" with
  | some stated => rfl
  | none =>
    cases (clause.ofKind? "namespace_aliasing_clause").bind fun t => t.ofKind? "name" <;> rfl

theorem not_mem_of_clauseUse? {common : String} {clause : Tree} {use : Import}
    (h : clauseUse? f common clause = some use) : ∀ piece ∈ use.means, '\\' ∉ piece.toList := by
  obtain ⟨target, -, rfl⟩ := Option.map_eq_some_iff.mp h
  exact List.forall_mem_append.mpr
    ⟨fun _ => not_mem_of_mem_spaceSegments, fun _ => Text.not_mem_of_mem_segments⟩

theorem clauseImport?_eq (common : String) (clause : Tree) :
    clauseImport? f common clause = (clauseUse? f common clause).map Import.record := by
  have htarget : (clause.ofKind? "qualified_name" <|> clause.ofKind? "name") =
      importedName? clause := Option.orElse_eq_or
  cases huse : clauseUse? f common clause with
  | none =>
    rw [clauseUse?, Option.map_eq_none_iff] at huse
    rw [clauseImport?, htarget, huse]
    rfl
  | some use =>
    have hplain := not_mem_of_clauseUse? huse
    obtain ⟨target, hname, rfl⟩ := Option.map_eq_some_iff.mp huse
    rw [clauseImport?, htarget, hname]
    simp only [Option.bind_eq_bind, Option.bind_some,
      ← joined_space common (trimSeparators (f.textOf target)), clauseAlias_eq,
      Text.shortName_joined hplain]
    rfl

/-- What is recorded of a `use` declaration is what all its clauses import. -/
theorem imports_eq (declaration : Tree) :
    imports f declaration = (importsBy (fun _ => true) f declaration).map Import.record := by
  unfold imports importsBy
  split
  · rfl
  · rw [List.filter_true, List.map_filterMap]
    exact List.filterMap_congr fun clause _ => clauseImport?_eq _ clause

theorem recorded_eq (steps : List (List Tree × Step)) :
    recorded f steps = (importedNames f steps).map Import.record := by
  rw [recorded, importedNames, List.map_flatMap]
  exact List.flatMap_congr fun declaration _ => imports_eq declaration

theorem not_mem_of_mem_importedNames {steps : List (List Tree × Step)} {use : Import}
    (h : use ∈ importedNames f steps) : ∀ piece ∈ use.means, '\\' ∉ piece.toList := by
  obtain ⟨declaration, -, huse⟩ := List.mem_flatMap.mp h
  unfold importsBy at huse
  split at huse
  · cases huse
  · obtain ⟨clause, -, hclause⟩ := List.mem_filterMap.mp huse
    exact not_mem_of_clauseUse? hclause

/-- Without the clauses of one sort, the same imports are left under a word that they do not
use. -/
theorem filter_clauseUses {sort : Tree → Bool} {common word : String} {clauses : List Tree}
    (h : ∀ use ∈ (clauses.filter sort).filterMap (clauseUse? f common),
      ¬ SameWord use.called word) :
    (clauses.filterMap (clauseUse? f common)).filter (fun use => SameWord use.called word) =
      ((clauses.filter fun clause => !sort clause).filterMap (clauseUse? f common)).filter
        fun use => SameWord use.called word := by
  induction clauses with
  | nil => rfl
  | cons clause clauses ih =>
    cases hsort : sort clause with
    | false =>
      rw [List.filter_cons_of_neg (by simp [hsort])] at h
      rw [List.filter_cons_of_pos (by simp [hsort]), List.filterMap_cons, List.filterMap_cons]
      cases clauseUse? f common clause with
      | none => exact ih h
      | some use => simp only [List.filter_cons, ih h]
    | true =>
      -- The clause goes, and with it an import under another word.
      rw [List.filter_cons_of_pos hsort] at h
      rw [List.filter_cons_of_neg (by simp [hsort]), List.filterMap_cons]
      cases huse : clauseUse? f common clause with
      | none =>
        rw [List.filterMap_cons_none huse] at h
        exact ih h
      | some use =>
        rw [List.filterMap_cons_some huse] at h
        obtain ⟨hother, hrest⟩ := List.forall_mem_cons.mp h
        simp only [List.filter_cons, hother, decide_false, Bool.false_eq_true, if_false]
        exact ih hrest

theorem filter_importsBy {sort : Tree → Bool} {declaration : Tree} {word : String}
    (h : ∀ use ∈ importsBy sort f declaration, ¬ SameWord use.called word) :
    (importsBy (fun _ => true) f declaration).filter (fun use => SameWord use.called word) =
      (importsBy (fun clause => !sort clause) f declaration).filter
        fun use => SameWord use.called word := by
  unfold importsBy at h ⊢
  split
  · rfl
  · rename_i hclasses
    rw [if_neg hclasses] at h
    rw [List.filter_true]
    exact filter_clauseUses h

theorem filter_importedNames {steps : List (List Tree × Step)} {word : String}
    (h : ∀ use ∈ strayImports f steps, ¬ SameWord use.called word) :
    (importedNames f steps).filter (fun use => SameWord use.called word) =
      (importedClasses f steps).filter fun use => SameWord use.called word := by
  rw [importedNames, importedClasses, List.filter_flatMap, List.filter_flatMap]
  refine List.flatMap_congr fun declaration hdeclaration => filter_importsBy fun use huse => ?_
  exact h use (List.mem_flatMap.mpr ⟨declaration, hdeclaration, huse⟩)

/-- A name means the same whether or not the scope has imports astray, unless one of them is
called like its first segment. -/
theorem resolve_importedNames {steps : List (List Tree × Step)} {name : String}
    (h : ∀ use ∈ strayImports f steps, ∀ head ∈ (segments name).head?,
      ¬ SameWord use.called head) (space : List String) :
    resolve space (importedNames f steps) (segments name) =
      resolve space (importedClasses f steps) (segments name) := by
  obtain ⟨head, rest, heq⟩ := List.exists_cons_of_ne_nil (Text.segments_ne_nil name)
  rw [heq] at h ⊢
  rw [resolve, resolve, filter_importedNames fun use huse => h use huse head rfl]

end Imports

/-! ### Names at a node -/

section AtEnter

variable {f : SourceFile} {root : Tree} {trail : List Tree} {counted : List (List Tree × Step)}
  {space : String}

/-- At a node that is reached, a name has the meaning that the rules give it in the
namespace in force there, with all that is recorded for imports. -/
theorem qualifyPlain_at_enter {families : List Family} (hroot : NamespacesNotNested root)
    {done rest : List (List Tree × Step)} {v : Visit}
    (hsplit : Walk.trace root = done ++ (trail, .enter v) :: rest)
    (hok : (Walk.after (Progress.step families f) {} done).failure = none)
    (hforce : InForce f trail (done ++ [(trail, .enter v)]) space counted) (name : String) :
    ((Walk.after (Progress.step families f) {} done).scope.enter f v.tree).qualifyPlain name =
      joined (resolve (spaceSegments space) (importedNames f counted) (segments name)) := by
  obtain ⟨counted', hforce', himported⟩ := inForce_at_enter hroot hsplit hok
  obtain ⟨hspace, rfl⟩ := hforce'.unique hforce
  rw [recorded_eq] at himported
  rw [Scope.qualifyPlain_eq himported, hspace]

end AtEnter

end PluginAtlas.Php
