import PluginAtlas.Proofs.ClassReferences
import PluginAtlas.Proofs.Expressions

/-!
# Where an extraction stops

Four shapes of code end the extraction of a file: a class that is called by a word for
the enclosing class, a hook priority whose digits do not write a readable number, a REST
endpoint whose methods are a class constant without any part, and an include of a path that
the disk has no answer for. Each can be seen at the node alone, whatever the scope. An
extraction fails exactly at the first such node of its walk, and so completes exactly if its
walk meets none.

## Main definitions

* `nameHazard?`, `priorityHazard?`, `methodsHazard?`, `includeHazard?`: the four shapes.
* `hazard?`: the failure that a node causes.

## Main results

* `findAt_failure`: the failure of the rules at a node.
* `HazardTracked.enter`, `HazardTracked.leave`: what the steps of a walk keep.
* `extract_failure_eq_first_hazard`: the failure of an extraction.
-/

namespace PluginAtlas

/-! ### Failures of outcomes -/

/-- The failure that stands in place of a value. -/
def failureOf {α : Type} : Except Failure α → Option Failure
  | .error failure => some failure
  | .ok _ => none

theorem failureOf_map {α β : Type} (g : α → β) (value : Except Failure α) :
    failureOf (value.map g) = failureOf value := by
  cases value <;> rfl

theorem failureOf_bind_pure {α β : Type} (value : Except Failure α) (g : α → β) :
    failureOf (value >>= fun a => pure (g a)) = failureOf value := by
  cases value <;> rfl

namespace Outcome

theorem failure_attempt {α : Type} {value : Except Failure α} {next : α → Outcome}
    (hnext : ∀ a, (next a).failure = none) : (attempt value next).failure = failureOf value := by
  cases value with
  | error failure => rfl
  | ok a => exact hnext a

theorem failure_followedBy (o next : Outcome) :
    (o.followedBy next).failure = o.failure.or next.failure := by
  unfold followedBy
  cases h : o.failure with
  | none => rfl
  | some failure => exact h

theorem failure_sequence_eq_none {os : List Outcome} (h : ∀ o ∈ os, o.failure = none) :
    (sequence os).failure = none := by
  induction os with
  | nil => rfl
  | cons o rest ih =>
    rw [sequence, failure_followedBy, h o List.mem_cons_self]
    exact ih fun next hnext => h next (List.mem_cons_of_mem o hnext)

end Outcome

namespace Php

/-! ### The four shapes -/

/-- A class that is called by a word for the enclosing class. -/
def nameHazard? (f : SourceFile) (t : Tree) : Option Failure :=
  if t.kind ∈ classLikeKinds ∧ Scope.isSelfWord (Scope.nameOf f t) then some .endlessName
  else none

/-- The digits that an expression states as a number, without blanks and underscores: an
integer literal, or what stands behind a minus. -/
def statedDigits? (f : SourceFile) (t : Tree) : Option String :=
  let text := String.ofList ((f.textOf t).toList.filter fun c => c != ' ' && c != '_')
  let stated :=
    if t.kind = "unary_op_expression" then Text.dropStart? "-" text
    else if t.kind = "integer" then some text
    else none
  stated.filter isDigits

/-- Why characters that show digits write no readable number: too many decimal digits stand
in front, or one of the characters only shows a digit. -/
def digitsHazard? (digits : String) : Option Failure :=
  let leading := digits.toList.takeWhile fun c => (Text.digitValue? c).isSome
  if Json.maxDigits < leading.length then some (.tooManyDigits leading.length)
  else if digits.toList.all fun c => (Text.digitValue? c).isSome then none
  else some (.notDecimal digits)

/-- A callback that is registered with an unreadable number as its priority. -/
def priorityHazard? (f : SourceFile) (t : Tree) : Option Failure :=
  if t.kind = "function_call_expression" ∧ ((functionName? f t).bind registeredHook?).isSome then
    (((callArguments t)[2]?.bind Tree.unwrap?).bind (statedDigits? f)).bind digitsHazard?
  else none

/-- Whether an expression is a class constant without any part. -/
def isBareConstant (t : Tree) : Bool :=
  t.kind = "class_constant_access_expression" && t.namedChildren.isEmpty

/-- Whether an endpoint declares a class constant without any part as its methods. -/
def hasBareMethods (f : SourceFile) (endpoint : Tree) : Bool :=
  ((arrayLookup? f endpoint "methods").bind Tree.unwrap?).any isBareConstant

/-- A REST route between literals with such an endpoint. -/
def methodsHazard? (f : SourceFile) (t : Tree) : Option Failure :=
  let arguments := callArguments t
  if t.kind = "function_call_expression" ∧ functionName? f t = some "register_rest_route" ∧
      (stringValue? f arguments[0]?).isSome ∧ (stringValue? f arguments[1]?).isSome ∧
      (arguments[2]?.bind Tree.unwrap?).any (fun t => (restEndpoints t).any (hasBareMethods f)) then
    some .missingChild
  else none

/-- An include of a file of which the disk cannot tell whether it exists. -/
def includeHazard? (f : SourceFile) (t : Tree) : Option Failure :=
  if isIncludeKind t.kind then
    (t.parts.head?.bind (includeReference? f)).bind fun reference =>
      match f.probe (resolveLexically f.directory reference) with
      | .error error => some (.unreachable error)
      | .ok _ => none
  else none

/-- The failure that a node causes. -/
def hazard? (f : SourceFile) (t : Tree) : Option Failure :=
  (((nameHazard? f t).or (priorityHazard? f t)).or (methodsHazard? f t)).or (includeHazard? f t)

/-! ### Numbers and methods -/

section Values

variable (f : SourceFile)

theorem decimalValue_failure (digits : String) :
    failureOf (decimalValue digits) = digitsHazard? digits := by
  have hall : ¬ (digits.toList.takeWhile fun c => (Text.digitValue? c).isSome).length <
        digits.length ↔ digits.toList.all fun c => (Text.digitValue? c).isSome := by
    rw [← String.length_toList, List.all_eq_true]
    constructor
    · intro h
      have hsame := (List.takeWhile_prefix (l := digits.toList)
        fun c => (Text.digitValue? c).isSome).eq_of_length_le (by omega)
      exact List.takeWhile_eq_self_iff.mp hsame
    · intro h
      rw [List.takeWhile_eq_self_iff.mpr h]
      omega
  unfold decimalValue digitsHazard?
  dsimp only
  split
  · rfl
  · by_cases hlong : (digits.toList.takeWhile fun c => (Text.digitValue? c).isSome).length <
        digits.length
    · rw [if_pos hlong, if_neg (fun h => hall.mpr h hlong)]
      rfl
    · rw [if_neg hlong, if_pos (hall.mp hlong)]
      rfl

theorem failure_of_digits {digits : String} {value : Except Failure (Option Int)}
    (hvalue : failureOf value = failureOf (decimalValue digits)) :
    failureOf (if isDigits digits then value else .ok none) =
      ((some digits).filter isDigits).bind digitsHazard? := by
  by_cases h : isDigits digits = true
  · rw [if_pos h, hvalue, decimalValue_failure, Option.filter_some, if_pos h, Option.bind_some]
  · rw [if_neg h, Option.filter_some, if_neg h]
    rfl

theorem integerValue_failure (t : Option Tree) :
    failureOf (integerValue f t) =
      ((t.bind Tree.unwrap?).bind (statedDigits? f)).bind digitsHazard? := by
  unfold integerValue
  cases t.bind Tree.unwrap? with
  | none => rfl
  | some t =>
    simp only [Option.bind_some, statedDigits?]
    generalize String.ofList ((f.textOf t).toList.filter fun c => c != ' ' && c != '_') = text
    by_cases hunary : t.kind = "unary_op_expression"
    · simp only [if_pos hunary]
      cases Text.dropStart? "-" text with
      | some digits => exact failure_of_digits (by rw [failureOf_map, failureOf_bind_pure])
      | none => simp [hunary, failureOf]
    · simp only [if_neg hunary]
      by_cases hinteger : t.kind = "integer"
      · simp only [hinteger, decide_true, Bool.true_and, if_true]
        exact failure_of_digits (by rw [failureOf_map, failureOf_bind_pure])
      · simp [hinteger, failureOf]

theorem endpointMethods_failure (value : Option Tree) :
    failureOf (endpointMethods f value) =
      if (value.bind Tree.unwrap?).any isBareConstant then some .missingChild else none := by
  unfold endpointMethods
  cases value.bind Tree.unwrap? with
  | none => rfl
  | some t =>
    simp only [Option.any_some, isBareConstant]
    by_cases hkind : t.kind = "class_constant_access_expression"
    · have hliteral : stringValue? f (some t) = none := by
        have hself : t.unwrap? = some t := unwrap?_eq_self (by rw [hkind]; decide)
        simp [stringValue?, hself, hkind]
      simp only [hliteral, hkind, if_true, decide_true, Bool.true_and, List.isEmpty_iff]
      cases hchildren : t.namedChildren with
      | nil => rfl
      | cons first rest => simp [List.getLast?_cons, failureOf]
    · cases stringValue? f (some t) with
      | some text => simp [hkind, failureOf]
      | none => simp [hkind, failureOf]

theorem methodsOf_failure (endpoints : List Tree) :
    failureOf (methodsOf f endpoints) =
      if endpoints.any (hasBareMethods f) then some .missingChild else none := by
  induction endpoints with
  | nil => rfl
  | cons endpoint rest ih =>
    have hfirst := endpointMethods_failure f (arrayLookup? f endpoint "methods")
    rw [methodsOf, List.any_cons, hasBareMethods]
    cases hvalue : endpointMethods f (arrayLookup? f endpoint "methods") with
    | error failure =>
      rw [hvalue] at hfirst
      split at hfirst
      · rename_i hbare
        rw [hbare, Bool.true_or, if_pos rfl]
        exact hfirst
      · cases hfirst
    | ok first =>
      rw [hvalue] at hfirst
      split at hfirst
      · cases hfirst
      · rename_i hbare
        rw [Bool.not_eq_true] at hbare
        rw [hbare, Bool.false_or, ← ih]
        cases methodsOf f rest <;> rfl

theorem restMethods_failure (endpoints : Option Tree) :
    failureOf (restMethods f endpoints) =
      if (endpoints.bind Tree.unwrap?).any (fun t => (restEndpoints t).any (hasBareMethods f)) then
        some .missingChild
      else none := by
  unfold restMethods
  cases endpoints.bind Tree.unwrap? with
  | none => rfl
  | some t =>
    rw [Option.any_some, ← methodsOf_failure]
    exact failureOf_bind_pure _ _

end Values

/-! ### One node -/

section Node

variable {f : SourceFile} {s : Scope} {v : Visit} {above : List Tree}

/-- A name can be resolved wherever the class around is not called by a word for it. -/
theorem exists_classId (h : ∀ current, s.currentClass? = some current →
      Scope.isSelfWord current = false) (name : String) : ∃ id, s.classId name = .ok id := by
  unfold Scope.classId Scope.qualify
  split
  · rename_i current _ hcurrent
    rw [h current hcurrent]
    exact ⟨_, rfl⟩
  · exact ⟨_, rfl⟩

theorem failure_classRelations (h : ∀ current, s.currentClass? = some current →
      Scope.isSelfWord current = false) (source : Ident) (kind : RelationKind)
    (names : List String) : (classRelations s source kind names).failure = none := by
  refine Outcome.failure_sequence_eq_none fun o ho => ?_
  obtain ⟨name, -, rfl⟩ := List.mem_map.mp ho
  obtain ⟨id, hid⟩ := exists_classId h name
  rw [hid]
  rfl

theorem declaredKind?_isSome_iff {kind : String} :
    (declaredKind? kind).isSome ↔ kind ∈ classLikeKinds := by
  unfold declaredKind?
  split_ifs <;> simp_all [classLikeKinds]

/-- Inside a class its own name is the current one, so that only this name can fail. -/
theorem declarations_failure (hlexical : IsLexical f (v.tree :: above) s) :
    (declarations f s v).failure = nameHazard? f v.tree := by
  unfold declarations nameHazard?
  by_cases hkind : v.tree.kind ∈ classLikeKinds
  · obtain ⟨kind, hdeclared⟩ := Option.isSome_iff_exists.mp (declaredKind?_isSome_iff.mpr hkind)
    by_cases hname : Scope.nameOf f v.tree = ""
    · have hself : ¬ Scope.isSelfWord (Scope.nameOf f v.tree) = true := by
        rw [hname]
        decide +kernel
      rw [hdeclared]
      dsimp only
      rw [if_pos hname, if_neg fun h => hself h.2]
      rfl
    · have hclass := hlexical.currentClass?_of_classLike hkind hname
      rw [hdeclared]
      simp only [if_neg hname, classId_of_currentClass? hclass, hkind, true_and]
      cases hself : Scope.isSelfWord (Scope.nameOf f v.tree) with
      | true => rfl
      | false =>
        have hcurrent : ∀ current, s.currentClass? = some current →
            Scope.isSelfWord current = false := by
          intro current hcurrent
          rw [hclass] at hcurrent
          rwa [← Option.some.inj hcurrent]
        simp only [Bool.false_eq_true, if_false, Outcome.attempt, Outcome.after,
          Outcome.failure_followedBy, failure_classRelations hcurrent, Option.or_none]
  · have hdeclared : declaredKind? v.tree.kind = none := by
      rw [← Option.not_isSome_iff_eq_none, declaredKind?_isSome_iff]
      exact hkind
    rw [hdeclared, if_neg fun h => hkind h.1]
    rfl

/-- The class around a method was declared further up, where its name would have failed. -/
theorem methodDeclaration_failure (hlexical : IsLexical f (v.tree :: above) s)
    (hkind : v.tree.kind = "method_declaration") (habove : ∀ t ∈ above, nameHazard? f t = none) :
    (methodDeclaration f s v).failure = none := by
  unfold methodDeclaration
  cases howner : s.currentClass? with
  | none => rfl
  | some owner =>
    have hself : Scope.isSelfWord owner = false := by
      rw [hlexical.currentClass?_eq, classSlots_cons_method hkind] at howner
      obtain ⟨t, outer, hsuffix, hclass, rfl, -⟩ := exists_class_of_classSlots howner
      have hnone := habove t (hsuffix.subset List.mem_cons_self)
      simpa [nameHazard?, hclass] using hnone
    dsimp only
    split
    · rfl
    · rw [classId_of_currentClass? howner, hself]
      rfl

theorem staticCall_failure (t : Tree) : (staticCall f s t).failure = none := by
  unfold staticCall
  split
  · dsimp only
    split
    · rfl
    · rename_i hname
      rw [Bool.or_eq_true, not_or, Bool.not_eq_true _] at hname
      rw [classId_of_not_relative (by simpa using hname.2)]
      rfl
  · rfl

theorem callables_failure (hlexical : IsLexical f (v.tree :: above) s)
    (habove : ∀ t ∈ above, nameHazard? f t = none) : (callables f s v).failure = none := by
  unfold callables
  split
  · rename_i hkind
    exact methodDeclaration_failure hlexical hkind habove
  · split
    · rfl
    · split
      · exact staticCall_failure v.tree
      · rfl

theorem hookRegistration_failure (call : Tree) (kind : String) :
    (hookRegistration f s call kind).failure =
      (((callArguments call)[2]?.bind Tree.unwrap?).bind (statedDigits? f)).bind digitsHazard? := by
  unfold hookRegistration
  cases callArguments call with
  | nil => rfl
  | cons first rest =>
    rw [List.getElem?_cons_succ, ← integerValue_failure]
    exact Outcome.failure_attempt fun _ => rfl

theorem hooks_failure : (hooks f s v).failure = priorityHazard? f v.tree := by
  unfold hooks priorityHazard?
  by_cases hkind : v.tree.kind = "function_call_expression"
  · rw [if_neg (not_not_intro hkind)]
    cases functionName? f v.tree with
    | none => simp [Outcome.nothing]
    | some name =>
      dsimp only [Option.bind_some]
      split
      · rename_i kind hregistered
        rw [if_pos ⟨hkind, by rw [hregistered]; rfl⟩]
        exact hookRegistration_failure v.tree kind
      all_goals
        rename_i hregistered _
        simp [hregistered, Outcome.found, Outcome.nothing]
  · rw [if_pos hkind, if_neg fun h => hkind h.1]
    rfl

theorem storage_failure : (storage f s v).failure = none := by
  unfold storage
  split <;> rfl

theorem restRoute_failure (call : Tree) (arguments : List Tree) :
    (restRoute f call arguments).failure =
      if (stringValue? f arguments[0]?).isSome ∧ (stringValue? f arguments[1]?).isSome ∧
          (arguments[2]?.bind Tree.unwrap?).any
            (fun t => (restEndpoints t).any (hasBareMethods f)) then
        some .missingChild
      else none := by
  unfold restRoute
  cases stringValue? f arguments[0]? with
  | none => simp [Outcome.nothing]
  | some space =>
    cases stringValue? f arguments[1]? with
    | none => simp [Outcome.nothing]
    | some route =>
      simp only [Option.isSome_some, true_and]
      rw [← restMethods_failure]
      exact Outcome.failure_attempt fun _ => rfl

theorem eq_register_rest_route {name : String} (h : EntryPoint.of? name = some .restRoute) :
    name = "register_rest_route" := by
  have hall : ∀ entry ∈ entryPointFunctions, entry.2 = .restRoute →
      entry.1 = "register_rest_route" := by decide +kernel
  exact hall _ (EntryPoint.mem_functions_of_eq_some h) rfl

theorem entryPoints_failure : (entryPoints f s v).failure = methodsHazard? f v.tree := by
  unfold entryPoints methodsHazard?
  by_cases hkind : v.tree.kind = "function_call_expression"
  · rw [if_neg (not_not_intro hkind)]
    simp only [hkind, true_and]
    by_cases hname : functionName? f v.tree = some "register_rest_route"
    · have hpoint : EntryPoint.of? "register_rest_route" = some .restRoute := by decide +kernel
      simp only [hname, true_and, Option.bind_some, hpoint]
      exact restRoute_failure v.tree (callArguments v.tree)
    · rw [if_neg fun h => hname h.1]
      split
      · rfl
      · rename_i hpoint
        obtain ⟨name, hcalled, hpoint⟩ := Option.bind_eq_some_iff.mp hpoint
        exact absurd (eq_register_rest_route hpoint ▸ hcalled) hname
      · rfl
  · rw [if_pos hkind, if_neg fun h => hkind h.1]
    rfl

theorem includes_failure : (includes f s v).failure = includeHazard? f v.tree := by
  unfold includes includeHazard?
  cases isIncludeKind v.tree.kind with
  | false => rfl
  | true =>
    cases v.tree.parts with
    | nil => rfl
    | cons operand rest =>
      simp only [Bool.not_true, Bool.false_eq_true, if_false, if_true, List.head?_cons,
        Option.bind_some, includeTarget]
      cases includeReference? f operand with
      | none => rfl
      | some reference =>
        simp only [Option.bind_some, SourceFile.resolve, resolveReference]
        cases f.probe (resolveLexically f.directory reference) with
        | error error => rfl
        | ok found => rfl

/-- The rules fail at a node exactly if it is hazardous, provided that no node around it
is. -/
theorem findAt_failure (hlexical : IsLexical f (v.tree :: above) s)
    (habove : ∀ t ∈ above, hazard? f t = none) :
    (findAt Family.all f s v).failure = hazard? f v.tree := by
  have hnames : ∀ t ∈ above, nameHazard? f t = none := by
    intro t ht
    have h := habove t ht
    rw [hazard?, Option.or_eq_none_iff, Option.or_eq_none_iff, Option.or_eq_none_iff] at h
    exact h.1.1.1
  simp only [findAt, Family.all, List.map_cons, List.map_nil, Family.apply, Outcome.sequence,
    Outcome.failure_followedBy, declarations_failure hlexical, callables_failure hlexical hnames,
    hooks_failure, storage_failure, entryPoints_failure, includes_failure, hazard?,
    Outcome.nothing, Option.none_or, Option.or_none, Option.or_assoc]

end Node

/-! ### The whole walk -/

/-- What is known of a walk that has some nodes open and has met others: it fails with the
first hazardous node met. As long as there is none, the scope is that of the open nodes, and
none of these is hazardous. -/
structure HazardTracked (f : SourceFile) (opened met : List Tree) (p : Progress) : Prop where
  failure_eq : p.failure = met.findSome? (hazard? f)
  lexical : p.failure = none → IsLexical f opened p.scope
  safe : p.failure = none → ∀ t ∈ opened, hazard? f t = none

namespace HazardTracked

variable {f : SourceFile} {opened met : List Tree} {p : Progress} {v : Visit}

theorem enter (h : HazardTracked f opened met p) :
    HazardTracked f (v.tree :: opened) (met ++ [v.tree]) (p.step Family.all f (.enter v)) := by
  cases hp : p.failure with
  | some failure =>
    -- The walk has failed before, and so the first hazardous node was met before.
    have hfailed : p.step Family.all f (.enter v) = p := by simp [Progress.step, hp]
    have hnot : ¬ p.failure = none := by simp [hp]
    rw [hfailed]
    refine ⟨?_, fun hnone => absurd hnone hnot, fun hnone => absurd hnone hnot⟩
    rw [List.findSome?_append, ← h.failure_eq, hp, Option.some_or]
  | none =>
    have hlexical := (h.lexical hp).enter (t := v.tree)
    rw [Progress.step_enter hp]
    refine ⟨?_, fun _ => hlexical, fun hnone => ?_⟩
    · rw [List.findSome?_append, ← h.failure_eq, hp, Option.none_or, List.findSome?_singleton]
      exact findAt_failure hlexical (h.safe hp)
    · rw [findAt_failure hlexical (h.safe hp)] at hnone
      exact List.forall_mem_cons.mpr ⟨hnone, h.safe hp⟩

theorem leave (h : HazardTracked f (v.tree :: opened) met p) :
    HazardTracked f opened met (p.step Family.all f (.leave v)) := by
  cases hp : p.failure with
  | some failure =>
    have hfailed : p.step Family.all f (.leave v) = p := by simp [Progress.step, hp]
    have hnot : ¬ p.failure = none := by simp [hp]
    rw [hfailed]
    exact ⟨h.failure_eq, fun hnone => absurd hnone hnot, fun hnone => absurd hnone hnot⟩
  | none =>
    rw [Progress.step_leave hp]
    refine ⟨h.failure_eq, fun _ => (h.lexical hp).leave, fun _ t ht => ?_⟩
    exact h.safe hp t (List.mem_cons_of_mem _ ht)

end HazardTracked

/-- The walk of a whole tree fails with its first hazardous node. -/
theorem hazardTracked_nodes (f : SourceFile) (root : Tree) :
    HazardTracked f [] (Walk.nodes root) (Walk.fold (Progress.step Family.all f) {} root) := by
  refine Walk.fold_preserves (P := HazardTracked f) ?_ ?_ ?_ root
  · exact ⟨rfl, fun _ => ⟨rfl, rfl⟩, fun _ t ht => by cases ht⟩
  · exact fun v above met p h => h.enter
  · exact fun v above met p h => h.leave

/-- An extraction fails where its walk first enters a hazardous node, with the failure of
that node. It completes exactly if no node that a trail leads to is hazardous. -/
theorem extract_failure_eq_first_hazard (f : SourceFile) (root : Tree) :
    (extract Family.all f root).failure = (Walk.nodes root).findSome? (hazard? f) ∧
    ((extract Family.all f root).failure = none ↔
      ∀ t above, root.IsTrail (t :: above) → hazard? f t = none) := by
  have hfailure : (extract Family.all f root).failure =
      (Walk.nodes root).findSome? (hazard? f) := by
    rw [extract_eq_fold]
    exact (hazardTracked_nodes f root).failure_eq
  refine ⟨hfailure, ?_⟩
  rw [hfailure, List.findSome?_eq_none_iff]
  constructor
  · exact fun h t above htrail => h t (Walk.mem_nodes_iff.mpr ⟨above, htrail⟩)
  · intro h t ht
    obtain ⟨above, htrail⟩ := Walk.mem_nodes_iff.mp ht
    exact h t above htrail

/-- A program that registers a callback with a superscript as its priority, and then reads
an option. -/
def superscriptFile : SourceFile :=
  { path := "/p/a.php", source := "<?php add_action('init', 'f', -²); get_option('k');",
    root := some "/p" }

@[inherit_doc superscriptFile]
def superscriptCall : Tree :=
  .node "function_call_expression" true 6 34 none [
    .node "name" true 6 16 (some "function") [],
    .node "arguments" true 16 34 (some "arguments") [
      .node "argument" true 17 23 none [.node "string" true 17 23 none []],
      .node "argument" true 25 28 none [.node "string" true 25 28 none []],
      .node "argument" true 30 33 none [
        .node "unary_op_expression" true 30 33 none [
          .node "-" false 30 31 (some "operator") [],
          .node "name" true 31 33 (some "argument") []]]]]

@[inherit_doc superscriptFile]
def optionCall : Tree :=
  .node "function_call_expression" true 36 51 none [
    .node "name" true 36 46 (some "function") [],
    .node "arguments" true 46 51 (some "arguments") [
      .node "argument" true 47 50 none [.node "string" true 47 50 none []]]]

/-- The superscript ends the extraction, so that the option behind it is not found. -/
theorem extract_stops_at_superscript :
    let read : Tree := .node "program" true 0 52 none [optionCall]
    let program : Tree := .node "program" true 0 52 none [superscriptCall, optionCall]
    hazard? superscriptFile superscriptCall = some (.notDecimal "²") ∧
    (extract Family.all superscriptFile program).failure = some (.notDecimal "²") ∧
    (extract Family.all superscriptFile program).findings.length = 0 ∧
    (extract Family.all superscriptFile read).failure = none ∧
    (extract Family.all superscriptFile read).findings.length = 1 := by
  refine ⟨by decide +kernel, ?_, ?_, ?_, ?_⟩ <;> rw [extract_eq] <;> decide +kernel

end Php

end PluginAtlas
