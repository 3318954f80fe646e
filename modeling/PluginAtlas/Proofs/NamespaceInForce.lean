import PluginAtlas.Proofs.LexicalScope
import Mathlib.Data.List.Induction

/-!
# The namespace in force

A namespace reaches over the code behind it, up to the next one, unless it has a body:
then it ends with the body, and behind it the code is outside any namespace again. The
scope of a walk keeps one name, one mark for a body and one table of imported classes,
which namespaces and `use` declarations overwrite in passing. At every node they are what
the steps up to that node say: the last namespace that was entered decides, and only the
`use` declarations since then count, or since that namespace was left.

## Main definitions

* `NamespacesNotNested`: trees without a namespace inside another.
* `LastNamespace`: the last namespace among steps.
* `InForce`: the namespace in force at a node, and the steps whose imports count.
* `recorded`: what the `use` declarations among steps record.
* `NamespaceTracked`: a scope that agrees with the steps made so far.

## Main results

* `InForce.unique`: one namespace is in force at a node.
* `NamespaceTracked.enter`, `NamespaceTracked.leave`: what one step does.
* `namespaceTracked_history`: the scope agrees with the steps all along a walk.
* `inForce_at_enter`: the namespace and the imports in the scope of a node.
* `extract_namespace_in_force`: the scopes in which the rules are applied.
-/

namespace PluginAtlas.Php

/-! ### What is in force -/

/-- A node that begins a namespace. -/
def IsNamespace (t : Tree) : Prop := t.kind = "namespace_definition"

instance (t : Tree) : Decidable (IsNamespace t) := inferInstanceAs (Decidable (_ = _))

/-- No namespace is inside another. -/
def NamespacesNotNested (root : Tree) : Prop :=
  ∀ t above, root.IsTrail (t :: above) → IsNamespace t → ∀ u ∈ above, ¬ IsNamespace u

instance (root : Tree) : Decidable (NamespacesNotNested root) :=
  decidable_of_iff' _ Walk.forall_isTrail_iff

/-- A step that enters a namespace. -/
def EntersNamespace (entry : List Tree × Step) : Prop :=
  ∃ v, entry.2 = .enter v ∧ IsNamespace v.tree

/-- The `use` declarations that steps enter, in order. -/
def usesEntered (steps : List (List Tree × Step)) : List Tree :=
  steps.filterMap fun
    | (_, .enter v) => if v.tree.kind = "namespace_use_declaration" then some v.tree else none
    | (_, .leave _) => none

/-- What the `use` declarations among steps record, the latest last. -/
def recorded (f : SourceFile) (steps : List (List Tree × Step)) : List (String × String) :=
  (usesEntered steps).flatMap (imports f)

/-- The last namespace that steps enter, with the nodes around it and the steps since. -/
structure LastNamespace (seen : List (List Tree × Step)) (m : Tree) (around : List Tree)
    (since : List (List Tree × Step)) : Prop where
  split : ∃ before v, v.tree = m ∧ seen = before ++ (m :: around, .enter v) :: since
  isNamespace : IsNamespace m
  last : ∀ entry ∈ since, ¬ EntersNamespace entry

/-- The name of the namespace in force at the end of a trail, when the steps up to there
were made, and those of the steps whose imports count. -/
inductive InForce (f : SourceFile) (trail : List Tree) (seen : List (List Tree × Step)) :
    String → List (List Tree × Step) → Prop
  /-- No namespace was entered so far. -/
  | globally (hnone : ∀ entry ∈ seen, ¬ EntersNamespace entry) : InForce f trail seen "" seen
  /-- The last namespace has no body, or the trail leads into it. -/
  | inside {m : Tree} {around : List Tree} {since : List (List Tree × Step)}
      (hlast : LastNamespace seen m around since)
      (hreach : m.byField? "body" = none ∨ m :: around <:+ trail) :
      InForce f trail seen (trimSeparators (Scope.nameOf f m)) since
  /-- The last namespace has a body and was left. -/
  | beyond {m : Tree} {around : List Tree} {v : Visit} {within after : List (List Tree × Step)}
      (hlast : LastNamespace seen m around (within ++ (m :: around, .leave v) :: after))
      (hleft : ∀ u, (m :: around, .leave u) ∉ within)
      (hbody : (m.byField? "body").isSome) (hout : ¬ m :: around <:+ trail) :
      InForce f trail seen "" after

/-! ### One namespace is in force -/

/-- A list can be divided in one way only at the first element with a property. -/
theorem append_cons_inj_of_first {α : Type} {p : α → Prop} {xs ys xs' ys' : List α} {a a' : α}
    (h : xs ++ a :: ys = xs' ++ a' :: ys') (ha : p a) (ha' : p a') (hxs : ∀ x ∈ xs, ¬ p x)
    (hxs' : ∀ x ∈ xs', ¬ p x) : xs = xs' ∧ a = a' ∧ ys = ys' := by
  rcases List.append_eq_append_iff.mp h with ⟨between, rfl, hrest⟩ | ⟨between, rfl, hrest⟩
  · cases between with
    | nil => exact ⟨(List.append_nil xs).symm, List.cons.inj hrest⟩
    | cons b between =>
      obtain ⟨rfl, -⟩ := List.cons.inj hrest
      exact absurd ha (hxs' a (by simp))
  · cases between with
    | nil => exact ⟨List.append_nil xs', (List.cons.inj hrest).imp Eq.symm Eq.symm⟩
    | cons b between =>
      obtain ⟨rfl, -⟩ := List.cons.inj hrest
      exact absurd ha' (hxs a' (by simp))

theorem not_entersNamespace_leave (trail : List Tree) (v : Visit) :
    ¬ EntersNamespace (trail, .leave v) := by
  rintro ⟨u, hu, -⟩
  cases hu

theorem entersNamespace_enter_iff {trail : List Tree} {v : Visit} :
    EntersNamespace (trail, .enter v) ↔ IsNamespace v.tree := by
  constructor
  · rintro ⟨u, hu, hnamespace⟩
    cases hu
    exact hnamespace
  · exact fun h => ⟨v, rfl, h⟩

instance : DecidablePred EntersNamespace
  | (_, .enter _) => decidable_of_iff' _ entersNamespace_enter_iff
  | (_, .leave _) => isFalse (not_entersNamespace_leave _ _)

namespace LastNamespace

variable {seen since since' : List (List Tree × Step)} {m m' : Tree} {around around' : List Tree}
  {entry : List Tree × Step}

theorem exists_enters (h : LastNamespace seen m around since) :
    ∃ entry ∈ seen, EntersNamespace entry := by
  obtain ⟨before, v, rfl, rfl⟩ := h.split
  exact ⟨_, List.mem_append_right _ List.mem_cons_self, v, rfl, h.isNamespace⟩

theorem unique (h : LastNamespace seen m around since) (h' : LastNamespace seen m' around' since') :
    m = m' ∧ around = around' ∧ since = since' := by
  obtain ⟨before, v, rfl, hseen⟩ := h.split
  obtain ⟨before', v', rfl, hseen'⟩ := h'.split
  -- Read backwards, the last namespace is the first.
  have hreverse := congrArg List.reverse (hseen.symm.trans hseen')
  simp only [List.reverse_append, List.reverse_cons, List.append_assoc, List.cons_append,
    List.nil_append] at hreverse
  obtain ⟨hsince, hentry, -⟩ := append_cons_inj_of_first hreverse
    (entersNamespace_enter_iff.mpr h.isNamespace) (entersNamespace_enter_iff.mpr h'.isNamespace)
    (fun x hx => h.last x (List.mem_reverse.mp hx))
    (fun x hx => h'.last x (List.mem_reverse.mp hx))
  obtain ⟨htree, haround⟩ := List.cons.inj (Prod.mk.inj hentry).1
  exact ⟨htree, haround, List.reverse_inj.mp hsince⟩

/-- A namespace that is entered is the last. -/
theorem of_enter {v : Visit} (h : IsNamespace v.tree) (done : List (List Tree × Step)) :
    LastNamespace (done ++ [(v.tree :: around, .enter v)]) v.tree around [] :=
  ⟨⟨done, v, rfl, rfl⟩, h, fun _ hentry => by cases hentry⟩

/-- Another step does not change which namespace is the last. -/
theorem concat (h : LastNamespace seen m around since) (hentry : ¬ EntersNamespace entry) :
    LastNamespace (seen ++ [entry]) m around (since ++ [entry]) := by
  obtain ⟨before, v, hv, rfl⟩ := h.split
  refine ⟨⟨before, v, hv, by simp⟩, h.isNamespace, fun x hx => ?_⟩
  rcases List.mem_append.mp hx with hx | hx
  · exact h.last x hx
  · exact List.mem_singleton.mp hx ▸ hentry

end LastNamespace

/-- At a node one namespace is in force, and the same imports count whichever way it is
found. -/
theorem InForce.unique {f : SourceFile} {trail : List Tree} {seen : List (List Tree × Step)}
    {name name' : String} {counted counted' : List (List Tree × Step)}
    (h : InForce f trail seen name counted) (h' : InForce f trail seen name' counted') :
    name = name' ∧ counted = counted' := by
  cases h with
  | globally hnone =>
    cases h' with
    | globally => exact ⟨rfl, rfl⟩
    | inside hlast | beyond hlast =>
      obtain ⟨entry, hentry, henters⟩ := hlast.exists_enters
      exact absurd henters (hnone entry hentry)
  | inside hlast hreach =>
    cases h' with
    | globally hnone =>
      obtain ⟨entry, hentry, henters⟩ := hlast.exists_enters
      exact absurd henters (hnone entry hentry)
    | inside hlast' =>
      obtain ⟨rfl, -, rfl⟩ := hlast.unique hlast'
      exact ⟨rfl, rfl⟩
    | beyond hlast' _ hbody hout =>
      obtain ⟨rfl, rfl, -⟩ := hlast.unique hlast'
      rcases hreach with hnone | hin
      · simp [hnone] at hbody
      · exact absurd hin hout
  | beyond hlast hleft hbody hout =>
    cases h' with
    | globally hnone =>
      obtain ⟨entry, hentry, henters⟩ := hlast.exists_enters
      exact absurd henters (hnone entry hentry)
    | inside hlast' hreach =>
      obtain ⟨rfl, rfl, -⟩ := hlast.unique hlast'
      rcases hreach with hnone | hin
      · simp [hnone] at hbody
      · exact absurd hin hout
    | beyond hlast' hleft' =>
      obtain ⟨rfl, rfl, hsince⟩ := hlast.unique hlast'
      obtain ⟨-, -, rfl⟩ := append_cons_inj_of_first
        (p := fun entry => ∃ u, entry = (_, Step.leave u)) hsince ⟨_, rfl⟩ ⟨_, rfl⟩
        (fun entry hentry ⟨u, hu⟩ => hleft u (hu ▸ hentry))
        (fun entry hentry ⟨u, hu⟩ => hleft' u (hu ▸ hentry))
      exact ⟨rfl, rfl⟩

/-! ### One step -/

section Step

variable {f : SourceFile} {s : Scope} {t : Tree} {trail : List Tree} {v : Visit}

theorem recorded_append (f : SourceFile) (steps more : List (List Tree × Step)) :
    recorded f (steps ++ more) = recorded f steps ++ recorded f more := by
  simp [recorded, usesEntered]

theorem recorded_leave (f : SourceFile) (trail : List Tree) (v : Visit) :
    recorded f [(trail, .leave v)] = [] := rfl

theorem recorded_enter (f : SourceFile) (trail : List Tree) (v : Visit) :
    recorded f [(trail, .enter v)] =
      if v.tree.kind = "namespace_use_declaration" then imports f v.tree else [] := by
  simp only [recorded, usesEntered, List.filterMap_cons, List.filterMap_nil]
  split_ifs <;> simp

theorem of?_eq_namespaceForm_iff : ScopeForm.of? t.kind = some .namespaceForm ↔ IsNamespace t := by
  rw [ScopeForm.of?_eq_some_iff, ScopeForm.kinds, List.mem_singleton, IsNamespace]

theorem of?_eq_useForm_iff :
    ScopeForm.of? t.kind = some .useForm ↔ t.kind = "namespace_use_declaration" := by
  rw [ScopeForm.of?_eq_some_iff, ScopeForm.kinds, List.mem_singleton]

/-- A namespace sets the name, the mark for a body and an empty table. -/
theorem enter_of_isNamespace (h : IsNamespace t) :
    s.enter f t = { s with
      namespaceName := trimSeparators (Scope.nameOf f t)
      braced := (t.byField? "body").isSome
      imported := [] } := by
  rw [Scope.enter, of?_eq_namespaceForm_iff.mpr h]

/-- Any other node keeps the namespace and adds to the table what it records. -/
theorem enter_of_not_isNamespace (h : ¬ IsNamespace v.tree) :
    (s.enter f v.tree).namespaceName = s.namespaceName ∧
    (s.enter f v.tree).braced = s.braced ∧
    (s.enter f v.tree).imported = (recorded f [(trail, .enter v)]).reverse ++ s.imported := by
  rw [← of?_eq_namespaceForm_iff] at h
  simp only [recorded_enter, ← of?_eq_useForm_iff (t := v.tree), Scope.enter]
  generalize ScopeForm.of? v.tree.kind = form? at h
  rcases form? with _ | form
  · simp
  · cases form with
    | namespaceForm => exact absurd rfl h
    | useForm => simp
    | classForm | anonymousClassForm | functionForm | methodForm | closureForm => simp

/-- A namespace with a body ends with it. -/
theorem leave_of_isNamespace (h : IsNamespace t) :
    s.leave t = if s.braced then { s with namespaceName := "", imported := [] } else s := by
  rw [Scope.leave, of?_eq_namespaceForm_iff.mpr h]

/-- No other node ends a namespace. -/
theorem leave_of_not_isNamespace (h : ¬ IsNamespace t) :
    (s.leave t).namespaceName = s.namespaceName ∧ (s.leave t).braced = s.braced ∧
      (s.leave t).imported = s.imported := by
  rw [← of?_eq_namespaceForm_iff] at h
  unfold Scope.leave
  generalize ScopeForm.of? t.kind = form? at h
  rcases form? with _ | form
  · exact ⟨rfl, rfl, rfl⟩
  · cases form with
    | namespaceForm => exact absurd rfl h
    | useForm | classForm | anonymousClassForm | functionForm | methodForm | closureForm =>
      exact ⟨rfl, rfl, rfl⟩

end Step

/-- The namespace and the table of a scope agree with the steps made so far; `opened` are
the nodes that were entered and not left. -/
inductive NamespaceTracked (f : SourceFile) (opened : List Tree) (done : List (List Tree × Step))
    (s : Scope) : Prop
  /-- No namespace was entered so far. -/
  | globally (hnone : ∀ entry ∈ done, ¬ EntersNamespace entry)
      (hopened : ∀ t ∈ opened, ¬ IsNamespace t) (hname : s.namespaceName = "")
      (himported : s.imported = (recorded f done).reverse)
  /-- The last namespace is open. -/
  | inside {m : Tree} {around : List Tree} {since : List (List Tree × Step)}
      (hlast : LastNamespace done m around since) (hopen : m :: around <:+ opened)
      (hleft : ∀ u, (m :: around, .leave u) ∉ since)
      (hname : s.namespaceName = trimSeparators (Scope.nameOf f m))
      (hbraced : s.braced = (m.byField? "body").isSome)
      (himported : s.imported = (recorded f since).reverse)
  /-- The last namespace was left but has no body to end with. -/
  | reaching {m : Tree} {around : List Tree} {since : List (List Tree × Step)}
      (hlast : LastNamespace done m around since) (hbody : m.byField? "body" = none)
      (hopened : ∀ t ∈ opened, ¬ IsNamespace t)
      (hname : s.namespaceName = trimSeparators (Scope.nameOf f m))
      (himported : s.imported = (recorded f since).reverse)
  /-- The last namespace ended with its body. -/
  | beyond {m : Tree} {around : List Tree} {v : Visit} {within after : List (List Tree × Step)}
      (hlast : LastNamespace done m around (within ++ (m :: around, .leave v) :: after))
      (hleft : ∀ u, (m :: around, .leave u) ∉ within) (hbody : (m.byField? "body").isSome)
      (hopened : ∀ t ∈ opened, ¬ IsNamespace t) (hname : s.namespaceName = "")
      (himported : s.imported = (recorded f after).reverse)

namespace NamespaceTracked

variable {f : SourceFile} {opened opened' above : List Tree} {done : List (List Tree × Step)}
  {entry : List Tree × Step} {s s' : Scope} {v : Visit}

/-- A step that neither enters nor leaves a namespace adds what it records. -/
theorem advance (h : NamespaceTracked f opened done s) (hentry : ¬ EntersNamespace entry)
    (hother : ∀ m around u, entry = (m :: around, .leave u) → ¬ IsNamespace m)
    (hopen : ∀ m around, IsNamespace m → m :: around <:+ opened → m :: around <:+ opened')
    (hclosed : (∀ t ∈ opened, ¬ IsNamespace t) → ∀ t ∈ opened', ¬ IsNamespace t)
    (hname' : s'.namespaceName = s.namespaceName) (hbraced' : s'.braced = s.braced)
    (himported' : s'.imported = (recorded f [entry]).reverse ++ s.imported) :
    NamespaceTracked f opened' (done ++ [entry]) s' := by
  -- In every case the steps that count grow by this one, and so does the table.
  have hgrow : ∀ steps, s.imported = (recorded f steps).reverse →
      s'.imported = (recorded f (steps ++ [entry])).reverse := by
    intro steps himported
    rw [himported', himported, recorded_append, List.reverse_append]
  cases h with
  | globally hnone hopened hname himported =>
    refine .globally ?_ (hclosed hopened) (hname'.trans hname) (hgrow _ himported)
    exact List.forall_mem_append.mpr ⟨hnone, List.forall_mem_singleton.mpr hentry⟩
  | @inside m around since hlast hopened hleft hname hbraced himported =>
    refine .inside (hlast.concat hentry) (hopen m around hlast.isNamespace hopened) ?_
      (hname'.trans hname) (hbraced'.trans hbraced) (hgrow _ himported)
    intro u hu
    rcases List.mem_append.mp hu with hu | hu
    · exact hleft u hu
    · exact hother m around u (List.mem_singleton.mp hu).symm hlast.isNamespace
  | reaching hlast hbody hopened hname himported =>
    exact .reaching (hlast.concat hentry) hbody (hclosed hopened) (hname'.trans hname)
      (hgrow _ himported)
  | @beyond m around v within after hlast hleft hbody hopened hname himported =>
    have hlast' : LastNamespace (done ++ [entry]) m around
        (within ++ (m :: around, .leave v) :: (after ++ [entry])) := by
      simpa using hlast.concat hentry
    exact .beyond hlast' hleft hbody (hclosed hopened) (hname'.trans hname) (hgrow _ himported)

/-- Entering a namespace makes it the last one; any other node is added to the steps. -/
theorem enter (h : NamespaceTracked f above done s) :
    NamespaceTracked f (v.tree :: above) (done ++ [(v.tree :: above, .enter v)])
      (s.enter f v.tree) := by
  by_cases hv : IsNamespace v.tree
  · rw [enter_of_isNamespace hv]
    exact .inside (.of_enter hv done) (List.suffix_refl _) (fun u hu => by cases hu) rfl rfl rfl
  · obtain ⟨hname, hbraced, himported⟩ := enter_of_not_isNamespace (f := f) (s := s) hv
    refine h.advance (fun henters => hv (entersNamespace_enter_iff.mp henters)) ?_ ?_ ?_
      hname hbraced himported
    · rintro m around u ⟨⟩
    · exact fun m around _ hopen => hopen.trans (List.suffix_cons _ _)
    · exact fun hclosed => List.forall_mem_cons.mpr ⟨hv, hclosed⟩

/-- Leaving a namespace ends it if it has a body. No other namespace can be meant, as none
is around it. -/
theorem leave_namespace (h : NamespaceTracked f (v.tree :: above) done s)
    (hv : IsNamespace v.tree) (habove : ∀ t ∈ above, ¬ IsNamespace t) :
    NamespaceTracked f above (done ++ [(v.tree :: above, .leave v)]) (s.leave v.tree) := by
  have hentry := not_entersNamespace_leave (v.tree :: above) v
  rw [leave_of_isNamespace hv]
  cases h with
  | globally _ hopened => exact absurd hv (hopened _ List.mem_cons_self)
  | reaching _ _ hopened => exact absurd hv (hopened _ List.mem_cons_self)
  | beyond _ _ _ hopened => exact absurd hv (hopened _ List.mem_cons_self)
  | @inside m around since hlast hopen hleft hname hbraced himported =>
    obtain ⟨rfl, rfl⟩ : m = v.tree ∧ around = above := by
      rcases List.suffix_cons_iff.mp hopen with heq | hinside
      · exact List.cons.inj heq
      · exact absurd hlast.isNamespace (habove m (hinside.subset List.mem_cons_self))
    rw [hbraced]
    cases hbody : v.tree.byField? "body" with
    | none =>
      refine .reaching (hlast.concat hentry) hbody habove hname ?_
      rw [recorded_append, recorded_leave, List.append_nil]
      exact himported
    | some body =>
      exact .beyond (hlast.concat hentry) hleft (by rw [hbody]; rfl) habove rfl rfl

theorem leave (h : NamespaceTracked f (v.tree :: above) done s)
    (hnested : IsNamespace v.tree → ∀ t ∈ above, ¬ IsNamespace t) :
    NamespaceTracked f above (done ++ [(v.tree :: above, .leave v)]) (s.leave v.tree) := by
  by_cases hv : IsNamespace v.tree
  · exact h.leave_namespace hv (hnested hv)
  · obtain ⟨hname, hbraced, himported⟩ := leave_of_not_isNamespace (s := s) hv
    refine h.advance (not_entersNamespace_leave _ _) ?_ ?_ ?_ hname hbraced himported
    · rintro m around u ⟨⟩
      exact hv
    · intro m around hm hopen
      -- The open namespace is another node, so it stays open.
      rcases List.suffix_cons_iff.mp hopen with heq | hinside
      · exact absurd ((List.cons.inj heq).1 ▸ hm) hv
      · exact hinside
    · exact fun hclosed => (List.forall_mem_cons.mp hclosed).2

/-- A scope that agrees with the steps holds the namespace and the imports in force. -/
theorem inForce {trail : List Tree} (h : NamespaceTracked f trail done s) :
    ∃ counted, InForce f trail done s.namespaceName counted ∧
      s.imported = (recorded f counted).reverse := by
  cases h with
  | globally hnone _ hname himported => exact ⟨done, hname ▸ .globally hnone, himported⟩
  | inside hlast hopen _ hname _ himported =>
    exact ⟨_, hname ▸ .inside hlast (Or.inr hopen), himported⟩
  | reaching hlast hbody _ hname himported =>
    exact ⟨_, hname ▸ .inside hlast (Or.inl hbody), himported⟩
  | @beyond m around _ _ _ hlast hleft hbody hopened hname himported =>
    have hout : ¬ m :: around <:+ trail :=
      fun hin => hopened m (hin.subset List.mem_cons_self) hlast.isNamespace
    exact ⟨_, hname ▸ .beyond hlast hleft hbody hout, himported⟩

end NamespaceTracked

/-! ### The whole walk -/

/-- As long as nothing fails, the scope agrees with the steps made so far. -/
theorem namespaceTracked_history (families : List Family) (f : SourceFile) {root : Tree}
    (hroot : NamespacesNotNested root) :
    Walk.HistoryInvariant root fun opened done =>
      let p := Walk.after (Progress.step families f) {} done
      p.failure = none → NamespaceTracked f opened done p.scope where
  start _ := .globally (fun _ h => by cases h) (fun _ h => by cases h) rfl rfl
  enter v above done _ ih hstep := by
    rw [Walk.after_append, Walk.after_cons, Walk.after_nil] at hstep ⊢
    have hp := Progress.failure_eq_none_of_step hstep
    rw [Progress.step_enter hp]
    exact (ih hp).enter
  leave v above done htrail ih hstep := by
    rw [Walk.after_append, Walk.after_cons, Walk.after_nil] at hstep ⊢
    have hp := Progress.failure_eq_none_of_step hstep
    rw [Progress.step_leave hp]
    exact (ih hp).leave (hroot v.tree above htrail)

/-- At a node that is reached, the scope holds the namespace in force there and what the
`use` declarations that count have recorded. -/
theorem inForce_at_enter {families : List Family} {f : SourceFile} {root : Tree}
    (hroot : NamespacesNotNested root) {done rest : List (List Tree × Step)} {trail : List Tree}
    {v : Visit} (hsplit : Walk.trace root = done ++ (trail, .enter v) :: rest)
    (hok : (Walk.after (Progress.step families f) {} done).failure = none) :
    let scope := (Walk.after (Progress.step families f) {} done).scope.enter f v.tree
    ∃ counted, InForce f trail (done ++ [(trail, .enter v)]) scope.namespaceName counted ∧
      scope.imported = (recorded f counted).reverse := by
  obtain ⟨above, rfl, htracked, -⟩ := (namespaceTracked_history families f hroot).at_enter hsplit
  exact ((htracked hok).enter (v := v)).inForce

/-- Looking up in the table finds the latest record under an alias. -/
theorem lookup_reverse (records : List (String × String)) (key : String) :
    records.reverse.lookup key =
      (records.filter fun record => record.1 = key).getLast?.map Prod.snd := by
  -- The table has the latest record in front, so the induction takes records from the end.
  induction records using List.reverseRecOn with
  | nil => rfl
  | append_singleton records record ih =>
    obtain ⟨alias', full⟩ := record
    rw [List.reverse_append, List.reverse_singleton, List.singleton_append, List.lookup_cons,
      List.filter_append]
    by_cases h : alias' = key
    · simp [h]
    · have hne : (key == alias') = false := beq_false_of_ne (Ne.symm h)
      simp [h, hne, ih]

/-- The namespace and the imports in force. Where no namespace is inside another, an
extraction applies the rules to every node that it reaches in a scope that holds the name
of the one namespace in force there, and exactly the imports of the `use` declarations
that count with it, the latest record under an alias being the one that is found. Nothing
of an earlier namespace is left, and nothing of earlier files either: whatever was read
before and in whatever scopes it has left the visitors, they come to stand in this scope, and
the findings of a file are those of its own walk. -/
theorem extract_namespace_in_force (families : List Family) (f : SourceFile) (root : Tree)
    (hroot : NamespacesNotNested root) :
    let run := Walk.after (Progress.step families f) {}
    extract families f root =
      ⟨(run (Walk.trace root)).found.reverse.flatten, (run (Walk.trace root)).failure⟩ ∧
    (∀ (s : Store) earlier, s.readAll (earlier ++ [.php f root]) =
      (s.readAll earlier).recordAll (extract Family.all f root).findings) ∧
    (∀ visitors done, visitors.map Visitor.family = families →
      Mirrors families (run done) (Walk.after (Team.step f) (.start visitors) done)) ∧
    ∀ done trail v rest, Walk.trace root = done ++ (trail, .enter v) :: rest →
      (run done).failure = none →
        let seen := done ++ [(trail, .enter v)]
        let scope := (run done).scope.enter f v.tree
        (run seen).found = (findAt families f scope v).findings :: (run done).found ∧
        ∃ counted, InForce f trail seen scope.namespaceName counted ∧
          (∀ name others, InForce f trail seen name others →
            name = scope.namespaceName ∧ others = counted) ∧
          scope.imported = (recorded f counted).reverse ∧
          ∀ name, scope.imported.lookup (Text.lower name) =
            ((recorded f counted).filter fun record =>
              record.1 = Text.lower name).getLast?.map Prod.snd := by
  intro run
  refine ⟨extract_eq families f root, fun s earlier => ?_, ?_, ?_⟩
  · rw [Store.readAll_eq_recordAll, Store.readAll_eq_recordAll, List.flatMap_append,
      Store.recordAll_append, List.flatMap_singleton]
    rfl
  · rintro visitors done rfl
    exact mirrors_after f visitors done
  · intro done trail v rest hsplit hok seen scope
    obtain ⟨counted, hforce, himported⟩ := inForce_at_enter hroot hsplit hok
    have hnext : run seen = (run done).step families f (.enter v) := Walk.after_append _ _ _ _
    refine ⟨?_, counted, hforce, fun name others h => h.unique hforce, himported, fun name => ?_⟩
    · rw [hnext, Progress.step_enter hok]
    · rw [himported, lookup_reverse]

/-- A namespace `N` whose body imports `A\B`, with code behind the import and behind the
body, in a text that holds just these names. -/
def codeInside : Tree := .node "echo_statement" true 4 4 none []

@[inherit_doc codeInside]
def codeBehind : Tree := .node "exit_statement" true 4 4 none []

@[inherit_doc codeInside]
def importingBody : Tree :=
  .node "compound_statement" true 1 4 (some "body")
    [.node "namespace_use_declaration" true 1 4 none
      [.node "namespace_use_clause" true 1 4 none [.node "qualified_name" true 1 4 none []]],
      codeInside]

@[inherit_doc codeInside]
def bracedNamespace : Tree :=
  .node "namespace_definition" true 0 4 none
    [.node "namespace_name" true 0 1 (some "name") [], importingBody]

@[inherit_doc codeInside]
def bracedProgram : Tree := .node "program" true 0 4 none [bracedNamespace, codeBehind]

/-- The namespace and its import hold in the body and end with it. -/
theorem extract_namespace_in_force_bracedProgram :
    let f : SourceFile := { path := "/p.php", source := "NA\\B" }
    let run := Walk.after (Progress.step Family.all f) {}
    NamespacesNotNested bracedProgram ∧
    (∃ done v rest, Walk.trace bracedProgram =
        done ++ ([codeInside, importingBody, bracedNamespace, bracedProgram], .enter v) :: rest ∧
      (run done).failure = none ∧
      ((run done).scope.enter f v.tree).namespaceName = "N" ∧
      ((run done).scope.enter f v.tree).imported.lookup (Text.lower "b") = some "A\\B") ∧
    ∃ done v rest, Walk.trace bracedProgram =
        done ++ ([codeBehind, bracedProgram], .enter v) :: rest ∧
      (run done).failure = none ∧
      ((run done).scope.enter f v.tree).namespaceName = "" ∧
      ((run done).scope.enter f v.tree).imported = [] := by
  intro f run
  have hroot : NamespacesNotNested bracedProgram := by decide +kernel
  have hforce := (extract_namespace_in_force Family.all f bracedProgram hroot).2.2.2
  let steps := Walk.trace bracedProgram
  refine ⟨hroot, ?_, ?_⟩
  · let done := steps.take 11
    have hok : (run done).failure = none := by decide +kernel
    obtain ⟨-, counted, -, hunique, -, hlookup⟩ := hforce done _ _ (steps.drop 12) rfl hok
    have hlast : LastNamespace (steps.take 12) bracedNamespace [bracedProgram]
        ((steps.take 12).drop 2) := ⟨⟨steps.take 1, ⟨_, none⟩, rfl, rfl⟩, rfl, by decide +kernel⟩
    obtain ⟨hname, rfl⟩ := hunique _ _
      (.inside hlast (Or.inr ⟨[codeInside, importingBody], rfl⟩))
    exact ⟨done, _, _, rfl, hok, hname.symm.trans (by decide +kernel),
      (hlookup "b").trans (by decide +kernel)⟩
  · let done := steps.take 15
    have hok : (run done).failure = none := by decide +kernel
    obtain ⟨-, counted, -, hunique, himported, -⟩ := hforce done _ _ (steps.drop 16) rfl hok
    have hlast : LastNamespace (steps.take 16) bracedNamespace [bracedProgram]
        ((steps.take 14).drop 2 ++ ([bracedNamespace, bracedProgram], .leave ⟨_, none⟩) ::
          (steps.take 16).drop 15) :=
      ⟨⟨steps.take 1, ⟨_, none⟩, rfl, rfl⟩, rfl, by decide +kernel⟩
    have hdeeper : ∀ entry ∈ (steps.take 14).drop 2, entry.1.length ≠ 2 := by decide +kernel
    have hout : ¬ [bracedNamespace, bracedProgram] <:+ [codeBehind, bracedProgram] := fun hin =>
      absurd (congrArg (List.map Tree.kind) (hin.eq_of_length rfl)) (by decide +kernel)
    obtain ⟨hname, rfl⟩ := hunique _ _ (.beyond hlast (fun u hu => hdeeper _ hu rfl) rfl hout)
    exact ⟨done, _, _, rfl, hok, hname.symm, himported.trans (by decide +kernel)⟩

end PluginAtlas.Php
