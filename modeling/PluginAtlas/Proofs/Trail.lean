import PluginAtlas.Syntax.Walk

/-!
# Trails of a walk

A walk is driven by a stack of pending steps. Here it is read off the tree instead:
every step is listed with its trail, the node of the step followed by the nodes around
it up to the root. The list is well bracketed, so that what is preserved by entering
and by leaving a node holds at every step of a walk, with the trail as the nodes that
are open there.

## Main definitions

* `Tree.IsTrail`: the way from a node up to the root, through named children.
* `Walk.trace`: the steps of a walk with their trails, by recursion on the tree.
* `Walk.nodes`: the nodes that a walk enters.
* `Walk.Brackets`: steps that open and close nodes in order.
* `Walk.after`: the state that a fold reaches after some steps.
* `Walk.HistoryInvariant`, `Walk.Invariant`: what holds at first and is preserved by
  entering and leaving, of the steps made so far or of a folded state.

## Main results

* `Walk.fold_eq_after`: the walk makes the steps of its trace.
* `Walk.isTrail_iff_mem_trace`: it enters every node once for every trail to it.
* `Walk.HistoryInvariant.along`: what steps preserve holds along the walk.
* `Walk.Invariant.at_enter`, `Walk.Invariant.at_leave`, `Walk.Invariant.at_end`: so it
  does of a folded state.
* `Walk.fold_preserves`: the same with the nodes entered so far in view.
-/

namespace PluginAtlas

/-- The nodes from one up to the root: each is a named child of the next. -/
inductive Tree.IsTrail (root : Tree) : List Tree → Prop
  | start : IsTrail root [root]
  | child {parent child : Tree} {above : List Tree} :
      IsTrail root (parent :: above) → child ∈ parent.namedChildren →
        IsTrail root (child :: parent :: above)

theorem Tree.IsTrail.exists_cons {root : Tree} {trail : List Tree} (h : root.IsTrail trail) :
    ∃ t above, trail = t :: above := by
  cases h <;> exact ⟨_, _, rfl⟩

/-- A node of a trail has the rest of the trail as its own. -/
theorem Tree.IsTrail.of_suffix {root t : Tree} {above trail : List Tree} (h : root.IsTrail trail)
    (hsuffix : t :: above <:+ trail) : root.IsTrail (t :: above) := by
  induction h with
  | start =>
    rcases List.suffix_cons_iff.mp hsuffix with heq | hnil
    · exact heq ▸ .start
    · exact absurd (List.suffix_nil.mp hnil) (List.cons_ne_nil t above)
  | child hparent hchild ih =>
    rcases List.suffix_cons_iff.mp hsuffix with heq | hinside
    · exact heq ▸ .child hparent hchild
    · exact ih hinside

mutual

/-- The steps below a node and on it, each with its trail; `above` is the trail of the
parent. -/
def Tree.trace (above : List Tree) (previous : Option Tree) : Tree → List (List Tree × Step)
  | t@(.node _ _ _ _ _ children) =>
    (t :: above, .enter ⟨t, previous⟩) ::
      (Tree.traceAll (t :: above) none children ++ [(t :: above, .leave ⟨t, previous⟩)])

/-- The steps below and on the named ones among the children of a node. -/
def Tree.traceAll (above : List Tree) (previous : Option Tree) :
    List Tree → List (List Tree × Step)
  | [] => []
  | t :: ts =>
    if t.isNamed then t.trace above previous ++ Tree.traceAll above (some t) ts
    else Tree.traceAll above previous ts

end

theorem Tree.trace_eq (above : List Tree) (previous : Option Tree) (t : Tree) :
    t.trace above previous =
      (t :: above, .enter ⟨t, previous⟩) ::
        (Tree.traceAll (t :: above) none t.children ++ [(t :: above, .leave ⟨t, previous⟩)]) := by
  cases t
  simp only [Tree.trace, Tree.children]

namespace Walk

/-- The steps of a walk from a root, each with its trail. -/
def trace (root : Tree) : List (List Tree × Step) := root.trace [] none

/-- The state that a fold reaches after steps. -/
def after {σ : Type} (f : σ → Step → σ) (state : σ) (done : List (List Tree × Step)) : σ :=
  done.foldl (fun s entry => f s entry.2) state

section Fold

variable {σ : Type} (f : σ → Step → σ)

@[simp] theorem after_nil (state : σ) : after f state [] = state := rfl

@[simp] theorem after_cons (state : σ) (entry : List Tree × Step)
    (rest : List (List Tree × Step)) :
    after f state (entry :: rest) = after f (f state entry.2) rest := rfl

theorem after_append (state : σ) (done rest : List (List Tree × Step)) :
    after f state (done ++ rest) = after f (after f state done) rest := by
  simp [after, List.foldl_append]

mutual

theorem foldSteps_enter (above : List Tree) (previous : Option Tree) (state : σ)
    (rest : List Step) :
    ∀ t : Tree, foldSteps f state (.enter ⟨t, previous⟩ :: rest) =
      foldSteps f (after f state (t.trace above previous)) rest
  | .node kind named start stop field children => by
    have below := foldSteps_below (.node kind named start stop field children :: above) none
      (f state (.enter ⟨.node kind named start stop field children, previous⟩))
      (.leave ⟨.node kind named start stop field children, previous⟩ :: rest) children
    rw [foldSteps, Tree.trace_eq, after_cons, after_append]
    simp only [Visit.below, Tree.namedChildren, Tree.children]
    rw [below, foldSteps]
    rfl

theorem foldSteps_below (above : List Tree) (previous : Option Tree) (state : σ)
    (rest : List Step) :
    ∀ ts : List Tree,
      foldSteps f state ((Visit.chain previous (ts.filter Tree.isNamed)).map .enter ++ rest) =
        foldSteps f (after f state (Tree.traceAll above previous ts)) rest
  | [] => by simp [Visit.chain, Tree.traceAll]
  | t :: ts => by
    cases ht : t.isNamed with
    | false =>
      rw [List.filter_cons_of_neg (by simp [ht]), Tree.traceAll, ht]
      exact foldSteps_below above previous state rest ts
    | true =>
      rw [List.filter_cons_of_pos ht, Tree.traceAll, if_pos ht, Visit.chain, List.map_cons,
        List.cons_append, foldSteps_enter above previous state _ t, after_append]
      exact foldSteps_below above (some t) _ rest ts

end

/-- A walk makes the steps of its trace, in order. -/
theorem fold_eq_after (state : σ) (root : Tree) :
    fold f state root = after f state (trace root) := by
  rw [fold, foldSteps_enter f [] none state [] root, foldSteps]
  rfl

end Fold

/-! ### The trails of a walk are the trails of the tree -/

theorem trace_child_subset (above : List Tree) {child : Tree} :
    ∀ {ts : List Tree} (previous : Option Tree), child ∈ ts.filter Tree.isNamed →
      ∃ earlier, child.trace above earlier ⊆ Tree.traceAll above previous ts
  | [], _, h => by simp at h
  | t :: ts, previous, h => by
    cases ht : t.isNamed with
    | false =>
      rw [List.filter_cons_of_neg (by simp [ht])] at h
      obtain ⟨earlier, hsub⟩ := trace_child_subset above previous h
      exact ⟨earlier, by simpa [Tree.traceAll, ht] using hsub⟩
    | true =>
      rw [List.filter_cons_of_pos ht, List.mem_cons] at h
      rw [Tree.traceAll, if_pos ht]
      rcases h with rfl | h
      · exact ⟨previous, List.subset_append_left _ _⟩
      · obtain ⟨earlier, hsub⟩ := trace_child_subset above (some t) h
        exact ⟨earlier, List.Subset.trans hsub (List.subset_append_right _ _)⟩

/-- The steps below a node of a trail are steps of the walk. -/
theorem trace_subset_of_isTrail {root : Tree} {trail : List Tree} (h : root.IsTrail trail) :
    ∀ t above, trail = t :: above → ∃ previous, t.trace above previous ⊆ trace root := by
  induction h with
  | start =>
    rintro t above h
    obtain ⟨rfl, rfl⟩ := List.cons.inj h
    exact ⟨none, List.Subset.refl _⟩
  | @child parent child above _ hchild ih =>
    rintro t above' h
    obtain ⟨rfl, rfl⟩ := List.cons.inj h
    obtain ⟨previous, hparent⟩ := ih parent above rfl
    obtain ⟨earlier, hsub⟩ := trace_child_subset (parent :: above) none hchild
    refine ⟨earlier, fun entry hentry => hparent ?_⟩
    rw [Tree.trace_eq]
    exact List.mem_cons_of_mem _ (List.mem_append_left _ (hsub hentry))

mutual

theorem isTrail_of_mem_trace {root : Tree} (above : List Tree) (previous : Option Tree) :
    ∀ t : Tree, root.IsTrail (t :: above) →
      ∀ entry ∈ t.trace above previous, root.IsTrail entry.1
  | .node kind named start stop field children, h, entry, hentry => by
    rw [Tree.trace_eq, List.mem_cons, List.mem_append, List.mem_singleton] at hentry
    rcases hentry with rfl | hbelow | rfl
    · exact h
    · refine isTrail_of_mem_traceAll _ none children (fun child hc hn => ?_) entry hbelow
      exact h.child (List.mem_filter.mpr ⟨hc, hn⟩)
    · exact h

theorem isTrail_of_mem_traceAll {root : Tree} (above : List Tree) (previous : Option Tree) :
    ∀ ts : List Tree, (∀ t ∈ ts, t.isNamed → root.IsTrail (t :: above)) →
      ∀ entry ∈ Tree.traceAll above previous ts, root.IsTrail entry.1
  | [], _, entry, hentry => by simp [Tree.traceAll] at hentry
  | t :: ts, h, entry, hentry => by
    have hrest : ∀ u ∈ ts, u.isNamed → root.IsTrail (u :: above) :=
      fun u hu => h u (List.mem_cons_of_mem _ hu)
    rw [Tree.traceAll] at hentry
    split at hentry
    · rename_i ht
      rcases List.mem_append.mp hentry with hin | hin
      · exact isTrail_of_mem_trace above previous t (h t List.mem_cons_self ht) entry hin
      · exact isTrail_of_mem_traceAll above (some t) ts hrest entry hin
    · exact isTrail_of_mem_traceAll above previous ts hrest entry hentry

end

/-- The trail of every step leads to the root. -/
theorem isTrail_of_mem {root : Tree} {entry : List Tree × Step} (h : entry ∈ trace root) :
    root.IsTrail entry.1 :=
  isTrail_of_mem_trace [] none root .start entry h

/-- The nodes that a walk enters are the ends of the trails of the tree. -/
theorem isTrail_iff_mem_trace {root : Tree} {trail : List Tree} :
    root.IsTrail trail ↔ ∃ v, (trail, Step.enter v) ∈ trace root := by
  constructor
  · intro h
    obtain ⟨t, above, rfl⟩ := h.exists_cons
    obtain ⟨previous, hsub⟩ := trace_subset_of_isTrail h t above rfl
    refine ⟨⟨t, previous⟩, hsub ?_⟩
    rw [Tree.trace_eq]
    exact List.mem_cons_self
  · rintro ⟨v, hv⟩
    exact isTrail_of_mem hv

/-- What holds of every node with the nodes around it can be checked along a walk. -/
theorem forall_isTrail_iff {root : Tree} {P : Tree → List Tree → Prop} :
    (∀ t above, root.IsTrail (t :: above) → P t above) ↔
      ∀ entry ∈ trace root, ∀ t ∈ entry.1.head?, P t entry.1.tail := by
  constructor
  · intro h entry hentry t ht
    have htrail := isTrail_of_mem hentry
    obtain ⟨u, above, heq⟩ := htrail.exists_cons
    rw [heq] at htrail ht ⊢
    obtain rfl := Option.some.inj ht
    exact h u above htrail
  · intro h t above htrail
    obtain ⟨v, hv⟩ := isTrail_iff_mem_trace.mp htrail
    exact h _ hv t rfl

/-! ### The nodes of a walk -/

/-- The node that a step enters. -/
def entered? : Step → Option Tree
  | .enter v => some v.tree
  | .leave _ => none

/-- The nodes that steps enter, in order. -/
def entered (done : List (List Tree × Step)) : List Tree :=
  done.filterMap fun entry => entered? entry.2

/-- The nodes that a walk from a root enters, in order. -/
def nodes (root : Tree) : List Tree := entered (trace root)

theorem entered_concat_enter (done : List (List Tree × Step)) (trail : List Tree) (v : Visit) :
    entered (done ++ [(trail, .enter v)]) = entered done ++ [v.tree] := by
  simp [entered, entered?]

theorem entered_concat_leave (done : List (List Tree × Step)) (trail : List Tree) (v : Visit) :
    entered (done ++ [(trail, .leave v)]) = entered done := by
  simp [entered, entered?]

/-! ### What steps preserve -/

/-- Steps that lead from some open nodes to others: entering a node opens it, and only
the node opened last can be left. -/
inductive Brackets : List Tree → List (List Tree × Step) → List Tree → Prop
  | done (opened : List Tree) : Brackets opened [] opened
  | enter {v : Visit} {opened final : List Tree} {rest : List (List Tree × Step)} :
      Brackets (v.tree :: opened) rest final →
        Brackets opened ((v.tree :: opened, .enter v) :: rest) final
  | leave {v : Visit} {opened final : List Tree} {rest : List (List Tree × Step)} :
      Brackets opened rest final →
        Brackets (v.tree :: opened) ((v.tree :: opened, .leave v) :: rest) final

namespace Brackets

variable {opened middle final : List Tree} {first second : List (List Tree × Step)}

theorem append (h : Brackets opened first middle) (h' : Brackets middle second final) :
    Brackets opened (first ++ second) final := by
  induction h with
  | done => exact h'
  | enter _ ih => exact .enter (ih h')
  | leave _ ih => exact .leave (ih h')

theorem split (h : Brackets opened (first ++ second) final) :
    ∃ middle, Brackets opened first middle ∧ Brackets middle second final := by
  induction first generalizing opened with
  | nil => exact ⟨opened, .done opened, h⟩
  | cons entry rest ih =>
    rw [List.cons_append] at h
    cases h with
    | enter h =>
      obtain ⟨middle, hfirst, hsecond⟩ := ih h
      exact ⟨middle, .enter hfirst, hsecond⟩
    | leave h =>
      obtain ⟨middle, hfirst, hsecond⟩ := ih h
      exact ⟨middle, .leave hfirst, hsecond⟩

/-- What entering and leaving preserve, with the open nodes and the steps made so far in
view, is preserved by bracketed steps. -/
theorem preserves {P : List Tree → List (List Tree × Step) → Prop}
    (h : Brackets opened first final)
    (henter : ∀ v above done, (v.tree :: above, Step.enter v) ∈ first →
      P above done → P (v.tree :: above) (done ++ [(v.tree :: above, .enter v)]))
    (hleave : ∀ v above done, (v.tree :: above, Step.leave v) ∈ first →
      P (v.tree :: above) done → P above (done ++ [(v.tree :: above, .leave v)]))
    {done : List (List Tree × Step)} (hdone : P opened done) : P final (done ++ first) := by
  induction h generalizing done with
  | done => rwa [List.append_nil]
  | enter _ ih =>
    rw [List.append_cons]
    refine ih (fun v above s hv => henter v above s (List.mem_cons_of_mem _ hv))
      (fun v above s hv => hleave v above s (List.mem_cons_of_mem _ hv)) ?_
    exact henter _ _ _ List.mem_cons_self hdone
  | leave _ ih =>
    rw [List.append_cons]
    refine ih (fun v above s hv => henter v above s (List.mem_cons_of_mem _ hv))
      (fun v above s hv => hleave v above s (List.mem_cons_of_mem _ hv)) ?_
    exact hleave _ _ _ List.mem_cons_self hdone

end Brackets

mutual

theorem brackets_tree (above : List Tree) (previous : Option Tree) :
    ∀ t : Tree, Brackets above (t.trace above previous) above
  | .node kind named start stop field children => by
    rw [Tree.trace_eq]
    refine .enter (v := ⟨.node kind named start stop field children, previous⟩) ?_
    refine (brackets_trees _ none children).append ?_
    exact .leave (v := ⟨.node kind named start stop field children, previous⟩) (.done above)

theorem brackets_trees (above : List Tree) (previous : Option Tree) :
    ∀ ts : List Tree, Brackets above (Tree.traceAll above previous ts) above
  | [] => .done above
  | t :: ts => by
    rw [Tree.traceAll]
    split
    · exact (brackets_tree above previous t).append (brackets_trees above (some t) ts)
    · exact brackets_trees above previous ts

end

/-- A walk leaves every node that it enters, and in the right order. -/
theorem brackets_trace (root : Tree) : Brackets [] (trace root) [] := brackets_tree [] none root

/-- The trail of a node that is entered begins with it. -/
theorem exists_trail_of_mem {root : Tree} {trail : List Tree} {v : Visit}
    (h : (trail, Step.enter v) ∈ trace root) : ∃ above, trail = v.tree :: above := by
  obtain ⟨done, rest, hsplit⟩ := List.append_of_mem h
  obtain ⟨opened, -, hrest⟩ := (hsplit ▸ brackets_trace root).split
  cases hrest with
  | enter _ => exact ⟨opened, rfl⟩

theorem mem_nodes_iff {root t : Tree} : t ∈ nodes root ↔ ∃ above, root.IsTrail (t :: above) := by
  constructor
  · intro h
    obtain ⟨⟨trail, step⟩, hentry, hentered⟩ := List.mem_filterMap.mp h
    cases step with
    | leave v => simp [entered?] at hentered
    | enter v =>
      obtain rfl := Option.some.inj hentered
      obtain ⟨above, rfl⟩ := exists_trail_of_mem hentry
      exact ⟨above, isTrail_of_mem hentry⟩
  · rintro ⟨above, h⟩
    obtain ⟨v, hv⟩ := isTrail_iff_mem_trace.mp h
    obtain ⟨above', htrail⟩ := exists_trail_of_mem hv
    have htree : v.tree = t := (List.cons.inj htrail).1.symm
    exact List.mem_filterMap.mpr ⟨_, hv, congrArg some htree⟩

/-- A property of the open nodes and of the steps made so far that holds before a walk
and is kept by its steps. -/
structure HistoryInvariant (root : Tree) (P : List Tree → List (List Tree × Step) → Prop) :
    Prop where
  start : P [] []
  enter : ∀ v above done, root.IsTrail (v.tree :: above) →
    P above done → P (v.tree :: above) (done ++ [(v.tree :: above, .enter v)])
  leave : ∀ v above done, root.IsTrail (v.tree :: above) →
    P (v.tree :: above) done → P above (done ++ [(v.tree :: above, .leave v)])

namespace HistoryInvariant

variable {P : List Tree → List (List Tree × Step) → Prop} {root : Tree}
  {done rest : List (List Tree × Step)} {trail : List Tree} {v : Visit}

/-- An invariant holds wherever a walk stands, of the nodes that are open there. -/
theorem along (hP : HistoryInvariant root P) (h : trace root = done ++ rest) :
    ∃ opened, Brackets opened rest [] ∧ P opened done := by
  obtain ⟨opened, hdone, hrest⟩ := (h ▸ brackets_trace root).split
  have hmem : ∀ entry ∈ done, root.IsTrail entry.1 :=
    fun entry hentry => isTrail_of_mem (h ▸ List.mem_append_left rest hentry)
  refine ⟨opened, hrest, ?_⟩
  rw [← List.nil_append done]
  refine hdone.preserves ?_ ?_ hP.start
  · exact fun v above made hv => hP.enter v above made (hmem _ hv)
  · exact fun v above made hv => hP.leave v above made (hmem _ hv)

theorem at_end (hP : HistoryInvariant root P) : P [] (trace root) := by
  obtain ⟨opened, hrest, hopened⟩ := hP.along (List.append_nil (trace root)).symm
  cases hrest with
  | done => exact hopened

theorem at_enter (hP : HistoryInvariant root P)
    (h : trace root = done ++ (trail, .enter v) :: rest) :
    ∃ above, trail = v.tree :: above ∧ P above done ∧ P trail (done ++ [(trail, .enter v)]) := by
  obtain ⟨above, hrest, hopened⟩ := hP.along h
  cases hrest with
  | enter _ =>
    have htrail := isTrail_of_mem (h ▸ List.mem_append_right done List.mem_cons_self)
    exact ⟨above, rfl, hopened, hP.enter v above done htrail hopened⟩

end HistoryInvariant

/-- A property of the open nodes and of a folded state that holds before a walk and is
kept by its steps. -/
structure Invariant {σ : Type} (root : Tree) (f : σ → Step → σ) (state : σ)
    (P : List Tree → σ → Prop) : Prop where
  start : P [] state
  enter : ∀ v above s, root.IsTrail (v.tree :: above) →
    P above s → P (v.tree :: above) (f s (.enter v))
  leave : ∀ v above s, root.IsTrail (v.tree :: above) →
    P (v.tree :: above) s → P above (f s (.leave v))

namespace Invariant

variable {σ : Type} {f : σ → Step → σ} {P : List Tree → σ → Prop} {root : Tree} {state : σ}
  {done rest : List (List Tree × Step)} {trail : List Tree} {v : Visit}

/-- An invariant of the state is one of the steps that lead to it. -/
theorem history (hP : Invariant root f state P) :
    HistoryInvariant root fun opened done => P opened (after f state done) where
  start := hP.start
  enter v above done htrail h := by
    rw [after_append]
    exact hP.enter v above _ htrail h
  leave v above done htrail h := by
    rw [after_append]
    exact hP.leave v above _ htrail h

/-- An invariant holds wherever a walk stands, of the nodes that are open there. -/
theorem along (hP : Invariant root f state P) (h : trace root = done ++ rest) :
    ∃ opened, Brackets opened rest [] ∧ P opened (after f state done) :=
  hP.history.along h

theorem at_enter (hP : Invariant root f state P)
    (h : trace root = done ++ (trail, .enter v) :: rest) :
    ∃ above, trail = v.tree :: above ∧ P above (after f state done) := by
  obtain ⟨above, hrest, hopened⟩ := hP.along h
  cases hrest with
  | enter _ => exact ⟨above, rfl, hopened⟩

theorem at_leave (hP : Invariant root f state P)
    (h : trace root = done ++ (trail, .leave v) :: rest) :
    ∃ above, trail = v.tree :: above ∧ P trail (after f state done) := by
  obtain ⟨opened, hrest, hopened⟩ := hP.along h
  cases hrest with
  | @leave _ above _ _ _ => exact ⟨above, rfl, hopened⟩

theorem at_end (hP : Invariant root f state P) : P [] (fold f state root) := by
  rw [fold_eq_after]
  exact hP.history.at_end

end Invariant

/-- What is kept by every step, of the open nodes, of the nodes entered so far and of a
folded state, holds at the end of a walk, of all its nodes. -/
theorem fold_preserves {σ : Type} {f : σ → Step → σ} {state : σ}
    {P : List Tree → List Tree → σ → Prop} (hstart : P [] [] state)
    (henter : ∀ v above met s, P above met s →
      P (v.tree :: above) (met ++ [v.tree]) (f s (.enter v)))
    (hleave : ∀ v above met s, P (v.tree :: above) met s → P above met (f s (.leave v)))
    (root : Tree) : P [] (nodes root) (fold f state root) := by
  have hP : HistoryInvariant root fun opened done =>
      P opened (entered done) (after f state done) := by
    refine ⟨hstart, fun v above done _ h => ?_, fun v above done _ h => ?_⟩
    · rw [after_append, entered_concat_enter]
      exact henter v above _ _ h
    · rw [after_append, entered_concat_leave]
      exact hleave v above _ _ h
  rw [fold_eq_after]
  exact hP.at_end

end Walk

end PluginAtlas
