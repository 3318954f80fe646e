import PluginAtlas.Syntax.Tree

/-!
# Walking a syntax tree

A walk enters and leaves every node that is reached through named children, in the
order of the source. It is driven by a stack of the steps that are still to be made,
so that its depth is not bounded by any call stack, and folds a function over the
steps. A node is met together with its nearest earlier named sibling.

## Main definitions

* `Visit`: a node as it is met.
* `Step`: entering or leaving a node.
* `Walk.foldSteps`, `Walk.steps`: the walk from a root.
* `Walk.foldNodes`: the walk that only enters.
-/

namespace PluginAtlas

/-- A node as it is met on a walk. -/
structure Visit where
  tree : Tree
  /-- The nearest earlier sibling that the grammar names. -/
  previous : Option Tree := none
deriving Inhabited

/-- Pairs every tree with the one before it. -/
def Visit.chain (previous : Option Tree) : List Tree → List Visit
  | [] => []
  | t :: ts => ⟨t, previous⟩ :: chain (some t) ts

/-- The named children of a node as they are met. -/
def Visit.below (v : Visit) : List Visit := Visit.chain none v.tree.namedChildren

/-- A step of a walk. -/
inductive Step where
  | enter (visit : Visit)
  | leave (visit : Visit)
deriving Inhabited

namespace Walk

/-- A bound on the number of steps that a pending step still causes. -/
def weight : Step → Nat
  | .enter v => 2 * v.tree.size
  | .leave _ => 1

/-- A bound on the number of steps still to be made. -/
def weights : List Step → Nat
  | [] => 0
  | step :: rest => weight step + weights rest

theorem weights_cons (step : Step) (rest : List Step) :
    weights (step :: rest) = weight step + weights rest := rfl

theorem weights_append (some rest : List Step) :
    weights (some ++ rest) = weights some + weights rest := by
  induction some with
  | nil => simp [weights]
  | cons step steps ih => simp only [List.cons_append, weights_cons, ih]; omega

theorem sizes_filter_le (p : Tree → Bool) (ts : List Tree) :
    Tree.sizes (ts.filter p) ≤ Tree.sizes ts := by
  induction ts with
  | nil => simp
  | cons t ts ih =>
    cases h : p t
    · simp only [List.filter_cons, h, Tree.sizes, Bool.false_eq_true, if_false]; omega
    · simp only [List.filter_cons, h, Tree.sizes, if_true]; omega

theorem weights_chain (previous : Option Tree) (ts : List Tree) :
    weights ((Visit.chain previous ts).map Step.enter) = 2 * Tree.sizes ts := by
  induction ts generalizing previous with
  | nil => rfl
  | cons t ts ih =>
    simp only [Visit.chain, List.map_cons, weights_cons, ih, weight, Tree.sizes]
    omega

theorem size_eq (t : Tree) : t.size = 1 + Tree.sizes t.children := by
  cases t; simp only [Tree.size, Tree.children]

theorem weights_below_lt (v : Visit) (rest : List Step) :
    weights (v.below.map Step.enter ++ Step.leave v :: rest) < weights (Step.enter v :: rest) := by
  have k := sizes_filter_le Tree.isNamed v.tree.children
  have s := size_eq v.tree
  simp only [weights_append, weights_cons, weight, Visit.below, weights_chain, Tree.namedChildren]
  omega

/-- Makes the pending steps and those they cause, folding a function over them. -/
def foldSteps {σ : Type} (f : σ → Step → σ) (state : σ) (pending : List Step) : σ :=
  match pending with
  | [] => state
  | .leave v :: rest => foldSteps f (f state (.leave v)) rest
  | .enter v :: rest =>
    foldSteps f (f state (.enter v)) (v.below.map Step.enter ++ Step.leave v :: rest)
termination_by weights pending
decreasing_by
  · simp [weights_cons, weight]
  · exact weights_below_lt v rest

/-- Folds a function over the steps of a walk from a root. -/
def fold {σ : Type} (f : σ → Step → σ) (state : σ) (root : Tree) : σ :=
  foldSteps f state [.enter ⟨root, none⟩]

/-- The steps of a walk from a root. -/
def steps (root : Tree) : List Step :=
  (fold (fun done step => step :: done) [] root).reverse

theorem sizes_append (ts us : List Tree) :
    Tree.sizes (ts ++ us) = Tree.sizes ts + Tree.sizes us := by
  induction ts with
  | nil => simp [Tree.sizes]
  | cons t ts ih => simp only [List.cons_append, Tree.sizes, ih]; omega

/-- Enters the pending nodes and those below them, folding a function over them. -/
def foldNodes {σ : Type} (f : σ → Tree → σ) (state : σ) (pending : List Tree) : σ :=
  match pending with
  | [] => state
  | t :: rest => foldNodes f (f state t) (t.namedChildren ++ rest)
termination_by Tree.sizes pending
decreasing_by
  have k := sizes_filter_le Tree.isNamed t.children
  have s := size_eq t
  simp only [sizes_append, Tree.sizes, Tree.namedChildren]
  omega

end Walk

end PluginAtlas
