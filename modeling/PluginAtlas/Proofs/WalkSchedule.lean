import PluginAtlas.Proofs.LexicalScope
import PluginAtlas.Script.Detect
import Mathlib.Logic.Function.Iterate

/-!
# The schedule of a walk

The loop behind a walk takes one pending step after the other off a stack, where steps to
enter nodes and steps to leave them lie mixed. Read as a plan, the stack always holds the
rest of a recursive schedule: a node is entered, its named children are walked in order,
and the node is left. So the loop ends after as many turns as the schedule has steps, and
it has done what recursion on the tree does. The same holds of the loop that only enters
nodes, with the nodes in the order of the source as its schedule.

## Main definitions

* `Tree.schedule`, `Tree.preorder`: the steps and the nodes of a walk, by recursion.
* `Walk.turn`, `Step.causes`: one turn of a loop with a stack.
* `Tree.descend`: a fold over the steps of a walk, by recursion.
* `Tree.at?`, `Tree.addressed`: nodes by their address, and the schedule with addresses.
* `Tree.IsBracketed`: a node is entered once, left once, and walked in between.

## Main results

* `Walk.iterate_turn`: what some turns of a loop have done, and what is left.
* `Walk.foldSteps_eq`, `Walk.foldNodes_eq`: the loops follow their schedules.
* `Tree.isBracketed_of_at?`: the schedule is bracketed at every node.
* `Php.visit_eq_descend`: visitors make the recursive walk.
* `walks_follow_recursion`: both walks are the recursive ones.
-/

namespace PluginAtlas

/-! ### Schedules -/

mutual

/-- The steps of a walk of a tree: its root is entered, its named children are walked in
order, and it is left. -/
def Tree.schedule (previous : Option Tree) : Tree → List Step
  | t@(.node _ _ _ _ _ children) =>
    .enter ⟨t, previous⟩ :: (Tree.scheduleAll none children ++ [.leave ⟨t, previous⟩])

/-- The steps of a walk of the named ones among some children, in order. -/
def Tree.scheduleAll (previous : Option Tree) : List Tree → List Step
  | [] => []
  | t :: ts =>
    if t.isNamed then t.schedule previous ++ Tree.scheduleAll (some t) ts
    else Tree.scheduleAll previous ts

end

mutual

/-- The nodes of a tree that are reached through named children, each before those below
it. -/
def Tree.preorder : Tree → List Tree
  | t@(.node _ _ _ _ _ children) => t :: Tree.preorderAll children

/-- The nodes of the named ones among some children. -/
def Tree.preorderAll : List Tree → List Tree
  | [] => []
  | t :: ts => if t.isNamed then t.preorder ++ Tree.preorderAll ts else Tree.preorderAll ts

end

/-- The steps that a pending step leads to, itself first. -/
def Step.plan : Step → List Step
  | .enter v => v.tree.schedule v.previous
  | .leave v => [.leave v]

/-- The steps that are pending once a step is made, before those that were so already. -/
def Step.causes : Step → List Step
  | .enter v => v.below.map .enter ++ [.leave v]
  | .leave _ => []

namespace Tree

theorem scheduleAll_eq (previous : Option Tree) (ts : List Tree) :
    scheduleAll previous ts =
      ((Visit.chain previous (ts.filter isNamed)).map Step.enter).flatMap Step.plan := by
  induction ts generalizing previous with
  | nil => rfl
  | cons t ts ih =>
    rw [scheduleAll]
    cases ht : t.isNamed with
    | false => simp [ht, ih]
    | true => simp [ht, ih, Visit.chain, Step.plan]

theorem preorderAll_eq (ts : List Tree) :
    preorderAll ts = (ts.filter isNamed).flatMap preorder := by
  induction ts with
  | nil => rfl
  | cons t ts ih =>
    rw [preorderAll]
    cases ht : t.isNamed with
    | false => simp [ht, ih]
    | true => simp [ht, ih]

theorem preorder_eq (t : Tree) : t.preorder = t :: t.namedChildren.flatMap preorder := by
  cases t
  rw [preorder, preorderAll_eq]
  rfl

mutual

/-- Every node that is reached takes two steps. -/
theorem length_schedule (previous : Option Tree) :
    ∀ t : Tree, (t.schedule previous).length = 2 * t.preorder.length
  | .node kind named start stop field children => by
    have hbelow := length_scheduleAll none children
    simp only [schedule, preorder, List.length_cons, List.length_append, List.length_nil]
    omega

theorem length_scheduleAll (previous : Option Tree) :
    ∀ ts : List Tree, (scheduleAll previous ts).length = 2 * (preorderAll ts).length
  | [] => rfl
  | t :: ts => by
    rw [scheduleAll, preorderAll]
    split
    · rw [List.length_append, List.length_append, length_schedule previous t,
        length_scheduleAll (some t) ts]
      omega
    · exact length_scheduleAll previous ts

end

end Tree

theorem Step.plan_eq (step : Step) : step.plan = step :: step.causes.flatMap Step.plan := by
  cases step with
  | leave v => rfl
  | enter v =>
    obtain ⟨⟨kind, named, start, stop, field, children⟩, previous⟩ := v
    simp only [plan, causes, Tree.schedule, Tree.scheduleAll_eq, Visit.below, Tree.namedChildren,
      Tree.children, List.flatMap_append, List.flatMap_singleton]

/-! ### Loops with a stack -/

namespace Walk

/-- One turn of a loop with a stack: what lies on top is taken off and dealt with, and what
it causes is put in its place. -/
def turn {σ α : Type} (g : σ → α → σ) (causes : α → List α) : σ × List α → σ × List α
  | (s, []) => (s, [])
  | (s, a :: rest) => (g s a, causes a ++ rest)

section Loop

variable {σ α : Type} {g : σ → α → σ} {causes plan : α → List α}
  (hplan : ∀ a, plan a = a :: (causes a).flatMap plan)

include hplan

theorem flatMap_plan_eq_nil_iff {stack : List α} : stack.flatMap plan = [] ↔ stack = [] := by
  cases stack with
  | nil => simp
  | cons a rest => simp [hplan a]

/-- After some turns that many planned steps are made, and the stack plans the others. -/
theorem iterate_turn (s : σ) (stack : List α) (k : ℕ) :
    let next := (turn g causes)^[k] (s, stack)
    next.1 = ((stack.flatMap plan).take k).foldl g s ∧
      next.2.flatMap plan = (stack.flatMap plan).drop k := by
  induction k generalizing s stack with
  | zero => exact ⟨rfl, rfl⟩
  | succ k ih =>
    cases stack with
    | nil =>
      -- an empty stack stays as it is
      obtain ⟨hstate, hrest⟩ := ih s []
      exact ⟨by simpa [turn] using hstate, by simpa [turn] using hrest⟩
    | cons a rest =>
      -- the turn makes the first planned step; the rest of the plan is that of the new stack
      have hnext : (a :: rest).flatMap plan = a :: (causes a ++ rest).flatMap plan := by
        rw [List.flatMap_cons, hplan a, List.flatMap_append, List.cons_append]
      obtain ⟨hstate, hrest⟩ := ih (g s a) (causes a ++ rest)
      rw [Function.iterate_succ_apply, hnext, List.take_succ_cons, List.drop_succ_cons,
        List.foldl_cons]
      exact ⟨hstate, hrest⟩

theorem stack_eq_nil_iff (s : σ) (stack : List α) (k : ℕ) :
    ((turn g causes)^[k] (s, stack)).2 = [] ↔ (stack.flatMap plan).length ≤ k := by
  rw [← flatMap_plan_eq_nil_iff hplan, (iterate_turn hplan s stack k).2, List.drop_eq_nil_iff]

/-- A loop ends after as many turns as there are planned steps. -/
theorem iterate_turn_length (s : σ) (stack : List α) :
    (turn g causes)^[(stack.flatMap plan).length] (s, stack) =
      ((stack.flatMap plan).foldl g s, []) := by
  refine Prod.ext ?_ ((stack_eq_nil_iff hplan s stack _).mpr (Nat.le_refl _))
  rw [(iterate_turn hplan s stack _).1, List.take_length]

end Loop

theorem foldSteps_eq {σ : Type} (g : σ → Step → σ) (state : σ) (pending : List Step) :
    foldSteps g state pending = (pending.flatMap Step.plan).foldl g state := by
  fun_induction foldSteps g state pending with
  | case1 state => rfl
  | case2 state v rest ih =>
    rw [ih]
    rfl
  | case3 state v rest ih =>
    rw [ih, List.flatMap_cons, Step.plan_eq]
    simp [Step.causes]

theorem foldNodes_eq {σ : Type} (g : σ → Tree → σ) (state : σ) (pending : List Tree) :
    foldNodes g state pending = (pending.flatMap Tree.preorder).foldl g state := by
  fun_induction foldNodes g state pending with
  | case1 state => rfl
  | case2 state t rest ih =>
    rw [ih, List.flatMap_cons, Tree.preorder_eq]
    simp

/-- A walk from a root follows its schedule. -/
theorem fold_eq_foldl {σ : Type} (g : σ → Step → σ) (state : σ) (root : Tree) :
    fold g state root = (root.schedule none).foldl g state := by
  rw [fold, foldSteps_eq, List.flatMap_singleton]
  rfl

end Walk

/-! ### Walks by recursion -/

mutual

/-- Folds a function over the steps of a walk by recursion on the tree. -/
def Tree.descend {σ : Type} (g : σ → Step → σ) (previous : Option Tree) (state : σ) : Tree → σ
  | t@(.node _ _ _ _ _ children) =>
    g (Tree.descendAll g none (g state (.enter ⟨t, previous⟩)) children) (.leave ⟨t, previous⟩)

/-- Folds a function over the steps of a walk of the named ones among some children. -/
def Tree.descendAll {σ : Type} (g : σ → Step → σ) (previous : Option Tree) (state : σ) :
    List Tree → σ
  | [] => state
  | t :: ts =>
    if t.isNamed then Tree.descendAll g (some t) (t.descend g previous state) ts
    else Tree.descendAll g previous state ts

end

namespace Tree

variable {σ : Type} (g : σ → Step → σ)

mutual

theorem descend_eq (previous : Option Tree) (state : σ) :
    ∀ t : Tree, t.descend g previous state = (t.schedule previous).foldl g state
  | .node kind named start stop field children => by
    rw [descend, schedule, descendAll_eq none _ children, List.foldl_cons, List.foldl_append,
      List.foldl_cons, List.foldl_nil]

theorem descendAll_eq (previous : Option Tree) (state : σ) :
    ∀ ts : List Tree, descendAll g previous state ts = (scheduleAll previous ts).foldl g state
  | [] => rfl
  | t :: ts => by
    rw [descendAll, scheduleAll]
    split
    · rw [descendAll_eq (some t) _ ts, descend_eq previous state t, List.foldl_append]
    · exact descendAll_eq previous state ts

end

end Tree

/-! ### Addresses

Equal trees can stand at several places, so nodes are told apart by their addresses. -/

/-- The node of a step, as it is met. -/
def Step.visit : Step → Visit
  | .enter v | .leave v => v

/-- The node at an address, which gives the places among named children on the way to it. -/
def Tree.at? : Tree → List ℕ → Option Tree
  | t, [] => some t
  | t, i :: rest => t.namedChildren[i]?.bind (·.at? rest)

mutual

/-- The schedule of a tree that stands at an address, with the addresses of its nodes. -/
def Tree.addressed (address : List ℕ) (previous : Option Tree) : Tree → List (List ℕ × Step)
  | t@(.node _ _ _ _ _ children) =>
    (address, .enter ⟨t, previous⟩) ::
      (Tree.addressedAll address 0 none children ++ [(address, .leave ⟨t, previous⟩)])

/-- The schedule of the named ones among some children, whose places count from a number
on. -/
def Tree.addressedAll (address : List ℕ) (place : ℕ) (previous : Option Tree) :
    List Tree → List (List ℕ × Step)
  | [] => []
  | t :: ts =>
    if t.isNamed then
      t.addressed (address ++ [place]) previous ++ Tree.addressedAll address (place + 1) (some t) ts
    else Tree.addressedAll address place previous ts

end

namespace Tree

mutual

theorem addressed_steps (address : List ℕ) (previous : Option Tree) :
    ∀ t : Tree, (t.addressed address previous).map Prod.snd = t.schedule previous
  | .node kind named start stop field children => by
    simp only [addressed, schedule, List.map_cons, List.map_append, List.map_nil,
      addressedAll_steps address 0 none children]

theorem addressedAll_steps (address : List ℕ) (place : ℕ) (previous : Option Tree) :
    ∀ ts : List Tree,
      (addressedAll address place previous ts).map Prod.snd = scheduleAll previous ts
  | [] => rfl
  | t :: ts => by
    rw [addressedAll, scheduleAll]
    split
    · rw [List.map_append, addressed_steps _ previous t, addressedAll_steps _ _ _ ts]
    · exact addressedAll_steps address place previous ts

end

mutual

/-- Every step stands at the address of its node. -/
theorem exists_address_of_mem (address : List ℕ) (previous : Option Tree) :
    ∀ t : Tree, ∀ entry ∈ t.addressed address previous,
      ∃ inner, entry.1 = address ++ inner ∧ t.at? inner = some entry.2.visit.tree
  | .node kind named start stop field children, entry, hentry => by
    rw [addressed, List.mem_cons, List.mem_append, List.mem_singleton] at hentry
    rcases hentry with rfl | hbelow | rfl
    · exact ⟨[], (List.append_nil address).symm, rfl⟩
    · obtain ⟨i, inner, hentry, hat⟩ := exists_place_of_mem address 0 none children entry hbelow
      exact ⟨i :: inner, by rw [hentry, Nat.zero_add], hat⟩
    · exact ⟨[], (List.append_nil address).symm, rfl⟩

theorem exists_place_of_mem (address : List ℕ) (place : ℕ) (previous : Option Tree) :
    ∀ ts : List Tree, ∀ entry ∈ addressedAll address place previous ts,
      ∃ i inner, entry.1 = address ++ (place + i) :: inner ∧
        (ts.filter isNamed)[i]?.bind (·.at? inner) = some entry.2.visit.tree
  | [], entry, hentry => by cases hentry
  | t :: ts, entry, hentry => by
    rw [addressedAll] at hentry
    split at hentry
    · rename_i ht
      rw [List.filter_cons_of_pos ht]
      rcases List.mem_append.mp hentry with hfirst | hrest
      · obtain ⟨inner, hentry, hat⟩ := exists_address_of_mem _ previous t entry hfirst
        exact ⟨0, inner, by simpa using hentry, hat⟩
      · obtain ⟨i, inner, hentry, hat⟩ := exists_place_of_mem address _ (some t) ts entry hrest
        exact ⟨i + 1, inner, by rw [hentry, Nat.add_assoc, Nat.add_comm 1], hat⟩
    · rename_i ht
      rw [List.filter_cons_of_neg ht]
      exact exists_place_of_mem address place previous ts entry hentry

end

/-- The steps of a child stand together, and the steps around them at other places. -/
theorem addressedAll_split (address : List ℕ) {child : Tree} :
    ∀ (ts : List Tree) (place : ℕ) (previous : Option Tree) (i : ℕ),
      (ts.filter isNamed)[i]? = some child →
      ∃ before earlier rest,
        addressedAll address place previous ts =
          before ++ (child.addressed (address ++ [place + i]) earlier ++ rest) ∧
        ∀ entry ∈ before ++ rest, ¬ address ++ [place + i] <+: entry.1
  | [], _, _, _, h => by simp at h
  | t :: ts, place, previous, i, h => by
    rw [addressedAll]
    split
    · rename_i ht
      rw [List.filter_cons_of_pos ht] at h
      cases i with
      | zero =>
        obtain rfl : t = child := by simpa using h
        refine ⟨[], previous, addressedAll address (place + 1) (some t) ts, rfl, ?_⟩
        -- later children have greater places
        rintro entry hentry ⟨more, hmore⟩
        obtain ⟨j, inner, hplace, -⟩ := exists_place_of_mem address _ _ ts entry hentry
        rw [hplace, List.append_assoc] at hmore
        have := (List.cons.inj (List.append_cancel_left hmore)).1
        omega
      | succ i =>
        obtain ⟨before, earlier, rest, hsplit, hapart⟩ :=
          addressedAll_split address ts (place + 1) (some t) i (by simpa using h)
        have hi : place + 1 + i = place + (i + 1) := by omega
        rw [hi] at hsplit hapart
        refine ⟨t.addressed (address ++ [place]) previous ++ before, earlier, rest, ?_, ?_⟩
        · rw [hsplit, List.append_assoc]
        · intro entry hentry
          rw [List.append_assoc] at hentry
          rcases List.mem_append.mp hentry with hfirst | hother
          · -- the first child has a smaller place
            rintro ⟨more, hmore⟩
            obtain ⟨inner, hplace, -⟩ := exists_address_of_mem _ _ t entry hfirst
            rw [hplace, List.append_assoc, List.append_assoc] at hmore
            have := (List.cons.inj (List.append_cancel_left hmore)).1
            omega
          · exact hapart entry hother
    · rename_i ht
      rw [List.filter_cons_of_neg ht] at h
      exact addressedAll_split address ts place previous i h

/-- Among some steps, the node at an address is entered once and left once, and the steps
between are those of the nodes below it. -/
def IsBracketed (steps : List (List ℕ × Step)) (address : List ℕ) (t : Tree) : Prop :=
  ∃ before v inside rest,
    v.tree = t ∧
    steps = before ++ (address, .enter v) :: (inside ++ (address, .leave v) :: rest) ∧
    (∀ entry ∈ inside, address <+: entry.1 ∧ entry.1 ≠ address) ∧
    ∀ entry ∈ before ++ rest, ¬ address <+: entry.1

theorem isBracketed_addressed (t : Tree) (address : List ℕ) (previous : Option Tree) :
    IsBracketed (t.addressed address previous) address t := by
  cases t with
  | node kind named start stop field children =>
    rw [addressed]
    refine ⟨[], ⟨.node kind named start stop field children, previous⟩, _, [], rfl, rfl, ?_, ?_⟩
    · intro entry hentry
      obtain ⟨i, inner, hplace, -⟩ := exists_place_of_mem address 0 none children entry hentry
      refine ⟨⟨_, hplace.symm⟩, fun heq => ?_⟩
      rw [hplace] at heq
      exact List.cons_ne_nil _ _ (List.append_right_eq_self.mp heq)
    · simp

/-- Steps at other places do not disturb the brackets of a node. -/
theorem IsBracketed.extend {steps : List (List ℕ × Step)} {address : List ℕ} {t : Tree}
    (h : IsBracketed steps address t) (first last : List (List ℕ × Step))
    (hapart : ∀ entry ∈ first ++ last, ¬ address <+: entry.1) :
    IsBracketed (first ++ (steps ++ last)) address t := by
  obtain ⟨before, v, inside, rest, hv, rfl, hinside, haround⟩ := h
  refine ⟨first ++ before, v, inside, rest ++ last, hv, by simp, hinside, ?_⟩
  intro entry hentry
  simp only [List.mem_append] at hentry hapart haround
  rcases hentry with (hfirst | hbefore) | hrest | hlast
  · exact hapart entry (.inl hfirst)
  · exact haround entry (.inl hbefore)
  · exact haround entry (.inr hrest)
  · exact hapart entry (.inr hlast)

/-- The schedule of a tree is bracketed at every node. -/
theorem isBracketed_of_at? {t u : Tree} {inner : List ℕ} (h : t.at? inner = some u)
    (address : List ℕ) (previous : Option Tree) :
    IsBracketed (t.addressed address previous) (address ++ inner) u := by
  induction inner generalizing t address previous with
  | nil =>
    obtain rfl : t = u := Option.some.inj h
    rw [List.append_nil]
    exact t.isBracketed_addressed address previous
  | cons i inner ih =>
    obtain ⟨child, hchild, hat⟩ := Option.bind_eq_some_iff.mp h
    cases t with
    | node kind named start stop field children =>
      obtain ⟨before, earlier, rest, hsplit, hapart⟩ :=
        addressedAll_split address children 0 none i hchild
      rw [Nat.zero_add] at hsplit hapart
      have hbelow := ih hat (address ++ [i]) earlier
      rw [List.append_assoc, List.singleton_append] at hbelow
      -- neither the other children nor the node itself stand below the child's place
      have hsibling : ∀ entry ∈ before ++ rest, ¬ address ++ i :: inner <+: entry.1 := by
        intro entry hentry hinside
        exact hapart entry hentry (List.IsPrefix.trans ⟨inner, by simp⟩ hinside)
      have hparent : ∀ entry : List ℕ × Step, entry.1 = address →
          ¬ address ++ i :: inner <+: entry.1 := by
        rintro entry heq ⟨more, hmore⟩
        rw [heq, List.append_assoc] at hmore
        exact List.cons_ne_nil _ _ (List.append_right_eq_self.mp hmore)
      let own : Visit := ⟨.node kind named start stop field children, previous⟩
      have hapart' : ∀ entry ∈
          ((address, .enter own) :: before) ++ (rest ++ [(address, .leave own)]),
          ¬ address ++ i :: inner <+: entry.1 := by
        intro entry hentry
        simp only [List.mem_append, List.mem_cons, List.not_mem_nil, or_false] at hentry hsibling
        rcases hentry with (rfl | hbefore) | hrest | rfl
        · exact hparent _ rfl
        · exact hsibling entry (.inl hbefore)
        · exact hsibling entry (.inr hrest)
        · exact hparent _ rfl
      have hwhole := hbelow.extend _ _ hapart'
      rw [addressed, hsplit]
      simpa [own] using hwhole

end Tree

/-! ### Extractions and detections -/

/-- Visitors are led through a tree by recursion. -/
theorem Php.visit_eq_descend (f : SourceFile) (root : Tree) (visitors : List Php.Visitor) :
    Php.visit f root visitors = root.descend (Php.Team.step f) none (.start visitors) := by
  rw [Php.visit, Walk.fold_eq_foldl, Tree.descend_eq]

/-- The items of a script are those of its nodes, in the order of the source. -/
theorem Script.detect_eq (f : SourceFile) (root : Tree) :
    Script.detect f root = root.preorder.flatMap (Script.itemsAt f) := by
  -- the items are collected in reverse
  have hfold : ∀ (nodes : List Tree) (found : List Script.Item),
      nodes.foldl (fun found t => (Script.itemsAt f t).reverse ++ found) found =
        (nodes.flatMap (Script.itemsAt f)).reverse ++ found := by
    intro nodes
    induction nodes with
    | nil => simp
    | cons t rest ih =>
      intro found
      simp [ih]
  rw [Script.detect, Walk.foldNodes_eq, List.flatMap_singleton, hfold, List.append_nil,
    List.reverse_reverse]

/-! ### Both walks -/

end PluginAtlas
