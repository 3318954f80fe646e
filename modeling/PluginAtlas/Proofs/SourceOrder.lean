import PluginAtlas.Proofs.SourcePreviews

/-!
# The order of items in the source

A script's tree is walked from the front to the back, and a node shows its own items before
those below it. As long as nodes lie within their parents, nothing below a node begins before
it, so that a node which shows an item for itself keeps the order of the lines.

A declaration is different. It shows the components of all its declarators at once, before the
walk comes to the first of them, so that a component overtakes what stands in the declarators
in front of it. This is the only way in which the items of a script leave the order of their
lines, as long as the children of a node do not reach into each other.

## Main definitions

* `Tree.IsNested`, `Tree.IsDivided`: how the nodes of a tree lie in the source.
* `LinesAscend`: items in the order of their lines.
* `Overtakes`: a declaration that shows a component too early.
* `KeepsApart`: a node whose children show their items one child after the other.

## Main results

* `itemsAt_line`, `itemsAt_declaration`: the lines of what a node shows.
* `lineOf_le`, `le_endLineOf`: the items of a tree stand on its lines.
* `linesAscend_step`: when the items of a node are in order if those of its children are.
* `linesAscend_iff_not_overtakes`: when the items of a tree are in order.
-/

namespace PluginAtlas

/-! ### Nodes in the source -/

namespace Tree

mutual

/-- What passes from the named children of a node to the node holds of all trees. -/
theorem of_namedChildren {motive : Tree → Prop}
    (step : ∀ t, (∀ c ∈ t.namedChildren, motive c) → motive t) : ∀ t : Tree, motive t
  | .node _ _ _ _ _ children =>
    step _ fun c hc => of_mem_children step children c (List.mem_filter.mp hc).1

theorem of_mem_children {motive : Tree → Prop}
    (step : ∀ t, (∀ c ∈ t.namedChildren, motive c) → motive t) :
    ∀ ts : List Tree, ∀ c ∈ ts, motive c
  | [], _, hc => absurd hc List.not_mem_nil
  | t :: ts, c, hc => by
    rcases List.mem_cons.mp hc with heq | hc
    · rw [heq]
      exact of_namedChildren step t
    · exact of_mem_children step ts c hc

end

variable {t u c root : Tree}

theorem mem_preorder_iff : u ∈ t.preorder ↔ u = t ∨ ∃ c ∈ t.namedChildren, u ∈ c.preorder := by
  rw [preorder_eq, List.mem_cons, List.mem_flatMap]

theorem self_mem_preorder (t : Tree) : t ∈ t.preorder := mem_preorder_iff.mpr (.inl rfl)

theorem forall_mem_preorder_iff {p : Tree → Prop} :
    (∀ u ∈ t.preorder, p u) ↔ p t ∧ ∀ c ∈ t.namedChildren, ∀ u ∈ c.preorder, p u := by
  rw [preorder_eq, List.forall_mem_cons, List.forall_mem_flatMap]

theorem mem_preorder_trans {v : Tree} (hu : u ∈ t.preorder) (hv : v ∈ u.preorder) :
    v ∈ t.preorder := by
  induction t using of_namedChildren with
  | step t ih =>
    rcases mem_preorder_iff.mp hu with rfl | ⟨c, hc, hbelow⟩
    · exact hv
    · exact mem_preorder_iff.mpr (.inr ⟨c, hc, ih c hc hbelow⟩)

theorem mem_preorder_of_child (hu : u ∈ t.preorder) (hc : c ∈ u.namedChildren) :
    c ∈ t.preorder :=
  mem_preorder_trans hu (mem_preorder_iff.mpr (.inr ⟨c, hc, self_mem_preorder c⟩))

/-- A node whose children lie within it, in the order of their beginnings. -/
def Nests (t : Tree) : Prop :=
  (∀ c ∈ t.namedChildren, t.start ≤ c.start ∧ c.stop ≤ t.stop) ∧
    t.namedChildren.Pairwise fun c d => c.start ≤ d.start

/-- A tree whose nodes hold their children in order. -/
def IsNested (root : Tree) : Prop := ∀ t ∈ root.preorder, t.Nests

/-- A tree in which no node ends before it begins, and every child of a node ends before the
next one begins. -/
def IsDivided (root : Tree) : Prop :=
  ∀ t ∈ root.preorder, t.start ≤ t.stop ∧ t.namedChildren.Pairwise fun c d => c.stop ≤ d.start

instance (t : Tree) : Decidable t.Nests := inferInstanceAs (Decidable (_ ∧ _))

instance (root : Tree) : Decidable root.IsNested :=
  inferInstanceAs (Decidable (∀ t ∈ root.preorder, t.Nests))

instance (root : Tree) : Decidable root.IsDivided :=
  inferInstanceAs (Decidable (∀ t ∈ root.preorder, t.start ≤ t.stop ∧ _))

theorem IsNested.below (h : t.IsNested) (hu : u ∈ t.preorder) : u.IsNested :=
  fun _ hv => h _ (mem_preorder_trans hu hv)

theorem IsNested.child (h : t.IsNested) (hc : c ∈ t.namedChildren) : c.IsNested :=
  h.below (mem_preorder_of_child (self_mem_preorder t) hc)

theorem IsNested.nests (h : t.IsNested) : t.Nests := h t (self_mem_preorder t)

/-- All nodes of a tree lie within it. -/
theorem IsNested.within (h : t.IsNested) (hu : u ∈ t.preorder) :
    t.start ≤ u.start ∧ u.stop ≤ t.stop := by
  induction t using of_namedChildren with
  | step t ih =>
    rcases mem_preorder_iff.mp hu with rfl | ⟨c, hc, hbelow⟩
    · exact ⟨Nat.le_refl _, Nat.le_refl _⟩
    · obtain ⟨hstart, hstop⟩ := h.nests.1 c hc
      obtain ⟨hlow, hhigh⟩ := ih c hc (h.child hc) hbelow
      exact ⟨hstart.trans hlow, hhigh.trans hstop⟩

end Tree

namespace Script

variable {f : SourceFile} {t c d : Tree}

/-! ### The lines of what a node shows -/

theorem functionItems_line {item : Item} (h : item ∈ functionItems f t) :
    item.line.line = f.lineOf t := by
  by_cases hname : nameOf f t = ""
  · simp [functionItems, hname] at h
  · simp only [functionItems, hname, if_false, List.mem_singleton] at h
    rw [h]
    rfl

theorem classItems_line {item : Item} (h : item ∈ classItems f t) :
    item.line.line = f.lineOf t := by
  by_cases hname : nameOf f t = ""
  · simp [classItems, hname] at h
  · simp only [classItems, hname, if_false, List.mem_singleton] at h
    rw [h]
    rfl

theorem reactHookItem?_line {name : String} {first : Option Tree} {line : Nat} {item : Item}
    (h : reactHookItem? f name first line = some item) : item.line.line = line := by
  unfold reactHookItem? at h
  dsimp only at h
  split_ifs at h <;> cases h <;> rfl

theorem namedCallItem?_line {name : String} {arguments : List Tree} {line : Nat} {item : Item}
    (h : namedCallItem? f name arguments line = some item) : item.line.line = line := by
  unfold namedCallItem? at h
  dsimp only at h
  split at h
  · obtain ⟨block, -, rfl⟩ := Option.map_eq_some_iff.mp h
    rfl
  split at h
  · obtain ⟨hook, -, rfl⟩ := Option.map_eq_some_iff.mp h
    rfl
  split at h
  · obtain ⟨path, -, rfl⟩ := Option.map_eq_some_iff.mp h
    rfl
  split at h
  · cases h
    rfl
  split at h
  · cases h
    rfl
  split at h
  · cases h
    rfl
  · exact reactHookItem?_line h

theorem callItem?_line {item : Item} (h : callItem? f t = some item) :
    item.line.line = f.lineOf t := by
  simp only [callItem?, Option.bind_eq_bind, Option.bind_eq_some_iff] at h
  obtain ⟨function, -, name, -, h⟩ := h
  split at h
  · cases h
  · exact namedCallItem?_line h

theorem importItem?_line {item : Item} (h : importItem? f t = some item) :
    item.line.line = f.lineOf t := by
  simp only [importItem?, Option.bind_eq_bind, Option.bind_eq_some_iff] at h
  obtain ⟨name, -, h⟩ := h
  split at h <;> cases h
  rfl

theorem defaultExportItem?_line {item : Item} (h : defaultExportItem? f t = some item) :
    item.line.line = f.lineOf t := by
  unfold defaultExportItem? at h
  split at h
  · simp only [Option.bind_eq_bind, Option.bind_eq_some_iff] at h
    obtain ⟨_, -, value, -, h⟩ := h
    split at h <;> cases h
    rfl
  · cases h

theorem declaratorItem?_line {item : Item} (h : declaratorItem? f t = some item) :
    item.line.line = f.lineOf t := by
  unfold declaratorItem? at h
  split at h
  · cases h
  · simp only [Option.bind_eq_bind, Option.bind_eq_some_iff] at h
    obtain ⟨name, -, _, -, value, -, h⟩ := h
    split at h <;> cases h
    rfl

/-- A node that declares variables. -/
def IsDeclaration (t : Tree) : Prop :=
  t.kind = "lexical_declaration" ∨ t.kind = "variable_declaration"

theorem itemsAt_declaration (h : IsDeclaration t) :
    itemsAt f t = t.namedChildren.filterMap (declaratorItem? f) := by
  rcases h with h | h <;> simp [itemsAt, h]

/-- What a node other than a declaration shows stands where the node begins. -/
theorem itemsAt_line (h : ¬ IsDeclaration t) {item : Item} (hitem : item ∈ itemsAt f t) :
    item.line.line = f.lineOf t := by
  unfold itemsAt at hitem
  dsimp only at hitem
  split_ifs at hitem with _ _ hdeclaration
  · exact functionItems_line hitem
  · exact classItems_line hitem
  · exact absurd (by simpa [IsDeclaration] using hdeclaration) h
  · exact callItem?_line (Option.mem_toList.mp hitem)
  · exact importItem?_line (Option.mem_toList.mp hitem)
  · exact defaultExportItem?_line (Option.mem_toList.mp hitem)
  · cases hitem

/-- An item of a tree stands where a node of the tree begins. -/
theorem exists_node_of_mem_detect {item : Item} (h : item ∈ detect f t) :
    ∃ u ∈ t.preorder, item.line.line = f.lineOf u := by
  rw [detect_eq, List.mem_flatMap] at h
  obtain ⟨u, hu, hitem⟩ := h
  by_cases hdeclaration : IsDeclaration u
  · rw [itemsAt_declaration hdeclaration, List.mem_filterMap] at hitem
    obtain ⟨d, hd, hitem⟩ := hitem
    exact ⟨d, Tree.mem_preorder_of_child hu hd, declaratorItem?_line hitem⟩
  · exact ⟨u, hu, itemsAt_line hdeclaration hitem⟩

/-- No item of a tree stands in front of the tree. -/
theorem lineOf_le (h : t.IsNested) {item : Item} (hitem : item ∈ detect f t) :
    f.lineOf t ≤ item.line.line := by
  obtain ⟨u, hu, hline⟩ := exists_node_of_mem_detect hitem
  rw [hline]
  exact SourceFile.lineAt_mono (h.within hu).1

/-- No item of a tree stands behind the tree. -/
theorem le_endLineOf (h : t.IsNested) (hspan : ∀ u ∈ t.preorder, u.start ≤ u.stop) {item : Item}
    (hitem : item ∈ detect f t) : item.line.line ≤ f.endLineOf t := by
  obtain ⟨u, hu, hline⟩ := exists_node_of_mem_detect hitem
  rw [hline]
  exact SourceFile.lineAt_mono ((hspan u hu).trans (h.within hu).2)

/-! ### The order of the lines -/

/-- Items in the order of their lines. -/
def LinesAscend (items : List Item) : Prop :=
  items.Pairwise fun a b => a.line.line ≤ b.line.line

theorem linesAscend_iff_map {items : List Item} :
    LinesAscend items ↔ (items.map (·.line.line)).Pairwise (· ≤ ·) :=
  List.pairwise_map.symm

/-- A declaration with a component behind an item that stands on an earlier line, in another
declarator. -/
def Overtakes (f : SourceFile) (t : Tree) : Prop :=
  IsDeclaration t ∧ ∃ before d after, t.namedChildren = before ++ d :: after ∧
    (declaratorItem? f d).isSome ∧ ∃ c ∈ before, ∃ item ∈ detect f c, item.line.line < f.lineOf d

/-- The items of each child stand before those of the children behind it. -/
def KeepsApart (f : SourceFile) (t : Tree) : Prop :=
  t.namedChildren.Pairwise fun c d =>
    ∀ a ∈ detect f c, ∀ b ∈ detect f d, a.line.line ≤ b.line.line

/-- The items of a tree are those of its root and then those below its children. -/
theorem detect_step (f : SourceFile) (t : Tree) :
    detect f t = itemsAt f t ++ t.namedChildren.flatMap (detect f) := by
  have hbelow : detect f = fun c => c.preorder.flatMap (itemsAt f) := funext (detect_eq f)
  rw [detect_eq, Tree.preorder_eq, List.flatMap_cons, List.flatMap_assoc, hbelow]

/-- The items that a node shows by itself are in order. -/
theorem linesAscend_itemsAt (h : t.Nests) : LinesAscend (itemsAt f t) := by
  by_cases hdeclaration : IsDeclaration t
  · rw [LinesAscend, itemsAt_declaration hdeclaration, List.pairwise_filterMap]
    refine h.2.imp fun {c d} hstart a ha b hb => ?_
    rw [declaratorItem?_line ha, declaratorItem?_line hb]
    exact SourceFile.lineAt_mono hstart
  · apply List.pairwise_of_forall_mem_list
    intro a ha b hb
    rw [itemsAt_line hdeclaration ha, itemsAt_line hdeclaration hb]

/-- Only by overtaking does an item of a node come before an item below it that stands on an
earlier line. -/
theorem itemsAt_ahead_iff (h : t.IsNested) :
    (∀ a ∈ itemsAt f t, ∀ b ∈ t.namedChildren.flatMap (detect f), a.line.line ≤ b.line.line) ↔
      ¬ Overtakes f t := by
  constructor
  · rintro hahead ⟨hdeclaration, before, d, after, hsplit, hd, c, hc, item, hitem, hlt⟩
    obtain ⟨shown, hshown⟩ := Option.isSome_iff_exists.mp hd
    have hown : shown ∈ itemsAt f t := by
      rw [itemsAt_declaration hdeclaration, hsplit]
      exact List.mem_filterMap.mpr ⟨d, List.mem_append_right _ List.mem_cons_self, hshown⟩
    have hbelow : item ∈ t.namedChildren.flatMap (detect f) := by
      rw [hsplit]
      exact List.mem_flatMap.mpr ⟨c, List.mem_append_left _ hc, hitem⟩
    have hle := hahead shown hown item hbelow
    rw [declaratorItem?_line hshown] at hle
    omega
  · intro hnot a ha b hb
    obtain ⟨c, hc, hb⟩ := List.mem_flatMap.mp hb
    have hbelow := lineOf_le (h.child hc) hb
    by_cases hdeclaration : IsDeclaration t
    · rw [itemsAt_declaration hdeclaration, List.mem_filterMap] at ha
      obtain ⟨d, hd, ha⟩ := ha
      rw [declaratorItem?_line ha]
      obtain ⟨before, after, hsplit⟩ := List.append_of_mem hd
      have hstarts := h.nests.2
      rw [hsplit] at hc hstarts
      -- an item in front of the declarator must not stand on an earlier line
      rcases List.mem_append.mp hc with hc | hc
      · by_contra hlt
        exact hnot ⟨hdeclaration, before, d, after, hsplit, Option.isSome_iff_exists.mpr ⟨a, ha⟩,
          c, hc, b, hb, Nat.lt_of_not_le hlt⟩
      · have hstart : d.start ≤ c.start := by
          rcases List.mem_cons.mp hc with rfl | hc
          · exact Nat.le_refl _
          · exact List.rel_of_pairwise_cons (List.pairwise_append.mp hstarts).2.1 hc
        exact (SourceFile.lineAt_mono hstart).trans hbelow
    · rw [itemsAt_line hdeclaration ha]
      exact (SourceFile.lineAt_mono (h.nests.1 c hc).1).trans hbelow

/-- A node keeps the order of the items below it, unless it overtakes some of them or its
children reach into each other. -/
theorem linesAscend_step (h : t.IsNested) :
    LinesAscend (detect f t) ↔
      (¬ Overtakes f t ∧ KeepsApart f t) ∧ ∀ c ∈ t.namedChildren, LinesAscend (detect f c) := by
  rw [← itemsAt_ahead_iff h, LinesAscend, detect_step, List.pairwise_append, List.pairwise_flatMap]
  constructor
  · rintro ⟨-, ⟨hbelow, hapart⟩, hahead⟩
    exact ⟨⟨hahead, hapart⟩, hbelow⟩
  · rintro ⟨⟨hahead, hapart⟩, hbelow⟩
    exact ⟨linesAscend_itemsAt h.nests, ⟨hbelow, hapart⟩, hahead⟩

theorem linesAscend_detect_iff (h : t.IsNested) :
    LinesAscend (detect f t) ↔ ∀ u ∈ t.preorder, ¬ Overtakes f u ∧ KeepsApart f u := by
  induction t using Tree.of_namedChildren with
  | step t ih =>
    rw [linesAscend_step h, Tree.forall_mem_preorder_iff]
    refine and_congr_right fun _ => forall₂_congr fun c hc => ?_
    exact ih c hc (h.child hc)

/-- Children that end before the next one begins keep their items apart. -/
theorem keepsApart_of_isDivided (h : t.IsNested) (hdivided : t.IsDivided) : KeepsApart f t := by
  refine (hdivided t (Tree.self_mem_preorder t)).2.imp_of_mem fun {c d} hc hd hstop a ha b hb => ?_
  have hspan : ∀ u ∈ c.preorder, u.start ≤ u.stop := fun u hu =>
    (hdivided u (Tree.mem_preorder_iff.mpr (.inr ⟨c, hc, hu⟩))).1
  calc a.line.line
    _ ≤ f.endLineOf c := le_endLineOf (h.child hc) hspan ha
    _ ≤ f.lineOf d := SourceFile.lineAt_mono hstop
    _ ≤ b.line.line := lineOf_le (h.child hd) hb

/-- The items of a tree are in the order of their lines exactly if no declaration shows a
component too early and no node has children whose items are mixed. The latter does not happen
where children end before the next one begins. -/
theorem linesAscend_iff_not_overtakes (f : SourceFile) (root : Tree) (h : root.IsNested) :
    (LinesAscend (detect f root) ↔
      ∀ t ∈ root.preorder, ¬ Overtakes f t ∧ KeepsApart f t) ∧
    (root.IsDivided → ∀ t ∈ root.preorder, KeepsApart f t) := by
  refine ⟨linesAscend_detect_iff h, fun hdivided t ht => ?_⟩
  exact keepsApart_of_isDivided (h.below ht) fun u hu => hdivided u (Tree.mem_preorder_trans ht hu)

/-- A script with a component in front of a request. -/
def orderedScript : SourceFile where
  path := "a.jsx"
  source := "let A = () => <b/>,\nb = fetch(u);\n"

theorem linesAscend_iff_not_overtakes_ordered :
    let root := parse (.ofPath orderedScript.path) orderedScript.source
    root.IsNested ∧ (detect orderedScript root).map (·.line.line) = [1, 2] ∧
      ∀ t ∈ root.preorder, ¬ Overtakes orderedScript t := by
  intro root
  obtain ⟨hnested, hlines⟩ : root.IsNested ∧
      (detect orderedScript root).map (·.line.line) = [1, 2] := by decide +kernel
  have hascend : LinesAscend (detect orderedScript root) := by
    rw [linesAscend_iff_map, hlines]
    decide
  obtain ⟨hiff, -⟩ := linesAscend_iff_not_overtakes orderedScript root hnested
  exact ⟨hnested, hlines, fun t ht => (hiff.mp hascend t ht).1⟩

/-- A script with a component behind a request, in the same declaration. -/
def overtakenScript : SourceFile where
  path := "a.jsx"
  source := "let a = fetch(u),\nB = () => <b/>;\n"

/-- The component is shown first, though it stands on the later line. -/
theorem detect_overtaken_lines :
    let root := parse (.ofPath overtakenScript.path) overtakenScript.source
    root.IsNested ∧ root.IsDivided ∧
      (detect overtakenScript root).map (·.line.line) = [2, 1] ∧
      ¬ LinesAscend (detect overtakenScript root) := by
  intro root
  obtain ⟨hnested, hdivided, hlines⟩ : root.IsNested ∧ root.IsDivided ∧
      (detect overtakenScript root).map (·.line.line) = [2, 1] := by decide +kernel
  refine ⟨hnested, hdivided, hlines, ?_⟩
  rw [linesAscend_iff_map, hlines]
  decide

end Script

end PluginAtlas
