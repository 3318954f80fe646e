import PluginAtlas.Proofs.TextLines
import PluginAtlas.Proofs.UnscannedFiles

/-!
# Previews show the declarations

The line of a node is counted in the bytes of a file, while a preview is cut out of the lines of
its text. Both agree: the line that a byte offset is counted on is the line whose bytes lie
around it. So the preview of a declaration is the block of lines that begins with the line of
its first byte and goes to the line of its end, or to the thirtieth line.

Which declarations a walk records is read off the rules, family by family: an entity of a class
or a callable is recorded for a node of the tree, with the line and the preview of this node.
The callback of a hook is not the node that the walk stands at, but lies below it.

## Main definitions

* `Tree.Has`: the nodes of a tree.
* `SourceFile.HoldsByte`, `SourceFile.IsBlock`: lines by their numbers.
* `DeclaredBy`: the node that an entity is recorded for.

## Main results

* `SourceFile.exists_holdsByte_lineAt`: a byte offset is counted on the line that holds it.
* `SourceFile.exists_previewOf_eq`: the preview of a node.
* `extract_shows`: an extraction records declarations with the previews of their nodes.
* `previews_are_blocks`: the previews of all entities that an extraction adds to a store.
-/

namespace PluginAtlas

/-! ### Nodes of a tree -/

/-- A node of a tree, named by the grammar or not. -/
inductive Tree.Has (root : Tree) : Tree → Prop
  | self : Has root root
  | child {t u : Tree} (ht : Has root t) (hu : u ∈ t.children) : Has root u

namespace Tree

variable {root t u : Tree}

theorem Has.trans (ht : root.Has t) (hu : t.Has u) : root.Has u := by
  induction hu with
  | self => exact ht
  | child _ hmem ih => exact ih.child hmem

theorem has_of_mem_children (h : t ∈ root.children) : root.Has t := .child .self h

theorem has_of_mem_namedChildren (h : t ∈ root.namedChildren) : root.Has t :=
  has_of_mem_children (List.mem_filter.mp h).1

/-- A node is the root or lies below a child of it. -/
theorem has_node_iff {kind : String} {named : Bool} {start stop : Nat} {field : Option String}
    {children : List Tree} :
    (node kind named start stop field children).Has t ↔
      t = node kind named start stop field children ∨ ∃ child ∈ children, child.Has t := by
  constructor
  · intro h
    induction h with
    | self => exact .inl rfl
    | child _ hmem ih =>
      refine .inr ?_
      rcases ih with rfl | ⟨child, hchild, hbelow⟩
      · exact ⟨_, hmem, .self⟩
      · exact ⟨child, hchild, hbelow.child hmem⟩
  · rintro (rfl | ⟨child, hchild, hbelow⟩)
    · exact .self
    · exact (has_of_mem_children hchild).trans hbelow

theorem Encloses.has (h : t.Encloses u) : t.Has u := by
  induction h with
  | self => exact .self
  | parentheses _ hfirst _ ih =>
    exact (has_of_mem_namedChildren (List.mem_of_head? hfirst)).trans ih

mutual

/-- What parentheses are opened to stands inside them. -/
theorem encloses_of_unwrap? {u : Tree} :
    ∀ t : Tree, t.unwrap? = some u → t.Encloses u
  | .node kind named start stop field children, h => by
    rw [unwrap?] at h
    split at h
    · next hkind =>
      obtain ⟨first, hfirst, hencloses⟩ := encloses_of_unwrapFirst? children h
      exact .parentheses hkind hfirst hencloses
    · obtain rfl := Option.some.inj h
      exact .self _

theorem encloses_of_unwrapFirst? {u : Tree} :
    ∀ ts : List Tree, unwrapFirst? ts = some u →
      ∃ t, (ts.filter isNamed).head? = some t ∧ t.Encloses u
  | [], h => by cases h
  | t :: ts, h => by
    rw [unwrapFirst?] at h
    cases hnamed : t.isNamed with
    | true =>
      rw [hnamed] at h
      exact ⟨t, by simp [hnamed], encloses_of_unwrap? t h⟩
    | false =>
      rw [hnamed] at h
      obtain ⟨first, hfirst, hencloses⟩ := encloses_of_unwrapFirst? ts h
      exact ⟨first, by simpa [hnamed] using hfirst, hencloses⟩

end

mutual

theorem has_of_mem_preorder {u : Tree} : ∀ t : Tree, u ∈ t.preorder → t.Has u
  | .node kind named start stop field children, h => by
    rw [preorder] at h
    rcases List.mem_cons.mp h with rfl | h
    · exact .self
    · obtain ⟨child, hchild, hbelow⟩ := has_of_mem_preorderAll children h
      exact (has_of_mem_children hchild).trans hbelow

theorem has_of_mem_preorderAll {u : Tree} :
    ∀ ts : List Tree, u ∈ preorderAll ts → ∃ t ∈ ts, t.Has u
  | [], h => by cases h
  | t :: ts, h => by
    have hrest : u ∈ preorderAll ts → ∃ t' ∈ t :: ts, t'.Has u := by
      intro h
      obtain ⟨t', ht', hbelow⟩ := has_of_mem_preorderAll ts h
      exact ⟨t', List.mem_cons_of_mem _ ht', hbelow⟩
    rw [preorderAll] at h
    split at h
    · rcases List.mem_append.mp h with h | h
      · exact ⟨t, List.mem_cons_self, has_of_mem_preorder t h⟩
      · exact hrest h
    · exact hrest h

end

/-- The values that a call passes are nodes below it. -/
theorem has_of_mem_callArguments {call argument : Tree}
    (h : argument ∈ Php.callArguments call) : call.Has argument := by
  unfold Php.callArguments at h
  split at h
  · cases h
  · next arguments harguments =>
    obtain ⟨written, hwritten, hvalue⟩ := List.mem_filterMap.mp h
    have hlist : call.Has arguments := has_of_mem_children (List.mem_of_find?_eq_some harguments)
    refine (hlist.trans (has_of_mem_namedChildren hwritten)).trans ?_
    unfold Php.argumentValue? at hvalue
    split_ifs at hvalue
    · have hpart := List.mem_of_getLast? hvalue
      exact has_of_mem_namedChildren (List.mem_filter.mp hpart).1
    · obtain rfl := Option.some.inj hvalue
      exact .self

/-- A tree whose nodes lie within a file, none of them ending before it begins. -/
def LiesIn (root : Tree) (f : SourceFile) : Prop :=
  ∀ t, root.Has t → t.start ≤ t.stop ∧ t.stop ≤ f.bytes.size

end Tree

/-! ### Lines of a file -/

namespace SourceFile

/-- The bytes that lines take up at the beginning of a file, with their line feeds. -/
def bytesOfLines (lines : List String) : List UInt8 :=
  lines.flatMap fun line => Text.encode line ++ [10]

/-- The line with a number holds a byte offset: the offset lies behind the lines in front of
it, and not behind its own end. -/
def HoldsByte (f : SourceFile) (number : Nat) (line : String) (offset : Nat) : Prop :=
  ∃ before after, f.lines = before ++ line :: after ∧ before.length + 1 = number ∧
    (bytesOfLines before).length ≤ offset ∧
    offset ≤ (bytesOfLines before).length + (Text.encode line).length

/-- Lines are those of a file from one number to another, without a gap. -/
def IsBlock (f : SourceFile) (first last : Nat) (block : List String) : Prop :=
  ∃ before after, f.lines = before ++ block ++ after ∧ before.length + 1 = first ∧
    before.length + block.length = last

variable {f : SourceFile}

/-- A byte offset is counted on the line that holds it. -/
theorem exists_holdsByte_lineAt {offset : Nat} (h : offset ≤ f.bytes.size) :
    ∃ line, f.HoldsByte (f.lineAt offset) line offset := by
  have hbytes : f.bytes = (Text.encode f.source).toArray := f.bytes_eq
  have hlineAt : f.lineAt offset = ((Text.encode f.source).take offset).count 10 + 1 := by
    simp [lineAt, hbytes]
  -- The offset divides the bytes; the line that is still open there is the one that holds it.
  obtain ⟨front, last, -, hfront, hcount, happend⟩ :=
    Text.exists_splitOn_append (10 : UInt8) ((Text.encode f.source).take offset)
  obtain ⟨first, rest, hrest⟩ := List.exists_cons_of_ne_nil
    (List.splitOn_ne_nil (10 : UInt8) ((Text.encode f.source).drop offset))
  have hlines := happend _ first rest hrest
  rw [List.take_append_drop, Text.splitOn_encode_eq_map] at hlines
  obtain ⟨before, others, hsplit, rfl, hothers⟩ := List.map_eq_append_iff.mp hlines
  obtain ⟨line, after, rfl, hline, -⟩ := List.map_eq_cons_iff.mp hothers
  have hoffset : ((Text.encode f.source).take offset).length = offset := by
    rw [List.length_take, Nat.min_eq_left]
    simpa [hbytes] using h
  rw [hfront, List.length_append, List.flatMap_map] at hoffset
  refine ⟨line, before, after, hsplit, ?_, ?_, ?_⟩
  · rw [hlineAt, ← hcount, List.length_map]
  · exact hoffset ▸ Nat.le_add_right _ _
  · rw [hline, List.length_append, bytesOfLines]
    omega

theorem lineAt_mono {a b : Nat} (h : a ≤ b) : f.lineAt a ≤ f.lineAt b := by
  have hstarts : (f.bytes.extract 0 a).toList <+: (f.bytes.extract 0 b).toList := by
    rw [Array.toList_extract, Array.toList_extract, List.extract_eq_take_drop,
      List.extract_eq_take_drop]
    exact List.take_prefix_take_left h
  exact Nat.add_le_add_right (hstarts.sublist.count_le 10) 1

/-- The preview of a node is the block of lines from the one that holds its first byte to the
one that it ends on, or up to the thirtieth. -/
theorem exists_previewOf_eq {t : Tree} (horder : t.start ≤ t.stop) (hstop : t.stop ≤ f.bytes.size) :
    ∃ line rest, f.previewOf t = some (Text.join "\n" (line :: rest)) ∧
      f.IsBlock (f.lineOf t) (min (f.endLineOf t) (f.lineOf t + 29)) (line :: rest) ∧
      f.HoldsByte (f.lineOf t) line t.start := by
  obtain ⟨line, before, after, hlines, hnumber, hholds⟩ :=
    exists_holdsByte_lineAt (f := f) (horder.trans hstop)
  obtain ⟨_, ends, _, hlast, hend, -⟩ := exists_holdsByte_lineAt (f := f) hstop
  have hmono : f.lineOf t ≤ f.endLineOf t := lineAt_mono horder
  have hfirst : f.lineOf t = before.length + 1 := hnumber.symm
  have hcount : f.endLineOf t ≤ f.lines.length := by
    rw [hlast, List.length_append, List.length_cons]
    have hend' : ends.length + 1 = f.endLineOf t := hend
    omega
  generalize hlength : min (f.endLineOf t) (f.lineOf t + 29) = final
  have hstart : before.length < final := by omega
  have hfits : final ≤ before.length + (line :: after).length := by
    rw [← List.length_append, ← hlines]
    omega
  -- The block is what is left of the lines up to the last one without the lines in front.
  have hchunk : (f.lines.take final).drop before.length =
      line :: after.take (final - before.length - 1) := by
    rw [hlines, List.take_append, List.take_of_length_le hstart.le, List.drop_left]
    obtain ⟨k, hk⟩ := Nat.exists_eq_add_of_lt hstart
    rw [show final - before.length = k + 1 by omega, List.take_succ_cons]
    rfl
  refine ⟨line, after.take (final - before.length - 1), ?_, ?_, ?_⟩
  · have hplace : cutPlace f.lines.length (min (f.endLineOf t : Int)
        ((f.lineOf t : Int) + previewLimit - 1)) = final := by
      rw [cutPlace, previewLimit, if_neg (by omega)]
      omega
    have hskip : ((f.lineOf t : Int) - 1).toNat = before.length := by omega
    have hproper : ¬ (decide ((f.lineOf t : Int) < 1) ||
        decide ((f.endLineOf t : Int) < f.lineOf t)) = true := by
      simp only [Bool.or_eq_true, decide_eq_true_eq]
      omega
    rw [previewOf, preview, previewUpTo, if_neg hproper]
    simp only [hplace, hskip, hchunk]
    rfl
  · refine ⟨before, after.drop (final - before.length - 1), ?_, hnumber, ?_⟩
    · rw [hlines]
      simp
    · rw [List.length_cons] at hfits
      simp only [List.length_cons, List.length_take]
      omega
  · exact ⟨before, after, hlines, hnumber, hholds⟩

end SourceFile

/-! ### Declarations that are recorded -/

namespace Php

/-- The kinds of entities that are declared: classes and callables. -/
def declarationKinds : List EntityKind :=
  [.classKind, .interface, .trait, .enum, .method, .function]

/-- The node that an entity is recorded for: a class, a method or a function that goes by the
name of the entity, or a closure that is registered as the callback of a hook. -/
inductive DeclaredBy (f : SourceFile) (root t : Tree) (e : Entity) : Prop
  | classLike (hkind : declaredKind? t.kind = some e.kind) (hname : e.label = Scope.nameOf f t)
  | method (hnode : t.kind = "method_declaration") (hkind : e.kind = .method)
      (hname : e.label = Scope.nameOf f t)
  | function (hnode : t.kind = "function_definition") (hkind : e.kind = .function)
      (hname : e.label = Scope.nameOf f t)
  | callback {call : Tree} (hcall : root.Has call) (hregisters : RegistersCallback f call t)
      (hnode : t.kind ∈ closureKinds) (hkind : e.kind = .function) (hsubtype : e.subtype = "closure")

/-- A finding, if it is the entity of a declaration, has the line and the preview of a node
that declares it. -/
def Shows (f : SourceFile) (root : Tree) : Finding → Prop
  | .entity e => e.kind ∈ declarationKinds → ∃ t, root.Has t ∧ DeclaredBy f root t e ∧
      e.line = f.lineOf t ∧ e.sourcePreview = f.previewOf t
  | .relation _ | .relationIfKnown _ => True

variable {f : SourceFile} {root : Tree} {s : Scope} {v : Visit}

/-- Entities of other kinds declare nothing. -/
theorem shows_of_kind {e : Entity} (h : e.kind ∉ declarationKinds) :
    Shows f root (.entity e) := fun hkind => absurd hkind h

theorem classRelations_shows {source : Ident} {kind : RelationKind} {names : List String} :
    (classRelations s source kind names).All (Shows f root) := by
  refine .sequence fun o ho => ?_
  obtain ⟨name, -, rfl⟩ := List.mem_map.mp ho
  refine .attempt fun target _ => .found fun x hx => ?_
  obtain rfl := List.mem_singleton.mp hx
  exact trivial

theorem declarations_shows (hv : root.Has v.tree) : (declarations f s v).All (Shows f root) := by
  unfold declarations
  split
  · exact .nothing
  · rename_i kind hkind
    dsimp only
    split_ifs
    · exact .nothing
    · refine .attempt fun id _ => .after (fun x hx => ?_)
        (.followedBy classRelations_shows classRelations_shows)
      obtain rfl := List.mem_singleton.mp hx
      exact fun _ => ⟨v.tree, hv, .classLike hkind rfl, rfl, rfl⟩

theorem methodDeclaration_shows (hv : root.Has v.tree) (hkind : v.tree.kind = "method_declaration") :
    (methodDeclaration f s v).All (Shows f root) := by
  unfold methodDeclaration
  dsimp only
  split
  · exact .nothing
  · split
    · exact .nothing
    · refine .after (fun x hx => ?_) (.attempt fun ownerId _ => .found fun x hx => ?_)
      · obtain rfl := List.mem_singleton.mp hx
        exact fun _ => ⟨v.tree, hv, .method hkind rfl rfl, rfl, rfl⟩
      · obtain rfl := List.mem_singleton.mp hx
        exact trivial

theorem functionDeclaration_shows (hv : root.Has v.tree)
    (hkind : v.tree.kind = "function_definition") :
    ∀ x ∈ functionDeclaration f s v, Shows f root x := by
  intro x hx
  unfold functionDeclaration at hx
  dsimp only at hx
  split_ifs at hx
  · cases hx
  · obtain rfl := List.mem_singleton.mp hx
    exact fun _ => ⟨v.tree, hv, .function hkind rfl rfl, rfl, rfl⟩

theorem staticCall_shows (t : Tree) : (staticCall f s t).All (Shows f root) := by
  unfold staticCall
  split
  · dsimp only
    split_ifs
    · exact .nothing
    · refine .attempt fun target _ => .found fun x hx => ?_
      obtain rfl := List.mem_singleton.mp hx
      exact trivial
  · exact .nothing

theorem callables_shows (hv : root.Has v.tree) : (callables f s v).All (Shows f root) := by
  unfold callables
  split_ifs with hmethod hfunction
  · exact methodDeclaration_shows hv hmethod
  · exact .found (functionDeclaration_shows hv hfunction)
  · exact staticCall_shows v.tree
  · exact .nothing

/-- The entity of a closure is recorded for the closure, wherever in its argument it stands. -/
theorem closureEntity?_shows {call argument : Tree} {e : Entity} (hcall : root.Has call)
    (hkind : call.kind = "function_call_expression")
    (hname : functionName? f call = some "add_action" ∨ functionName? f call = some "add_filter")
    (hargument : (callArguments call)[1]? = some argument)
    (h : closureEntity? f argument = some e) : Shows f root (.entity e) := by
  obtain ⟨closure, hclosure, h⟩ := Option.bind_eq_some_iff.mp h
  split_ifs at h with hnode
  obtain rfl := Option.some.inj h
  have hbelow : root.Has closure :=
    (hcall.trans (Tree.has_of_mem_callArguments (List.mem_of_getElem? hargument))).trans
      (Tree.encloses_of_unwrap? argument hclosure).has
  have hregisters : RegistersCallback f call closure := by
    refine ⟨hkind, hname, ?_⟩
    rw [hargument, Option.bind_some, hclosure]
  have hmem : closure.kind ∈ closureKinds := by
    simpa [isClosureKind, closureKinds, or_assoc] using hnode
  exact fun _ => ⟨closure, hbelow, .callback hcall hregisters hmem rfl rfl, rfl, rfl⟩

theorem name_of_registeredHook? {name kind : String} (h : registeredHook? name = some kind) :
    name = "add_action" ∨ name = "add_filter" := by
  unfold registeredHook? at h
  split_ifs at h with haction hfilter
  · exact .inl haction
  · exact .inr hfilter

theorem hookRegistration_shows {call : Tree} {kind : String} (hcall : root.Has call)
    (hkind : call.kind = "function_call_expression")
    (hname : functionName? f call = some "add_action" ∨ functionName? f call = some "add_filter") :
    (hookRegistration f s call kind).All (Shows f root) := by
  unfold hookRegistration
  split
  · exact .nothing
  · next first rest harguments =>
    refine .attempt fun priority _ => .found fun x hx => ?_
    rw [List.mem_cons, List.mem_append] at hx
    rcases hx with rfl | hx | hx
    · exact shows_of_kind (by simp [hookEntity, declarationKinds])
    · unfold callbackFindings at hx
      split at hx
      · cases hx
      · next argument hargument =>
        rcases List.mem_append.mp hx with hx | hx
        · obtain ⟨e, he, rfl⟩ := Option.map_eq_some_iff.mp (Option.mem_toList.mp hx)
          refine closureEntity?_shows hcall hkind hname ?_ he
          rw [harguments]
          exact hargument
        · obtain ⟨id, -, rfl⟩ := Option.map_eq_some_iff.mp (Option.mem_toList.mp hx)
          exact trivial
    · unfold handlerFindings at hx
      split at hx
      · cases hx
      · cases hx
      · obtain rfl := List.mem_singleton.mp hx
        exact trivial

theorem hookTrigger_shows (call : Tree) (kind : String) :
    ∀ x ∈ hookTrigger f s call kind, Shows f root x := by
  intro x hx
  unfold hookTrigger at hx
  split at hx
  · cases hx
  · rcases List.mem_cons.mp hx with rfl | hx
    · exact shows_of_kind (by simp [hookEntity, declarationKinds])
    · obtain ⟨caller, -, rfl⟩ := Option.map_eq_some_iff.mp (Option.mem_toList.mp hx)
      exact trivial

theorem hooks_shows (hv : root.Has v.tree) : (hooks f s v).All (Shows f root) := by
  unfold hooks
  split
  · exact .nothing
  · next hkind =>
    split
    · exact .nothing
    · next name hname =>
      split
      · next kind hregistered =>
        refine hookRegistration_shows hv (not_not.mp hkind) ?_
        rw [hname]
        exact (name_of_registeredHook? hregistered).imp (congrArg some) (congrArg some)
      · exact .found (hookTrigger_shows _ _)
      · exact .nothing

theorem storage_shows : (storage f s v).All (Shows f root) := by
  unfold storage
  split
  · exact .nothing
  · refine .found fun x hx => ?_
    rcases List.mem_cons.mp hx with rfl | hx
    · exact shows_of_kind (by simp [declarationKinds])
    · obtain ⟨caller, -, rfl⟩ := Option.map_eq_some_iff.mp (Option.mem_toList.mp hx)
      exact trivial

theorem entryPointEntity?_notMem {call : Tree} {arguments : List Tree} {point : EntryPoint}
    {e : Entity} (h : entryPointEntity? f call arguments point = some e) :
    e.kind ∉ declarationKinds := by
  cases point with
  | restRoute => cases h
  | httpCall method =>
    rw [← Option.some.inj h]
    simp [declarationKinds]
  | shortcode | adminPage _ _ | cronJob _ | postType | taxonomy =>
    obtain ⟨name, -, h⟩ := Option.bind_eq_some_iff.mp h
    rw [← Option.some.inj h]
    simp [declarationKinds]
  | ajaxHook =>
    obtain ⟨hook, -, h⟩ := Option.bind_eq_some_iff.mp h
    obtain ⟨action, -, h⟩ := Option.bind_eq_some_iff.mp h
    split_ifs at h
    rw [← Option.some.inj h]
    simp [declarationKinds]

theorem entryPoints_shows : (entryPoints f s v).All (Shows f root) := by
  unfold entryPoints
  split
  · exact .nothing
  · split
    · exact .nothing
    · unfold restRoute
      split
      · refine .attempt fun methods _ => .found fun x hx => ?_
        obtain ⟨method, -, rfl⟩ := List.mem_map.mp hx
        exact shows_of_kind (by simp [declarationKinds])
      · exact .nothing
    · refine .found fun x hx => ?_
      obtain ⟨e, he, rfl⟩ := Option.map_eq_some_iff.mp (Option.mem_toList.mp hx)
      exact shows_of_kind (entryPointEntity?_notMem he)

theorem includes_shows : (includes f s v).All (Shows f root) := by
  refine includes_all (shows_of_kind ?_) fun line path? => ⟨shows_of_kind ?_, trivial⟩
  · simp [ownEntity, declarationKinds]
  · simp [includedEntity_kind, declarationKinds]

/-- An extraction records declarations with the lines and the previews of their nodes. -/
theorem extract_shows (families : List Family) (f : SourceFile) (root : Tree) :
    (extract families f root).All (Shows f root) := by
  rw [extract_eq_sequence]
  refine .sequence fun o ho => ?_
  obtain ⟨visit, hvisit, rfl⟩ := List.mem_map.mp ho
  have hv : root.Has visit.2.tree := Tree.has_of_mem_preorder root (tree_mem_preorder hvisit)
  refine .sequence fun o ho => ?_
  obtain ⟨family, -, rfl⟩ := List.mem_map.mp ho
  cases family with
  | declarations => exact declarations_shows hv
  | callables => exact callables_shows hv
  | hooks => exact hooks_shows hv
  | storage => exact storage_shows
  | entryPoints => exact entryPoints_shows (s := visit.1)
  | includes => exact includes_shows (s := visit.1)

/-- Previews are exact. Whatever families of rules go through a tree whose nodes lie within the
bytes of the file, every class and callable that they add to a store has a preview: the lines of
the file from the line of the entity to the line on which its node ends, or up to the thirtieth.
The first of them holds the first byte of the node. -/
theorem previews_are_blocks (families : List Family) (f : SourceFile) (root : Tree)
    (hroot : root.LiesIn f) (store : Store) (e : Entity)
    (he : e ∈ (store.recordAll (extract families f root).findings).entities)
    (hnew : e ∉ store.entities) (hkind : e.kind ∈ declarationKinds) :
    ∃ t, root.Has t ∧ DeclaredBy f root t e ∧ e.line = f.lineOf t ∧
      (∃ final, f.HoldsByte (f.endLineOf t) final t.stop) ∧
      ∃ line rest, e.sourcePreview = some (Text.join "\n" (line :: rest)) ∧
        f.IsBlock e.line (min (f.endLineOf t) (e.line + 29)) (line :: rest) ∧
        (line :: rest).length ≤ 30 ∧ f.HoldsByte e.line line t.start := by
  have hfound : Finding.entity e ∈ (extract families f root).findings :=
    (Store.mem_entities_recordAll he).resolve_left hnew
  obtain ⟨t, ht, hdeclared, hline, hpreview⟩ := extract_shows families f root _ hfound hkind
  obtain ⟨horder, hstop⟩ := hroot t ht
  obtain ⟨line, rest, hshown, hblock, hholds⟩ := SourceFile.exists_previewOf_eq horder hstop
  rw [← hline] at hblock hholds
  refine ⟨t, ht, hdeclared, hline, SourceFile.exists_holdsByte_lineAt hstop, line, rest,
    hpreview.trans hshown, hblock, ?_, hholds⟩
  obtain ⟨before, -, -, hfirst, hlast⟩ := hblock
  omega

/-- A file in which bytes and characters are counted differently. -/
def accentedFile : SourceFile where
  path := "/p/a.php"
  source := "<?php // é\nfunction f() \x7b\n\x7d"

/-- The tree of the file: a function with its name. -/
def accentedProgram : Tree :=
  .node "program" true 0 28 none
    [.node "function_definition" true 12 28 none [.node "name" true 21 22 (some "name") []]]

theorem previews_are_blocks_accented :
    accentedProgram.LiesIn accentedFile ∧
    ∃ e ∈ (Store.empty.recordAll (extract [.callables] accentedFile accentedProgram).findings).entities,
      e.kind = .function ∧ e.line = 2 ∧ e.sourcePreview = some "function f() \x7b\n\x7d" ∧
      ∃ t line rest, accentedProgram.Has t ∧
        e.sourcePreview = some (Text.join "\n" (line :: rest)) ∧
        accentedFile.IsBlock e.line (min (accentedFile.endLineOf t) (e.line + 29)) (line :: rest) ∧
        accentedFile.HoldsByte e.line line t.start := by
  have hsize : accentedFile.bytes.size = 28 := by decide +kernel
  have hroot : accentedProgram.LiesIn accentedFile := by
    intro t ht
    rw [hsize]
    simp only [accentedProgram, Tree.has_node_iff, List.mem_singleton, exists_eq_left, List.not_mem_nil,
      false_and, exists_false, or_false] at ht
    rcases ht with rfl | rfl | rfl <;> exact ⟨by decide, by decide⟩
  have hadded : ∃ e ∈ (Store.empty.recordAll
      (extract [.callables] accentedFile accentedProgram).findings).entities,
      e.kind = .function ∧ e.line = 2 ∧ e.sourcePreview = some "function f() \x7b\n\x7d" := by
    rw [extract_eq]
    decide +kernel
  obtain ⟨e, he, hkind, hline, hpreview⟩ := hadded
  obtain ⟨t, ht, -, -, -, line, rest, hshown, hblock, -, hholds⟩ :=
    previews_are_blocks [.callables] accentedFile accentedProgram hroot Store.empty e he
      (by simp [Store.empty]) (by simp [hkind, declarationKinds])
  exact ⟨hroot, e, he, hkind, hline, hpreview, t, line, rest, ht, hshown, hblock, hholds⟩

end Php

end PluginAtlas
