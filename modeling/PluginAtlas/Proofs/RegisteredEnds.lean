import PluginAtlas.Graph.Assembly
import PluginAtlas.Proofs.GraphSchema
import PluginAtlas.Proofs.Registration
import Mathlib.Data.List.Induction

/-!
# Relations with registered ends

A relation is drawn by identifiers alone, so its ends may be unknown: a class may extend
one that no file declares. Most relations cannot dangle, though, as what they start from
was registered on the way to the node where they are drawn. Only a few kinds of relations,
and those out of closures and declarations that are no entities, are ever dropped from a
graph.

## Main definitions

* `IsMade`: a finding with the findings before it and the trail where it is made.
* `openKinds`, `closedKinds`, `ownedKinds`: the kinds of relations that PHP code draws.
* `IsBacked`: what is registered of a relation when it is drawn.

## Main results

* `exists_isMade`: every finding is made at some node.
* `Registered.findAt_drawsOnly`: the relations that are drawn at one node.
* `IsMade.isBacked`: those that a whole file draws.
* `drawn_relations_registered`: which relations of files may dangle.
-/

namespace PluginAtlas

/-- Both ends of a relation are registered. -/
def Store.HasEnds (s : Store) (r : Relation) : Prop := s.has r.source ∧ s.has r.target

namespace Php

/-! ### Findings and where they are made -/

/-- A finding is made at the end of a trail, when the findings before it are there: it is
among those of the rules at a node that a walk enters without having failed. -/
def IsMade (families : List Family) (f : SourceFile) (root : Tree) (before : List Finding)
    (x : Finding) (trail : List Tree) : Prop :=
  ∃ done v rest earlier later,
    Walk.trace root = done ++ (trail, .enter v) :: rest ∧
    let p := Walk.after (Progress.step families f) {} done
    p.failure = none ∧
    (findAt families f (p.scope.enter f v.tree) v).findings = earlier ++ x :: later ∧
    before = p.found.reverse.flatten ++ earlier

/-- A step adds the findings at the node that it enters, if it does not follow a
failure. -/
theorem Progress.found_step (families : List Family) (f : SourceFile) (p : Progress) (st : Step) :
    (p.step families f st).found = p.found ∨
      ∃ v, st = .enter v ∧ p.failure = none ∧ (p.step families f st).found =
        (findAt families f (p.scope.enter f v.tree) v).findings :: p.found := by
  cases hok : p.failure with
  | some failure =>
    left
    cases st <;> simp [step, hok]
  | none =>
    cases st with
    | leave v => exact Or.inl (by rw [step_leave hok])
    | enter v => exact Or.inr ⟨v, rfl, rfl, by rw [step_enter hok]⟩

/-- Every finding of an extraction is made somewhere. -/
theorem exists_isMade {families : List Family} {f : SourceFile} {root : Tree}
    {before rest : List Finding} {x : Finding}
    (h : (extract families f root).findings = before ++ x :: rest) :
    ∃ trail, IsMade families f root before x trail := by
  -- The steps are taken off from the end until the one that adds the finding.
  have hall : ∀ done ahead rest, Walk.trace root = done ++ ahead →
      (Walk.after (Progress.step families f) {} done).found.reverse.flatten =
        before ++ x :: rest → ∃ trail, IsMade families f root before x trail := by
    intro done
    induction done using List.reverseRecOn with
    | nil => intro ahead rest _ hfound; simp at hfound
    | append_singleton done entry ih =>
      obtain ⟨trail, st⟩ := entry
      intro ahead rest hsplit hfound
      rw [List.append_assoc, List.singleton_append] at hsplit
      rw [Walk.after_append, Walk.after_cons, Walk.after_nil] at hfound
      rcases Progress.found_step families f (Walk.after (Progress.step families f) {} done) st with
        hsame | ⟨v, rfl, hok, hnew⟩
      · rw [hsame] at hfound
        exact ih _ rest hsplit hfound
      · rw [hnew, List.reverse_cons, List.flatten_append, List.flatten_singleton] at hfound
        rcases List.append_eq_append_iff.mp hfound with
          ⟨earlier, hbefore, hhere⟩ | ⟨between, hold, hhere⟩
        · exact ⟨trail, done, v, ahead, earlier, rest, hsplit, hok, hhere, hbefore⟩
        · cases between with
          | nil =>
            rw [List.append_nil] at hold
            refine ⟨trail, done, v, ahead, [], rest, hsplit, hok, hhere.symm, ?_⟩
            rw [hold, List.append_nil]
          | cons y between =>
            obtain ⟨rfl, -⟩ := List.cons.inj hhere
            exact ih _ between hsplit hold
  rw [extract_eq] at h
  exact hall _ [] rest (List.append_nil _).symm h

/-! ### Drawing at one node -/

/-- The kinds of relations with an end that may be declared elsewhere or nowhere. -/
def openKinds : List RelationKind := [.extends, .implements, .registersHook, .calls]

/-- The kinds of relations whose ends are always registered. -/
def closedKinds : List RelationKind := [.hasMethod, .includes, .triggersHandler]

/-- The kinds of relations out of the callable that owns the code. -/
def ownedKinds : List RelationKind := [.readsData, .writesData, .triggersHook]

/-- What is registered of a relation when it is drawn at the end of a trail. -/
inductive IsBacked (f : SourceFile) (trail : List Tree) (store : Store) (r : Relation) : Prop
  | isOpen (hkind : r.kind ∈ openKinds)
  | closed (hkind : r.kind ∈ closedKinds) (hsource : store.has r.source)
      (htarget : store.has r.target)
  | owned (hkind : r.kind ∈ ownedKinds) (hsource : IsOwner f trail store r.source)
      (htarget : store.has r.target)

namespace IsBacked

variable {f : SourceFile} {trail : List Tree} {store : Store} {r : Relation}

theorem hasEnds_of_closed (h : IsBacked f trail store r) (hkind : r.kind ∈ closedKinds) :
    store.HasEnds r := by
  cases h with
  | isOpen hopen => exact absurd hopen (by revert hkind; cases r.kind <;> decide)
  | closed _ hsource htarget => exact ⟨hsource, htarget⟩
  | owned howned => exact absurd howned (by revert hkind; cases r.kind <;> decide)

theorem exists_owner (h : IsBacked f trail store r) (hkind : r.kind ∈ ownedKinds) :
    ∃ place, ownerPlace? trail = some place ∧ (callableAt f place).id = some r.source ∧
      (IsEntityPlace f place → store.HasEnds r) := by
  cases h with
  | isOpen hopen => exact absurd hopen (by revert hkind; cases r.kind <;> decide)
  | closed hclosed => exact absurd hclosed (by revert hkind; cases r.kind <;> decide)
  | owned _ hsource htarget =>
    obtain ⟨place, howner, hid, hregistered⟩ := hsource
    exact ⟨place, howner, hid, fun hentity => ⟨hregistered hentity, htarget⟩⟩

/-- A relation that dangles has an open kind, or comes out of a closure that is no
callback or out of a declaration without a name. -/
theorem of_not_hasEnds (h : IsBacked f trail store r) (hends : ¬ store.HasEnds r) :
    r.kind ∈ openKinds ∨ r.kind ∈ ownedKinds ∧ ∃ place, ownerPlace? trail = some place ∧
      (place.1.kind ∈ closureKinds ∧ ¬ IsHookCallback f place ∨
        place.1.kind ∉ closureKinds ∧ Scope.nameOf f place.1 = "") := by
  cases h with
  | isOpen hkind => exact Or.inl hkind
  | closed _ hsource htarget => exact absurd ⟨hsource, htarget⟩ hends
  | owned hkind hsource htarget =>
    obtain ⟨place, howner, hid, hregistered⟩ := hsource
    refine Or.inr ⟨hkind, place, howner, ?_⟩
    have hplain : ¬ IsEntityPlace f place := fun he => hends ⟨hregistered he, htarget⟩
    by_cases hclosure : place.1.kind ∈ closureKinds
    · exact Or.inl ⟨hclosure, fun hcallback => hplain (Or.inr (Or.inr hcallback))⟩
    · refine Or.inr ⟨hclosure, Decidable.byContradiction fun hname => hplain ?_⟩
      have hcallable := (mem_callablePlaces (mem_of_ownerPlace? howner)).1
      simp only [callableKinds, List.mem_append, hclosure, or_false, List.mem_cons,
        List.not_mem_nil] at hcallable
      rcases hcallable with hkind | hkind
      · exact Or.inl ⟨hkind, hname⟩
      · -- A method outside a named class has no identifier to draw a relation from.
        refine Or.inr (Or.inl ⟨hkind, hname, ?_⟩)
        rw [callableAt, if_neg (by rw [hkind]; decide), if_pos hkind] at hid
        obtain ⟨owner, howner, -⟩ := Option.map_eq_some_iff.mp hid
        exact Option.isSome_iff_exists.mpr ⟨owner, howner⟩

end IsBacked

/-- A finding that draws no relation but of a kind with open ends. -/
def DrawsOpen (x : Finding) : Prop := ∀ (s : Store) r, s.Draws x r → r.kind ∈ openKinds

theorem drawsOpen_entity (e : Entity) : DrawsOpen (.entity e) :=
  fun _ _ h => absurd h Store.not_draws_entity

theorem drawsOpen_between {source target : Ident} {kind : RelationKind} {label : String}
    (h : kind ∈ openKinds) : DrawsOpen (.relation (.between source kind target label)) := by
  intro s r hdraws
  obtain rfl := Store.draws_relation_iff.mp hdraws
  exact h

section Draw

variable {f : SourceFile} {s : Scope} {v : Visit} {trail : List Tree} {store : Store}

theorem isBacked_closed {source target : Ident} {kind : RelationKind} {label : String}
    (hkind : kind ∈ closedKinds) (hsource : store.has source) (htarget : store.has target) :
    IsBacked f trail store (.between source kind target label) :=
  .closed hkind hsource htarget

theorem isBacked_owned {source target : Ident} {kind : RelationKind} {label : String}
    (hkind : kind ∈ ownedKinds) (hsource : IsOwner f trail store source)
    (htarget : store.has target) : IsBacked f trail store (.between source kind target label) :=
  .owned hkind hsource htarget

theorem drawsOnly_of_drawsOpen {o : Outcome} (h : o.All DrawsOpen) :
    store.DrawsOnly (IsBacked f trail) o.findings :=
  .of_all fun x hx store r hdraws => .isOpen (h x hx store r hdraws)

theorem classRelations_drawsOpen {source : Ident} {kind : RelationKind} (hkind : kind ∈ openKinds)
    (names : List String) : (classRelations s source kind names).All DrawsOpen := by
  refine .sequence fun o ho => ?_
  obtain ⟨name, -, rfl⟩ := List.mem_map.mp ho
  refine .attempt fun target _ => .found fun x hx => ?_
  obtain rfl := List.mem_singleton.mp hx
  exact drawsOpen_between hkind

theorem declarations_drawsOpen : (declarations f s v).All DrawsOpen := by
  unfold declarations
  split
  · exact .nothing
  · dsimp only
    split
    · exact .nothing
    · refine .attempt fun id _ => .after (fun x hx => ?_) ?_
      · obtain rfl := List.mem_singleton.mp hx
        exact drawsOpen_entity _
      · exact (classRelations_drawsOpen (by decide) _).followedBy
          (classRelations_drawsOpen (by decide) _)

theorem staticCall_drawsOpen (t : Tree) : (staticCall f s t).All DrawsOpen := by
  unfold staticCall
  split
  · dsimp only
    split
    · exact .nothing
    · refine .attempt fun target _ => .found fun x hx => ?_
      obtain rfl := List.mem_singleton.mp hx
      exact drawsOpen_between (by decide)
  · exact .nothing

theorem methodDeclaration_drawsOnly
    (hclass : ∀ owner id, s.currentClass? = some owner → s.classId owner = .ok id → store.has id) :
    store.DrawsOnly (IsBacked f trail) (methodDeclaration f s v).findings := by
  unfold methodDeclaration
  cases howner : s.currentClass? with
  | none => exact .nil
  | some owner =>
    dsimp only
    split
    · exact .nil
    · refine .entity ?_
      cases hid : s.classId owner with
      | error failure => exact .nil
      | ok id =>
        refine .relation (isBacked_closed (by decide) ?_ ?_)
        · exact Store.has_addEntity (hclass owner id howner hid) _
        · exact Store.has_addEntity_self store _

theorem callables_drawsOnly
    (hclass : v.tree.kind = "method_declaration" →
      ∀ owner id, s.currentClass? = some owner → s.classId owner = .ok id → store.has id) :
    store.DrawsOnly (IsBacked f trail) (callables f s v).findings := by
  unfold callables
  split
  · rename_i hkind
    exact methodDeclaration_drawsOnly (hclass hkind)
  · refine drawsOnly_of_drawsOpen ?_
    split
    · refine .found fun x hx => ?_
      unfold functionDeclaration at hx
      dsimp only at hx
      split at hx
      · cases hx
      · obtain rfl := List.mem_singleton.mp hx
        exact drawsOpen_entity _
    · split
      · exact staticCall_drawsOpen _
      · exact .nothing

theorem callbackFindings_drawsOpen (hook : Ident) (argument : Option Tree) :
    (Outcome.found (callbackFindings f s hook argument)).All DrawsOpen := by
  intro x hx
  cases argument with
  | none => cases hx
  | some argument =>
    rcases List.mem_append.mp hx with hx | hx
    · obtain ⟨e, -, rfl⟩ := Option.map_eq_some_iff.mp (Option.mem_toList.mp hx)
      exact drawsOpen_entity e
    · obtain ⟨id, -, rfl⟩ := Option.map_eq_some_iff.mp (Option.mem_toList.mp hx)
      exact drawsOpen_between (by decide)

/-- The handler of an action is drawn only if it is known. -/
theorem handlerFindings_drawsOnly {hook : Ident} (h : store.has hook) (name : String) :
    store.DrawsOnly (IsBacked f trail) (handlerFindings hook name) := by
  unfold handlerFindings
  split
  · exact .nil
  · exact .nil
  · exact .relationIfKnown fun hknown => isBacked_closed (by decide) h hknown

theorem hookRegistration_drawsOnly (call : Tree) (kind : String) :
    store.DrawsOnly (IsBacked f trail) (hookRegistration f s call kind).findings := by
  unfold hookRegistration
  split
  · exact .nil
  · rename_i first rest harguments
    dsimp only
    cases hpriority : integerValue f rest[1]? with
    | error failure => exact .nil
    | ok priority =>
      refine .entity ((drawsOnly_of_drawsOpen (callbackFindings_drawsOpen _ _)).append ?_)
      exact handlerFindings_drawsOnly (Store.has_recordAll (Store.has_addEntity_self _ _) _) _

/-- A relation out of the owner of the code, to an entity that was just registered. -/
theorem ownedRelation_drawsOnly {e : Entity} {kind : RelationKind} {label : String}
    (hkind : kind ∈ ownedKinds)
    (hcaller : ∀ id, s.callerId? = some id → IsOwner f trail store id) :
    store.DrawsOnly (IsBacked f trail)
      (.entity e :: (s.callerId?.map fun caller =>
        Finding.relation (.between caller kind e.id label)).toList) := by
  refine .entity ?_
  cases hid : s.callerId? with
  | none => exact .nil
  | some caller =>
    refine .relation (isBacked_owned hkind ?_ (Store.has_addEntity_self _ _))
    exact (hcaller caller hid).mono fun id h => Store.has_addEntity h _

theorem hooks_drawsOnly
    (hcaller : v.tree.kind ∉ callableKinds →
      ∀ id, s.callerId? = some id → IsOwner f trail store id) :
    store.DrawsOnly (IsBacked f trail) (hooks f s v).findings := by
  unfold hooks
  split
  · exact .nil
  · rename_i hkind
    split
    · exact .nil
    · split
      · exact hookRegistration_drawsOnly _ _
      · unfold hookTrigger
        split
        · exact .nil
        · refine ownedRelation_drawsOnly (by decide) (hcaller ?_)
          rw [not_not.mp hkind]
          decide
      · exact .nil

theorem storageAccess?_kind {t : Tree} {access : String × StorageOperation × Option String}
    (h : storageAccess? f t = some access) : t.kind ∉ callableKinds := by
  unfold storageAccess? at h
  split at h
  · rename_i hkind
    rw [hkind]
    decide
  · split at h
    · rename_i hkind
      rcases Bool.or_eq_true_iff.mp hkind with hkind | hkind <;>
        rw [of_decide_eq_true hkind] <;> decide
    · cases h

theorem storage_drawsOnly
    (hcaller : v.tree.kind ∉ callableKinds →
      ∀ id, s.callerId? = some id → IsOwner f trail store id) :
    store.DrawsOnly (IsBacked f trail) (storage f s v).findings := by
  unfold storage
  split
  · exact .nil
  · rename_i kept operation key haccess
    refine ownedRelation_drawsOnly ?_ (hcaller (storageAccess?_kind haccess))
    cases operation <;> decide

theorem entryPoints_drawsOpen : (entryPoints f s v).All DrawsOpen := by
  unfold entryPoints
  split
  · exact .nothing
  · split
    · exact .nothing
    · unfold restRoute
      split
      · refine .attempt fun methods _ => .found fun x hx => ?_
        obtain ⟨method, -, rfl⟩ := List.mem_map.mp hx
        exact drawsOpen_entity _
      · exact .nothing
    · refine .found fun x hx => ?_
      obtain ⟨e, -, rfl⟩ := Option.map_eq_some_iff.mp (Option.mem_toList.mp hx)
      exact drawsOpen_entity e

theorem includes_drawsOnly : store.DrawsOnly (IsBacked f trail) (includes f s v).findings := by
  unfold includes
  split
  · exact .nil
  · split
    · exact .nil
    · refine .entity (Outcome.drawsOnly_reaching fun path? _ => .entity (.relation ?_))
      refine isBacked_closed (by decide) ?_ ?_
      · exact Store.has_addEntity (Store.has_addEntity_self store (ownEntity f)) _
      · exact Store.has_addEntity_self _ _

end Draw

/-- The relations that the rules draw at a node, all nodes around it being registered. -/
theorem Registered.findAt_drawsOnly {f : SourceFile} {store : Store} {s : Scope}
    {above : List Tree} {v : Visit} (h : Registered f store s above) :
    store.DrawsOnly (IsBacked f (v.tree :: above))
      (findAt Family.all f (s.enter f v.tree) v).findings := by
  refine Outcome.drawsOnly_sequence fun o ho earlier => ?_
  obtain ⟨family, -, rfl⟩ := List.mem_map.mp ho
  -- A family sees what the families before it have recorded as well.
  have hgrow : ∀ id, store.has id → (store.recordAll earlier).has id :=
    fun id hid => Store.has_recordAll hid earlier
  have hcaller : v.tree.kind ∉ callableKinds → ∀ id, (s.enter f v.tree).callerId? = some id →
      IsOwner f (v.tree :: above) (store.recordAll earlier) id :=
    fun hkind id hid => (h.isOwner hkind hid).mono hgrow
  cases family with
  | declarations => exact drawsOnly_of_drawsOpen declarations_drawsOpen
  | callables =>
    refine callables_drawsOnly fun hkind owner id howner hid => ?_
    exact hgrow id (h.has_currentClass hkind howner hid)
  | hooks => exact hooks_drawsOnly hcaller
  | storage => exact storage_drawsOnly hcaller
  | entryPoints => exact drawsOnly_of_drawsOpen (entryPoints_drawsOpen (s := s.enter f v.tree))
  | includes => exact includes_drawsOnly (s := s.enter f v.tree)

/-- What is registered of a relation when an extraction draws it. -/
theorem IsMade.isBacked {f : SourceFile} {root : Tree} {before : List Finding} {x : Finding}
    {trail : List Tree} {s : Store} {r : Relation} (h : IsMade Family.all f root before x trail)
    (hroot : NamespacesOutsideClasses root) (hdraws : (s.recordAll before).Draws x r) :
    IsBacked f trail (s.recordAll before) r := by
  obtain ⟨done, v, rest, earlier, later, hsplit, hok, hfindings, rfl⟩ := h
  obtain ⟨above, rfl, hregistered⟩ := (registered_invariant hroot f s).at_enter hsplit
  have hdrawsOnly := (hregistered hok).findAt_drawsOnly (v := v)
  rw [hfindings] at hdrawsOnly
  rw [Store.recordAll_append] at hdraws ⊢
  exact hdrawsOnly.at_moment hdraws

end Php

/-! ### Scripts and manifests -/

theorem Script.findings_drawsOnly (f : SourceFile) (items : List Item) (s : Store) :
    s.DrawsOnly Store.HasEnds (Script.findings f items).findings := by
  refine Outcome.drawsOnly_sequence fun o ho earlier => ?_
  obtain ⟨item, -, rfl⟩ := List.mem_map.mp ho
  cases hitem : itemFindings f item with
  | error failure => exact .nil
  | ok xs =>
    change Store.DrawsOnly _ _ xs
    rcases itemFindings_cases hitem with rfl | ⟨e, kind, label, rfl, -, -⟩
    · exact .nil
    · refine .entity (.entity (.relation ⟨?_, ?_⟩))
      · exact Store.has_addEntity_self _ (fileEntity f)
      · exact Store.has_addEntity (Store.has_addEntity_self _ e) _

theorem Manifest.Load.findings_drawsOnly {f : SourceFile} {block : Ident} {s : Store}
    (h : s.has block) (load : Load) :
    s.DrawsOnly Store.HasEnds (load.findings f block).findings := by
  refine Outcome.drawsOnly_reaching fun target _ => .entity (.relation ⟨?_, ?_⟩)
  · exact Store.has_addEntity h _
  · exact Store.has_addEntity_self s _

/-- The block is registered first, and every file before the relation to it. -/
theorem Manifest.findings_drawsOnly (f : SourceFile) (name : String)
    (fields : List (String × Json)) (s : Store) :
    s.DrawsOnly Store.HasEnds (Manifest.findings f name fields).findings := by
  have hblock : ∀ earlier, ((s.addEntity (blockEntity f name fields)).recordAll earlier).has
      (blockEntity f name fields).id :=
    fun earlier => Store.has_recordAll (Store.has_addEntity_self s _) earlier
  refine .entity (Outcome.drawsOnly_sequence fun o ho earlier => ?_)
  obtain ⟨load, -, rfl⟩ := List.mem_map.mp ho
  exact load.findings_drawsOnly (hblock earlier)

theorem Manifest.extract_drawsOnly (f : SourceFile) (s : Store) :
    s.DrawsOnly Store.HasEnds (Manifest.extract f).2.findings := by
  unfold Manifest.extract
  split
  · split <;> exact .nil
  · split
    · split
      · exact .nil
      · exact findings_drawsOnly f _ _ s
    · exact .nil
  · exact .nil

/-! ### Dropped relations -/

theorem exists_mem_renumber {r : Relation} {l : List Relation} (h : r ∈ l) (n : Nat) :
    ∃ kept ∈ renumber n l, { kept with id := r.id } = r := by
  induction l generalizing n with
  | nil => cases h
  | cons first rest ih =>
    rcases List.mem_cons.mp h with rfl | h
    · exact ⟨_, List.mem_cons_self, rfl⟩
    · obtain ⟨kept, hkept, heq⟩ := ih h (n + 1)
      exact ⟨kept, List.mem_cons_of_mem _ hkept, heq⟩

/-- A relation with registered ends is in the graph, under its number. -/
theorem Graph.exists_mem_assemble {s : Store} {r : Relation} (hr : r ∈ s.relations)
    (hends : s.HasEnds r) (plugin : PluginInfo) :
    ∃ kept ∈ (Graph.assemble s plugin).relations, { kept with id := r.id } = r :=
  exists_mem_renumber (List.mem_filter.mpr ⟨hr, by simp [hends.1, hends.2]⟩) 0

open Php in
/-- Relations of closed kinds, and those out of a callable that becomes an entity, have both
ends registered when they are drawn, if no namespace is inside a class. So a relation that is
dropped from a graph is of an open kind, or it comes out of a closure that is no callback of
a hook or out of a declaration without a name. -/
theorem drawn_relations_registered :
    (∀ f root before x rest, (extract Family.all f root).findings = before ++ x :: rest →
      ∃ trail, IsMade Family.all f root before x trail) ∧
    (∀ f root, NamespacesOutsideClasses root → ∀ (s : Store) before x trail r,
      IsMade Family.all f root before x trail → (s.recordAll before).Draws x r →
        (r.kind ∈ closedKinds → (s.recordAll before).HasEnds r) ∧
        (r.kind ∈ ownedKinds → ∃ place, ownerPlace? trail = some place ∧
          (callableAt f place).id = some r.source ∧
          (IsEntityPlace f place → (s.recordAll before).HasEnds r))) ∧
    (∀ f items (s : Store) before x rest r,
      (Script.findings f items).findings = before ++ x :: rest → (s.recordAll before).Draws x r →
        (s.recordAll before).HasEnds r) ∧
    (∀ f (s : Store) before x rest r,
      (Manifest.extract f).2.findings = before ++ x :: rest → (s.recordAll before).Draws x r →
        (s.recordAll before).HasEnds r) ∧
    (∀ steps plugin r, (∀ f root, .php f root ∈ steps → NamespacesOutsideClasses root) →
      r ∈ (Store.empty.readAll steps).relations →
      (∀ kept ∈ (Graph.assemble (Store.empty.readAll steps) plugin).relations,
        { kept with id := r.id } ≠ r) →
      ∃ f root, .php f root ∈ steps ∧ ∃ (s : Store) (before : List Finding) (x : Finding)
        (trail : List Tree), IsMade Family.all f root before x trail ∧
          (s.recordAll before).Draws x r ∧
          (r.kind ∈ openKinds ∨ r.kind ∈ ownedKinds ∧ ∃ place, ownerPlace? trail = some place ∧
            (place.1.kind ∈ closureKinds ∧ ¬ IsHookCallback f place ∨
              place.1.kind ∉ closureKinds ∧ Scope.nameOf f place.1 = ""))) := by
  refine ⟨fun f root before x rest => exists_isMade, ?_, ?_, ?_, ?_⟩
  · intro f root hroot s before x trail r hmade hdraws
    have hbacked := hmade.isBacked hroot hdraws
    exact ⟨hbacked.hasEnds_of_closed, hbacked.exists_owner⟩
  · intro f items s before x rest r hsplit hdraws
    exact (hsplit ▸ Script.findings_drawsOnly f items s).at_moment hdraws
  · intro f s before x rest r hsplit hdraws
    exact (hsplit ▸ Manifest.extract_drawsOnly f s).at_moment hdraws
  · intro steps plugin r hroots hr hdropped
    -- A relation with both ends would be in the graph, so one end was missing all along.
    have hends : ¬ (Store.empty.readAll steps).HasEnds r := fun h => by
      obtain ⟨kept, hkept, heq⟩ := Graph.exists_mem_assemble hr h plugin
      exact hdropped kept hkept heq
    rcases Store.mem_relations_readAll hr with hempty | ⟨step, hstep, s, before, x, rest, hsplit,
      hdraws, hstays⟩
    · cases hempty
    · have hmoment : ¬ (s.recordAll before).HasEnds r :=
        fun h => hends ⟨hstays _ h.1, hstays _ h.2⟩
      cases step with
      | php f root =>
        obtain ⟨trail, hmade⟩ := exists_isMade hsplit
        have hbacked := hmade.isBacked (hroots f root hstep) hdraws
        exact ⟨f, root, hstep, s, before, x, trail, hmade, hdraws, hbacked.of_not_hasEnds hmoment⟩
      | script f items =>
        exact absurd ((hsplit ▸ Script.findings_drawsOnly f items s).at_moment hdraws) hmoment
      | manifest f =>
        exact absurd ((hsplit ▸ Manifest.extract_drawsOnly f s).at_moment hdraws) hmoment

namespace Php

/-- Reading an option `get_option`, in a text that holds this word behind two names. -/
def readingCall : Tree :=
  .node "function_call_expression" true 2 12 none [.node "name" true 2 12 (some "function") []]

@[inherit_doc readingCall]
def readingMethod : Tree :=
  .node "method_declaration" true 1 12 none [.node "name" true 1 2 (some "name") [], readingCall]

@[inherit_doc readingCall]
def readingClass : Tree :=
  .node "class_declaration" true 0 12 none [.node "name" true 0 1 (some "name") [], readingMethod]

@[inherit_doc readingCall]
def readingClosure : Tree := .node "arrow_function" true 2 12 none [readingCall]

@[inherit_doc readingCall]
def readingProgram : Tree := .node "program" true 0 12 none [readingClass, readingClosure]

@[inherit_doc readingCall]
def readingFile : SourceFile := { path := "/p.php", source := "Amget_option" }

end Php

open Php in
/-- The method is registered when it reads the option; the relation out of the closure,
which is no callback, is dropped. -/
theorem drawn_relations_registered_readingProgram :
    NamespacesOutsideClasses readingProgram ∧
    (∃ before x r,
      IsMade Family.all readingFile readingProgram before x
        [readingCall, readingMethod, readingClass, readingProgram] ∧
      (Store.empty.recordAll before).Draws x r ∧ r.kind = .readsData ∧
      IsEntityPlace readingFile (readingMethod, [readingClass, readingProgram]) ∧
      (Store.empty.recordAll before).HasEnds r) ∧
    let s := Store.empty.readAll [.php readingFile readingProgram]
    ∃ r ∈ s.relations, (∀ kept ∈ (Graph.assemble s default).relations,
        { kept with id := r.id } ≠ r) ∧
      ∃ before x trail, IsMade Family.all readingFile readingProgram before x trail ∧
        (r.kind ∈ openKinds ∨ r.kind ∈ ownedKinds ∧ ∃ place, ownerPlace? trail = some place ∧
          (place.1.kind ∈ closureKinds ∧ ¬ IsHookCallback readingFile place ∨
            place.1.kind ∉ closureKinds ∧ Scope.nameOf readingFile place.1 = "")) := by
  have hroot : NamespacesOutsideClasses readingProgram := by decide +kernel
  have hparts := drawn_relations_registered
  refine ⟨hroot, ?_, ?_⟩
  · let p := Walk.after (Progress.step Family.all readingFile) {}
      ((Walk.trace readingProgram).take 7)
    have hok : p.failure = none := by decide +kernel
    obtain ⟨e, r, hfindings, hkind⟩ : ∃ e r,
        (findAt Family.all readingFile (p.scope.enter readingFile readingCall)
          ⟨readingCall, some (.node "name" true 1 2 (some "name") [])⟩).findings =
          [.entity e, .relation r] ∧ r.kind = .readsData := ⟨_, _, rfl, rfl⟩
    have hmade : IsMade Family.all readingFile readingProgram
        (p.found.reverse.flatten ++ [.entity e]) (.relation r)
        [readingCall, readingMethod, readingClass, readingProgram] :=
      ⟨(Walk.trace readingProgram).take 7, _, (Walk.trace readingProgram).drop 8, [.entity e], [],
        rfl, hok, hfindings, rfl⟩
    have hentity : IsEntityPlace readingFile (readingMethod, [readingClass, readingProgram]) :=
      Or.inr (Or.inl (by decide +kernel))
    refine ⟨_, _, r, hmade, Or.inl rfl, hkind, hentity, ?_⟩
    obtain ⟨place, hplace, -, hends⟩ :=
      (hparts.2.1 _ _ hroot Store.empty _ _ _ r hmade (Or.inl rfl)).2 (by rw [hkind]; decide)
    obtain rfl := Option.some.inj (hplace.symm.trans
      (show _ = some (readingMethod, [readingClass, readingProgram]) from rfl))
    exact hends hentity
  · intro s
    let source := Ident.ofClosure readingFile.relativePath (readingFile.lineOf readingClosure)
    let target :=
      Ident.ofDataSource "read" none readingFile.relativePath (readingFile.lineOf readingCall)
    let r : Relation := .between source .readsData target "reads"
    have hr : r ∈ s.relations := by decide +kernel
    have hdropped : ∀ kept ∈ (Graph.assemble s default).relations,
        { kept with id := r.id } ≠ r := by decide +kernel
    obtain ⟨f, root, hstep, -, before, x, trail, hmade, -, hkind⟩ :=
      hparts.2.2.2.2 [.php readingFile readingProgram] default r
        (fun f root h => by cases List.mem_singleton.mp h; exact hroot) hr hdropped
    cases List.mem_singleton.mp hstep
    exact ⟨r, hr, hdropped, before, x, trail, hmade, hkind⟩

end PluginAtlas
