import PluginAtlas.Php.Extract
import PluginAtlas.Proofs.Trail

/-!
# Visitors in one scope

Every visitor keeps a scope of its own, and keeps it from file to file. What visitors find
shows neither. They start each file anew, whatever scopes earlier files have left them in, and
as long as nothing fails all of them stand in the same scope. So a walk can be followed with
one scope for all families.

## Main definitions

* `findAt`: what families find at a node in one scope.
* `Progress`, `Progress.step`: a walk with one scope.
* `Mirrors`: a walk with one scope and a team have come equally far.

## Main results

* `visit_outcome`: what a team finds in a file does not depend on earlier files.
* `families_visit`: a team keeps its families, also when its walk ends early.
* `mirrors_after`: a team is followed with one scope, all along a walk.
* `extract_eq`: an extraction is the walk with one scope.
-/

namespace PluginAtlas.Php

/-! ### From file to file -/

/-- The scopes in which visitors come to a file do not matter. -/
theorem Team.start_eq (visitors : List Visitor) :
    Team.start visitors = .start (Visitor.ofFamilies (visitors.map Visitor.family)) := by
  simp [Team.start, Visitor.ofFamilies, Visitor.restart, Scope.restart]

/-- A file is gone through as if it were the first. -/
theorem visit_eq (f : SourceFile) (root : Tree) (visitors : List Visitor) :
    visit f root visitors = visit f root (Visitor.ofFamilies (visitors.map Visitor.family)) := by
  rw [visit, visit, Team.start_eq]

theorem visit_outcome (f : SourceFile) (root : Tree) (visitors : List Visitor) :
    (visit f root visitors).outcome = extract (visitors.map Visitor.family) f root := by
  rw [visit_eq, extract]

theorem families_enterEach (f : SourceFile) (v : Visit) (visitors : List Visitor) :
    (enterEach f v visitors).1.map Visitor.family = visitors.map Visitor.family := by
  induction visitors with
  | nil => rfl
  | cons x rest ih =>
    simp only [enterEach]
    cases (x.family.apply f (x.scope.enter f v.tree) v).failure with
    | some failure => rfl
    | none => exact congrArg (x.family :: ·) ih

theorem Team.families_step (f : SourceFile) (team : Team) (step : Step) :
    (team.step f step).visitors.map Visitor.family = team.visitors.map Visitor.family := by
  cases step with
  | enter v =>
    rw [Team.step]
    split
    · rfl
    · exact families_enterEach f v team.visitors
  | leave v =>
    rw [Team.step]
    split
    · rfl
    · simp [leaveEach]

theorem Team.families_after (f : SourceFile) (team : Team) (done : List (List Tree × Step)) :
    (Walk.after (Team.step f) team done).visitors.map Visitor.family =
      team.visitors.map Visitor.family := by
  induction done generalizing team with
  | nil => rfl
  | cons entry rest ih => rw [Walk.after_cons, ih, Team.families_step]

/-- A team goes on with the families that it had. -/
theorem families_visit (f : SourceFile) (root : Tree) (visitors : List Visitor) :
    (visit f root visitors).visitors.map Visitor.family = visitors.map Visitor.family := by
  rw [visit, Walk.fold_eq_after, Team.families_after]
  simp [Team.start, Visitor.restart]

theorem families_ofFamilies (families : List Family) :
    (Visitor.ofFamilies families).map Visitor.family = families := by
  rw [Visitor.ofFamilies, List.map_map]
  exact List.map_id families

/-! ### One scope for all families -/

/-- What families find at a node, in one scope. -/
def findAt (families : List Family) (f : SourceFile) (s : Scope) (v : Visit) : Outcome :=
  Outcome.sequence (families.map fun family => family.apply f s v)

/-- How far a walk with one scope has come: the scope, what was found at each node with the
latest first, and the failure that has ended the walk. -/
structure Progress where
  scope : Scope := {}
  found : List (List Finding) := []
  failure : Option Failure := none
deriving Inhabited

/-- A step of a walk with one scope. After a failure nothing happens any more. -/
def Progress.step (families : List Family) (f : SourceFile) (p : Progress) : Step → Progress
  | .leave v =>
    if p.failure.isSome then p
    else { p with scope := p.scope.leave v.tree }
  | .enter v =>
    if p.failure.isSome then p
    else
      let scope := p.scope.enter f v.tree
      let outcome := findAt families f scope v
      { scope, found := outcome.findings :: p.found, failure := outcome.failure }

namespace Progress

variable {families : List Family} {f : SourceFile} {p : Progress} {v : Visit}

theorem step_enter (h : p.failure = none) :
    p.step families f (.enter v) =
      { scope := p.scope.enter f v.tree
        found := (findAt families f (p.scope.enter f v.tree) v).findings :: p.found
        failure := (findAt families f (p.scope.enter f v.tree) v).failure } := by
  simp [step, h]

theorem step_leave (h : p.failure = none) :
    p.step families f (.leave v) = { p with scope := p.scope.leave v.tree } := by
  simp [step, h]

/-- A failure is never taken back. -/
theorem failure_eq_none_of_step {st : Step} (h : (p.step families f st).failure = none) :
    p.failure = none := by
  cases hp : p.failure with
  | none => rfl
  | some failure =>
    have hstay : p.step families f st = p := by cases st <;> simp [step, hp]
    rw [hstay, hp] at h
    exact h

end Progress

/-- Visitors in one scope find at a node what their families find in it, and as long as none
fails they stay in one scope. -/
theorem enterEach_eq (families : List Family) (f : SourceFile) (s : Scope) (v : Visit) :
    let next := enterEach f v (families.map fun family => ⟨family, s⟩)
    next.2 = findAt families f (s.enter f v.tree) v ∧
      (next.2.failure = none → next.1 = families.map fun family => ⟨family, s.enter f v.tree⟩) := by
  induction families with
  | nil => exact ⟨rfl, fun _ => rfl⟩
  | cons family rest ih =>
    obtain ⟨hfound, hscopes⟩ := ih
    simp only [List.map_cons, enterEach]
    cases hown : (family.apply f (s.enter f v.tree) v).failure with
    | some failure =>
      -- the visitors behind do not enter, so that the scopes part; nothing is said of them
      refine ⟨?_, fun hok => absurd (hown.symm.trans hok) (by simp)⟩
      simp [findAt, Outcome.sequence, Outcome.followedBy, hown]
    | none =>
      refine ⟨?_, fun hok => ?_⟩
      · rw [hfound]
        rfl
      · rw [hscopes]
        simpa [Outcome.followedBy, hown] using hok

/-- A walk with one scope and visitors with a scope each have come equally far. -/
structure Mirrors (families : List Family) (p : Progress) (team : Team) : Prop where
  outcome : team.outcome = ⟨p.found.reverse.flatten, p.failure⟩
  scopes : p.failure = none → team.visitors = families.map fun family => ⟨family, p.scope⟩

theorem Mirrors.step {families : List Family} {f : SourceFile} {p : Progress} {team : Team}
    (h : Mirrors families p team) (step : Step) :
    Mirrors families (p.step families f step) (team.step f step) := by
  obtain ⟨houtcome, hscopes⟩ := h
  have hfailure : team.outcome.failure = p.failure := by rw [houtcome]
  cases hok : p.failure with
  | some failure =>
    -- both walks have ended
    have hp : p.step families f step = p := by cases step <;> simp [Progress.step, hok]
    have hteam : team.step f step = team := by cases step <;> simp [Team.step, hfailure, hok]
    rw [hp, hteam]
    exact ⟨houtcome, hscopes⟩
  | none =>
    rw [hok] at hfailure
    cases step with
    | leave v =>
      rw [Progress.step_leave hok]
      simp only [Team.step, hfailure, Option.isSome_none, Bool.false_eq_true, if_false]
      refine ⟨houtcome, fun _ => ?_⟩
      simp [leaveEach, hscopes hok]
    | enter v =>
      obtain ⟨hfound, hscopes'⟩ := enterEach_eq families f p.scope v
      rw [Progress.step_enter hok]
      simp only [Team.step, hfailure, Option.isSome_none, Bool.false_eq_true, if_false, hscopes hok]
      rw [hfound] at hscopes' ⊢
      refine ⟨?_, hscopes'⟩
      simp [Outcome.followedBy, houtcome, hok]

theorem Mirrors.after {families : List Family} {f : SourceFile} {p : Progress} {team : Team}
    (h : Mirrors families p team) (done : List (List Tree × Step)) :
    Mirrors families (Walk.after (Progress.step families f) p done)
      (Walk.after (Team.step f) team done) := by
  induction done generalizing p team with
  | nil => exact h
  | cons entry rest ih => exact ih (h.step entry.2)

theorem mirrors_start (visitors : List Visitor) :
    Mirrors (visitors.map Visitor.family) {} (.start visitors) where
  outcome := rfl
  scopes _ := by
    rw [Team.start, List.map_map]
    rfl

/-- A team is followed with one scope, whatever scopes it comes from. -/
theorem mirrors_after (f : SourceFile) (visitors : List Visitor)
    (done : List (List Tree × Step)) :
    Mirrors (visitors.map Visitor.family)
      (Walk.after (Progress.step (visitors.map Visitor.family) f) {} done)
      (Walk.after (Team.step f) (.start visitors) done) :=
  (mirrors_start visitors).after done

/-- An extraction is the walk with one scope. -/
theorem extract_eq (families : List Family) (f : SourceFile) (root : Tree) :
    extract families f root =
      let p := Walk.after (Progress.step families f) {} (Walk.trace root)
      ⟨p.found.reverse.flatten, p.failure⟩ := by
  have hmirrors := mirrors_after f (Visitor.ofFamilies families) (Walk.trace root)
  rw [families_ofFamilies] at hmirrors
  rw [extract, visit, Walk.fold_eq_after]
  exact hmirrors.outcome

theorem extract_eq_fold (families : List Family) (f : SourceFile) (root : Tree) :
    extract families f root =
      let p := Walk.fold (Progress.step families f) {} root
      ⟨p.found.reverse.flatten, p.failure⟩ := by
  rw [extract_eq, Walk.fold_eq_after]

end PluginAtlas.Php
