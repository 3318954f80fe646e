import PluginAtlas.Script.Registry
import Mathlib.Tactic.Common

/-!
# Readers are kept until their name is registered anew

A catalog is told of strategies and asked for readers in any order, and making a reader may
fail at one time and succeed at another. Its two tables stay coherent through all of this.
A name that was never registered has no reader; a name that was registered has a reader of
its last strategy, or none can be made. A reader that was given out is given out again, until
its name is registered anew; what happens to other names does not matter, and no two names
share a reader. A call that fails leaves nothing behind.

Readers are told apart by their numbers, and numbers are never used twice. So two questions
about readers become questions about numbers: a reader that is kept has a number below the
count, and whatever is made from then on has a number from the count on.

## Main definitions

* `Catalog.Call`, `Catalog.run`, `Catalog.answer`: sequences of calls and what is answered.
* `Catalog.IsCoherent`: what holds of the tables after any sequence of calls.
* `Catalog.Precedes`: how the readers of a catalog may change over time.

## Main results

* `Catalog.get_cases`: the four things that a question for a reader can come to.
* `Catalog.isCoherent_run`, `Catalog.precedes_run`: what every sequence of calls keeps.
* `Catalog.answers_coherent`: what is answered after any sequence of calls.
-/

namespace PluginAtlas.Script.Catalog

variable {σ ε π : Type}

/-! ### Tables by name -/

section Tables

variable {α : Type}

theorem lookup_filter_self (name : String) (entries : List (String × α)) :
    (entries.filter (·.1 ≠ name)).lookup name = none := by
  rw [List.lookup_eq_none_iff]
  intro entry hentry
  have hne : entry.1 ≠ name := by simpa using (List.mem_filter.mp hentry).2
  simpa using hne.symm

theorem lookup_filter_of_ne {name other : String} (h : other ≠ name)
    (entries : List (String × α)) :
    (entries.filter (·.1 ≠ name)).lookup other = entries.lookup other := by
  induction entries with
  | nil => rfl
  | cons entry entries ih =>
    obtain ⟨key, value⟩ := entry
    by_cases hkey : key = name
    · have hother : (other == key) = false := by simpa [hkey] using h
      simp only [List.filter_cons, hkey, ne_eq, not_true_eq_false, decide_false,
        Bool.false_eq_true, if_false, List.lookup_cons, ih]
      rw [← hkey, hother]
    · simp only [List.filter_cons, hkey, ne_eq, not_false_eq_true, decide_true, if_true,
        List.lookup_cons, ih]

end Tables

section Register

variable (r : Catalog σ π) (name : String) (strategy : σ)

theorem strategies_register_self :
    (r.register name strategy).strategies.lookup name = some strategy := by
  simp [register]

theorem made_register_self : (r.register name strategy).made.lookup name = none :=
  lookup_filter_self name r.made

variable {name} {other : String}

theorem strategies_register_of_ne (h : other ≠ name) :
    (r.register name strategy).strategies.lookup other = r.strategies.lookup other := by
  have hne : (other == name) = false := by simpa using h
  simp only [register, List.lookup_cons, hne]
  exact lookup_filter_of_ne h r.strategies

theorem made_register_of_ne (h : other ≠ name) :
    (r.register name strategy).made.lookup other = r.made.lookup other :=
  lookup_filter_of_ne h r.made

end Register

/-- Only other names than the registered one have a reader. -/
theorem made_of_register {r : Catalog σ π} {name other : String} {strategy : σ} {i : Made σ π}
    (h : (r.register name strategy).made.lookup other = some i) :
    other ≠ name ∧ r.made.lookup other = some i := by
  have hne : other ≠ name := by
    rintro rfl
    rw [made_register_self] at h
    cases h
  rw [made_register_of_ne r strategy hne] at h
  exact ⟨hne, h⟩

/-- The catalog that keeps one more reader, for a name. -/
def keep (r : Catalog σ π) (name : String) (i : Made σ π) : Catalog σ π :=
  { r with made := (name, i) :: r.made, count := r.count + 1 }

theorem made_keep_self (r : Catalog σ π) (name : String) (i : Made σ π) :
    (r.keep name i).made.lookup name = some i := by
  simp [keep]

theorem made_keep_of_ne (r : Catalog σ π) {name other : String} (h : other ≠ name) (i : Made σ π) :
    (r.keep name i).made.lookup other = r.made.lookup other := by
  have hne : (other == name) = false := by simpa using h
  simp [keep, List.lookup_cons, hne]

/-- A reader of a catalog that keeps one more is this one or was kept before. -/
theorem made_of_keep {r : Catalog σ π} {name other : String} {i j : Made σ π}
    (h : (r.keep name i).made.lookup other = some j) :
    (other = name ∧ j = i) ∨ (other ≠ name ∧ r.made.lookup other = some j) := by
  by_cases hne : other = name
  · subst hne
    rw [made_keep_self] at h
    exact .inl ⟨rfl, (Option.some.inj h).symm⟩
  · rw [made_keep_of_ne r hne] at h
    exact .inr ⟨hne, h⟩

/-- What a question for a reader can come to: a reader that is kept, no strategy to make one
by, a reader that cannot be made, or one that is made and kept. -/
theorem get_cases (make : σ → Except ε π) (r : Catalog σ π) (name : String) :
    (∃ i, r.made.lookup name = some i ∧ r.get make name = (.ok (some i), r)) ∨
    (r.made.lookup name = none ∧ r.strategies.lookup name = none ∧
      r.get make name = (.ok none, r)) ∨
    (∃ strategy e, r.made.lookup name = none ∧ r.strategies.lookup name = some strategy ∧
      make strategy = .error e ∧ r.get make name = (.error e, r)) ∨
    ∃ strategy parts, r.made.lookup name = none ∧ r.strategies.lookup name = some strategy ∧
      make strategy = .ok parts ∧
      r.get make name = (.ok (some ⟨r.count, strategy, parts⟩),
        r.keep name ⟨r.count, strategy, parts⟩) := by
  unfold get
  cases hmade : r.made.lookup name with
  | some i => exact .inl ⟨i, rfl, rfl⟩
  | none =>
    right
    cases hknown : r.strategies.lookup name with
    | none => exact .inl ⟨rfl, rfl, rfl⟩
    | some strategy =>
      right
      cases hmake : make strategy with
      | error e => exact .inl ⟨strategy, e, rfl, rfl, hmake, by simp only [hmake]⟩
      | ok parts => exact .inr ⟨strategy, parts, rfl, rfl, hmake, by simp only [hmake]; rfl⟩

/-! ### Sequences of calls -/

/-- A call of a catalog. Each question for a reader says what making one comes to at its time,
so that what fails once may succeed later. -/
inductive Call (σ ε π : Type) where
  | register (name : String) (strategy : σ)
  | get (name : String) (make : σ → Except ε π)

/-- The catalog after a call. -/
def call (r : Catalog σ π) : Call σ ε π → Catalog σ π
  | .register name strategy => r.register name strategy
  | .get name make => (r.get make name).2

/-- The catalog after a sequence of calls. -/
def run (r : Catalog σ π) (calls : List (Call σ ε π)) : Catalog σ π := calls.foldl call r

/-- What is answered to a question for a reader after a sequence of calls from the beginning. -/
def answer (calls : List (Call σ ε π)) (name : String) (make : σ → Except ε π) :
    Except ε (Option (Made σ π)) :=
  ((empty.run calls).get make name).1

theorem run_cons (r : Catalog σ π) (c : Call σ ε π) (calls : List (Call σ ε π)) :
    r.run (c :: calls) = (r.call c).run calls := rfl

theorem run_append (r : Catalog σ π) (calls later : List (Call σ ε π)) :
    r.run (calls ++ later) = (r.run calls).run later :=
  List.foldl_append

/-- No strategy is registered under a name in a sequence of calls. -/
def LeavesName (name : String) (calls : List (Call σ ε π)) : Prop :=
  ∀ strategy, Call.register name strategy ∉ calls

theorem leavesName_cons {name : String} {c : Call σ ε π} {calls : List (Call σ ε π)} :
    LeavesName name (c :: calls) ↔ LeavesName name [c] ∧ LeavesName name calls := by
  simp only [LeavesName, List.mem_cons, List.not_mem_nil, or_false, not_or, forall_and]

theorem leavesName_register {name other : String} {strategy : σ} :
    LeavesName name [(.register other strategy : Call σ ε π)] ↔ name ≠ other := by
  simp [LeavesName]

/-- A question for a reader changes a catalog only by a new reader that it keeps. -/
theorem snd_get_cases (make : σ → Except ε π) (r : Catalog σ π) (name : String) :
    (r.get make name).2 = r ∨
    ∃ i, r.made.lookup name = none ∧ r.strategies.lookup name = some i.strategy ∧
      i.serial = r.count ∧ (r.get make name).2 = r.keep name i := by
  obtain ⟨i, -, h⟩ | ⟨-, -, h⟩ | ⟨strategy, e, -, -, -, h⟩ |
    ⟨strategy, parts, hnone, hknown, -, h⟩ := r.get_cases make name
  · exact .inl (by rw [h])
  · exact .inl (by rw [h])
  · exact .inl (by rw [h])
  · exact .inr ⟨⟨r.count, strategy, parts⟩, hnone, hknown, rfl, by rw [h]⟩

theorem strategies_get (make : σ → Except ε π) (r : Catalog σ π) (name : String) :
    (r.get make name).2.strategies = r.strategies := by
  obtain h | ⟨i, -, -, -, h⟩ := r.snd_get_cases make name
  · rw [h]
  · rw [h]
    rfl

/-- A reader that is given out is kept. -/
theorem made_of_get {make : σ → Except ε π} {r : Catalog σ π} {name : String} {i : Made σ π}
    (h : (r.get make name).1 = .ok (some i)) : (r.get make name).2.made.lookup name = some i := by
  obtain ⟨j, hmade, hget⟩ | ⟨-, -, hget⟩ | ⟨strategy, e, -, -, -, hget⟩ |
    ⟨strategy, parts, -, -, -, hget⟩ := r.get_cases make name
  · rw [hget] at h ⊢
    rw [hmade]
    exact Except.ok.inj h
  · rw [hget] at h
    cases h
  · rw [hget] at h
    cases h
  · rw [hget] at h ⊢
    rw [made_keep_self]
    exact Except.ok.inj h

/-- A reader that is kept is given out, whatever making one would come to. -/
theorem get_of_made {r : Catalog σ π} {name : String} {i : Made σ π}
    (h : r.made.lookup name = some i) (make : σ → Except ε π) :
    r.get make name = (.ok (some i), r) := by
  simp only [get, h]

/-- A question for a reader that fails changes nothing. -/
theorem get_of_error {make : σ → Except ε π} {r : Catalog σ π} {name : String} {e : ε}
    (h : (r.get make name).1 = .error e) : (r.get make name).2 = r := by
  obtain ⟨i, -, hget⟩ | ⟨-, -, hget⟩ | ⟨strategy, e', -, -, -, hget⟩ |
    ⟨strategy, parts, -, -, -, hget⟩ := r.get_cases make name
  · rw [hget]
  · rw [hget]
  · rw [hget]
  · -- a reader that was made is no failure
    rw [hget] at h
    cases h

/-! ### What calls leave alone -/

section Frame

variable {r : Catalog σ π} {name : String}

/-- A call that does not register a name leaves the strategy of the name. -/
theorem strategies_call {c : Call σ ε π} (h : LeavesName name [c]) :
    (r.call c).strategies.lookup name = r.strategies.lookup name := by
  cases c with
  | register other strategy =>
    exact strategies_register_of_ne r strategy (leavesName_register.mp h)
  | get other make => rw [call, strategies_get]

/-- A call that does not register a name leaves the reader of the name. -/
theorem made_call {c : Call σ ε π} (h : LeavesName name [c]) {i : Made σ π}
    (hi : r.made.lookup name = some i) : (r.call c).made.lookup name = some i := by
  cases c with
  | register other strategy =>
    rw [call, made_register_of_ne r strategy (leavesName_register.mp h), hi]
  | get other make =>
    rw [call]
    obtain hget | ⟨j, hnone, -, -, hget⟩ := r.snd_get_cases make other
    · rwa [hget]
    · -- a reader is made for a name only if none is kept for it
      have hne : name ≠ other := by
        rintro rfl
        rw [hi] at hnone
        cases hnone
      rwa [hget, made_keep_of_ne r hne]

variable {calls : List (Call σ ε π)}

theorem strategies_run (h : LeavesName name calls) :
    (r.run calls).strategies.lookup name = r.strategies.lookup name := by
  induction calls generalizing r with
  | nil => rfl
  | cons c calls ih =>
    obtain ⟨hcall, hcalls⟩ := leavesName_cons.mp h
    rw [run_cons, ih hcalls, strategies_call hcall]

theorem made_run (h : LeavesName name calls) {i : Made σ π}
    (hi : r.made.lookup name = some i) : (r.run calls).made.lookup name = some i := by
  induction calls generalizing r with
  | nil => exact hi
  | cons c calls ih =>
    obtain ⟨hcall, hcalls⟩ := leavesName_cons.mp h
    rw [run_cons]
    exact ih hcalls (made_call hcall hi)

end Frame

/-- A call that registers a name stands last in some place. -/
theorem exists_last_register {name : String} {calls : List (Call σ ε π)}
    (h : ¬ LeavesName name calls) :
    ∃ before strategy since, calls = before ++ .register name strategy :: since ∧
      LeavesName name since := by
  induction calls with
  | nil => exact absurd (fun _ => List.not_mem_nil) h
  | cons c calls ih =>
    by_cases hcalls : LeavesName name calls
    · -- only the first call is left to register the name
      have hcall : ¬ LeavesName name [c] := fun hcall => h (leavesName_cons.mpr ⟨hcall, hcalls⟩)
      cases c with
      | get other make => exact absurd (fun _ => by simp) hcall
      | register other strategy =>
        obtain rfl : name = other := by simpa [leavesName_register] using hcall
        exact ⟨[], strategy, calls, rfl, hcalls⟩
    · obtain ⟨before, strategy, since, rfl, hsince⟩ := ih hcalls
      exact ⟨c :: before, strategy, since, rfl, hsince⟩

/-- The strategy of a name is the one that was registered last. -/
theorem strategies_of_last {name : String} {strategy : σ} {before since : List (Call σ ε π)}
    (h : LeavesName name since) (r : Catalog σ π) :
    (r.run (before ++ .register name strategy :: since)).strategies.lookup name = some strategy := by
  rw [run_append, run_cons, strategies_run h]
  exact strategies_register_self _ name strategy

theorem strategies_eq_none_iff {name : String} {calls : List (Call σ ε π)} :
    ((empty : Catalog σ π).run calls).strategies.lookup name = none ↔ LeavesName name calls := by
  constructor
  · intro hnone
    by_contra hsome
    obtain ⟨before, strategy, since, rfl, hsince⟩ := exists_last_register hsome
    rw [strategies_of_last hsince] at hnone
    cases hnone
  · intro h
    rw [strategies_run h]
    rfl

/-! ### Coherence -/

/-- What holds of the tables: a reader that is kept was made by the strategy of its name, has a
number below the count, and shares it with the reader of no other name. -/
structure IsCoherent (r : Catalog σ π) : Prop where
  known : ∀ {name i}, r.made.lookup name = some i → r.strategies.lookup name = some i.strategy
  numbered : ∀ {name i}, r.made.lookup name = some i → i.serial < r.count
  apart : ∀ {name other i j}, r.made.lookup name = some i → r.made.lookup other = some j →
    i.serial = j.serial → name = other

theorem isCoherent_empty : (empty : Catalog σ π).IsCoherent where
  known h := by cases h
  numbered h := by cases h
  apart h := by cases h

namespace IsCoherent

variable {r : Catalog σ π}

theorem register (h : r.IsCoherent) (name : String) (strategy : σ) :
    (r.register name strategy).IsCoherent where
  known hi := by
    obtain ⟨hne, hi⟩ := made_of_register hi
    rw [strategies_register_of_ne r strategy hne]
    exact h.known hi
  numbered hi := h.numbered (made_of_register hi).2
  apart hi hj := h.apart (made_of_register hi).2 (made_of_register hj).2

theorem keep (h : r.IsCoherent) {name : String} {i : Made σ π}
    (hknown : r.strategies.lookup name = some i.strategy) (hserial : i.serial = r.count) :
    (r.keep name i).IsCoherent where
  known {other j} hj := by
    obtain ⟨rfl, rfl⟩ | ⟨-, hj⟩ := made_of_keep hj
    · exact hknown
    · exact h.known hj
  numbered {other j} hj := by
    change j.serial < r.count + 1
    obtain ⟨-, rfl⟩ | ⟨-, hj⟩ := made_of_keep hj
    · omega
    · have := h.numbered hj
      omega
  apart {name' other j k} hj hk hsame := by
    -- the new number is not below the old count, where all the others are
    obtain ⟨hname, hnew⟩ | ⟨-, hold⟩ := made_of_keep hj <;>
      obtain ⟨hother, hnew'⟩ | ⟨-, hold'⟩ := made_of_keep hk
    · exact hname.trans hother.symm
    · have hbelow := h.numbered hold'
      rw [hnew] at hsame
      omega
    · have hbelow := h.numbered hold
      rw [hnew'] at hsame
      omega
    · exact h.apart hold hold' hsame

theorem call (h : r.IsCoherent) (c : Call σ ε π) : (r.call c).IsCoherent := by
  cases c with
  | register name strategy => exact h.register name strategy
  | get name make =>
    rw [Catalog.call]
    obtain hget | ⟨i, -, hknown, hserial, hget⟩ := r.snd_get_cases make name
    · rwa [hget]
    · rw [hget]
      exact h.keep hknown hserial

end IsCoherent

theorem isCoherent_run (calls : List (Call σ ε π)) :
    ((empty : Catalog σ π).run calls).IsCoherent :=
  List.foldlRecOn calls _ isCoherent_empty fun _ h c _ => h.call c

/-! ### Change over time -/

/-- How the readers of a catalog may change over time: the reader of a name is either the same
or has a number that had not been used. -/
structure Precedes (r r' : Catalog σ π) : Prop where
  count_le : r.count ≤ r'.count
  same_or_new : ∀ {name i}, r'.made.lookup name = some i →
    r.made.lookup name = some i ∨ r.count ≤ i.serial

namespace Precedes

variable {r r' r'' : Catalog σ π}

theorem refl (r : Catalog σ π) : r.Precedes r := ⟨Nat.le_refl _, .inl⟩

theorem trans (h : r.Precedes r') (h' : r'.Precedes r'') : r.Precedes r'' where
  count_le := Nat.le_trans h.count_le h'.count_le
  same_or_new hi := by
    rcases h'.same_or_new hi with hi | hnew
    · exact h.same_or_new hi
    · exact .inr (Nat.le_trans h.count_le hnew)

theorem call (r : Catalog σ π) (c : Call σ ε π) : r.Precedes (r.call c) := by
  cases c with
  | register name strategy =>
    exact ⟨Nat.le_refl _, fun hi => .inl (made_of_register hi).2⟩
  | get name make =>
    rw [Catalog.call]
    obtain hget | ⟨i, -, -, hserial, hget⟩ := r.snd_get_cases make name
    · rw [hget]
      exact refl r
    · rw [hget]
      refine ⟨Nat.le_succ _, fun {other j} hj => ?_⟩
      obtain ⟨-, rfl⟩ | ⟨-, hj⟩ := made_of_keep hj
      · exact .inr (Nat.le_of_eq hserial.symm)
      · exact .inl hj

end Precedes

theorem precedes_run (r : Catalog σ π) (calls : List (Call σ ε π)) : r.Precedes (r.run calls) := by
  induction calls generalizing r with
  | nil => exact .refl r
  | cons c calls ih => exact (Precedes.call r c).trans (ih (r.call c))

/-- After a name was registered, its readers have numbers that had not been used. -/
theorem count_le_of_registered {r : Catalog σ π} {name : String} {calls : List (Call σ ε π)}
    (h : ¬ LeavesName name calls) {i : Made σ π} (hi : (r.run calls).made.lookup name = some i) :
    r.count ≤ i.serial := by
  obtain ⟨before, strategy, since, rfl, -⟩ := exists_last_register h
  rw [run_append, run_cons] at hi
  have hbefore := (precedes_run r before).count_le
  rcases (precedes_run _ since).same_or_new hi with hkept | hnew
  · -- the registration itself left no reader
    rw [call, made_register_self] at hkept
    cases hkept
  · exact Nat.le_trans hbefore hnew

/-! ### Answers -/

section Answers

variable {calls between : List (Call σ ε π)} {name other : String} {make make' : σ → Except ε π}
  {i j : Made σ π}

/-- A reader that was answered is kept in the catalog after the call. -/
theorem made_of_answer (h : answer calls name make = .ok (some i)) :
    (empty.run (calls ++ [.get name make])).made.lookup name = some i := by
  rw [run_append]
  exact made_of_get h

theorem run_get_append (calls between : List (Call σ ε π)) (name : String)
    (make : σ → Except ε π) :
    (empty : Catalog σ π).run (calls ++ .get name make :: between) =
      (empty.run (calls ++ [.get name make])).run between := by
  rw [← run_append, List.append_assoc]
  rfl

theorem answer_eq_none_iff : answer calls name make = .ok none ↔ LeavesName name calls := by
  have hcoherent := isCoherent_run (π := π) calls
  rw [← strategies_eq_none_iff (π := π), answer]
  obtain ⟨i, hmade, hget⟩ | ⟨-, hnone, hget⟩ | ⟨strategy, e, -, hknown, -, hget⟩ |
    ⟨strategy, parts, -, hknown, -, hget⟩ := (empty.run calls).get_cases make name
  · -- a reader that is kept has a strategy
    simp [hget, hcoherent.known hmade]
  · simp [hget, hnone]
  · simp [hget, hknown]
  · simp [hget, hknown]

theorem answer_of_last {strategy : σ} {before since : List (Call σ ε π)}
    (hcalls : calls = before ++ .register name strategy :: since) (hsince : LeavesName name since) :
    (∃ i, answer calls name make = .ok (some i) ∧ i.strategy = strategy) ∨
      ∃ e, answer calls name make = .error e ∧ make strategy = .error e := by
  have hcoherent := isCoherent_run (π := π) calls
  have hlast : (empty.run calls : Catalog σ π).strategies.lookup name = some strategy := by
    rw [hcalls]
    exact strategies_of_last hsince empty
  rw [answer]
  obtain ⟨i, hmade, hget⟩ | ⟨-, hnone, -⟩ | ⟨strategy', e, -, hknown, hmake, hget⟩ |
    ⟨strategy', parts, -, hknown, -, hget⟩ := (empty.run calls).get_cases make name
  · refine .inl ⟨i, by rw [hget], ?_⟩
    exact Option.some.inj ((hcoherent.known hmade).symm.trans hlast)
  · rw [hlast] at hnone
    cases hnone
  · obtain rfl := Option.some.inj (hlast.symm.trans hknown)
    exact .inr ⟨e, by rw [hget], hmake⟩
  · obtain rfl := Option.some.inj (hlast.symm.trans hknown)
    exact .inl ⟨_, by rw [hget], rfl⟩

/-- A reader is answered again as long as its name is not registered anew. -/
theorem eq_of_leavesName (hi : answer calls name make = .ok (some i))
    (hj : answer (calls ++ .get name make :: between) name make' = .ok (some j))
    (h : LeavesName name between) : i = j := by
  rw [answer, run_get_append, get_of_made (made_run h (made_of_answer hi))] at hj
  exact Option.some.inj (Except.ok.inj hj)

/-- A reader of a name that was registered anew is another one. -/
theorem serial_ne_of_registered (hi : answer calls name make = .ok (some i))
    (hj : answer (calls ++ .get name make :: between) name make' = .ok (some j))
    (h : ¬ LeavesName name between) : i.serial ≠ j.serial := by
  have hbelow := (isCoherent_run _).numbered (made_of_answer hi)
  have hlater := made_of_answer hj
  rw [List.append_assoc, List.cons_append, run_get_append] at hlater
  have hnew := count_le_of_registered (fun hleaves => h fun strategy hmem =>
    hleaves strategy (List.mem_append_left _ hmem)) hlater
  omega

/-- The readers of two names are not the same, whenever they were answered. -/
theorem serial_ne_of_ne (hi : answer calls name make = .ok (some i))
    (hj : answer (calls ++ .get name make :: between) other make' = .ok (some j))
    (h : name ≠ other) : i.serial ≠ j.serial := by
  intro hsame
  have hcoherent := isCoherent_run (π := π) (calls ++ [.get name make])
  have hkept := made_of_answer hi
  have hbelow := hcoherent.numbered hkept
  have hlater := made_of_answer hj
  rw [List.append_assoc, List.cons_append, run_get_append] at hlater
  rcases (precedes_run _ _).same_or_new hlater with hkept' | hnew
  · exact h (hcoherent.apart hkept hkept' hsame)
  · omega

/-- A call that fails might as well not have been made. -/
theorem run_of_error {e : ε} (h : answer calls name make = .error e)
    (later : List (Call σ ε π)) :
    (empty : Catalog σ π).run (calls ++ .get name make :: later) = empty.run (calls ++ later) := by
  rw [run_append, run_cons, call, get_of_error h, ← run_append]

end Answers

/-- The registry of readers stays coherent through any sequence of calls. A question for a name
is answered with nothing exactly if the name was never registered. Otherwise it is answered with
a reader made by the strategy that was registered last under the name, unless making this reader
fails. The answers to two questions for one name are the same reader exactly if the name was not
registered in between, whatever happened to other names; the answers for two names never are. A
question that fails leaves the catalog and all later answers as if it had not been asked. -/
theorem answers_coherent (calls : List (Call σ ε π)) (name : String) (make : σ → Except ε π) :
    (answer calls name make = .ok none ↔ ∀ strategy, .register name strategy ∉ calls) ∧
    (∀ before strategy since, calls = before ++ .register name strategy :: since →
      (∀ other, .register name other ∉ since) →
      (∃ i, answer calls name make = .ok (some i) ∧ i.strategy = strategy) ∨
        ∃ e, answer calls name make = .error e ∧ make strategy = .error e) ∧
    (∀ i, answer calls name make = .ok (some i) →
      ∀ between other make' j,
        answer (calls ++ .get name make :: between) other make' = .ok (some j) →
        (other = name → (i.serial = j.serial ↔ ∀ strategy, .register name strategy ∉ between)) ∧
        (i.serial = j.serial → i = j) ∧
        (other ≠ name → i.serial ≠ j.serial)) ∧
    (∀ e, answer calls name make = .error e → ∀ later,
      (empty : Catalog σ π).run (calls ++ .get name make :: later) = empty.run (calls ++ later) ∧
      ∀ other make', answer (calls ++ .get name make :: later) other make' =
        answer (calls ++ later) other make') := by
  refine ⟨answer_eq_none_iff, fun before strategy since hcalls hsince =>
    answer_of_last hcalls hsince, fun i hi between other make' j hj => ⟨?_, ?_, ?_⟩,
    fun e he later => ⟨run_of_error he later, fun other make' => ?_⟩⟩
  · rintro rfl
    constructor
    · intro hsame
      by_contra hregistered
      exact serial_ne_of_registered hi hj hregistered hsame
    · intro hleaves
      rw [eq_of_leavesName hi hj hleaves]
  · intro hsame
    -- readers with one number have one name, which was left alone in between
    obtain rfl : name = other := by
      by_contra hne
      exact serial_ne_of_ne hi hj hne hsame
    apply eq_of_leavesName hi hj
    by_contra hregistered
    exact serial_ne_of_registered hi hj hregistered hsame
  · exact fun hne => serial_ne_of_ne hi hj hne.symm
  · rw [answer, answer, run_of_error he later]

/-- The calls that a registry with the two strategies begins with. -/
def standardCalls : List (Call Strategy CommandError (Option External)) :=
  [.register "native" .native, .register "external" .external]

/-- A command line with an open quote fails and is forgotten; the reader that a whole one makes
is then kept, although the command line is broken again and another name is registered anew. -/
theorem answers_coherent_open_quote :
    let broken := Strategy.make { extractorCommand := "run \"" }
    let whole := Strategy.make { extractorCommand := "run" }
    let after := standardCalls ++ [.get "external" broken]
    empty.run standardCalls = Registry.standard ∧
    answer standardCalls "external" broken = .error .openQuote ∧
    answer after "external" whole = answer standardCalls "external" whole ∧
    ∃ i j, answer after "external" whole = .ok (some i) ∧ i.strategy = .external ∧
      answer (after ++ .get "external" whole :: [.register "native" .external]) "external" broken =
        .ok (some j) ∧ i.serial = j.serial := by
  intro broken whole after
  have hbroken : answer standardCalls "external" broken = .error .openQuote := rfl
  obtain ⟨-, -, -, hforgotten⟩ := answers_coherent standardCalls "external" broken
  obtain ⟨-, hlast, hkept, -⟩ := answers_coherent after "external" whole
  refine ⟨rfl, hbroken, (hforgotten _ hbroken []).2 "external" whole, ?_⟩
  obtain ⟨i, hi, hstrategy⟩ | ⟨e, -, he⟩ :=
    hlast [.register "native" .native] .external [.get "external" broken] rfl (by simp)
  · obtain ⟨j, hj⟩ : ∃ j, answer (after ++ .get "external" whole :: [.register "native" .external])
        "external" broken = .ok (some j) := ⟨_, rfl⟩
    refine ⟨i, j, hi, hstrategy, hj, ?_⟩
    exact ((hkept i hi _ "external" broken j hj).1 rfl).mpr (by simp)
  · cases he

end PluginAtlas.Script.Catalog
