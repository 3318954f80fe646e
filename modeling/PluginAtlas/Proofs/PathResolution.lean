import PluginAtlas.Proofs.Segments
import PluginAtlas.SourceFile

/-!
# Resolved references

A reference is resolved by its components alone, but where its target exists it takes the
canonical path of the target. On a disk without links the two agree: what is left after
`..` has been resolved leads straight down from the root. They differ in one case, where a
path starts with exactly two slashes: its anchor stays if the target is missing, and is
lost if it exists.

## Main definitions

* `Path.IsComponent`: the texts that can stand between two slashes.
* `leadingSlashes`: the slashes that a text begins with.

## Main results

* `Path.canonical_normalize`: a normalized path is canonical, but for its anchor.
* `anchor_joinPaths`: the anchor of a reference seen from a directory.
* `resolveReference_free_iff`: when it does not matter whether the target exists.
* `SourceFile.anchor_directory`: files whose path has one leading slash lie in such
  directories.
-/

namespace PluginAtlas

namespace Path

/-! ### Components -/

/-- A text that can stand between two slashes of a path. -/
def IsComponent (name : String) : Prop := name ≠ "" ∧ '/' ∉ name.toList

instance (name : String) : Decidable (IsComponent name) :=
  inferInstanceAs (Decidable (name ≠ "" ∧ '/' ∉ name.toList))

theorem isComponent_of_mem_parse {s part : String} (h : part ∈ (parse s).parts) :
    IsComponent part := by
  obtain ⟨hsplit, hkept⟩ := List.mem_filter.mp h
  obtain ⟨cs, hcs, rfl⟩ := List.mem_map.mp hsplit
  refine ⟨fun hempty => by simp [hempty] at hkept, ?_⟩
  rw [String.toList_ofList]
  exact Text.not_mem_of_mem_splitOn hcs

/-! ### Normalized paths -/

section Steps

variable {anchor : Anchor} (hanchor : anchor ≠ .here)

include hanchor

/-- At an anchor a step keeps the components so far, or all but one, and adds no `..`. -/
theorem normalizeStep_cases (done : List String) (part : String) (hdone : ".." ∉ done) :
    (part ≠ ".." ∧ normalizeStep anchor done part = part :: done) ∨
      (part = ".." ∧ normalizeStep anchor done part = done.tail) := by
  by_cases hpart : part = ".."
  · refine .inr ⟨hpart, ?_⟩
    subst hpart
    cases done with
    | nil => simp [normalizeStep, hanchor]
    | cons last before =>
      have hlast : last ≠ ".." := fun h => hdone (h ▸ List.mem_cons_self)
      simp [normalizeStep, hlast]
  · exact .inl ⟨hpart, by simp [normalizeStep, hpart]⟩

theorem notMem_foldl_normalizeStep (parts : List String) {done : List String}
    (hdone : ".." ∉ done) : ".." ∉ parts.foldl (normalizeStep anchor) done := by
  induction parts generalizing done with
  | nil => exact hdone
  | cons part parts ih =>
    rw [List.foldl_cons]
    apply ih
    rcases normalizeStep_cases hanchor done part hdone with ⟨hpart, heq⟩ | ⟨-, heq⟩
    · rw [heq, List.mem_cons]
      exact fun h => h.elim (fun h => hpart h.symm) hdone
    · rw [heq]
      exact fun h => hdone (List.mem_of_mem_tail h)

theorem mem_of_mem_foldl_normalizeStep {parts done : List String} (hdone : ".." ∉ done)
    {part : String} (h : part ∈ parts.foldl (normalizeStep anchor) done) :
    part ∈ parts ∨ part ∈ done := by
  induction parts generalizing done with
  | nil => exact .inr h
  | cons first parts ih =>
    rw [List.foldl_cons] at h
    rcases normalizeStep_cases hanchor done first hdone with ⟨hfirst, heq⟩ | ⟨-, heq⟩
    · have hnext : ".." ∉ first :: done := by simp [Ne.symm hfirst, hdone]
      rw [heq] at h
      rcases ih hnext h with h | h
      · exact .inl (List.mem_cons_of_mem _ h)
      · rcases List.mem_cons.mp h with rfl | h
        · exact .inl List.mem_cons_self
        · exact .inr h
    · rw [heq] at h
      rcases ih (fun h => hdone (List.mem_of_mem_tail h)) h with h | h
      · exact .inl (List.mem_cons_of_mem _ h)
      · exact .inr (List.mem_of_mem_tail h)

end Steps

theorem foldl_normalizeStep_of_notMem (anchor : Anchor) {parts : List String}
    (h : ".." ∉ parts) (done : List String) :
    parts.foldl (normalizeStep anchor) done = parts.reverse ++ done := by
  induction parts generalizing done with
  | nil => rfl
  | cons part parts ih =>
    obtain ⟨hpart, hparts⟩ : ¬ ".." = part ∧ ".." ∉ parts := by simpa using h
    have hstep : normalizeStep anchor done part = part :: done := by
      simp [normalizeStep, Ne.symm hpart]
    rw [List.foldl_cons, hstep, ih hparts, List.reverse_cons, List.append_assoc,
      List.singleton_append]

variable {p : Path}

theorem notMem_normalize_parts (h : p.anchor ≠ .here) : ".." ∉ p.normalize.parts := by
  rw [normalize, List.mem_reverse]
  exact notMem_foldl_normalizeStep h p.parts (by simp)

theorem isComponent_of_mem_normalize (h : p.anchor ≠ .here)
    (hparts : ∀ part ∈ p.parts, IsComponent part) :
    ∀ part ∈ p.normalize.parts, IsComponent part := by
  intro part hpart
  rw [normalize, List.mem_reverse] at hpart
  rcases mem_of_mem_foldl_normalizeStep h (by simp) hpart with hpart | hpart
  · exact hparts part hpart
  · cases hpart

/-- A normalized path leads straight down from its anchor, so that it is followed as it is
written. -/
theorem canonical_normalize (h : p.anchor ≠ .here) :
    p.normalize.canonical = { p.normalize with anchor := .root } := by
  rw [canonical, foldl_normalizeStep_of_notMem .root (notMem_normalize_parts h), List.append_nil,
    List.reverse_reverse]

end Path

/-! ### Anchors -/

theorem Anchor.eq_root {anchor : Anchor} (hhere : anchor ≠ .here) (hdoubled : anchor ≠ .doubled) :
    anchor = .root := by
  cases anchor with
  | here => exact absurd rfl hhere
  | root => rfl
  | doubled => exact absurd rfl hdoubled

/-- The slashes that a text begins with. -/
def leadingSlashes (s : String) : Nat := (s.toList.takeWhile (· == '/')).length

/-- One slash and three or more anchor a path at the root; two have an anchor of their
own. -/
theorem Anchor.of_eq (s : String) :
    Anchor.of s = if leadingSlashes s = 0 then .here
      else if leadingSlashes s = 2 then .doubled else .root := by
  rw [Anchor.of, leadingSlashes]
  -- only the first three characters matter
  match s.toList with
  | [] => rfl
  | [a] => by_cases ha : a = '/' <;> simp [ha]
  | [a, b] => by_cases ha : a = '/' <;> by_cases hb : b = '/' <;> simp [ha, hb]
  | a :: b :: c :: rest =>
    by_cases ha : a = '/' <;> by_cases hb : b = '/' <;> by_cases hc : c = '/' <;> simp [ha, hb, hc]

theorem startsWith_slash_iff (s : String) :
    Text.startsWith "/" s = true ↔ leadingSlashes s ≠ 0 := by
  rw [Text.startsWith, leadingSlashes]
  cases s.toList with
  | nil => simp
  | cons c cs =>
    by_cases hc : '/' = c
    · simp [← hc]
    · simp [hc, Ne.symm hc]

theorem anchor_ne_here_iff (s : String) :
    Anchor.of s ≠ .here ↔ Text.startsWith "/" s = true := by
  rw [Anchor.of_eq, startsWith_slash_iff]
  split_ifs with hnone htwo <;> simp [hnone]

/-- The slashes at the front of two texts are those of the first, unless it has nothing
else. -/
theorem leadingSlashes_append (s t : String) :
    leadingSlashes (s ++ t) = if leadingSlashes s = s.length then s.length + leadingSlashes t
      else leadingSlashes s := by
  rw [leadingSlashes, leadingSlashes, leadingSlashes, String.toList_append, List.takeWhile_append,
    String.length_toList]
  split_ifs <;> simp [String.length_toList]

theorem leadingSlashes_slash_append (s : String) :
    leadingSlashes ("/" ++ s) = leadingSlashes s + 1 := by
  simp [leadingSlashes]

/-- A text of slashes and nothing else ends with a slash. -/
theorem endsWith_slash_of_leadingSlashes {s : String} (hne : s ≠ "")
    (h : leadingSlashes s = s.length) : Text.endsWith "/" s = true := by
  have hfront : s.toList.takeWhile (· == '/') <+: s.toList := List.takeWhile_prefix _
  have hall : s.toList.takeWhile (· == '/') = s.toList :=
    hfront.eq_of_length (by rw [String.length_toList]; exact h)
  rcases List.eq_nil_or_concat s.toList with hnil | ⟨front, last, hlast⟩
  · exact absurd (String.toList_eq_nil_iff.mp hnil) hne
  · have hslash : last ∈ s.toList.takeWhile (· == '/') := by
      rw [hall, hlast]
      simp
    have hmark : last = '/' := by simpa using List.mem_takeWhile_imp hslash
    subst hmark
    simp [Text.endsWith, hlast]

/-- A reference that starts with a slash has its own anchor, any other that of the
directory. -/
theorem anchor_joinPaths (directory reference : String) :
    Anchor.of (joinPaths directory reference) =
      if Text.startsWith "/" reference then Anchor.of reference else Anchor.of directory := by
  rw [joinPaths]
  split_ifs with habsolute hend
  · rfl
  · have hnone : leadingSlashes reference = 0 := by
      simpa [startsWith_slash_iff] using habsolute
    have hslashes : leadingSlashes (directory ++ reference) = leadingSlashes directory := by
      rw [leadingSlashes_append, hnone]
      split_ifs with hall
      · rw [hall, Nat.add_zero]
      · rfl
    rw [Anchor.of_eq, Anchor.of_eq, hslashes]
  · obtain ⟨hne, hend⟩ : directory ≠ "" ∧ Text.endsWith "/" directory = false := by simpa using hend
    have hslashes : leadingSlashes (directory ++ "/" ++ reference) = leadingSlashes directory := by
      rw [String.append_assoc, leadingSlashes_append, if_neg]
      -- the directory has something else than slashes, else it would end with one
      intro hall
      simp [endsWith_slash_of_leadingSlashes hne hall] at hend
    rw [Anchor.of_eq, Anchor.of_eq, hslashes]

theorem leadingSlashes_join {parts : List String} (h : ∀ part ∈ parts, Path.IsComponent part) :
    leadingSlashes (Text.join "/" parts) = 0 := by
  cases parts with
  | nil => rfl
  | cons part rest =>
    obtain ⟨hne, hslash⟩ := h part List.mem_cons_self
    obtain ⟨more, hmore⟩ := Text.exists_join_cons "/" part rest
    obtain ⟨c, cs, hcs⟩ := List.exists_cons_of_ne_nil (mt String.toList_eq_nil_iff.mp hne)
    have hc : c ≠ '/' := by
      rintro rfl
      exact hslash (hcs ▸ List.mem_cons_self)
    simp [leadingSlashes, hmore, hcs, hc]

/-- The text of a path below the root has one leading slash. -/
theorem Path.anchor_render {p : Path} (hanchor : p.anchor = .root)
    (hparts : ∀ part ∈ p.parts, IsComponent part) : Anchor.of p.render = .root := by
  have hrender : p.render = "/" ++ Text.join "/" p.parts := by
    simp [render, hanchor, Anchor.text]
  rw [hrender, Anchor.of_eq, leadingSlashes_slash_append, leadingSlashes_join hparts]
  rfl

/-- A file whose path has one leading slash lies in a directory whose path has one. -/
theorem SourceFile.anchor_directory {f : SourceFile} (h : Anchor.of f.path = .root) :
    Anchor.of f.directory = .root := by
  refine Path.anchor_render h fun part hpart => ?_
  exact Path.isComponent_of_mem_parse (List.dropLast_subset _ hpart)

/-! ### References -/

section References

variable {directory reference : String}

theorem anchor_resolveLexically (directory reference : String) :
    (resolveLexically directory reference).anchor = Anchor.of (joinPaths directory reference) := rfl

theorem canonical_resolveLexically (h : Anchor.of (joinPaths directory reference) ≠ .here) :
    (resolveLexically directory reference).canonical =
      { resolveLexically directory reference with anchor := .root } :=
  Path.canonical_normalize h

/-- Below a single leading slash the canonical path of a target is the one that its
components give. -/
theorem resolveReference_of_root (h : Anchor.of (joinPaths directory reference) = .root)
    (probe : Probe) :
    resolveReference probe directory reference =
      (probe (resolveLexically directory reference)).map
        fun _ => (resolveLexically directory reference).render := by
  have hcanonical : (resolveLexically directory reference).canonical =
      resolveLexically directory reference := by
    rw [canonical_resolveLexically (by rw [h]; decide), ← h, ← anchor_resolveLexically]
  simp only [resolveReference, hcanonical, ite_self]

/-- Behind two leading slashes the canonical path of a target is shorter. -/
theorem render_canonical_ne (h : Anchor.of (joinPaths directory reference) = .doubled) :
    (resolveLexically directory reference).canonical.render ≠
      (resolveLexically directory reference).render := by
  rw [canonical_resolveLexically (by rw [h]; decide)]
  have hanchor := anchor_resolveLexically directory reference
  rw [h] at hanchor
  intro heq
  have hlength : "/".length = "//".length := by
    simpa [Path.render, hanchor, Anchor.text] using congrArg String.length heq
  exact absurd hlength (by decide)

theorem anchor_joinPaths_eq_root (hdirectory : Anchor.of directory ≠ .here)
    (hreference : Anchor.of reference ≠ .doubled)
    (hdoubled : Anchor.of directory = .doubled → Text.startsWith "/" reference = true) :
    Anchor.of (joinPaths directory reference) = .root := by
  rw [anchor_joinPaths]
  split_ifs with habsolute
  · exact Anchor.eq_root ((anchor_ne_here_iff reference).mpr habsolute) hreference
  · exact Anchor.eq_root hdirectory fun h => habsolute (hdoubled h)

/-- A reference whose target the disk has no answer for leads nowhere. -/
theorem resolveReference_of_error {probe : Probe} {error : DiskError}
    (h : probe (resolveLexically directory reference) = .error error) :
    resolveReference probe directory reference = .error error := by
  rw [resolveReference, h]
  rfl

/-- Seen from an absolute directory, a reference means the same whether or not its target
exists, as long as that can be told, exactly if it does not lead to a path with two leading
slashes: neither its own nor, unless it is absolute, those of the directory. -/
theorem resolveReference_free_iff (hdirectory : Anchor.of directory ≠ .here) :
    (∀ (probe probe' : Probe) (found found' : Bool),
        probe (resolveLexically directory reference) = .ok found →
        probe' (resolveLexically directory reference) = .ok found' →
          resolveReference probe directory reference =
            resolveReference probe' directory reference) ↔
      Anchor.of reference ≠ .doubled ∧
        (Anchor.of directory = .doubled → Text.startsWith "/" reference = true) := by
  have hanchor := anchor_joinPaths directory reference
  constructor
  · intro hfree
    have hsingle : Anchor.of (joinPaths directory reference) ≠ .doubled := by
      intro hdoubled
      -- a target that exists against one that does not
      have hsame := hfree (fun _ => .ok true) (fun _ => .ok false) true false rfl rfl
      exact render_canonical_ne hdoubled (Except.ok.inj hsame)
    rw [hanchor] at hsingle
    split_ifs at hsingle with habsolute
    · exact ⟨hsingle, fun _ => habsolute⟩
    · have hrelative : Anchor.of reference = .here := by
        simpa using mt (anchor_ne_here_iff reference).mp habsolute
      exact ⟨by simp [hrelative], fun hdoubled => absurd hdoubled hsingle⟩
  · rintro ⟨hreference, hdoubled⟩ probe probe' found found' hfound hfound'
    have hroot := anchor_joinPaths_eq_root hdirectory hreference hdoubled
    rw [resolveReference_of_root hroot, resolveReference_of_root hroot, hfound, hfound']
    rfl

end References

end PluginAtlas
