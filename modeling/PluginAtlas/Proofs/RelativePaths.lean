import PluginAtlas.Proofs.FileReferences
import PluginAtlas.Proofs.Utf8RoundTrip

/-!
# Paths below a root

A path is made relative to a root by comparing texts: the text of the root and a slash are cut
off at the front. What this means is said by components. If those of the root are the first
components of the path, the others are left, with slashes between them. If they are not, the
path stays as it is, even if its text begins with that of the root. Empty components, single
dots and slashes at the end do not count, and neither does it matter whether the root is the
root of the disk.

A path that is left as it is begins with a slash, and one that is cut does not, so no two paths
become the same.

## Main definitions

* `Path.IsNormal`: a path from the root of the disk, as it is written after it was read.

## Main results

* `relativeTo_of_append`: the path of what lies below the root.
* `relativeTo_of_not_below`: the path of what does not.
* `relativeTo_eq_iff`: relative paths are equal for equal paths only.
* `relative_paths_identify_files`: all of them together, and files.
-/

namespace PluginAtlas

namespace Path

/-! ### Paths from the root of the disk -/

theorem isTelling_of_mem_parse {s part : String} (h : part ∈ (parse s).parts) :
    isTelling part = true :=
  (List.mem_filter.mp h).2

theorem render_parse {s : String} (h : Anchor.of s = .root) :
    (parse s).render = "/" ++ Text.join "/" (parse s).parts := by
  have hanchor : (parse s).anchor = .root := h
  simp [render, hanchor, Anchor.text]

/-- What was read from a text is read again from its own text. -/
theorem parse_render {s : String} (h : Anchor.of s = .root) : parse (parse s).render = parse s := by
  have hanchor : (parse s).anchor = .root := h
  rw [render_parse h, parse_root_join (fun _ => isComponent_of_mem_parse)
    (fun _ => isTelling_of_mem_parse), ← hanchor]

/-- Components that were read are read again from any number of them. -/
theorem parse_join_of_subset {s : String} {parts : List String} (h : parts ⊆ (parse s).parts) :
    (parse (Text.join "/" parts)).parts = parts := by
  rw [parse_join fun part hpart => (isComponent_of_mem_parse (h hpart)).2]
  exact List.filter_eq_self.mpr fun part hpart => isTelling_of_mem_parse (h hpart)

/-- A text is the normal form of a path from the root of the disk. -/
def IsNormal (path : String) : Prop := Anchor.of path = .root ∧ (parse path).render = path

/-! ### The text of a root -/

theorem dropEndWhile_concat {α : Type} {p : α → Bool} (xs : List α) {x : α} (h : p x = false) :
    Text.dropEndWhile p (xs ++ [x]) = xs ++ [x] := by
  rw [Text.dropEndWhile, List.reverse_append, List.reverse_singleton, List.singleton_append,
    List.dropWhile_cons_of_neg (by simp [h]), List.reverse_cons, List.reverse_reverse]

/-- Only the root of the disk ends with a slash. -/
theorem trimEnd_render {s : String} (h : Anchor.of s = .root) :
    Text.trimEnd (· == '/') (parse s).render =
      if (parse s).parts = [] then "" else (parse s).render := by
  rw [render_parse h]
  rcases List.eq_nil_or_concat (parse s).parts with hnil | ⟨front, last, hlast⟩
  · rw [hnil, if_pos rfl]
    rfl
  · have hmem : last ∈ (parse s).parts := by simp [hlast]
    obtain ⟨hne, hslash⟩ := isComponent_of_mem_parse hmem
    obtain ⟨start, hstart⟩ := Text.exists_join_concat "/" front last
    -- The last character belongs to the last component.
    rcases List.eq_nil_or_concat last.toList with hempty | ⟨cs, c, hc⟩
    · exact absurd (String.toList_eq_nil_iff.mp hempty) hne
    · have hend : (c == '/') = false := by
        rw [beq_eq_false_iff_ne]
        rintro rfl
        exact hslash (by simp [hc])
      rw [hlast, List.concat_eq_append, if_neg (by simp), hstart, Text.trimEnd]
      apply String.toList_injective
      simp only [String.toList_append, hc, List.concat_eq_append, String.toList_ofList,
        ← List.append_assoc]
      exact dropEndWhile_concat _ hend

end Path

/-! ### Relative paths -/

section Relative

variable {path path' root : String} (hroot : Anchor.of root = .root)

include hroot

/-- A root is cut off with the slash behind it. -/
theorem relativeTo_eq :
    relativeTo path (some root) =
      if (Path.parse path).render = Text.trimEnd (· == '/') (Path.parse root).render then ""
      else (Text.dropStart? (Text.trimEnd (· == '/') (Path.parse root).render ++ "/")
        (Path.parse path).render).getD (Path.parse path).render := by
  unfold relativeTo
  split
  · next heq => cases heq
  · next heq =>
    obtain rfl := Option.some.inj heq
    cases hroot
  · next heq =>
    obtain rfl := Option.some.inj heq
    rfl

/-- What begins with the root and a slash has the components of the root in front. -/
theorem parts_of_startsWith {rest : String}
    (h : (Path.parse path).render =
      Text.trimEnd (· == '/') (Path.parse root).render ++ "/" ++ rest)
    (hpath : Anchor.of path = .root) :
    (Path.parse path).parts = (Path.parse root).parts ++ (Path.parse rest).parts := by
  have hbase : (Path.parse (Text.trimEnd (· == '/') (Path.parse root).render)).parts =
      (Path.parse root).parts := by
    rw [Path.trimEnd_render hroot]
    split_ifs with hnil
    · rw [hnil]
      rfl
    · rw [Path.parse_render hroot]
  rw [← Path.parse_render hpath, h, Path.parse_slash, hbase]

variable (hpath : Anchor.of path = .root)

include hpath

/-- Below a root the components of the root are left out. -/
theorem relativeTo_of_append {rest : List String}
    (h : (Path.parse path).parts = (Path.parse root).parts ++ rest) :
    relativeTo path (some root) = Text.join "/" rest := by
  rw [relativeTo_eq hroot, Path.trimEnd_render hroot]
  have hrender := Path.render_parse hpath
  rw [h] at hrender
  by_cases hrootParts : (Path.parse root).parts = []
  · -- Below the root of the disk only the slash is cut off.
    rw [hrootParts, List.nil_append] at hrender
    rw [if_pos hrootParts, hrender, if_neg (by simp), String.empty_append, Text.dropStart?_append]
    rfl
  · rw [if_neg hrootParts]
    by_cases hrest : rest = []
    · have hsame : (Path.parse path).render = (Path.parse root).render := by
        rw [hrender, hrest, List.append_nil, Path.render_parse hroot]
      rw [if_pos hsame, hrest]
      rfl
    · have htext : (Path.parse path).render =
          (Path.parse root).render ++ "/" ++ Text.join "/" rest := by
        rw [hrender, Text.join, String.intercalate_append_of_ne_nil hrootParts hrest,
          Path.render_parse hroot]
        simp only [Text.join, String.append_assoc]
      have hlonger : (Path.parse path).render ≠ (Path.parse root).render := by
        intro heq
        have hlength := congrArg String.length (heq.symm.trans htext)
        simp only [String.length_append] at hlength
        have : "/".length = 1 := rfl
        omega
      rw [if_neg hlonger, htext, Text.dropStart?_append]
      rfl

/-- What does not lie below a root keeps its path, even if it begins like the root. -/
theorem relativeTo_of_not_below (h : ¬ (Path.parse root).parts <+: (Path.parse path).parts) :
    relativeTo path (some root) = (Path.parse path).render := by
  have hcut : ∀ rest, (Path.parse path).render ≠
      Text.trimEnd (· == '/') (Path.parse root).render ++ "/" ++ rest := by
    intro rest hrest
    exact h ⟨_, (parts_of_startsWith hroot hrest hpath).symm⟩
  rw [relativeTo_eq hroot, if_neg]
  · rw [Text.dropStart?, if_neg]
    · rfl
    · intro hstarts
      obtain ⟨rest, hrest⟩ := List.isPrefixOf_iff_prefix.mp hstarts
      refine hcut (String.ofList rest) ?_
      apply String.toList_injective
      rw [String.toList_append, String.toList_ofList, hrest]
  · -- The same text has the same components.
    intro heq
    rw [Path.trimEnd_render hroot] at heq
    split_ifs at heq with hnil
    · exact h (hnil ▸ List.nil_prefix)
    · have hsame : Path.parse path = Path.parse root := by
        rw [← Path.parse_render hpath, heq, Path.parse_render hroot]
      exact h (hsame ▸ List.prefix_rfl)

/-- A relative path begins with a slash only if nothing was cut off. -/
theorem leadingSlashes_relativeTo :
    leadingSlashes (relativeTo path (some root)) =
      if (Path.parse root).parts <+: (Path.parse path).parts then 0 else 1 := by
  have hcomponents : ∀ part ∈ (Path.parse path).parts, Path.IsComponent part :=
    fun _ => Path.isComponent_of_mem_parse
  split_ifs with hbelow
  · obtain ⟨rest, hrest⟩ := hbelow
    rw [relativeTo_of_append hroot hpath hrest.symm]
    refine leadingSlashes_join fun part hpart => hcomponents part ?_
    exact hrest ▸ List.mem_append_right _ hpart
  · rw [relativeTo_of_not_below hroot hpath hbelow, Path.render_parse hpath,
      leadingSlashes_slash_append, leadingSlashes_join hcomponents]

/-- What is left when the root is cut off are the other components, exactly if those of the
root are the first. -/
theorem relativeTo_eq_join_iff :
    relativeTo path (some root) =
        Text.join "/" ((Path.parse path).parts.drop (Path.parse root).parts.length) ↔
      (Path.parse root).parts <+: (Path.parse path).parts := by
  constructor
  · intro heq
    by_contra hbelow
    have hslashes := leadingSlashes_relativeTo hroot hpath
    rw [if_neg hbelow, heq, leadingSlashes_join fun part hpart =>
      Path.isComponent_of_mem_parse (List.mem_of_mem_drop hpart)] at hslashes
    cases hslashes
  · rintro ⟨rest, hrest⟩
    rw [relativeTo_of_append hroot hpath hrest.symm, ← hrest, List.drop_left]

/-- Only equal paths have equal relative paths. -/
theorem relativeTo_eq_iff (hpath' : Anchor.of path' = .root) :
    relativeTo path (some root) = relativeTo path' (some root) ↔
      Path.parse path = Path.parse path' := by
  constructor
  · intro heq
    have hparts : (Path.parse path).parts = (Path.parse path').parts := by
      have hslashes := leadingSlashes_relativeTo hroot hpath
      rw [heq, leadingSlashes_relativeTo hroot hpath'] at hslashes
      by_cases hbelow : (Path.parse root).parts <+: (Path.parse path).parts
      · -- Both are cut: the components that are left can be read off the text.
        have hbelow' : (Path.parse root).parts <+: (Path.parse path').parts := by
          by_contra hnot
          rw [if_pos hbelow, if_neg hnot] at hslashes
          cases hslashes
        obtain ⟨rest, hrest⟩ := hbelow
        obtain ⟨rest', hrest'⟩ := hbelow'
        rw [relativeTo_of_append hroot hpath hrest.symm,
          relativeTo_of_append hroot hpath' hrest'.symm] at heq
        have hread := congrArg (fun text => (Path.parse text).parts) heq
        rw [Path.parse_join_of_subset (hrest ▸ List.subset_append_right _ _),
          Path.parse_join_of_subset (hrest' ▸ List.subset_append_right _ _)] at hread
        rw [← hrest, ← hrest', hread]
      · have hbelow' : ¬ (Path.parse root).parts <+: (Path.parse path').parts := by
          intro hcut
          rw [if_neg hbelow, if_pos hcut] at hslashes
          cases hslashes
        rw [relativeTo_of_not_below hroot hpath hbelow,
          relativeTo_of_not_below hroot hpath' hbelow'] at heq
        rw [← Path.parse_render hpath, heq, Path.parse_render hpath']
    have hanchor : (Path.parse path).anchor = (Path.parse path').anchor := hpath.trans hpath'.symm
    have heta : Path.parse path = ⟨(Path.parse path).anchor, (Path.parse path).parts⟩ := rfl
    rw [heta, hanchor, hparts]
  · intro heq
    rw [relativeTo_eq hroot, relativeTo_eq hroot, heq]

end Relative

/-- Paths below a root, for a root and paths from the root of the disk (three or more leading
slashes count as one). The relative path consists of the components behind those of the root,
exactly if the root is made up of the first components of the path, and is the whole path in its
normal form else. So no two paths in normal form have the same relative path, and what is hashed
for the call sites of two files is different, as long as the files are. -/
theorem relative_paths_identify_files {root : String} (hroot : Anchor.of root = .root) :
    (∀ path, Anchor.of path = .root →
      (relativeTo path (some root) =
          Text.join "/" ((Path.parse path).parts.drop (Path.parse root).parts.length) ↔
        (Path.parse root).parts <+: (Path.parse path).parts) ∧
      (¬ (Path.parse root).parts <+: (Path.parse path).parts →
        relativeTo path (some root) = (Path.parse path).render)) ∧
    (∀ path path', Path.IsNormal path → Path.IsNormal path' →
      relativeTo path (some root) = relativeTo path' (some root) → path = path') ∧
    (∀ f f' : SourceFile, f.root = some root → f'.root = some root → Path.IsNormal f.path →
      Path.IsNormal f'.path → f.path ≠ f'.path →
        Text.encode f.relativePath ≠ Text.encode f'.relativePath) := by
  have hinjective : ∀ path path', Path.IsNormal path → Path.IsNormal path' →
      relativeTo path (some root) = relativeTo path' (some root) → path = path' := by
    intro path path' ⟨hpath, hnormal⟩ ⟨hpath', hnormal'⟩ heq
    rw [← hnormal, (relativeTo_eq_iff hroot hpath hpath').mp heq, hnormal']
  refine ⟨fun path hpath => ?_, hinjective, fun f f' hf hf' hnormal hnormal' hne heq => ?_⟩
  · exact ⟨relativeTo_eq_join_iff hroot hpath, relativeTo_of_not_below hroot hpath⟩
  · -- Texts with the same bytes are the same.
    have hread := congrArg Text.decode? heq
    rw [Text.decode?_encode, Text.decode?_encode, SourceFile.relativePath, hf,
      SourceFile.relativePath, hf'] at hread
    exact hne (hinjective _ _ hnormal hnormal' (Option.some.inj hread))

/-- A file below a root that is written with more slashes than it needs, one that only begins
like a root, and two files of one plugin. -/
theorem relative_paths_identify_files_plugin :
    relativeTo "/srv/plugin/./inc/a.php" (some "/srv//plugin/") = "inc/a.php" ∧
    relativeTo "/srv/plugin/a.php" (some "/srv/plug") = "/srv/plugin/a.php" ∧
    let f : SourceFile := { path := "/srv/a.php", source := "<?php ", root := some "/srv" }
    let f' : SourceFile := { path := "/srv/b.php", source := "<?php ", root := some "/srv" }
    Text.encode f.relativePath ≠ Text.encode f'.relativePath := by
  refine ⟨?_, ?_, ?_⟩
  · exact (((relative_paths_identify_files (by decide)).1 _ (by decide)).1.mpr
      (by decide +kernel)).trans (by decide +kernel)
  · exact (((relative_paths_identify_files (by decide)).1 _ (by decide)).2
      (by decide +kernel)).trans (by decide +kernel)
  · have hnormal : Path.IsNormal "/srv/a.php" := ⟨by decide, by decide +kernel⟩
    have hnormal' : Path.IsNormal "/srv/b.php" := ⟨by decide, by decide +kernel⟩
    exact (relative_paths_identify_files (by decide)).2.2 _ _ rfl rfl hnormal hnormal' (by decide)

end PluginAtlas
