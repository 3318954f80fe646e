import PluginAtlas.Disk
import PluginAtlas.Proofs.GraphSchema
import Mathlib.Data.List.Induction

/-!
# Files that are written

A file that is written is read back from the same path. The path may hold `..`, which leads to
the folder above when the path is followed and is resolved when the file is put in its place.
Both come to the same place, because the folders on the way are there: those that were missing
are made first.

## Main definitions

* `FileTree.nodeAt`: the node along names.
* `FileTree.Stands`: where a walk along a path stands.

## Main results

* `FileTree.Stands.follow_append`: a walk stands at the end of the resolved path.
* `FileTree.follow_put`: a node that is put in a folder is found there.
* `FileTree.read_write`: a file that is written is read back.
-/

namespace PluginAtlas.FileTree

/-! ### Nodes along names -/

/-- The node along names, none of which leads back. -/
def nodeAt : List String → FileTree → Option FileTree
  | [], node => some node
  | _ :: _, file _ => none
  | name :: rest, folder entries => (entries.lookup name).bind (nodeAt rest)

theorem nodeAt_append (front rest : List String) (node : FileTree) :
    nodeAt (front ++ rest) node = (nodeAt front node).bind (nodeAt rest) := by
  induction front generalizing node with
  | nil => rfl
  | cons name front ih =>
    cases node with
    | file content => rfl
    | folder entries =>
      rw [List.cons_append, nodeAt, nodeAt, Option.bind_assoc]
      exact congrArg _ (funext ih)

/-- A walk stands at a node of a disk, below the folders that it has come through. The names on
the way to the node are given, the last one first. -/
inductive Stands (disk : FileTree) : List String → List FileTree → FileTree → Prop
  | root : Stands disk [] [] disk
  | down {done : List String} {above : List FileTree} {entries : List (String × FileTree)}
      {name : String} {next : FileTree} (h : Stands disk done above (folder entries))
      (hname : name ≠ "..") (hnext : entries.lookup name = some next) :
      Stands disk (name :: done) (folder entries :: above) next

namespace Stands

variable {disk here : FileTree} {done : List String} {above : List FileTree}
  {entries : List (String × FileTree)}

theorem nodeAt_eq (h : Stands disk done above here) : nodeAt done.reverse disk = some here := by
  induction h with
  | root => rfl
  | down h hname hnext ih =>
    rw [List.reverse_cons, nodeAt_append, ih]
    simp [nodeAt, hnext]

/-- A step back leads to the folder above, or nowhere at the root of the disk. -/
theorem up (h : Stands disk done above (folder entries)) :
    ∃ above' entries', Stands disk (Path.normalizeStep .root done "..") above' (folder entries') ∧
      ∀ rest, follow above (folder entries) (".." :: rest) =
        follow above' (folder entries') rest := by
  cases h with
  | root => exact ⟨[], entries, .root, fun rest => rfl⟩
  | @down done above outer name _ h hname =>
    refine ⟨above, outer, ?_, fun rest => rfl⟩
    have hstep : Path.normalizeStep .root (name :: done) ".." = done := by
      simp [Path.normalizeStep, hname]
    rwa [hstep]

end Stands

theorem exists_folder_of_follow {above : List FileTree} {here : FileTree} {parts : List String}
    {entries : List (String × FileTree)} (h : follow above here parts = .ok (folder entries)) :
    ∃ entries', here = folder entries' := by
  cases here with
  | folder entries' => exact ⟨entries', rfl⟩
  | file content => cases parts <;> cases h

theorem follow_cons {above : List FileTree} {entries : List (String × FileTree)} {part : String}
    (hpart : part ≠ "..") {next : FileTree} (hnext : entries.lookup part = some next)
    (rest : List String) :
    follow above (folder entries) (part :: rest) = follow (folder entries :: above) next rest := by
  simp only [follow, if_neg hpart, hnext]

section Walks

variable {disk disk' : FileTree}
  (hkeep : ∀ names entries, nodeAt names disk = some (folder entries) →
    ∃ entries', nodeAt names disk' = some (folder entries'))

include hkeep

/-- A walk to a folder stands at the end of the resolved path, on its own disk as on any other
that has the same folders. -/
theorem Stands.follow_append {parts done : List String} {above above' : List FileTree}
    {here here' : FileTree} {entries : List (String × FileTree)} (h : Stands disk done above here)
    (h' : Stands disk' done above' here')
    (hfollow : follow above here parts = .ok (folder entries)) :
    ∃ last lastEntries,
      Stands disk' (parts.foldl (Path.normalizeStep .root) done) last (folder lastEntries) ∧
      ∀ more, follow above' here' (parts ++ more) = follow last (folder lastEntries) more := by
  -- On both disks the walk stands in folders all the way.
  induction parts generalizing done above above' here here' with
  | nil =>
    obtain rfl : here = folder entries := Except.ok.inj hfollow
    obtain ⟨entries', hnode⟩ := hkeep _ _ h.nodeAt_eq
    obtain rfl := Option.some.inj (h'.nodeAt_eq.symm.trans hnode)
    exact ⟨above', entries', h', fun more => rfl⟩
  | cons part rest ih =>
    obtain ⟨outer, rfl⟩ := exists_folder_of_follow hfollow
    obtain ⟨outer', hnode⟩ := hkeep _ _ h.nodeAt_eq
    obtain rfl := Option.some.inj (h'.nodeAt_eq.symm.trans hnode)
    by_cases hpart : part = ".."
    · subst hpart
      obtain ⟨_, _, hup, hback⟩ := h.up
      obtain ⟨_, _, hup', hback'⟩ := h'.up
      rw [hback] at hfollow
      obtain ⟨last, lastEntries, hlast, hmore⟩ := ih hup hup' hfollow
      exact ⟨last, lastEntries, hlast, fun more => (hback' _).trans (hmore more)⟩
    · cases hnext : outer.lookup part with
      | none =>
        simp only [follow, if_neg hpart, hnext] at hfollow
        cases hfollow
      | some next =>
        rw [follow_cons hpart hnext] at hfollow
        obtain ⟨inner, rfl⟩ := exists_folder_of_follow hfollow
        have hdown := h.down hpart hnext
        obtain ⟨inner', hinner⟩ := hkeep _ _ hdown.nodeAt_eq
        have hnext' : outer'.lookup part = some (folder inner') := by
          rw [List.reverse_cons, nodeAt_append, h'.nodeAt_eq] at hinner
          simpa [nodeAt] using hinner
        have hstep : Path.normalizeStep .root done part = part :: done := by
          simp [Path.normalizeStep, hpart]
        obtain ⟨last, lastEntries, hlast, hmore⟩ := ih hdown (h'.down hpart hnext') hfollow
        refine ⟨last, lastEntries, ?_, fun more => (follow_cons hpart hnext' _).trans (hmore more)⟩
        rwa [List.foldl_cons, hstep]

end Walks

/-! ### Nodes that are put in their places -/

theorem lookup_alterEntry (name other : String) (change : Option FileTree → FileTree)
    (entries : List (String × FileTree)) :
    (alterEntry name change entries).lookup other =
      if other = name then some (change (entries.lookup name)) else entries.lookup other := by
  induction entries with
  | nil =>
    by_cases h : other = name
    · simp [alterEntry, h]
    · simp [alterEntry, h, List.lookup_cons, beq_false_of_ne h]
  | cons entry entries ih =>
    obtain ⟨key, node⟩ := entry
    rw [alterEntry]
    by_cases hkey : key = name
    · subst hkey
      by_cases h : other = key
      · simp [h]
      · simp [h, List.lookup_cons, beq_false_of_ne h]
    · rw [if_neg hkey, List.lookup_cons, ih]
      by_cases h : other = name
      · subst h
        simp [List.lookup_cons, beq_false_of_ne (Ne.symm hkey)]
      · simp [h, List.lookup_cons]

/-- A node that is put in a folder stands there. -/
theorem nodeAt_put (node : FileTree) {names : List String} {disk : FileTree}
    {entries : List (String × FileTree)} (h : nodeAt names disk = some (folder entries))
    (name : String) : nodeAt (names ++ [name]) (put node (names ++ [name]) disk) = some node := by
  induction names generalizing disk with
  | nil =>
    obtain rfl := Option.some.inj h
    simp [put, nodeAt, lookup_alterEntry]
  | cons outer names ih =>
    cases disk with
    | file content => cases h
    | folder outerEntries =>
      rw [nodeAt, Option.bind_eq_some_iff] at h
      obtain ⟨next, hnext, hrest⟩ := h
      rw [List.cons_append, put, nodeAt, lookup_alterEntry, if_pos rfl, hnext]
      exact ih hrest

/-- Where no folder stands, a node can be put without the loss of any folder. -/
theorem exists_folder_put (node : FileTree) {names : List String} {disk : FileTree}
    (hfree : ∀ entries, nodeAt names disk ≠ some (folder entries)) {other : List String}
    {entries : List (String × FileTree)} (h : nodeAt other disk = some (folder entries)) :
    ∃ entries', nodeAt other (put node names disk) = some (folder entries') := by
  induction names generalizing disk other with
  | nil =>
    cases disk with
    | folder content => exact absurd rfl (hfree content)
    | file content => cases other <;> cases h
  | cons name names ih =>
    cases disk with
    | file content => exact ⟨entries, h⟩
    | folder outer =>
      cases other with
      | nil => exact ⟨_, rfl⟩
      | cons first other =>
        rw [nodeAt, Option.bind_eq_some_iff] at h
        obtain ⟨next, hnext, hrest⟩ := h
        rw [put, nodeAt, lookup_alterEntry]
        split_ifs with hname
        · subst hname
          rw [hnext]
          refine ih (fun inner hinner => hfree inner ?_) hrest
          rw [nodeAt, hnext]
          exact hinner
        · exact ⟨entries, by rw [hnext]; exact hrest⟩

section Put

variable {disk : FileTree} {folders : List String} {entries : List (String × FileTree)}
  (hfolders : follow [] disk folders = .ok (folder entries))

include hfolders

theorem follow_back : ∃ entries', follow [] disk (folders ++ [".."]) = .ok (folder entries') := by
  obtain ⟨last, lastEntries, hlast, hmore⟩ :=
    Stands.root.follow_append (fun _ entries h => ⟨entries, h⟩) .root hfolders
  obtain ⟨_, entries', -, hback⟩ := hlast.up
  exact ⟨entries', by rw [hmore, hback]; rfl⟩

/-- A node that is put at the end of a resolved path, where no folder stands, is found at the end
of the path. -/
theorem follow_put (node : FileTree) {name : String} (hname : name ≠ "..")
    (hfree : ∀ entries, follow [] disk (folders ++ [name]) ≠ .ok (folder entries)) :
    follow [] (put node ((folders ++ [name]).foldl (Path.normalizeStep .root) []).reverse disk)
      (folders ++ [name]) = .ok node := by
  obtain ⟨last, lastEntries, hlast, hmore⟩ :=
    Stands.root.follow_append (fun _ entries h => ⟨entries, h⟩) .root hfolders
  obtain ⟨done, hdone⟩ : ∃ done, folders.foldl (Path.normalizeStep .root) [] = done := ⟨_, rfl⟩
  rw [hdone] at hlast
  have hplace : ((folders ++ [name]).foldl (Path.normalizeStep .root) []).reverse =
      done.reverse ++ [name] := by
    simp [List.foldl_append, hdone, Path.normalizeStep, hname]
  have hnode := hlast.nodeAt_eq
  have hfreeAt : ∀ entries, nodeAt (done.reverse ++ [name]) disk ≠ some (folder entries) := by
    intro inner hinner
    have hnext : lastEntries.lookup name = some (folder inner) := by
      rw [nodeAt_append, hnode] at hinner
      simpa [nodeAt] using hinner
    refine hfree inner ?_
    rw [hmore, follow_cons hname hnext]
    rfl
  have hput := nodeAt_put node hnode name
  rw [hplace]
  -- On the new disk the walk comes to the same folder, and there is the node.
  obtain ⟨last', lastEntries', hlast', hmore'⟩ := Stands.root.follow_append
    (fun _ _ h => exists_folder_put node hfreeAt h) .root hfolders
  rw [hdone] at hlast'
  have hnext' : lastEntries'.lookup name = some node := by
    rw [nodeAt_append, hlast'.nodeAt_eq] at hput
    simpa [nodeAt] using hput
  rw [hmore', follow_cons hname hnext']
  rfl

end Put

/-! ### Written files -/

theorem locate_eq_ok_iff {disk node : FileTree} {path : Path} :
    disk.locate path = .ok node ↔ path.isShort = true ∧ follow [] disk path.parts = .ok node := by
  rw [locate]
  split_ifs with hshort
  · simp [hshort]
  · simp [hshort]

theorem locate_of_missing {disk : FileTree} {path : Path}
    (h : disk.locate path = .error .missing) :
    path.isShort = true ∧ follow [] disk path.parts = .error .missing := by
  rw [locate] at h
  split_ifs at h with hshort
  · exact ⟨hshort, h⟩
  · cases h

/-- A folder that is made in a folder is there. -/
theorem follow_createFolder {disk disk' : FileTree} {anchor : Anchor} {folders : List String}
    {name : String} {entries : List (String × FileTree)}
    (hfolders : follow [] disk folders = .ok (folder entries))
    (h : disk.createFolder ⟨anchor, folders ++ [name]⟩ = .ok disk') :
    ∃ entries', follow [] disk' (folders ++ [name]) = .ok (folder entries') := by
  unfold createFolder at h
  split at h
  · next entries' hfound =>
    obtain rfl := Except.ok.inj h
    exact ⟨entries', (locate_eq_ok_iff.mp hfound).2⟩
  · cases h
  · next hmissing =>
    obtain rfl := Except.ok.inj h
    obtain ⟨-, hmissing⟩ := locate_of_missing hmissing
    refine ⟨[], follow_put hfolders (folder []) ?_ fun entries' hfound => ?_⟩
    · rintro rfl
      obtain ⟨entries', hback⟩ := follow_back hfolders
      cases hback.symm.trans hmissing
    · cases hfound.symm.trans hmissing
  · cases h

/-- So are all folders on the way to one that is made. -/
theorem follow_createFolders {anchor : Anchor} {names : List String} (hne : names ≠ [])
    {disk disk' : FileTree} (h : createFolders anchor names disk = .ok disk') :
    ∃ entries, follow [] disk' names.reverse = .ok (folder entries) := by
  induction names generalizing disk disk' with
  | nil => exact absurd rfl hne
  | cons name up ih =>
    have hparent : (⟨anchor, up.reverse ++ [name]⟩ : Path).parent = ⟨anchor, up.reverse⟩ := by
      simp [Path.parent]
    rw [List.reverse_cons]
    simp only [createFolders, List.reverse_cons, hparent] at h
    split at h
    · next hmissing =>
      obtain ⟨between, hbetween, hlast⟩ := exists_of_bind_eq_ok h
      -- The root of the disk is never missing.
      have hup : up ≠ [] := by
        rintro rfl
        cases (locate_of_missing hmissing).2
      obtain ⟨entries, hfolders⟩ := ih hup hbetween
      exact follow_createFolder hfolders hlast
    · cases h
    · cases h
    · next entries hfound => exact follow_createFolder (locate_eq_ok_iff.mp hfound).2 h

/-- A file that is written is read back. -/
theorem read_write {disk disk' : FileTree} {path : Path} {content : List UInt8}
    (h : disk.write path content = .ok disk') : disk'.read path = .ok content := by
  obtain ⟨between, hfolders, hlast⟩ := exists_of_bind_eq_ok h
  obtain ⟨hshort, hfree, rfl⟩ : path.isShort = true ∧
      ((∃ old, follow [] between path.parts = .ok (file old)) ∨
        follow [] between path.parts = .error .missing) ∧
      put (file content) path.canonical.parts between = disk' := by
    split at hlast
    · cases hlast
    · next old hfound =>
      obtain ⟨hshort, hfound⟩ := locate_eq_ok_iff.mp hfound
      exact ⟨hshort, .inl ⟨old, hfound⟩, Except.ok.inj hlast⟩
    · next hmissing =>
      obtain ⟨hshort, hmissing⟩ := locate_of_missing hmissing
      exact ⟨hshort, .inr hmissing, Except.ok.inj hlast⟩
    · cases hlast
  suffices hfound : follow [] (put (file content) path.canonical.parts between) path.parts =
      .ok (file content) by
    rw [read, locate_eq_ok_iff.mpr ⟨hshort, hfound⟩]
  obtain ⟨anchor, parts⟩ := path
  cases parts using List.reverseRecOn with
  | nil => rfl
  | append_singleton folders name _ =>
    have hnotFolder : ∀ entries, follow [] between (folders ++ [name]) ≠ .ok (folder entries) := by
      intro entries hfolder
      rcases hfree with ⟨old, hold⟩ | hmissing
      · cases hold.symm.trans hfolder
      · cases hmissing.symm.trans hfolder
    obtain ⟨entries, hfolder⟩ : ∃ entries, follow [] between folders = .ok (folder entries) := by
      by_cases hnil : folders = []
      · subst hnil
        cases between with
        | folder entries => exact ⟨entries, rfl⟩
        | file old =>
          rcases hfree with ⟨_, hold⟩ | hmissing
          · cases hold
          · cases hmissing
      · have hmade := follow_createFolders (by simpa [Path.parent] using hnil) hfolders
        simpa [Path.parent] using hmade
    refine follow_put hfolder (file content) ?_ hnotFolder
    rintro rfl
    obtain ⟨inner, hback⟩ := follow_back hfolder
    exact hnotFolder inner hback

end PluginAtlas.FileTree
