import PluginAtlas.Plugin.Scan

/-!
# What a scan finds

A scan prunes what the rules exclude while it walks, folder by folder, each in the order
of its names. What it finds can be said without the walk: the files of a known kind and
of an accepted size that are not excluded and lie in no excluded folder, whatever the
rules say about the inside of such a folder. The order within single folders adds up to
one order of whole paths, so no file is found twice.

## Main definitions

* `FileTree.Holds`: a node inside a tree, by its components.
* `FileTree.NamesApart`: no folder of a tree has two entries of one name.
* `ScanRules.Wants`: the files that a scan has to find.

## Main results

* `FileTree.mem_crawl_iff`: what a walk comes across.
* `FileTree.crawl_pairwise`: in which order.
* `scan_finds_wanted_files`: the files of a scan.
-/

namespace PluginAtlas

namespace Sighting

/-- The components of what was sighted. -/
def parts : Sighting → List String
  | found parts _ | tooLarge parts _ => parts

/-- The components of a file that is kept. -/
def kept? : Sighting → Option (List String)
  | found parts _ => some parts
  | tooLarge .. => none

end Sighting

namespace FileTree

/-- A node inside a tree, at the end of some components. -/
inductive Holds : FileTree → List String → FileTree → Prop
  | here (node : FileTree) : Holds node [] node
  | inside {entries : List (String × FileTree)} {name : String} {child node : FileTree}
      {rest : List String} :
      (name, child) ∈ entries → Holds child rest node → Holds (folder entries) (name :: rest) node

/-- Every folder of a tree tells its entries apart by their names. -/
def NamesApart (tree : FileTree) : Prop :=
  ∀ parts entries, tree.Holds parts (folder entries) → (entries.map Prod.fst).Nodup

@[simp] theorem namesApart_file (content : List UInt8) : (file content).NamesApart :=
  fun _ _ h => by cases h

@[simp] theorem namesApart_folder_iff {entries : List (String × FileTree)} :
    (folder entries).NamesApart ↔
      (entries.map Prod.fst).Nodup ∧ ∀ entry ∈ entries, entry.2.NamesApart := by
  constructor
  · intro h
    refine ⟨h [] entries (.here _), fun entry hentry parts inner hinner => ?_⟩
    exact h (entry.1 :: parts) inner (.inside hentry hinner)
  · rintro ⟨hown, hinner⟩ parts inner h
    cases h with
    | here => exact hown
    | inside hentry h => exact hinner _ hentry _ inner h

/-- A file is a node of no folders; every other way to a file starts in a folder. -/
theorem Holds.isFolder_eq {tree : FileTree} {rest : List String} {content : List UInt8}
    (h : tree.Holds rest (file content)) : tree.isFolder = !rest.isEmpty := by
  cases h <;> rfl

theorem holds_file_iff {content inner : List UInt8} {rest : List String} :
    (file content).Holds rest (file inner) ↔ rest = [] ∧ inner = content := by
  constructor
  · intro h
    cases h
    exact ⟨rfl, rfl⟩
  · rintro ⟨rfl, rfl⟩
    exact .here _

theorem holds_folder_iff {entries : List (String × FileTree)} {content : List UInt8}
    {rest : List String} :
    (folder entries).Holds rest (file content) ↔
      ∃ entry ∈ entries, ∃ inner, rest = entry.1 :: inner ∧ entry.2.Holds inner (file content) := by
  constructor
  · intro h
    cases h with
    | inside hentry hinner => exact ⟨_, hentry, _, rfl, hinner⟩
  · rintro ⟨entry, hentry, inner, rfl, hinner⟩
    exact .inside hentry hinner

mutual

/-- What holds of files, and of a folder as soon as it holds of its entries, holds of all
trees. -/
theorem induction_on {P : FileTree → Prop} (hfile : ∀ content, P (file content))
    (hfolder : ∀ entries : List (String × FileTree), (∀ entry ∈ entries, P entry.2) →
      P (folder entries)) : ∀ tree, P tree
  | file content => hfile content
  | folder entries => hfolder entries (induction_on_entries hfile hfolder entries)

theorem induction_on_entries {P : FileTree → Prop} (hfile : ∀ content, P (file content))
    (hfolder : ∀ entries : List (String × FileTree), (∀ entry ∈ entries, P entry.2) →
      P (folder entries)) : ∀ entries : List (String × FileTree), ∀ entry ∈ entries, P entry.2
  | [], _, h => by cases h
  | (name, node) :: rest, entry, h => by
    rcases List.mem_cons.mp h with rfl | h
    · exact induction_on hfile hfolder node
    · exact induction_on_entries hfile hfolder rest entry h

end

/-! ### One folder -/

/-- What the walk of an entry of a folder comes across; an excluded entry is not walked. -/
def sightEntry (rules : ScanRules) (base : List String) (entry : String × FileTree) :
    List Sighting :=
  if rules.excluded (relativeText (base ++ [entry.1]) entry.2.isFolder) then []
  else entry.2.crawl rules (base ++ [entry.1])

theorem crawlEntries_eq_map (rules : ScanRules) (base : List String)
    (entries : List (String × FileTree)) :
    crawlEntries rules base entries =
      entries.map fun entry => (entry.1, sightEntry rules base entry) := by
  induction entries with
  | nil => rfl
  | cons entry rest ih =>
    rw [crawlEntries, ih]
    rfl

variable {rules : ScanRules} {base : List String} {x : Sighting}

theorem mem_sightEntry {entry : String × FileTree} :
    x ∈ sightEntry rules base entry ↔
      rules.excluded (relativeText (base ++ [entry.1]) entry.2.isFolder) = false ∧
        x ∈ entry.2.crawl rules (base ++ [entry.1]) := by
  unfold sightEntry
  split <;> simp_all

/-- What the walk of a folder passes through, sorted by name, are its entries. -/
theorem mem_sorted_iff {entries : List (String × FileTree)} {walked : String × List Sighting} :
    walked ∈ (entries.map fun entry => (entry.1, sightEntry rules base entry)).mergeSort
        (fun a b => a.1 ≤ b.1) ↔
      ∃ entry ∈ entries, (entry.1, sightEntry rules base entry) = walked := by
  rw [List.mem_mergeSort, List.mem_map]

theorem mem_crawl_folder {entries : List (String × FileTree)} :
    x ∈ (folder entries).crawl rules base ↔ ∃ entry ∈ entries, x ∈ sightEntry rules base entry := by
  rw [crawl, crawlEntries_eq_map, List.mem_flatMap]
  constructor
  · rintro ⟨walked, hwalked, hx⟩
    obtain ⟨entry, hentry, rfl⟩ := mem_sorted_iff.mp hwalked
    exact ⟨entry, hentry, hx⟩
  · rintro ⟨entry, hentry, hx⟩
    exact ⟨_, mem_sorted_iff.mpr ⟨entry, hentry, rfl⟩, hx⟩

theorem mem_sight_iff {parts : List String} {content : List UInt8} :
    x ∈ sight rules parts content ↔
      ∃ kind, FileKind.ofPath? ⟨.here, parts⟩ = some kind ∧
        x = if rules.limit < content.length then .tooLarge parts content.length
          else .found parts kind := by
  unfold sight
  cases FileKind.ofPath? ⟨.here, parts⟩ with
  | none => simp
  | some kind => dsimp only; split <;> simp

/-! ### The whole walk -/

/-- Neither a file below `base` nor a folder on the way to it is excluded. The place `base`
itself is not looked at. -/
structure Admits (rules : ScanRules) (base rest : List String) : Prop where
  itself : rest ≠ [] → rules.excluded (relativeText (base ++ rest) false) = false
  folders : ∀ front back, rest = front ++ back → front ≠ [] → back ≠ [] →
    rules.excluded (relativeText (base ++ front) true) = false

theorem Admits.nil (rules : ScanRules) (base : List String) : Admits rules base [] where
  itself h := absurd rfl h
  folders front back h hfront := by
    obtain ⟨rfl, -⟩ := List.append_eq_nil_iff.mp h.symm
    exact absurd rfl hfront

/-- One component more: it is looked at as a folder, unless it is the file itself. -/
theorem admits_cons {name : String} {rest : List String} :
    Admits rules base (name :: rest) ↔
      rules.excluded (relativeText (base ++ [name]) (!rest.isEmpty)) = false ∧
        Admits rules (base ++ [name]) rest := by
  constructor
  · intro h
    refine ⟨?_, ?_, ?_⟩
    · cases rest with
      | nil => exact h.itself (List.cons_ne_nil _ _)
      | cons next rest => exact h.folders [name] (next :: rest) rfl (by simp) (by simp)
    · intro _
      simpa using h.itself (List.cons_ne_nil _ _)
    · intro front back hsplit _ hback
      have hfolder := h.folders (name :: front) back (by rw [hsplit]; rfl) (by simp) hback
      simpa using hfolder
  · rintro ⟨hfirst, hrest⟩
    refine ⟨fun _ => ?_, ?_⟩
    · cases rest with
      | nil => exact hfirst
      | cons next rest => simpa using hrest.itself (List.cons_ne_nil _ _)
    · intro front back hsplit hfront hback
      obtain ⟨first, front, rfl⟩ := List.exists_cons_of_ne_nil hfront
      obtain ⟨rfl, rfl⟩ := List.cons.inj hsplit
      cases front with
      | nil =>
        obtain ⟨next, back, rfl⟩ := List.exists_cons_of_ne_nil hback
        exact hfirst
      | cons second front => simpa using hrest.folders (second :: front) back rfl (by simp) hback

/-- A walk comes across the files that nothing on the way excludes, each as its name and
its size demand. -/
theorem mem_crawl_iff (rules : ScanRules) (tree : FileTree) :
    ∀ base x, x ∈ tree.crawl rules base ↔
      ∃ rest content, tree.Holds rest (file content) ∧ Admits rules base rest ∧
        x ∈ sight rules (base ++ rest) content := by
  induction tree using induction_on with
  | hfile content =>
    intro base x
    rw [crawl]
    constructor
    · intro hx
      exact ⟨[], content, .here _, .nil rules base, by simpa using hx⟩
    · rintro ⟨rest, inner, hholds, -, hx⟩
      obtain ⟨rfl, rfl⟩ := holds_file_iff.mp hholds
      simpa using hx
  | hfolder entries ih =>
    intro base x
    simp only [mem_crawl_folder, mem_sightEntry]
    constructor
    · rintro ⟨entry, hentry, hopen, hx⟩
      obtain ⟨rest, content, hholds, hadmits, hx⟩ := (ih entry hentry _ x).mp hx
      rw [hholds.isFolder_eq] at hopen
      refine ⟨entry.1 :: rest, content, .inside hentry hholds, ?_, by simpa using hx⟩
      exact admits_cons.mpr ⟨hopen, hadmits⟩
    · rintro ⟨rest, content, hholds, hadmits, hx⟩
      obtain ⟨entry, hentry, inner, rfl, hinner⟩ := holds_folder_iff.mp hholds
      obtain ⟨hopen, hadmits⟩ := admits_cons.mp hadmits
      rw [← hinner.isFolder_eq] at hopen
      refine ⟨entry, hentry, hopen, ?_⟩
      exact (ih entry hentry _ x).mpr ⟨inner, content, hinner, hadmits, by simpa using hx⟩

theorem parts_of_mem_sight {parts : List String} {content : List UInt8}
    (h : x ∈ sight rules parts content) : x.parts = parts := by
  obtain ⟨kind, -, rfl⟩ := mem_sight_iff.mp h
  split <;> rfl

/-- What the walk of an entry comes across lies below the entry. -/
theorem parts_of_mem_sightEntry {entry : String × FileTree}
    (h : x ∈ sightEntry rules base entry) : ∃ rest, x.parts = base ++ entry.1 :: rest := by
  obtain ⟨rest, content, -, -, hx⟩ := (mem_crawl_iff rules _ _ x).mp (mem_sightEntry.mp h).2
  exact ⟨rest, by simpa using parts_of_mem_sight hx⟩

/-! ### Order -/

/-- Of two different names in a weak order, the first is the smaller. -/
theorem name_lt_of_le_of_ne {first second : String} (hle : first ≤ second)
    (hne : first ≠ second) : first < second :=
  Decidable.byContradiction fun hlt => hne (String.le_antisymm hle (String.not_lt.mp hlt))

/-- The entries of a folder in the order in which they are walked: with names apart, the
order of names is strict. -/
theorem sorted_entries {entries : List (String × List Sighting)}
    (h : (entries.map Prod.fst).Nodup) :
    (entries.mergeSort fun a b => a.1 ≤ b.1).Pairwise fun a b => a.1 < b.1 := by
  have hle : (entries.mergeSort fun a b => a.1 ≤ b.1).Pairwise
      fun a b => decide (a.1 ≤ b.1) = true := by
    refine List.pairwise_mergeSort (fun a b c hab hbc => ?_) (fun a b => ?_) entries
    · exact decide_eq_true (String.le_trans (of_decide_eq_true hab) (of_decide_eq_true hbc))
    · simpa using String.le_total a.1 b.1
  have hne : (entries.mergeSort fun a b => a.1 ≤ b.1).Pairwise fun a b => a.1 ≠ b.1 := by
    have hperm := (List.mergeSort_perm entries fun a b => decide (a.1 ≤ b.1)).map Prod.fst
    exact List.pairwise_map.mp (hperm.nodup_iff.mpr h)
  exact (hle.and hne).imp fun hboth => name_lt_of_le_of_ne (of_decide_eq_true hboth.1) hboth.2

/-- A walk goes up in the order of components. Inside one entry that is the walk of the
entry; between two entries their names decide. -/
theorem crawl_pairwise (rules : ScanRules) (tree : FileTree) :
    ∀ base, tree.NamesApart →
      (tree.crawl rules base).Pairwise fun x y => List.Lex (· < ·) x.parts y.parts := by
  induction tree using induction_on with
  | hfile content =>
    intro base _
    rw [crawl, sight]
    split
    · exact .nil
    · split <;> exact List.pairwise_singleton _ _
  | hfolder entries ih =>
    intro base hnames
    obtain ⟨hown, hinner⟩ := namesApart_folder_iff.mp hnames
    rw [crawl, crawlEntries_eq_map, List.pairwise_flatMap]
    constructor
    · intro walked hwalked
      obtain ⟨entry, hentry, rfl⟩ := mem_sorted_iff.mp hwalked
      dsimp only
      unfold sightEntry
      split
      · exact .nil
      · exact ih entry hentry _ (hinner entry hentry)
    · have hapart : ((entries.map fun entry =>
          (entry.1, sightEntry rules base entry)).map Prod.fst).Nodup := by
        simpa [Function.comp_def] using hown
      refine (sorted_entries hapart).imp_of_mem fun {a b} ha hb hlt x hx y hy => ?_
      obtain ⟨entry, -, rfl⟩ := mem_sorted_iff.mp ha
      obtain ⟨other, -, rfl⟩ := mem_sorted_iff.mp hb
      obtain ⟨rest, hrest⟩ := parts_of_mem_sightEntry hx
      obtain ⟨rest', hrest'⟩ := parts_of_mem_sightEntry hy
      rw [hrest, hrest']
      exact List.append_left_lt (List.Lex.rel hlt)

end FileTree

/-! ### Scans -/

/-- A file that a scan has to find: a file of a known kind and of an accepted size, which is
not excluded, and neither is a folder between the root and it. -/
structure ScanRules.Wants (rules : ScanRules) (tree : FileTree) (parts : List String) : Prop where
  known : (FileKind.ofPath? ⟨.here, parts⟩).isSome
  file : ∃ content, tree.Holds parts (.file content) ∧ content.length ≤ rules.limit
  itself : rules.excluded (relativeText parts false) = false
  folders : ∀ front back, parts = front ++ back → front ≠ [] → back ≠ [] →
    rules.excluded (relativeText front true) = false

namespace Scan

variable {rules : ScanRules} {tree : FileTree}

/-- The kind of a file that is kept is the kind of its path, and there is always one. -/
theorem kind_of_mem_crawl {parts : List String} {kind : FileKind}
    (h : Sighting.found parts kind ∈ tree.crawl rules []) :
    FileKind.ofPath? ⟨.here, parts⟩ = some kind := by
  obtain ⟨rest, content, -, -, hx⟩ := (FileTree.mem_crawl_iff rules tree [] _).mp h
  obtain ⟨stated, hstated, hx⟩ := FileTree.mem_sight_iff.mp hx
  split at hx
  · cases hx
  · cases hx
    exact hstated

theorem mem_kept_iff {parts : List String} :
    parts ∈ (tree.crawl rules []).filterMap Sighting.kept? ↔ rules.Wants tree parts := by
  have hkept : parts ∈ (tree.crawl rules []).filterMap Sighting.kept? ↔
      ∃ kind, Sighting.found parts kind ∈ tree.crawl rules [] := by
    rw [List.mem_filterMap]
    constructor
    · rintro ⟨x, hx, hparts⟩
      cases x with
      | found found kind =>
        obtain rfl := Option.some.inj hparts
        exact ⟨kind, hx⟩
      | tooLarge found size => cases hparts
    · rintro ⟨kind, hx⟩
      exact ⟨_, hx, rfl⟩
  rw [hkept]
  simp only [FileTree.mem_crawl_iff, FileTree.mem_sight_iff, List.nil_append]
  constructor
  · rintro ⟨kind, rest, content, hholds, hadmits, stated, hstated, hx⟩
    split at hx
    · cases hx
    · rename_i hsize
      cases hx
      -- The root itself has no name, so a file of a known kind lies below it.
      have hne : parts ≠ [] := by
        rintro rfl
        cases hstated
      exact
        { known := by rw [hstated]; rfl
          file := ⟨content, hholds, Int.not_lt.mp hsize⟩
          itself := hadmits.itself hne
          folders := hadmits.folders }
  · rintro ⟨hknown, ⟨content, hholds, hsize⟩, hitself, hfolders⟩
    obtain ⟨kind, hkind⟩ := Option.isSome_iff_exists.mp hknown
    refine ⟨kind, parts, content, hholds, ⟨fun _ => hitself, hfolders⟩, kind, hkind, ?_⟩
    rw [if_neg (Int.not_lt.mpr hsize)]

/-- The files of a kind are those kept files whose path shows that kind. -/
theorem filesOf_eq (root : Path) (kind : FileKind) {sightings : List Sighting}
    (h : ∀ parts k, Sighting.found parts k ∈ sightings →
      FileKind.ofPath? ⟨.here, parts⟩ = some k) :
    filesOf root kind sightings =
      ((sightings.filterMap Sighting.kept?).filter fun parts =>
        FileKind.ofPath? ⟨.here, parts⟩ = some kind).map (under root) := by
  induction sightings with
  | nil => rfl
  | cons x rest ih =>
    have hrest := ih fun parts k hx => h parts k (List.mem_cons_of_mem _ hx)
    unfold filesOf at hrest ⊢
    cases x with
    | tooLarge parts size => exact hrest
    | found parts k =>
      have hk := h parts k List.mem_cons_self
      by_cases heq : k = kind
      · subst heq
        simp [Sighting.kept?, hk, hrest]
      · simp [Sighting.kept?, hk, hrest, heq]

/-- Every kept file is of one of the three kinds. -/
theorem length_filter_kinds {found : List (List String)}
    (h : ∀ parts ∈ found, (FileKind.ofPath? ⟨.here, parts⟩).isSome) :
    (found.filter fun parts => FileKind.ofPath? ⟨.here, parts⟩ = some .manifest).length +
      (found.filter fun parts => FileKind.ofPath? ⟨.here, parts⟩ = some .script).length +
      (found.filter fun parts => FileKind.ofPath? ⟨.here, parts⟩ = some .php).length =
        found.length := by
  induction found with
  | nil => rfl
  | cons parts rest ih =>
    have hrest := ih fun p hp => h p (List.mem_cons_of_mem _ hp)
    obtain ⟨kind, hkind⟩ := Option.isSome_iff_exists.mp (h parts List.mem_cons_self)
    cases kind <;> simp [hkind] <;> omega

end Scan

/-- A scan finds exactly the files that the rules want. They come in the strict order of
their components, so each comes once. The scan divides them by the kind of their paths,
keeps the order within each kind, and counts each of them. -/
theorem scan_finds_wanted_files {disk tree : FileTree} {root : Path} (rules : ScanRules)
    (hroot : disk.locate root = .ok tree) (hnames : tree.NamesApart) :
    let found := (tree.crawl rules []).filterMap Sighting.kept?
    let files := (scan disk root rules).value
    let ofKind kind := (found.filter fun parts =>
      FileKind.ofPath? ⟨.here, parts⟩ = some kind).map (Scan.under root)
    (∀ parts, parts ∈ found ↔ rules.Wants tree parts) ∧
    found.Pairwise (List.Lex (· < ·)) ∧ found.Nodup ∧
    files.manifests = ofKind .manifest ∧ files.scripts = ofKind .script ∧
    files.php = ofKind .php ∧
    (∀ kind, (ofKind kind).Sublist (found.map (Scan.under root))) ∧
    files.total = found.length := by
  intro found files ofKind
  have hmem : ∀ parts, parts ∈ found ↔ rules.Wants tree parts := fun _ => Scan.mem_kept_iff
  have hsorted : found.Pairwise (List.Lex (· < ·)) := by
    refine List.Pairwise.filterMap _ (fun x y hlt a ha b hb => ?_)
      (tree.crawl_pairwise rules [] hnames)
    cases x <;> cases y <;> cases ha <;> cases hb
    exact hlt
  have hfiles : ∀ kind, Scan.filesOf root kind (tree.crawl rules []) = ofKind kind :=
    fun kind => Scan.filesOf_eq root kind fun _ _ h => Scan.kind_of_mem_crawl h
  have hvalue : files = ⟨ofKind .manifest, ofKind .script, ofKind .php⟩ := by
    simp only [files, scan, hroot, hfiles]
  refine ⟨hmem, hsorted, hsorted.imp ?_, ?_, ?_, ?_, ?_, ?_⟩
  · rintro parts _ hlt rfl
    exact List.lt_irrefl parts hlt
  · rw [hvalue]
  · rw [hvalue]
  · rw [hvalue]
  · exact fun kind => List.filter_sublist.map _
  · rw [hvalue]
    simp only [Scan.total, ofKind, List.length_map]
    exact Scan.length_filter_kinds fun parts hparts => ((hmem parts).mp hparts).known

/-- A folder with a manifest and a script. -/
def cartFolder : FileTree := .folder [("view.js", .file [59]), ("block.json", .file [])]

/-- A plugin with an excluded folder, in which nothing is excluded by itself, and with a
file that is too large. -/
def shopFolder : FileTree :=
  .folder [
    ("cart", cartFolder), ("shop.php", .file [60, 63]), ("large.php", .file [60, 63, 10, 10]),
    ("readme.txt", .file []), ("vendor", .folder [("autoload.php", .file [])])]

/-- Rules that exclude one folder. -/
def shopRules : ScanRules := { excluded := (· = "vendor/"), limit := 3 }

/-- A script below an open folder is found; a file below the excluded folder and a file that
is too large are not. -/
theorem scan_finds_wanted_files_shop :
    let disk : FileTree := .folder [("srv", shopFolder)]
    let found := (shopFolder.crawl shopRules []).filterMap Sighting.kept?
    disk.locate ⟨.root, ["srv"]⟩ = .ok shopFolder ∧ shopFolder.NamesApart ∧
    ["cart", "view.js"] ∈ found ∧ ["vendor", "autoload.php"] ∉ found ∧ ["large.php"] ∉ found ∧
    ⟨.root, ["srv", "cart", "view.js"]⟩ ∈ (scan disk ⟨.root, ["srv"]⟩ shopRules).value.scripts := by
  intro disk found
  have hroot : disk.locate ⟨.root, ["srv"]⟩ = .ok shopFolder := rfl
  have hnames : shopFolder.NamesApart := by simp [shopFolder, cartFolder]
  obtain ⟨hmem, -, -, -, hscripts, -⟩ := scan_finds_wanted_files shopRules hroot hnames
  have hview : ["cart", "view.js"] ∈ found := by
    refine (hmem _).mpr ⟨by decide +kernel, ⟨[59], ?_, by decide⟩, by decide +kernel, ?_⟩
    · exact .inside List.mem_cons_self (.inside List.mem_cons_self (.here _))
    · intro front back hsplit hfront hback
      obtain ⟨first, front, rfl⟩ := List.exists_cons_of_ne_nil hfront
      obtain ⟨rfl, hrest⟩ := List.cons.inj hsplit
      cases front with
      | nil => decide +kernel
      | cons second front =>
        -- The two components are used up, so nothing would be left behind the folder.
        have hnone := (List.append_eq_nil_iff.mp (List.cons.inj hrest).2.symm).2
        exact absurd hnone hback
  have hvendor : ["vendor", "autoload.php"] ∉ found := by
    intro h
    have hopen := ((hmem _).mp h).folders ["vendor"] ["autoload.php"] rfl (by simp) (by simp)
    revert hopen
    decide +kernel
  have hlarge : ["large.php"] ∉ found := by
    intro h
    obtain ⟨content, hholds, hsize⟩ := ((hmem _).mp h).file
    cases hholds with
    | inside hentry hinner =>
      cases hinner
      have hcontent : content = [60, 63, 10, 10] := by simpa [cartFolder] using hentry
      rw [hcontent] at hsize
      exact absurd hsize (by decide)
  refine ⟨hroot, hnames, hview, hvendor, hlarge, ?_⟩
  rw [hscripts]
  refine List.mem_map.mpr ⟨["cart", "view.js"], List.mem_filter.mpr ⟨hview, ?_⟩, rfl⟩
  decide +kernel

end PluginAtlas
