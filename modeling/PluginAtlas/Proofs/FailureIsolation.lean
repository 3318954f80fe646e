import PluginAtlas.Plugin.Analysis
import PluginAtlas.Proofs.Contributions
import PluginAtlas.Proofs.LexicalScope

/-!
# Failures of single files

An analysis counts a file that cannot be read, or whose extractor fails, and goes on. What was
found before the failure stays, and the visitors of PHP files go on in the scopes that they
happen to be in. Still, wherever files fail, the analysis comes to its end, counts every file
once, and the files that do not fail contribute as much as each of them contributes alone.

Failures are taken as they may come. The loops of the analysis run with any reader of files
that may refuse some of them, and with any extractor that may break off: behind any of its
findings, with the visitors in any scopes.

## Main definitions

* `BreaksOff`, `Extractor.Disturbs`: an extractor that may break off.
* `Php.Team.interrupt`: visitors that are interrupted in the middle of their turns.
* `Fate.CutsShort`: a file fails on the way to what would become of it.
* `Scan.queue`: the files of a scan, in the order in which they are read.
* `Run.fates`: the fates that files meet one after the other.
* `Run.HasMet`: what an analysis has stored and counted.

## Main results

* `Php.interrupt_breaksOff`: visitors can be interrupted anywhere.
* `Site.fate_eq`: a file meets its own fate, whatever scopes the visitors come from.
* `Run.HasMet.readFile`, `Run.HasMet.goOn`: one file more, and all files.
* `Run.HasMet.mono`: what some files contribute, they contribute among others.
* `analyzeFiles_isolates_failures`: the failure of a file is its own.
-/

namespace PluginAtlas

/-! ### Extractors that break off -/

/-- What an extractor leaves when it breaks off: a beginning of what it would have found, a
failure, and its visitors in any scopes. -/
structure BreaksOff (broken whole : Outcome × List Php.Visitor) : Prop where
  findings : broken.1.findings <+: whole.1.findings
  failed : broken.1.failure.isSome
  families : broken.2.map Php.Visitor.family = whole.2.map Php.Visitor.family

/-- An extractor does what another one does, or breaks off on the way. -/
def Extractor.Disturbs (broken whole : Extractor) : Prop :=
  ∀ visitors kind f, (broken visitors kind f).value = (whole visitors kind f).value ∨
    BreaksOff (broken visitors kind f).value (whole visitors kind f).value

namespace Outcome

variable {o next longer : Outcome}

theorem findings_followedBy_isPrefix : o.findings <+: (o.followedBy next).findings := by
  unfold followedBy
  split
  · exact List.prefix_rfl
  · exact List.prefix_append _ _

theorem followedBy_isPrefix (h : next.findings <+: longer.findings) :
    (o.followedBy next).findings <+: (o.followedBy longer).findings := by
  unfold followedBy
  split
  · exact List.prefix_rfl
  · exact (List.prefix_append_right_inj _).mpr h

end Outcome

namespace Php

variable {f : SourceFile} {v : Visit}

/-- What the first visitors find at a node, all of them begin with. -/
theorem enterEach_take_isPrefix (turns : Nat) (visitors : List Visitor) :
    (enterEach f v (visitors.take turns)).2.findings <+: (enterEach f v visitors).2.findings := by
  induction visitors generalizing turns with
  | nil => simp
  | cons x rest ih =>
    cases turns with
    | zero => exact List.nil_prefix
    | succ turns =>
      simp only [List.take_succ_cons, enterEach]
      cases (x.family.apply f (x.scope.enter f v.tree) v).failure with
      | some failure => exact List.prefix_rfl
      | none => exact Outcome.followedBy_isPrefix (ih turns)

namespace Team

/-- Visitors that are interrupted when they enter a node and some of them have had their
turn. -/
def interrupt (f : SourceFile) (v : Visit) (turns : Nat) (team : Team) : Team :=
  let entered := enterEach f v (team.visitors.take turns)
  ⟨entered.1 ++ team.visitors.drop turns, team.outcome.followedBy entered.2⟩

theorem findings_step_isPrefix (team : Team) (step : Step) :
    team.outcome.findings <+: (team.step f step).outcome.findings := by
  cases step with
  | enter v =>
    rw [Team.step]
    split
    · exact List.prefix_rfl
    · exact Outcome.findings_followedBy_isPrefix
  | leave v =>
    rw [Team.step]
    split <;> exact List.prefix_rfl

theorem findings_after_isPrefix (team : Team) (done : List (List Tree × Step)) :
    team.outcome.findings <+: (Walk.after (Team.step f) team done).outcome.findings := by
  induction done generalizing team with
  | nil => exact List.prefix_rfl
  | cons entry rest ih => exact (team.findings_step_isPrefix entry.2).trans (ih _)

theorem findings_interrupt_isPrefix (team : Team) (turns : Nat) :
    (team.interrupt f v turns).outcome.findings <+:
      (team.step f (.enter v)).outcome.findings := by
  rw [interrupt, Team.step]
  split
  · rename_i hfailed
    obtain ⟨failure, hfailure⟩ := Option.isSome_iff_exists.mp hfailed
    simp [Outcome.followedBy, hfailure]
  · exact Outcome.followedBy_isPrefix (enterEach_take_isPrefix turns _)

theorem families_interrupt (team : Team) (turns : Nat) :
    (team.interrupt f v turns).visitors.map Visitor.family =
      team.visitors.map Visitor.family := by
  rw [interrupt, List.map_append, families_enterEach, ← List.map_append, List.take_append_drop]

end Team

/-- Wherever a walk is interrupted, between the turns of two visitors at a node however deep
inside classes, functions and namespaces, it breaks off. -/
theorem interrupt_breaksOff {root : Tree} {done rest : List (List Tree × Step)}
    {trail : List Tree} (h : Walk.trace root = done ++ (trail, .enter v) :: rest)
    (visitors : List Visitor) (turns : Nat) (failure : Failure) :
    let team := (Walk.after (Team.step f) (.start visitors) done).interrupt f v turns
    let whole := visit f root visitors
    BreaksOff (⟨team.outcome.findings, some failure⟩, team.visitors)
      (whole.outcome, whole.visitors) := by
  intro team whole
  refine ⟨?_, rfl, ?_⟩
  · -- The whole walk goes on from the node at which the other one is interrupted.
    have hwhole : whole = Walk.after (Team.step f)
        ((Walk.after (Team.step f) (.start visitors) done).step f (.enter v)) rest := by
      rw [← Walk.after_cons (Team.step f) _ (trail, .enter v), ← Walk.after_append, ← h,
        ← Walk.fold_eq_after]
      rfl
    rw [hwhole]
    exact (Team.findings_interrupt_isPrefix _ turns).trans (Team.findings_after_isPrefix _ rest)
  · rw [Team.families_interrupt, Team.families_after, families_visit]
    simp [Team.start, Visitor.restart]

end Php

/-! ### Fates of files -/

namespace Fate

/-- What was found in the file. -/
def found : Fate → List Finding
  | unreadable => []
  | ended outcome => outcome.findings

/-- Whether the file was read and its extractor did not fail. -/
def succeeds : Fate → Bool
  | unreadable => false
  | ended outcome => outcome.failure.isNone

/-- A fate that a file can meet in place of another one: the same, or a failure on the way
to it, behind any number of its findings. -/
inductive CutsShort : Fate → Fate → Prop
  | unharmed (fate : Fate) : CutsShort fate fate
  | unreadable (fate : Fate) : CutsShort .unreadable fate
  | brokenOff (outcome : Outcome) (n : Nat) (failure : Failure) :
    CutsShort (.ended ⟨outcome.findings.take n, some failure⟩) (.ended outcome)

theorem CutsShort.of_breaksOff {broken whole : Outcome × List Php.Visitor}
    (h : BreaksOff broken whole) : CutsShort (.ended broken.1) (.ended whole.1) := by
  obtain ⟨failure, hfailure⟩ := Option.isSome_iff_exists.mp h.failed
  have hbroken : broken.1 =
      ⟨whole.1.findings.take broken.1.findings.length, some failure⟩ := by
    rw [← hfailure, ← List.prefix_iff_eq_take.mp h.findings]
  rw [hbroken]
  exact .brokenOff whole.1 _ failure

variable {cut whole : Fate}

theorem CutsShort.found_subset (h : cut.CutsShort whole) : cut.found ⊆ whole.found := by
  cases h with
  | unharmed => exact List.Subset.refl _
  | unreadable => exact List.nil_subset _
  | brokenOff outcome n failure => exact List.take_subset n outcome.findings

/-- A file that succeeds has met no other fate. -/
theorem CutsShort.eq_of_succeeds (h : cut.CutsShort whole) (hsucceeds : cut.succeeds) :
    cut = whole := by
  cases h with
  | unharmed => rfl
  | unreadable => simp [succeeds] at hsucceeds
  | brokenOff outcome n failure => simp [succeeds] at hsucceeds

end Fate

namespace Site

variable {site : Site} {visitors : List Php.Visitor}

theorem visitParsed_value (f : SourceFile) (p : Parsed) :
    (Php.visitParsed f p visitors).value = Php.visit f p.root visitors := by
  unfold Php.visitParsed
  split <;> rfl

/-- Extractors find in a file what they would find if it were the first, and their visitors stay
of the same families. -/
theorem extract_value (h : visitors.map Php.Visitor.family = Php.Family.all) (kind : FileKind)
    (f : SourceFile) :
    (site.extract visitors kind f).value.1 =
        (site.extract (Php.Visitor.ofFamilies Php.Family.all) kind f).value.1 ∧
      (site.extract visitors kind f).value.2.map Php.Visitor.family = Php.Family.all := by
  cases kind with
  | manifest => exact ⟨rfl, h⟩
  | script => exact ⟨rfl, h⟩
  | php =>
    simp only [extract, Traced.value_bind, Traced.value_pure, visitParsed_value]
    rw [Php.families_visit, Php.visit_outcome, Php.visit_outcome, Php.families_ofFamilies, h]
    exact ⟨rfl, rfl⟩

/-- Whatever reads the scripts and parses PHP files, the extractors make proper findings. -/
theorem extract_isProper (kind : FileKind) (f : SourceFile) :
    (site.extract visitors kind f).value.1.All Finding.IsProper := by
  cases kind with
  | manifest => exact (FileStep.manifest f).outcome_isProper
  | script => exact .attempt fun items _ => (FileStep.script f items).outcome_isProper
  | php =>
    simp only [extract, Traced.value_bind, Traced.value_pure, visitParsed_value, Php.visit_outcome]
    exact fun x hx => ⟨Php.extract_fits _ f _ x hx, Php.extract_isRegular _ f _ x hx⟩

theorem meet_value (site : Site) (read : Path → Except DiskError (List UInt8))
    (extract : Extractor) (visitors : List Php.Visitor) (kind : FileKind) (path : Path) :
    (site.meet read extract visitors kind path).value = match read path with
      | .error _ => (.unreadable, visitors)
      | .ok bytes =>
        let met := (extract visitors kind (site.sourceFile path bytes)).value
        (.ended met.1, met.2) := by
  unfold meet
  cases read path with
  | error e => rfl
  | ok bytes =>
    dsimp only [Traced.value_bind]
    split <;> rfl

/-- What becomes of a file that is met first. -/
def ownFate (site : Site) (kind : FileKind) (path : Path) : Fate :=
  (site.fate (Php.Visitor.ofFamilies Php.Family.all) kind path).value.1

theorem ownFate_eq (site : Site) (kind : FileKind) (path : Path) :
    site.ownFate kind path = match site.disk.read path with
      | .error _ => .unreadable
      | .ok bytes => .ended (site.extract (Php.Visitor.ofFamilies Php.Family.all) kind
          (site.sourceFile path bytes)).value.1 := by
  rw [ownFate, fate, meet_value]
  cases site.disk.read path with
  | error e => rfl
  | ok bytes => rfl

theorem ownFate_isProper (kind : FileKind) (path : Path) :
    ∀ x ∈ (site.ownFate kind path).found, x.IsProper := by
  rw [ownFate_eq]
  split
  · exact fun x hx => by cases hx
  · exact extract_isProper kind _

section Disturbed

variable {read : Path → Except DiskError (List UInt8)} {extract : Extractor}
  (hread : ∀ path bytes, read path = .ok bytes → site.disk.read path = .ok bytes)
  (hextract : extract.Disturbs site.extract)

include hread hextract

/-- A file meets a fate that cuts its own short, and leaves the visitors of the same families. -/
theorem meet_cutsShort (h : visitors.map Php.Visitor.family = Php.Family.all) (kind : FileKind)
    (path : Path) :
    (site.meet read extract visitors kind path).value.1.CutsShort (site.ownFate kind path) ∧
      (site.meet read extract visitors kind path).value.2.map Php.Visitor.family =
        Php.Family.all := by
  rw [meet_value]
  cases hbytes : read path with
  | error e => exact ⟨.unreadable _, h⟩
  | ok bytes =>
    obtain ⟨hown, hfamilies⟩ := site.extract_value h kind (site.sourceFile path bytes)
    rw [ownFate_eq, hread path bytes hbytes]
    dsimp only
    rw [← hown]
    rcases hextract visitors kind (site.sourceFile path bytes) with heq | hbroken
    · rw [heq]
      exact ⟨.unharmed _, hfamilies⟩
    · exact ⟨.of_breaksOff hbroken, hbroken.families.trans hfamilies⟩

end Disturbed

/-- A file that nothing disturbs meets its own fate, whatever scopes the visitors come from. -/
theorem meet_eq {read : Path → Except DiskError (List UInt8)} {extract : Extractor}
    {kind : FileKind} {path : Path} (h : visitors.map Php.Visitor.family = Php.Family.all)
    (hread : read path = site.disk.read path)
    (hextract : ∀ visitors bytes, extract visitors kind (site.sourceFile path bytes) =
      site.extract visitors kind (site.sourceFile path bytes)) :
    (site.meet read extract visitors kind path).value.1 = site.ownFate kind path := by
  rw [meet_value, hread, ownFate_eq]
  cases site.disk.read path with
  | error e => rfl
  | ok bytes =>
    dsimp only
    rw [hextract, (extract_value h kind _).1]

theorem fate_eq (h : visitors.map Php.Visitor.family = Php.Family.all) (kind : FileKind)
    (path : Path) :
    (site.fate visitors kind path).value.1 = site.ownFate kind path ∧
      (site.fate visitors kind path).value.2.map Php.Visitor.family = Php.Family.all :=
  ⟨meet_eq h rfl fun _ _ => rfl,
    (meet_cutsShort (fun _ _ hbytes => hbytes) (fun _ _ _ => .inl rfl) h kind path).2⟩

end Site

/-! ### Runs over files -/

/-- The files of a scan with their kinds, in the order in which they are read. -/
def Scan.queue (files : Scan) : List (FileKind × Path) :=
  files.manifests.map (.manifest, ·) ++ files.scripts.map (.script, ·) ++ files.php.map (.php, ·)

theorem Scan.length_queue (files : Scan) : files.queue.length = files.total := by
  simp [queue, total, Nat.add_assoc]

namespace Run

variable {meet : Encounter} {run : Run}

/-- Meets files of all kinds, one after the other. -/
def goOn (meet : Encounter) (run : Run) (queue : List (FileKind × Path)) : Run :=
  queue.foldl (fun run file => (run.readFile meet file.1 file.2).value) run

/-- The fates that files meet one after the other, from visitors on. -/
def fates (meet : Encounter) : List Php.Visitor → List (FileKind × Path) → List Fate
  | _, [] => []
  | visitors, file :: rest =>
    let met := (meet visitors file.1 file.2).value
    met.1 :: fates meet met.2 rest

theorem length_fates (meet : Encounter) (visitors : List Php.Visitor)
    (queue : List (FileKind × Path)) : (Run.fates meet visitors queue).length = queue.length := by
  induction queue generalizing visitors with
  | nil => rfl
  | cons file rest ih => rw [Run.fates, List.length_cons, List.length_cons, ih]

theorem readFiles_value (kind : FileKind) (paths : List Path) :
    (run.readFiles meet kind paths).value = run.goOn meet (paths.map (kind, ·)) := by
  induction paths generalizing run with
  | nil => rfl
  | cons path rest ih =>
    rw [readFiles, Traced.value_bind, ih]
    rfl

/-- The three phases meet the files of a scan in order. -/
theorem ofScan_value (files : Scan) : (ofScan meet files).value = goOn meet {} files.queue := by
  -- Each phase goes on from the state that the one before has left.
  simp only [ofScan, Traced.value_bind, readFiles_value, goOn, Scan.queue, List.foldl_append]

theorem store_absorb (run : Run) (fate : Fate) :
    (run.absorb fate).store = run.store.recordAll fate.found := by
  cases fate with
  | unreadable => rfl
  | ended outcome =>
    -- The findings are recorded whether or not a failure ended them.
    cases hfailure : outcome.failure <;> simp [absorb, Fate.found, hfailure]

theorem parsed_absorb (run : Run) (fate : Fate) :
    (run.absorb fate).parsed = run.parsed + [fate].countP Fate.succeeds := by
  cases fate with
  | unreadable => rfl
  | ended outcome =>
    cases hfailure : outcome.failure <;> simp [absorb, Fate.succeeds, hfailure]

theorem failed_absorb (run : Run) (fate : Fate) :
    (run.absorb fate).failed = run.failed + [fate].countP fun fate => !fate.succeeds := by
  cases fate with
  | unreadable => rfl
  | ended outcome =>
    cases hfailure : outcome.failure <;> simp [absorb, Fate.succeeds, hfailure]

/-- What an analysis has stored and counted when files have met these fates. -/
structure HasMet (run : Run) (fates : List Fate) : Prop where
  store : run.store = Store.empty.recordAll (fates.flatMap Fate.found)
  parsed : run.parsed = fates.countP Fate.succeeds
  failed : run.failed = fates.countP fun fate => !fate.succeeds

namespace HasMet

variable {fates : List Fate}

theorem readFile (h : run.HasMet fates) (meet : Encounter) (kind : FileKind) (path : Path) :
    (run.readFile meet kind path).value.HasMet
      (fates ++ [(meet run.visitors kind path).value.1]) where
  store := by
    rw [List.flatMap_append, List.flatMap_singleton, Store.recordAll_append, ← h.store]
    exact store_absorb run _
  parsed := by
    rw [List.countP_append, ← h.parsed]
    exact parsed_absorb run _
  failed := by
    rw [List.countP_append, ← h.failed]
    exact failed_absorb run _

theorem goOn (h : run.HasMet fates) (queue : List (FileKind × Path)) :
    (run.goOn meet queue).HasMet (fates ++ Run.fates meet run.visitors queue) := by
  induction queue generalizing run fates with
  | nil => simpa [Run.goOn, Run.fates] using h
  | cons file rest ih =>
    -- The next file is met by the visitors that this one has left.
    have hrest := ih (h.readFile meet file.1 file.2)
    rw [List.append_assoc, List.singleton_append] at hrest
    exact hrest

theorem start : ({} : Run).HasMet [] := ⟨rfl, rfl, rfl⟩

theorem ofScan (meet : Encounter) (files : Scan) :
    (Run.ofScan meet files).value.HasMet
      (Run.fates meet (Php.Visitor.ofFamilies Php.Family.all) files.queue) := by
  rw [ofScan_value]
  exact start.goOn files.queue

theorem parsed_add_failed (h : run.HasMet fates) : run.parsed + run.failed = fates.length := by
  have hlength := List.length_eq_countP_add_countP Fate.succeeds (l := fates)
  simpa [h.parsed, h.failed] using hlength.symm

/-- What files contribute in one analysis, they contribute in any other that meets them
with the same fates, among whatever other files. -/
theorem mono {other : Run} {others : List Fate} (h : run.HasMet fates)
    (hother : other.HasMet others) (hsub : fates ⊆ others)
    (hproper : ∀ x ∈ others.flatMap Fate.found, x.IsProper) :
    (∀ id, run.store.has id → other.store.has id) ∧
      ∀ id, run.store.HasSteady id → other.store.HasSteady id := by
  have hfound : fates.flatMap Fate.found ⊆ others.flatMap Fate.found := by
    intro x hx
    obtain ⟨fate, hfate, hx⟩ := List.mem_flatMap.mp hx
    exact List.mem_flatMap.mpr ⟨fate, hsub hfate, hx⟩
  rw [h.store, hother.store]
  constructor
  · intro id hid
    rw [Store.has_recordAll_iff] at hid ⊢
    exact hid.imp_right fun ⟨e, he, heq⟩ => ⟨e, hfound he, heq⟩
  · -- Another file may take over an identifier, but only for a relation that is steady too.
    intro id hid
    rw [Store.hasSteady_recordAll_iff fun x hx => hproper x (hfound hx)] at hid
    rw [Store.hasSteady_recordAll_iff hproper]
    obtain ⟨r, hr, heq⟩ := hid
    exact ⟨r, hfound hr, heq⟩

end HasMet

/-- Undisturbed, files meet their own fates. -/
theorem fates_fate {site : Site} {visitors : List Php.Visitor}
    (h : visitors.map Php.Visitor.family = Php.Family.all) (queue : List (FileKind × Path)) :
    Run.fates site.fate visitors queue = queue.map fun file => site.ownFate file.1 file.2 := by
  induction queue generalizing visitors with
  | nil => rfl
  | cons file rest ih =>
    obtain ⟨hfate, hfamilies⟩ := site.fate_eq h file.1 file.2
    rw [Run.fates, List.map_cons, ih hfamilies, hfate]

theorem hasMet_ofScan_fate (site : Site) (files : Scan) :
    (ofScan site.fate files).value.HasMet
      (files.queue.map fun file => site.ownFate file.1 file.2) := by
  rw [← fates_fate (Php.families_ofFamilies _)]
  exact .ofScan site.fate files

/-- Each file meets a fate that cuts its own short, and its very own if nothing disturbs it. -/
theorem of_mem_zip_fates {site : Site} {read : Path → Except DiskError (List UInt8)}
    {extract : Extractor}
    (hread : ∀ path bytes, read path = .ok bytes → site.disk.read path = .ok bytes)
    (hextract : extract.Disturbs site.extract) {visitors : List Php.Visitor}
    (h : visitors.map Php.Visitor.family = Php.Family.all) {queue : List (FileKind × Path)}
    {file : FileKind × Path} {fate : Fate}
    (hmem : (file, fate) ∈ queue.zip (Run.fates (site.meet read extract) visitors queue)) :
    fate.CutsShort (site.ownFate file.1 file.2) ∧
      (read file.2 = site.disk.read file.2 →
        (∀ visitors bytes, extract visitors file.1 (site.sourceFile file.2 bytes) =
          site.extract visitors file.1 (site.sourceFile file.2 bytes)) →
        fate = site.ownFate file.1 file.2) := by
  induction queue generalizing visitors with
  | nil => cases hmem
  | cons first rest ih =>
    obtain ⟨hcut, hfamilies⟩ := Site.meet_cutsShort hread hextract h first.1 first.2
    rw [Run.fates, List.zip_cons_cons, List.mem_cons] at hmem
    rcases hmem with heq | hmem
    · obtain ⟨rfl, rfl⟩ := Prod.mk.inj heq
      exact ⟨hcut, fun hsame hwhole => Site.meet_eq h hsame hwhole⟩
    · exact ih hfamilies hmem

end Run

/-! ### The analysis -/

/-- The failure of a file is its own. Let an analysis read files in a way that may refuse some
of them, with an extractor that may break off on some. It comes to its end with a graph; it
counts each file once, as parsed or as failed; the graph tells the number of its entities; a
file that nothing disturbs meets the fate that it meets alone; and a file that does not fail
contributes, by identifiers, all entities and all relations of steady kinds that it contributes
when it is read alone. -/
theorem analyzeFiles_isolates_failures (s : Surroundings) (site : Site) (files : Scan)
    (hostPath : String) {read : Path → Except DiskError (List UInt8)} {extract : Extractor}
    (hread : ∀ path bytes, read path = .ok bytes → site.disk.read path = .ok bytes)
    (hextract : extract.Disturbs site.extract) :
    let meet := site.meet read extract
    let run := (Run.ofScan meet files).value
    let graph := (analyzeFiles s site meet files hostPath).value
    let fates := Run.fates meet (Php.Visitor.ofFamilies Php.Family.all) files.queue
    (fates.length = files.queue.length ∧ run.parsed = fates.countP Fate.succeeds ∧
      run.failed = fates.countP (fun fate => !fate.succeeds) ∧
      run.parsed + run.failed = files.total) ∧
    (graph.entities = run.store.entities ∧
      graph.plugin.totalEntities = graph.entities.length) ∧
    ∀ file fate, (file, fate) ∈ files.queue.zip fates →
      (read file.2 = site.disk.read file.2 →
        (∀ visitors bytes, extract visitors file.1 (site.sourceFile file.2 bytes) =
          site.extract visitors file.1 (site.sourceFile file.2 bytes)) →
        fate = (site.fate (Php.Visitor.ofFamilies Php.Family.all) file.1 file.2).value.1) ∧
      (fate.succeeds →
        let alone := (Run.readFile site.fate file.1 {} file.2).value.store
        (∀ id, alone.has id → run.store.has id) ∧
        ∀ id, (∃ r ∈ alone.relations, r.id = id ∧ r.kind ≠ .triggersHandler) →
          ∃ r ∈ run.store.relations, r.id = id ∧ r.kind ≠ .triggersHandler) := by
  intro meet run graph fates
  have hrun : run.HasMet fates := .ofScan meet files
  have hlength : fates.length = files.queue.length := Run.length_fates _ _ _
  have hfamilies := Php.families_ofFamilies Php.Family.all
  refine ⟨⟨hlength, hrun.parsed, hrun.failed, ?_⟩, ⟨rfl, rfl⟩, fun file fate hmem => ?_⟩
  · rw [hrun.parsed_add_failed, hlength, Scan.length_queue]
  · obtain ⟨hcut, hown⟩ := Run.of_mem_zip_fates hread hextract hfamilies hmem
    refine ⟨hown, fun hsucceeds => ?_⟩
    -- Read alone, the file meets the very fate that it has met among the others.
    have hsame := hcut.eq_of_succeeds hsucceeds
    have halone : ((Run.readFile site.fate file.1 {} file.2).value).HasMet [fate] := by
      rw [hsame]
      exact Run.HasMet.start.readFile site.fate file.1 file.2
    refine halone.mono hrun ?_ fun x hx => ?_
    · exact List.cons_subset.mpr ⟨(List.of_mem_zip hmem).2, List.nil_subset _⟩
    · obtain ⟨met, hmet, hx⟩ := List.mem_flatMap.mp hx
      rw [← List.map_snd_zip (Nat.le_of_eq hlength)] at hmet
      obtain ⟨other, hother, rfl⟩ := List.mem_map.mp hmet
      obtain ⟨hcut', -⟩ := Run.of_mem_zip_fates hread hextract hfamilies hother
      exact Site.ownFate_isProper _ _ x (hcut'.found_subset hx)

/-- Two files of a class each, with a method and a closure inside. -/
def twoClasses : Site where
  disk := .folder [("a.php", .file [65, 109]), ("b.php", .file [66, 110])]
  root := ⟨.root, []⟩
  reader := fun _ => pure (.ok [])
  php := fun _ => { root := Php.classWithClosure }

/-- Visitors that are interrupted in the closure of the first file, in their third turn. -/
def interruptedInClosure : Extractor := fun visitors kind f =>
  if kind = .php ∧ f.source = "Am" then
    let closure := ⟨Php.closureInMethod, some (.node "name" true 1 2 (some "name") [])⟩
    let team := Walk.after (Php.Team.step f) (.start visitors)
      ((Walk.trace Php.classWithClosure).take 6)
    let broken := team.interrupt f closure 2
    pure (⟨broken.outcome.findings, some .missingChild⟩, broken.visitors)
  else twoClasses.extract visitors kind f

theorem interruptedInClosure_disturbs : interruptedInClosure.Disturbs twoClasses.extract := by
  intro visitors kind f
  by_cases hfile : kind = .php ∧ f.source = "Am"
  · obtain ⟨rfl, hsource⟩ := hfile
    refine .inr ?_
    simp only [interruptedInClosure, hsource, true_and, if_true, Site.extract, Traced.value_bind,
      Traced.value_pure, Site.visitParsed_value]
    exact Php.interrupt_breaksOff rfl visitors 2 .missingChild
  · exact .inl (by rw [interruptedInClosure, if_neg hfile])

/-- A manifest is missing, and the visitors of the first file are interrupted inside a closure
of a method of a class; the second file contributes its class and its method all the same. -/
theorem analyzeFiles_isolates_failures_twoClasses :
    let files : Scan := {
      manifests := [⟨.root, ["block.json"]⟩]
      scripts := []
      php := [⟨.root, ["a.php"]⟩, ⟨.root, ["b.php"]⟩] }
    let run := (Run.ofScan (twoClasses.meet twoClasses.disk.read interruptedInClosure) files).value
    interruptedInClosure.Disturbs twoClasses.extract ∧
    run.parsed = 1 ∧ run.failed = 2 ∧ run.store.has (.ofMethod "B" "n") := by
  intro files run
  obtain ⟨⟨-, hparsed, hfailed, -⟩, -, hsurvivors⟩ :=
    analyzeFiles_isolates_failures
      { disk := twoClasses.disk, settings := {}, launch := fun _ => default, now := "" }
      twoClasses files ""
      (fun _ _ hbytes => hbytes) interruptedInClosure_disturbs
  refine ⟨interruptedInClosure_disturbs, hparsed.trans (by decide +kernel),
    hfailed.trans (by decide +kernel), ?_⟩
  have hhas := ((hsurvivors (.php, ⟨.root, ["b.php"]⟩) _
    (List.mem_of_getElem? (i := 2) rfl)).2 (by decide +kernel)).1
  exact hhas _ (by decide +kernel)

end PluginAtlas
