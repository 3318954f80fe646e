import PluginAtlas.Proofs.Contributions
import PluginAtlas.Proofs.Replay

/-!
# When relations share an identifier

The identifier of a relation joins its source, the word of its kind and its target by
underscores. Underscores may stand in all three, so one identifier can have two readings.
The words of the kinds limit them: no word begins another, and only one holds another
behind an underscore. So a second reading lets the source reach further in one of three
ways, and a relation is lost to a different one exactly if the two are such readings of
one identifier.

## Main definitions

* `Relation.triple`: what a relation says.
* `Relation.MisreadAs`: a second reading of the identifier of a relation.

## Main results

* `Relation.id_eq_iff`: which relations share an identifier.
* `Store.relation_per_triple_iff`: when a store keeps a relation for every triple.
-/

namespace PluginAtlas

/-! ### The words of the kinds -/

namespace RelationKind

/-- The letters of the word of a kind. -/
def letters (kind : RelationKind) : List Char := kind.word.toList

theorem prefix_underscore (word rest : List Char) : word ++ ['_'] <+: word ++ '_' :: rest :=
  ⟨rest, List.append_cons word '_' rest |>.symm⟩

theorem mem_words (kind : RelationKind) : kind ∈ words.map Prod.fst := by
  cases kind <;> decide

/-- No word of a kind, with an underscore behind it, begins another one. -/
theorem eq_of_begins {kind other : RelationKind}
    (h : kind.letters ++ ['_'] <+: other.letters ++ ['_']) : kind = other := by
  have hall : ∀ k ∈ words.map Prod.fst, ∀ k' ∈ words.map Prod.fst,
      k.letters ++ ['_'] <+: k'.letters ++ ['_'] → k = k' := by decide +kernel
  exact hall kind (mem_words kind) other (mem_words other) h

theorem eq_of_letters_append {kind other : RelationKind} {rest rest' : List Char}
    (h : kind.letters ++ '_' :: rest = other.letters ++ '_' :: rest') :
    kind = other ∧ rest = rest' := by
  have hkind : kind.letters ++ ['_'] <+: other.letters ++ '_' :: rest' :=
    h ▸ prefix_underscore _ rest
  have hother := prefix_underscore other.letters rest'
  have heq : kind = other := by
    rcases List.prefix_or_prefix_of_prefix hkind hother with hle | hle
    · exact eq_of_begins hle
    · exact (eq_of_begins hle).symm
  subst heq
  exact ⟨rfl, List.cons.inj (List.append_cancel_left h) |>.2⟩

/-- Behind an underscore in the word of a kind, another word fits in one place only. -/
theorem of_letters_split {kind other : RelationKind} {front back rest rest' : List Char}
    (hsplit : kind.letters = front ++ '_' :: back)
    (h : other.letters ++ '_' :: rest' = back ++ '_' :: rest) :
    kind = .jsRegistersHook ∧ other = .registersHook ∧ front = ['j', 's'] ∧ rest' = rest := by
  have hall : ∀ k ∈ words.map Prod.fst, ∀ k' ∈ words.map Prod.fst,
      ∀ i ∈ List.range 20, (k.letters.drop i).head? = some '_' →
      (k.letters.drop (i + 1) ++ ['_'] <+: k'.letters ++ ['_'] ∨
        k'.letters ++ ['_'] <+: k.letters.drop (i + 1) ++ ['_']) →
      k = .jsRegistersHook ∧ k' = .registersHook ∧ i = 2 := by decide +kernel
  have hlength : ∀ k ∈ words.map Prod.fst, k.letters.length < 20 := by decide +kernel
  have hshort := hlength kind (mem_words kind)
  have hback : kind.letters.drop (front.length + 1) = back := by simp [hsplit]
  have hother : other.letters ++ ['_'] <+: back ++ '_' :: rest :=
    h ▸ prefix_underscore _ rest'
  have hcomparable := List.prefix_or_prefix_of_prefix (prefix_underscore back rest) hother
  rw [← hback] at hcomparable
  have hplace : front.length ∈ List.range 20 := by
    rw [hsplit, List.length_append] at hshort
    exact List.mem_range.mpr (by omega)
  obtain ⟨rfl, rfl, htwo⟩ := hall kind (mem_words kind) other (mem_words other) front.length
    hplace (by simp [hsplit]) hcomparable
  have hfront : front = ['j', 's'] := by
    have htake : front = (letters .jsRegistersHook).take 2 := by
      rw [hsplit, ← htwo, List.take_left]
    exact htake.trans (by decide +kernel)
  subst hfront
  have hword : letters .jsRegistersHook = ['j', 's'] ++ '_' :: letters .registersHook := by
    decide +kernel
  have hsame : back = letters .registersHook :=
    (List.cons.inj (List.append_cancel_left (hsplit.symm.trans hword))).2
  rw [hsame] at h
  exact ⟨rfl, rfl, rfl, (List.cons.inj (List.append_cancel_left h)).2⟩

/-- Two readings of one text from a common place on: either they agree, or the second has
`more` letters before its own word. It has then taken in the word of the first, with the
underscore behind it or without, or the beginning of the one word that holds another. -/
theorem readings {kind other : RelationKind} {more target target' : List Char}
    (h : '_' :: (kind.letters ++ '_' :: target) =
      more ++ '_' :: (other.letters ++ '_' :: target')) :
    (more = [] ∧ kind = other ∧ target = target') ∨
    (∃ inner, more = '_' :: (kind.letters ++ '_' :: inner) ∧
      target = inner ++ '_' :: (other.letters ++ '_' :: target')) ∨
    (more = '_' :: kind.letters ∧ target = other.letters ++ '_' :: target') ∨
    (kind = .jsRegistersHook ∧ other = .registersHook ∧ more = ['_', 'j', 's'] ∧
      target' = target) := by
  cases more with
  | nil =>
    obtain ⟨hkind, htarget⟩ := eq_of_letters_append (List.cons.inj h).2
    exact Or.inl ⟨rfl, hkind, htarget⟩
  | cons first more =>
    obtain ⟨rfl, hrest⟩ := List.cons.inj h
    rcases List.append_eq_append_iff.mp hrest with ⟨extra, rfl, hextra⟩ | ⟨extra, hword, hextra⟩
    · cases extra with
      | nil =>
        refine Or.inr (Or.inr (Or.inl ⟨by rw [List.append_nil], ?_⟩))
        exact (List.cons.inj hextra).2
      | cons second inner =>
        obtain ⟨rfl, htarget⟩ := List.cons.inj hextra
        exact Or.inr (Or.inl ⟨inner, rfl, htarget⟩)
    · cases extra with
      | nil =>
        rw [List.append_nil] at hword
        refine Or.inr (Or.inr (Or.inl ⟨by rw [hword], ?_⟩))
        exact (List.cons.inj hextra).2.symm
      | cons second back =>
        -- The second word begins inside the first one.
        obtain ⟨rfl, hinside⟩ := List.cons.inj hextra
        obtain ⟨rfl, rfl, rfl, rfl⟩ := of_letters_split hword hinside
        exact Or.inr (Or.inr (Or.inr ⟨rfl, rfl, rfl, rfl⟩))

end RelationKind

/-! ### Readings of an identifier -/

namespace Relation

/-- What a relation says: its source, its kind and its target. -/
def triple (r : Relation) : Ident × RelationKind × Ident := (r.source, r.kind, r.target)

/-- The identifier of `r`, read as that of `other`, whose source reaches further. -/
inductive MisreadAs (r other : Relation) : Prop
  /-- The further source takes in the kind of `r` and a part of its target. -/
  | intoTarget (inner : String) :
      other.source.text = r.source.text ++ "_" ++ r.kind.word ++ "_" ++ inner →
      r.target.text = inner ++ "_" ++ other.kind.word ++ "_" ++ other.target.text →
      MisreadAs r other
  /-- The further source ends with the kind of `r`, and one underscore serves twice. -/
  | afterKind :
      other.source.text = r.source.text ++ "_" ++ r.kind.word →
      r.target.text = other.kind.word ++ "_" ++ other.target.text →
      MisreadAs r other
  /-- The further source takes in the beginning of a word that holds another word. -/
  | insideKind :
      r.kind = .jsRegistersHook → other.kind = .registersHook →
      other.source.text = r.source.text ++ "_js" → other.target = r.target →
      MisreadAs r other

theorem MisreadAs.source_ne {r other : Relation} (h : r.MisreadAs other) :
    r.source ≠ other.source := by
  -- The further source has more letters.
  have hlength : r.source.text.length < other.source.text.length := by
    cases h with
    | intoTarget inner hsource _ =>
      simp only [hsource, String.length_append, show "_".length = 1 from rfl]
      omega
    | afterKind hsource _ =>
      simp only [hsource, String.length_append, show "_".length = 1 from rfl]
      omega
    | insideKind _ _ hsource _ =>
      simp only [hsource, String.length_append, show "_js".length = 3 from rfl]
      omega
  intro heq
  rw [heq] at hlength
  exact Nat.lt_irrefl _ hlength

variable {r other : Relation}

/-- The letters of an identifier that is made from ends and kind. -/
theorem IsKeyed.toList_id (h : r.IsKeyed) :
    r.id.toList = 'e' :: '_' :: (r.source.text.toList ++
      '_' :: (r.kind.letters ++ '_' :: r.target.text.toList)) := by
  rw [h]
  simp [between, RelationKind.letters]

/-- If the source of the second is at least as long, a shared identifier is misread or says
the same. -/
theorem triple_eq_or_misreadAs {more : List Char}
    (hsource : other.source.text.toList = r.source.text.toList ++ more)
    (h : '_' :: (r.kind.letters ++ '_' :: r.target.text.toList) =
      more ++ '_' :: (other.kind.letters ++ '_' :: other.target.text.toList)) :
    r.triple = other.triple ∨ r.MisreadAs other := by
  rcases RelationKind.readings h with ⟨rfl, hkind, htarget⟩ | ⟨inner, rfl, htarget⟩ |
    ⟨rfl, htarget⟩ | ⟨hkind, hother, rfl, htarget⟩
  · left
    rw [List.append_nil] at hsource
    simp only [triple, hkind, Ident.eq_of_toList hsource, Ident.eq_of_toList htarget]
  · refine Or.inr (.intoTarget (String.ofList inner) ?_ ?_)
    · simpa [← String.toList_inj, RelationKind.letters] using hsource
    · simpa [← String.toList_inj, RelationKind.letters] using htarget
  · refine Or.inr (.afterKind ?_ ?_)
    · simpa [← String.toList_inj, RelationKind.letters] using hsource
    · simpa [← String.toList_inj, RelationKind.letters] using htarget
  · refine Or.inr (.insideKind hkind hother ?_ (Ident.eq_of_toList htarget))
    simpa [← String.toList_inj] using hsource

theorem MisreadAs.id_eq (h : r.MisreadAs other) (hr : r.IsKeyed) (hother : other.IsKeyed) :
    r.id = other.id := by
  rw [hr, hother]
  simp only [between]
  cases h with
  | intoTarget inner hsource htarget => rw [hsource, htarget]; simp only [String.append_assoc]
  | afterKind hsource htarget => rw [hsource, htarget]; simp only [String.append_assoc]
  | insideKind hkind hkind' hsource htarget =>
    rw [hkind, hkind', hsource, htarget]
    have hword : RelationKind.word .jsRegistersHook =
        "js_" ++ RelationKind.word .registersHook := by decide +kernel
    rw [hword, ← String.toList_inj]
    simp

/-- Relations share an identifier if they say the same, or if one is a misreading of the
other. -/
theorem id_eq_iff (hr : r.IsKeyed) (hother : other.IsKeyed) :
    r.id = other.id ↔ r.triple = other.triple ∨ r.MisreadAs other ∨ other.MisreadAs r := by
  constructor
  · intro h
    have hletters := congrArg String.toList h
    rw [hr.toList_id, hother.toList_id] at hletters
    have hjoined := (List.cons.inj (List.cons.inj hletters).2).2
    rcases List.append_eq_append_iff.mp hjoined with ⟨more, hsource, hrest⟩ | ⟨more, hsource, hrest⟩
    · exact (triple_eq_or_misreadAs hsource hrest).imp_right Or.inl
    · exact (triple_eq_or_misreadAs hsource hrest).imp Eq.symm Or.inr
  · rintro (h | h | h)
    · obtain ⟨hsource, hrest⟩ := Prod.mk.inj h
      obtain ⟨hkind, htarget⟩ := Prod.mk.inj hrest
      rw [hr, hother, hsource, hkind, htarget]
      rfl
    · exact h.id_eq hr hother
    · exact (h.id_eq hother hr).symm

end Relation

/-! ### What a store keeps -/

namespace Store

variable {rs : List Relation}

theorem mem_of_mem_settled {r : Relation} (h : r ∈ settled rs) : r ∈ rs := by
  obtain ⟨first, hfirst, rfl⟩ := List.mem_map.mp h
  exact latest_mem (key_mem_firstPerKey.mp (List.mem_map_of_mem hfirst))

section Keyed

variable (hkeyed : ∀ r ∈ rs, r.IsKeyed)

include hkeyed

/-- What was written is kept, or lost to another reading of its identifier. -/
theorem exists_settled {r : Relation} (hr : r ∈ rs) :
    ∃ kept ∈ settled rs, kept.triple = r.triple ∨ r.MisreadAs kept ∨ kept.MisreadAs r := by
  have hid : r.id ∈ (settled rs).map Relation.id := by
    rw [settled_ids, key_mem_firstPerKey]
    exact List.mem_map_of_mem hr
  obtain ⟨kept, hkept, hid⟩ := List.mem_map.mp hid
  have hkept' := hkeyed kept (mem_of_mem_settled hkept)
  have hread := (Relation.id_eq_iff (hkeyed r hr) hkept').mp hid.symm
  exact ⟨kept, hkept, hread.imp_left Eq.symm⟩

theorem settled_triples_nodup : ((settled rs).map Relation.triple).Nodup := by
  have hids := settled_ids_nodup rs
  rw [List.Nodup, List.pairwise_map] at hids ⊢
  refine hids.imp_of_mem fun {a b} ha hb hne htriple => hne ?_
  exact (Relation.id_eq_iff (hkeyed a (mem_of_mem_settled ha))
    (hkeyed b (mem_of_mem_settled hb))).mpr (Or.inl htriple)

/-- A relation and a misreading of it are never both kept. -/
theorem not_misreadAs_of_kept {r other : Relation} (hr : r ∈ rs) (hother : other ∈ rs)
    (hkept : r.triple ∈ (settled rs).map Relation.triple)
    (hkept' : other.triple ∈ (settled rs).map Relation.triple) : ¬ r.MisreadAs other := by
  intro hmisread
  obtain ⟨a, ha, htriple⟩ := List.mem_map.mp hkept
  obtain ⟨b, hb, htriple'⟩ := List.mem_map.mp hkept'
  -- Both are held under one identifier, so they are one relation with one source.
  have hid : a.id = b.id := by
    have h := (Relation.id_eq_iff (hkeyed a (mem_of_mem_settled ha)) (hkeyed r hr)).mpr
      (Or.inl htriple)
    have h' := (Relation.id_eq_iff (hkeyed b (mem_of_mem_settled hb)) (hkeyed other hother)).mpr
      (Or.inl htriple')
    rw [h, h', hmisread.id_eq (hkeyed r hr) (hkeyed other hother)]
  have hsame : a = b := List.inj_on_of_nodup_map (settled_ids_nodup rs) ha hb hid
  rw [hsame, htriple'] at htriple
  exact hmisread.source_ne (congrArg Prod.fst htriple).symm

end Keyed

/-- A store of relations between any texts, of any kinds. It holds nothing that was not
written, and never two relations that say the same. It holds one for everything that was
said exactly if none of the relations is a misreading of another; what is missing was lost
to a misreading. -/
theorem relation_per_triple_iff (made : List (String × RelationKind × String × String)) :
    let rs := made.map fun (source, kind, target, label) =>
      Relation.between (.sanitize source) kind (.sanitize target) label
    let stored := (replay (rs.map .relation)).relations
    (∀ r ∈ stored, r ∈ rs) ∧
    (stored.map Relation.triple).Nodup ∧
    (∀ r ∈ rs, ∃ kept ∈ stored,
      kept.triple = r.triple ∨ r.MisreadAs kept ∨ kept.MisreadAs r) ∧
    ((∀ r ∈ rs, r.triple ∈ stored.map Relation.triple) ↔
      ∀ r ∈ rs, ∀ other ∈ rs, ¬ r.MisreadAs other) := by
  intro rs stored
  have hstored : stored = settled rs := by
    simp only [stored, replay_relations, List.filterMap_map]
    exact congrArg settled List.filterMap_some
  have hkeyed : ∀ r ∈ rs, r.IsKeyed := by
    intro r hr
    obtain ⟨⟨source, kind, target, label⟩, -, rfl⟩ := List.mem_map.mp hr
    rfl
  rw [hstored]
  refine ⟨fun r => mem_of_mem_settled, settled_triples_nodup hkeyed,
    fun r => exists_settled hkeyed, ?_, ?_⟩
  · intro hall r hr other hother
    exact not_misreadAs_of_kept hkeyed hr hother (hall r hr) (hall other hother)
  · intro hnone r hr
    obtain ⟨kept, hkept, htriple | hmisread | hmisread⟩ := exists_settled hkeyed hr
    · exact htriple ▸ List.mem_map_of_mem hkept
    · exact absurd hmisread (hnone r hr kept (mem_of_mem_settled hkept))
    · exact absurd hmisread (hnone kept (mem_of_mem_settled hkept) r hr)

/-- A function `a` that calls a class `b_calls_class_c` and a function `a_calls_class_b` that
calls a class `c`: the second relation takes the place of the first. -/
theorem relation_lost_to_misreading :
    let first := Relation.between (.sanitize "func_a") .calls
      (.sanitize "class_b_calls_class_c") "calls"
    let second := Relation.between (.sanitize "func_a_calls_class_b") .calls
      (.sanitize "class_c") "calls"
    let stored := (replay [.relation first, .relation second]).relations
    first.triple ≠ second.triple ∧ first.id = second.id ∧ stored = [second] ∧
    first.triple ∉ stored.map Relation.triple := by
  decide +kernel

end Store

end PluginAtlas
