import PluginAtlas.Describe.Reply
import PluginAtlas.Proofs.JsonFronts

/-!
# The first object decides about a reply

A reply is read at its first brace. If no object can be read there, the reader tries once more
with the part of the reply up to its last closing brace. This second attempt never succeeds: an
object that ends the shorter part would stand at the front of the longer one, too, where the
first attempt would have found it. So a reply is decided by the shortest piece from its first
brace on that is a JSON object, and what follows this piece does not matter.

## Main definitions

* `Json.ShortestObject`: the shortest beginning of a text that is an object.

## Main results

* `Json.exists_readFront_of_parse`: an object that is the beginning of a text is at its front.
* `Json.shortestObject_iff`: the shortest object is the own text of the value at the front.
* `Describe.readObject_eq_some_iff`: the second attempt adds nothing.
* `Describe.descriptionsIn_decided_at_front`: what decides about a reply.
-/

namespace PluginAtlas

/-! ### Objects at the front of a text -/

namespace Json

/-- The shortest beginning of a text that is the text of an object. -/
structure ShortestObject (cs object : List Char) (fields : List (String × Json)) : Prop where
  begins : object <+: cs
  isText : parse (String.ofList object) = .ok (.obj fields)
  shortest : ∀ other fields', other <+: cs → parse (String.ofList other) = .ok (.obj fields') →
    object.length ≤ other.length

section

variable {tail : List Char}

/-- A beginning of a text that is a value, where the text begins with a brace: an object with its
own text, and blanks. -/
theorem exists_ownText_of_parse {part : List Char} {value : Json}
    (hpart : part <+: '\x7b' :: tail) (h : parse (String.ofList part) = .ok value) :
    ∃ own after fields, part = own ++ after ∧ value = .obj fields ∧ OwnText value own := by
  obtain ⟨before, own, after, rfl, hbefore, -, hown⟩ := exists_of_parse h
  obtain ⟨more, hmore⟩ := hpart
  -- a blank in front would be the brace
  obtain rfl : before = [] := by
    cases before with
    | nil => rfl
    | cons c before =>
      obtain ⟨rfl, -⟩ := List.cons.inj hmore
      exact absurd (hbefore _ List.mem_cons_self) (by decide)
  obtain ⟨c, inside, rfl, -⟩ := hown.exists_start
  obtain ⟨rfl, -⟩ := List.cons.inj hmore
  have hread := hown _ [','] (Nat.le_refl _) fun _ => .cons (by simp) []
  obtain ⟨fields, rfl⟩ := exists_fields_of_brace hread
  exact ⟨_, after, fields, rfl, rfl, hown⟩

/-- An object that is the beginning of a text is read at its front. -/
theorem exists_readFront_of_parse {part : List Char} {value : Json}
    (hpart : part <+: '\x7b' :: tail) (h : parse (String.ofList part) = .ok value) :
    ∃ rest, readFront ('\x7b' :: tail) = .ok (value, rest) := by
  obtain ⟨own, after, fields, rfl, rfl, hown⟩ := exists_ownText_of_parse hpart h
  obtain ⟨more, hmore⟩ := hpart
  rw [← hmore, List.append_assoc]
  exact ⟨after ++ more, hown.readFront_eq fun hnumber => hnumber.elim⟩

/-- The shortest object at the front of a text is the own text of its value. -/
theorem shortestObject_iff {object : List Char} {fields : List (String × Json)} :
    ShortestObject ('\x7b' :: tail) object fields ↔
      object <+: '\x7b' :: tail ∧ OwnText (.obj fields) object := by
  constructor
  · rintro ⟨hbegins, htext, hshortest⟩
    obtain ⟨own, after, _, rfl, -, hown⟩ := exists_ownText_of_parse hbegins htext
    -- the own text is an object already, so that nothing comes after it
    have hle := hshortest own fields ((List.prefix_append own after).trans hbegins) hown.parse_eq
    obtain rfl : after = [] := by
      rw [List.length_append] at hle
      exact List.eq_nil_of_length_eq_zero (by omega)
    rw [List.append_nil] at hbegins ⊢
    exact ⟨hbegins, hown⟩
  · rintro ⟨hbegins, hown⟩
    refine ⟨hbegins, hown.parse_eq, fun other fields' hother htext => ?_⟩
    obtain ⟨own, after, _, rfl, -, hown'⟩ := exists_ownText_of_parse hother htext
    obtain ⟨rest, hrest⟩ := hbegins
    obtain ⟨more, hmore⟩ := hother
    -- both are read at the front of the text, and leave the same behind
    have hread : readFront (object ++ rest) = .ok (.obj fields, rest) :=
      hown.readFront_eq fun hnumber => hnumber.elim
    have hread' : readFront (own ++ (after ++ more)) = .ok (_, after ++ more) :=
      hown'.readFront_eq fun hnumber => hnumber.elim
    rw [hrest] at hread
    rw [← List.append_assoc, hmore, hread] at hread'
    obtain ⟨-, rfl⟩ := Prod.mk.inj (Except.ok.inj hread')
    have hlength := congrArg List.length (hrest.trans hmore.symm)
    simp only [List.length_append] at hlength ⊢
    omega

theorem readFront_eq_ok_iff {value : Json} {rest : List Char} :
    readFront ('\x7b' :: tail) = .ok (value, rest) ↔
      ∃ object fields, '\x7b' :: tail = object ++ rest ∧ value = .obj fields ∧
        ShortestObject ('\x7b' :: tail) object fields := by
  constructor
  · intro h
    obtain ⟨own, hcs, hown⟩ := exists_ownText h
    obtain ⟨fields, rfl⟩ := exists_fields_of_brace h
    exact ⟨own, fields, hcs, rfl, shortestObject_iff.mpr ⟨⟨rest, hcs.symm⟩, hown⟩⟩
  · rintro ⟨object, fields, hcs, rfl, hobject⟩
    obtain ⟨-, hown⟩ := shortestObject_iff.mp hobject
    rw [hcs]
    exact hown.readFront_eq fun hnumber => hnumber.elim

end

end Json

/-! ### Replies -/

namespace Describe

theorem upToBrace_append {inside after : List Char} (h : '\x7d' ∉ after) :
    upToBrace (inside ++ '\x7d' :: after) = inside ++ ['\x7d'] := by
  have hmarks : ∀ c ∈ after.reverse, (c != '\x7d') = true :=
    fun c hc => bne_iff_ne.mpr fun heq => h (heq ▸ List.mem_reverse.mp hc)
  rw [upToBrace, List.reverse_append, List.reverse_cons, List.append_assoc,
    List.dropWhile_append_of_pos hmarks]
  simp

theorem upToBrace_begins (cs : List Char) : upToBrace cs <+: cs := by
  rw [upToBrace, ← List.reverse_suffix, List.reverse_reverse]
  exact List.dropWhile_suffix _

/-- The second attempt adds nothing to the first. -/
theorem readObject_eq_some_iff {tail : List Char} {value : Json} :
    readObject ('\x7b' :: tail) = .ok (some value) ↔
      ∃ rest, Json.readFront ('\x7b' :: tail) = .ok (value, rest) := by
  rw [readObject]
  cases hfront : Json.readFront ('\x7b' :: tail) with
  | ok result =>
    obtain ⟨read, rest⟩ := result
    simp
  | error failure =>
    have hnone : ∀ value, Json.parse (String.ofList (upToBrace ('\x7b' :: tail))) ≠ .ok value := by
      intro value hparse
      obtain ⟨rest, hread⟩ := Json.exists_readFront_of_parse (upToBrace_begins _) hparse
      cases hfront.symm.trans hread
    cases hparse : Json.parse (String.ofList (upToBrace ('\x7b' :: tail))) with
    | ok value => exact absurd hparse (hnone value)
    | error e =>
      dsimp only
      split_ifs <;> simp

section

variable {reply : String} {before tail : List Char}

theorem dropWhile_brace (hbefore : '\x7b' ∉ before) :
    (before ++ '\x7b' :: tail).dropWhile (· != '\x7b') = '\x7b' :: tail := by
  have hmarks : ∀ c ∈ before, (c != '\x7b') = true :=
    fun c hc => bne_iff_ne.mpr fun heq => hbefore (heq ▸ hc)
  rw [List.dropWhile_append_of_pos hmarks]
  rfl

/-- A reply with an object at its first brace has the texts of this object. -/
theorem descriptionsIn_of_readFront (hreply : removeFences reply.toList = before ++ '\x7b' :: tail)
    (hbefore : '\x7b' ∉ before) {value : Json} {rest : List Char}
    (h : Json.readFront ('\x7b' :: tail) = .ok (value, rest)) :
    descriptionsIn reply = pure (.ok (textsOf value)) := by
  rw [descriptionsIn, hreply, dropWhile_brace hbefore]
  simp only [readObject_eq_some_iff.mpr ⟨rest, h⟩]

/-- A reply with descriptions has an object at its first brace. -/
theorem exists_readFront_of_descriptionsIn
    (hreply : removeFences reply.toList = before ++ '\x7b' :: tail) (hbefore : '\x7b' ∉ before)
    {found : Descriptions} (h : (descriptionsIn reply).value = .ok found) (hne : found ≠ []) :
    ∃ result, Json.readFront ('\x7b' :: tail) = .ok result := by
  rw [descriptionsIn, hreply, dropWhile_brace hbefore] at h
  dsimp only at h
  split at h
  · cases h
  · next value hread =>
    obtain ⟨rest, hfront⟩ := readObject_eq_some_iff.mp hread
    exact ⟨_, hfront⟩
  · obtain rfl := Except.ok.inj h
    exact absurd rfl hne

end

/-- What is read from a reply is decided at its first brace. If no value can be read there, then
none is either from the part up to the last closing brace. If one can be read, it is the shortest
piece from the brace on that is a JSON object. So there are descriptions only if the first attempt
succeeds; they are the texts of this shortest object, without a notice; and every other reply that
has the same object at its first brace gives the same, whatever follows there. -/
theorem descriptionsIn_decided_at_front (before tail : List Char) (hbefore : '\x7b' ∉ before) :
    ((∀ result, Json.readFront ('\x7b' :: tail) ≠ .ok result) →
      ∀ value, Json.parse (String.ofList (upToBrace ('\x7b' :: tail))) ≠ .ok value) ∧
    (∀ inside after, '\x7b' :: tail = inside ++ '\x7d' :: after → '\x7d' ∉ after →
      upToBrace ('\x7b' :: tail) = inside ++ ['\x7d']) ∧
    (∀ value rest, Json.readFront ('\x7b' :: tail) = .ok (value, rest) ↔
      ∃ object fields, '\x7b' :: tail = object ++ rest ∧ value = .obj fields ∧
        Json.ShortestObject ('\x7b' :: tail) object fields) ∧
    ∀ reply, removeFences reply.toList = before ++ '\x7b' :: tail →
      (∀ found, (descriptionsIn reply).value = .ok found → found ≠ [] →
        ∃ result, Json.readFront ('\x7b' :: tail) = .ok result) ∧
      ∀ object fields, Json.ShortestObject ('\x7b' :: tail) object fields →
        descriptionsIn reply = pure (.ok (textsOf (.obj fields))) ∧
        ∀ reply' before' after, '\x7b' ∉ before' →
          removeFences reply'.toList = before' ++ (object ++ after) →
          descriptionsIn reply' = descriptionsIn reply := by
  refine ⟨fun hnone value hparse => ?_, fun inside after hcs hafter => ?_,
    fun value rest => Json.readFront_eq_ok_iff,
    fun reply hreply => ⟨fun found hfound hne => ?_, fun object fields hobject => ?_⟩⟩
  · obtain ⟨rest, hread⟩ := Json.exists_readFront_of_parse (upToBrace_begins _) hparse
    exact hnone _ hread
  · rw [hcs]
    exact upToBrace_append hafter
  · exact exists_readFront_of_descriptionsIn hreply hbefore hfound hne
  · obtain ⟨hbegins, hown⟩ := Json.shortestObject_iff.mp hobject
    obtain ⟨rest, hrest⟩ := hbegins
    have hfront := Json.readFront_eq_ok_iff.mpr ⟨object, fields, hrest.symm, rfl, hobject⟩
    have hdescribed := descriptionsIn_of_readFront hreply hbefore hfront
    refine ⟨hdescribed, fun reply' before' after hbefore' hreply' => ?_⟩
    rw [hdescribed]
    -- the same object stands at the first brace of the other reply
    obtain ⟨c, inside, rfl, -⟩ := hown.exists_start
    obtain ⟨rfl, -⟩ := List.cons.inj hrest
    exact descriptionsIn_of_readFront hreply' hbefore'
      (hown.readFront_eq fun hnumber => hnumber.elim)

/-- The object decides, and the closing brace behind it does not matter. -/
theorem descriptionsIn_decided_at_front_before_brace :
    '\x7b' ∉ "so: ".toList ∧
      descriptionsIn "so: \x7b\"a\": \"b\"\x7d or \x7d" = pure (.ok [("a", "b")]) := by
  have hbefore : '\x7b' ∉ "so: ".toList := by decide
  obtain ⟨-, -, hfront, hreply⟩ := descriptionsIn_decided_at_front "so: ".toList
    "\"a\": \"b\"\x7d or \x7d".toList hbefore
  have hread : Json.readFront ('\x7b' :: "\"a\": \"b\"\x7d or \x7d".toList) =
      .ok (.obj [("a", .str "b")], " or \x7d".toList) := by cbv
  obtain ⟨object, fields, -, hfields, hobject⟩ := (hfront _ _).mp hread
  obtain rfl := Json.obj.inj hfields
  exact ⟨hbefore, ((hreply _ (by cbv)).2 object _ hobject).1⟩

end Describe

end PluginAtlas
