import PluginAtlas.Proofs.Segments
import PluginAtlas.Proofs.Utf8RoundTrip

/-!
# The lines of a text and of its bytes

A text is divided at its line feeds, and so are its bytes: no byte of another character is a
line feed, so the lines of the bytes are the bytes of the lines. Where a text is put together
from two parts, the last line of the first and the first line of the second become one.

## Main results

* `exists_splitOn_append`: the parts of a list that is put together.
* `splitOn_encode_eq_map`: the bytes of a text, divided at line feeds.
-/

namespace PluginAtlas.Text

/-! ### Dividing lists -/

section Lists

variable {α : Type} [BEq α] [LawfulBEq α]

theorem splitOn_cons_self (a : α) (xs : List α) : (a :: xs).splitOn a = [] :: xs.splitOn a := by
  rw [List.splitOn_cons_eq_if_modifyHead, if_pos (beq_self_eq_true a)]

theorem splitOn_cons_of_ne {a x : α} (h : x ≠ a) {xs first : List α} {rest : List (List α)}
    (hxs : xs.splitOn a = first :: rest) : (x :: xs).splitOn a = (x :: first) :: rest := by
  rw [List.splitOn_cons_eq_if_modifyHead, if_neg (by simpa using h), hxs]
  rfl

/-- The parts of a list: whole ones, which end with the mark, and one that is still open. What
follows goes on with the open part. -/
theorem exists_splitOn_append (a : α) (xs : List α) :
    ∃ front last, xs.splitOn a = front ++ [last] ∧ xs = front.flatMap (· ++ [a]) ++ last ∧
      front.length = xs.count a ∧
      ∀ ys first rest, ys.splitOn a = first :: rest →
        (xs ++ ys).splitOn a = front ++ (last ++ first) :: rest := by
  induction xs with
  | nil => exact ⟨[], [], rfl, rfl, rfl, fun ys first rest h => h⟩
  | cons x xs ih =>
    obtain ⟨front, last, hsplit, hparts, hcount, happend⟩ := ih
    by_cases hx : x = a
    · subst hx
      refine ⟨[] :: front, last, ?_, ?_, ?_, fun ys first rest h => ?_⟩
      · rw [splitOn_cons_self, hsplit]
        rfl
      · simpa using hparts
      · simpa using hcount
      · rw [List.cons_append, splitOn_cons_self, happend ys first rest h]
        rfl
    · -- The element goes in front of the first part, which may be the open one.
      cases front with
      | nil =>
        refine ⟨[], x :: last, splitOn_cons_of_ne hx hsplit, ?_, ?_, fun ys first rest h => ?_⟩
        · simpa using hparts
        · simpa [hx] using hcount
        · exact splitOn_cons_of_ne hx (happend ys first rest h)
      | cons piece front =>
        refine ⟨(x :: piece) :: front, last, splitOn_cons_of_ne hx hsplit, ?_, ?_,
          fun ys first rest h => ?_⟩
        · simpa using hparts
        · simpa [hx] using hcount
        · exact splitOn_cons_of_ne hx (happend ys first rest h)

/-- A list without the mark only adds to the first part of what follows. -/
theorem splitOn_append_of_notMem {a : α} {xs ys first : List α} {rest : List (List α)}
    (h : a ∉ xs) (hys : ys.splitOn a = first :: rest) :
    (xs ++ ys).splitOn a = (xs ++ first) :: rest := by
  obtain ⟨front, last, hsplit, -, -, happend⟩ := exists_splitOn_append a xs
  rw [List.splitOn_eq_singleton h] at hsplit
  rcases List.append_eq_singleton_iff.mp hsplit.symm with ⟨rfl, hlast⟩ | ⟨-, hlast⟩
  · obtain rfl := (List.cons.inj hlast).1
    exact happend ys first rest hys
  · cases hlast

end Lists

/-! ### The lines of a text -/

theorem encodeChar_newline : encodeChar '\n' = [10] := rfl

theorem newline_notMem_encodeChar {c : Char} (h : c ≠ '\n') : 10 ∉ encodeChar c :=
  notMem_encodeChar (a := '\n') (by decide) h

/-- The bytes of a text, divided at line feeds, are the bytes of its lines. -/
theorem splitOn_encode (cs : List Char) :
    (cs.flatMap encodeChar).splitOn 10 =
      (cs.splitOn '\n').map fun line => line.flatMap encodeChar := by
  induction cs with
  | nil => rfl
  | cons c cs ih =>
    obtain ⟨first, rest, hsplit⟩ := List.exists_cons_of_ne_nil (List.splitOn_ne_nil '\n' cs)
    rw [List.flatMap_cons]
    by_cases hc : c = '\n'
    · subst hc
      rw [encodeChar_newline, List.singleton_append, splitOn_cons_self, splitOn_cons_self, ih]
      rfl
    · rw [hsplit] at ih
      rw [splitOn_append_of_notMem (newline_notMem_encodeChar hc) ih, splitOn_cons_of_ne hc hsplit]
      rfl

/-- The bytes of a text, divided at line feeds, by lines. -/
theorem splitOn_encode_eq_map (s : String) :
    (encode s).splitOn 10 = (split '\n' s).map encode := by
  rw [encode, splitOn_encode, split, List.map_map]
  simp [Function.comp_def, encode_ofList]

end PluginAtlas.Text
