import PluginAtlas.Php.Literal
import Mathlib.Data.List.Basic

/-!
# Expressions by their shape

The readers of literals, constants and arrays take any node and say nothing of one that
they are not meant for. Here the expressions that they are meant for are described by what
stands in the tree, inside any number of parentheses, and every reader is shown to
understand them.

## Main definitions

* `Tree.Encloses`: an expression in any number of parentheses.
* `IsText`, `IsConstant`, `IsClassName`: text literals, constants of the language, and
  class names such as `Foo::class`.
* `IsPair`: array literals of two elements.

## Main results

* `Tree.Encloses.unwrap?_eq`: parentheses are looked through.
* `IsText.stringValue?_eq`, `IsConstant.isMagicConstant_eq`, `IsClassName.classReference?_eq`,
  `IsPair.arrayElements_eq`: what the readers make of these expressions.
-/

namespace PluginAtlas

/-! ### Parentheses -/

/-- One expression stands in any number of parentheses around another. In parentheses the
first node that the grammar names counts. -/
inductive Tree.Encloses : Tree → Tree → Prop
  | self (t : Tree) : Encloses t t
  | parentheses {outer inside inner : Tree} (hkind : outer.kind = "parenthesized_expression")
      (hfirst : outer.namedChildren.head? = some inside) (h : Encloses inside inner) :
      Encloses outer inner

namespace Php

theorem unwrap?_eq_self {t : Tree} (h : t.kind ≠ "parenthesized_expression") :
    t.unwrap? = some t := by
  cases t
  exact if_neg h

theorem unwrapFirst?_eq (children : List Tree) :
    Tree.unwrapFirst? children = (children.filter Tree.isNamed).head?.bind Tree.unwrap? := by
  induction children with
  | nil => rfl
  | cons t ts ih =>
    rw [Tree.unwrapFirst?]
    cases hnamed : t.isNamed with
    | true => simp [hnamed]
    | false => simp [hnamed, ih]

/-- A pair of parentheses is unwrapped as what stands first in it. -/
theorem unwrap?_parentheses {t : Tree} (h : t.kind = "parenthesized_expression") :
    t.unwrap? = t.namedChildren.head?.bind Tree.unwrap? := by
  obtain ⟨kind, named, start, stop, field, children⟩ := t
  have hkind : kind = "parenthesized_expression" := h
  rw [Tree.unwrap?, if_pos hkind, unwrapFirst?_eq]
  rfl

end Php

/-- Parentheses are looked through. -/
theorem Tree.Encloses.unwrap?_eq {outer inner : Tree} (h : outer.Encloses inner) :
    outer.unwrap? = inner.unwrap? := by
  induction h with
  | self t => rfl
  | parentheses hkind hfirst _ ih =>
    rw [Php.unwrap?_parentheses hkind, hfirst, Option.bind_some, ih]

theorem Tree.Encloses.unwrap?_eq_some {outer inner : Tree} (h : outer.Encloses inner)
    (hkind : inner.kind ≠ "parenthesized_expression") : outer.unwrap? = some inner :=
  h.unwrap?_eq.trans (Php.unwrap?_eq_self hkind)

namespace Php

variable {f : SourceFile} {t : Tree}

/-! ### Literals and names -/

/-- A text literal with a value. -/
def IsText (f : SourceFile) (t : Tree) (value : String) : Prop :=
  ∃ literal, t.Encloses literal ∧ (literal.kind = "string" ∨ literal.kind = "encapsed_string") ∧
    stringValue? f (some literal) = some value

/-- A constant of the language, written in any letter case. -/
def IsConstant (f : SourceFile) (t : Tree) (word : String) : Prop :=
  ∃ constant, t.Encloses constant ∧ constant.kind = "name" ∧
    Text.upper (f.textOf constant) = word

/-- A class name such as `Foo::class`, with what is written in front of the colons. -/
def IsClassName (f : SourceFile) (t : Tree) (written : String) : Prop :=
  ∃ access scope constant, t.Encloses access ∧
    access.kind = "class_constant_access_expression" ∧ ':' ∈ (f.textOf access).toList ∧
    access.namedChildren = [scope, constant] ∧ Text.lower (f.textOf constant) = "class" ∧
    f.textOf scope = written

/-- A text literal has the value that it has inside its parentheses. -/
theorem stringValue?_of_encloses {inner : Tree} (h : t.Encloses inner) :
    stringValue? f (some t) = stringValue? f (some inner) := by
  simp only [stringValue?, Option.bind_eq_bind, Option.bind_some, h.unwrap?_eq]

theorem IsText.stringValue?_eq {value : String} (h : IsText f t value) :
    stringValue? f (some t) = some value := by
  obtain ⟨literal, hencloses, -, hvalue⟩ := h
  rw [stringValue?_of_encloses hencloses, hvalue]

/-- Inside the parentheses of a text there is a literal. -/
theorem IsText.exists_literal {value : String} (h : IsText f t value) :
    ∃ literal, t.unwrap? = some literal ∧
      (literal.kind = "string" ∨ literal.kind = "encapsed_string") ∧
      stringValue? f (some literal) = some value := by
  obtain ⟨literal, hencloses, hkind, hvalue⟩ := h
  refine ⟨literal, hencloses.unwrap?_eq_some ?_, hkind, hvalue⟩
  rcases hkind with hkind | hkind <;> simp [hkind]

/-- Only literals have a text value. -/
theorem stringValue?_eq_none (hstring : t.kind ≠ "string") (hencapsed : t.kind ≠ "encapsed_string")
    (hplain : t.kind ≠ "parenthesized_expression") : stringValue? f (some t) = none := by
  simp [stringValue?, unwrap?_eq_self hplain, hstring, hencapsed]

theorem IsConstant.isMagicConstant_eq {word : String} (h : IsConstant f t word) :
    isMagicConstant f (some t) word = true := by
  obtain ⟨constant, hencloses, hkind, hword⟩ := h
  have hunwrap := hencloses.unwrap?_eq_some (by simp [hkind])
  simp [isMagicConstant, hunwrap, hword]

/-- No constant of the language is written with a colon. -/
theorem isMagicConstant_of_colon (hplain : t.kind ≠ "parenthesized_expression")
    (hcolon : ':' ∈ (f.textOf t).toList) {word : String} (hword : ':' ∉ word.toList) :
    isMagicConstant f (some t) word = false := by
  have hupper : ':' ∈ (Text.upper (f.textOf t)).toList := by
    rw [Text.upper, String.toList_ofList]
    exact List.mem_flatMap.mpr ⟨':', hcolon, by decide⟩
  have hne : Text.upper (f.textOf t) ≠ word := fun heq => hword (heq ▸ hupper)
  simp [isMagicConstant, unwrap?_eq_self hplain, hne]

theorem IsClassName.classReference?_eq {written : String} (h : IsClassName f t written) :
    classReference? f (some t) = some written := by
  obtain ⟨access, scope, constant, hencloses, hkind, -, hchildren, hclass, hwritten⟩ := h
  have hunwrap := hencloses.unwrap?_eq_some (by simp [hkind])
  simp [classReference?, hunwrap, hkind, hchildren, hclass, hwritten]

/-! ### Pairs -/

/-- An element of an array literal that has a value, with or without a key. -/
def IsElement (element value : Tree) : Prop :=
  element.parts = [value] ∨ ∃ key, element.parts = [key, value]

/-- An array literal of two elements with the given values. -/
def IsPair (t first second : Tree) : Prop :=
  ∃ array element other, t.Encloses array ∧ array.kind = "array_creation_expression" ∧
    (array.namedChildren.filter fun child => child.kind = "array_element_initializer") =
      [element, other] ∧
    IsElement element first ∧ IsElement other second

theorem IsElement.arrayElement?_eq {element value : Tree} (h : IsElement element value)
    (hkind : element.kind = "array_element_initializer") :
    ∃ key, arrayElement? element = some (key, value) := by
  rcases h with hparts | ⟨key, hparts⟩
  · exact ⟨none, by simp [arrayElement?, hkind, hparts]⟩
  · exact ⟨some key, by simp [arrayElement?, hkind, hparts]⟩

/-- Nodes that are no elements are passed over. -/
theorem filterMap_arrayElement? (children : List Tree) :
    children.filterMap arrayElement? =
      (children.filter fun child => child.kind = "array_element_initializer").filterMap
        arrayElement? := by
  rw [List.filterMap_filter]
  refine List.filterMap_congr fun child _ => ?_
  by_cases hkind : child.kind = "array_element_initializer"
  · simp [hkind]
  · simp [hkind, arrayElement?]

theorem IsPair.arrayElements_eq {first second : Tree} (h : IsPair t first second) :
    ∃ key key', arrayElements (some t) = [(key, first), (key', second)] := by
  obtain ⟨array, element, other, hencloses, hkind, helements, hfirst, hsecond⟩ := h
  have hunwrap := hencloses.unwrap?_eq_some (by simp [hkind])
  have hmem : ∀ child ∈ [element, other], child.kind = "array_element_initializer" := by
    intro child hchild
    rw [← helements] at hchild
    simpa using (List.mem_filter.mp hchild).2
  obtain ⟨key, hkey⟩ := hfirst.arrayElement?_eq (hmem element (by simp))
  obtain ⟨key', hkey'⟩ := hsecond.arrayElement?_eq (hmem other (by simp))
  refine ⟨key, key', ?_⟩
  simp only [arrayElements, Option.bind_some, hunwrap, if_pos hkind]
  rw [filterMap_arrayElement?, helements]
  simp [hkey, hkey']

/-- A pair is no text. -/
theorem IsPair.stringValue?_eq {first second : Tree} (h : IsPair t first second) :
    stringValue? f (some t) = none := by
  obtain ⟨array, -, -, hencloses, hkind, -⟩ := h
  rw [stringValue?_of_encloses hencloses]
  exact stringValue?_eq_none (by simp [hkind]) (by simp [hkind]) (by simp [hkind])

end Php

end PluginAtlas
