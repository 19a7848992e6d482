/-
This file develops parts of bytes with their length in front. Such parts are taken off the front of
what follows in one way only, and so are sequences of whatever is written in such a way.
-/

import Bagel.Library.Bytes

namespace LengthPrefixed

/-- A part with its length in front, which has so many bytes. -/
def framed (width : Nat) (part : List UInt8) : List UInt8 := Bytes.big width part.length ++ part

theorem framed_ne_nil {width : Nat} (some : 0 < width) (part : List UInt8) :
    framed width part ≠ [] := by
  intro none
  have count := congrArg List.length none
  rw [framed, List.length_append, Bytes.length_big, List.length_nil] at count
  omega

/-- The part alone is behind its length. -/
theorem drop_framed (width : Nat) (part : List UInt8) : (framed width part).drop width = part :=
  List.drop_left' (Bytes.length_big width part.length)

theorem framed_inj {width : Nat} {first second : List UInt8}
    (same : framed width first = framed width second) : first = second := by
  have parts := congrArg (List.drop width) same
  rw [drop_framed, drop_framed] at parts
  exact parts

/-- The length tells where a part ends. -/
theorem framed_append_inj {width : Nat} {first second rest other : List UInt8}
    (fits : first.length < 256 ^ width) (fits' : second.length < 256 ^ width)
    (same : framed width first ++ rest = framed width second ++ other) :
    first = second ∧ rest = other := by
  rw [framed, framed, List.append_assoc, List.append_assoc] at same
  obtain ⟨lengths, parts⟩ :=
    List.append_inj same (by rw [Bytes.length_big, Bytes.length_big])
  exact List.append_inj parts (Bytes.big_inj fits fits' lengths)

/-- Items that are told apart at the front of whatever follows are told apart in a row. -/
theorem flatMap_inj {Item Symbol : Type} {encode : Item → List Symbol}
    (some : ∀ item, encode item ≠ [])
    (apart : ∀ {item other rest tail}, encode item ++ rest = encode other ++ tail →
      item = other ∧ rest = tail)
    {items others : List Item} (same : items.flatMap encode = others.flatMap encode) :
    items = others := by
  induction items generalizing others with
  | nil =>
    cases others with
    | nil => rfl
    | cons other others =>
      rw [List.flatMap_nil, List.flatMap_cons] at same
      exact absurd (List.append_eq_nil_iff.mp same.symm).1 (some other)
  | cons item items inductionHypothesis =>
    cases others with
    | nil =>
      rw [List.flatMap_nil, List.flatMap_cons] at same
      exact absurd (List.append_eq_nil_iff.mp same).1 (some item)
    | cons other others =>
      rw [List.flatMap_cons, List.flatMap_cons] at same
      obtain ⟨first, rest⟩ := apart same
      rw [first, inductionHypothesis rest]

end LengthPrefixed
