/-
This file says what the cursor has read: the bytes that it took are those that spell the value. A
loop over such reads runs through the items that the bytes spell.
-/

import Bagel.Library.LengthPrefixed
import Bagel.Library.Transaction
import Bagel.Wire

namespace Bagel

namespace Cursor

open LengthPrefixed (framed)

/-! ### Fields -/

theorem take_eq_ok_iff {length : Nat} {remaining bytes rest : List UInt8} :
    take length remaining = .ok (bytes, rest) ↔
      bytes.length = length ∧ remaining = bytes ++ rest := by
  refine ⟨length_of_take, ?_⟩
  rintro ⟨rfl, rfl⟩
  unfold take
  rw [if_pos (by rw [List.length_append]; omega), List.take_left, List.drop_left]

theorem byte_eq_ok_iff {remaining rest : List UInt8} {value : UInt8} :
    byte remaining = .ok (value, rest) ↔ remaining = value :: rest := by
  unfold byte
  rw [Transaction.bind_eq_ok_iff]
  constructor
  · rintro ⟨⟨bytes, left⟩, taken, same⟩
    cases same
    obtain ⟨count, rfl⟩ := take_eq_ok_iff.mp taken
    obtain ⟨one, rfl⟩ := List.length_eq_one_iff.mp count
    rfl
  · rintro rfl
    exact ⟨_, take_eq_ok_iff.mpr ⟨List.length_singleton, rfl⟩, rfl⟩

/-- Two bytes spell a number of sixteen bits. -/
theorem big_ofNat_number {bytes : List UInt8} (count : bytes.length = 2) :
    Bytes.big 2 (UInt16.ofNat (Bytes.number bytes)).toNat = bytes := by
  have small := Bytes.number_lt bytes
  have whole := Bytes.big_number bytes
  rw [count] at small whole
  rw [UInt16.toNat_ofNat_of_lt' small, whole]

theorem ofNat_number_big (value : UInt16) :
    UInt16.ofNat (Bytes.number (Bytes.big 2 value.toNat)) = value := by
  rw [Bytes.number_big value.toNat_lt, UInt16.ofNat_toNat]

theorem u16_eq_ok_iff {remaining rest : List UInt8} {value : UInt16} :
    u16 remaining = .ok (value, rest) ↔ remaining = Bytes.big 2 value.toNat ++ rest := by
  unfold u16
  rw [Transaction.bind_eq_ok_iff]
  constructor
  · rintro ⟨⟨bytes, left⟩, taken, same⟩
    cases same
    obtain ⟨count, rfl⟩ := take_eq_ok_iff.mp taken
    rw [big_ofNat_number count]
  · rintro rfl
    refine ⟨_, take_eq_ok_iff.mpr ⟨Bytes.length_big 2 value.toNat, rfl⟩, ?_⟩
    exact congrArg (fun value => Except.ok (value, rest)) (ofNat_number_big value)

theorem vectorU8_eq_ok_iff {remaining part rest : List UInt8} :
    vectorU8 remaining = .ok (part, rest) ↔
      part.length < 2 ^ 8 ∧ remaining = framed 1 part ++ rest := by
  unfold vectorU8
  rw [Transaction.bind_eq_ok_iff]
  constructor
  · rintro ⟨⟨length, left⟩, first, taken⟩
    obtain ⟨count, rfl⟩ := take_eq_ok_iff.mp taken
    have spelled := byte_eq_ok_iff.mp first
    refine ⟨count ▸ length.toNat_lt, ?_⟩
    rw [spelled, framed, count]
    change length :: (part ++ rest) = UInt8.ofNat length.toNat :: (part ++ rest)
    rw [UInt8.ofNat_toNat]
  · rintro ⟨short, rfl⟩
    refine ⟨(UInt8.ofNat part.length, part ++ rest), byte_eq_ok_iff.mpr rfl, ?_⟩
    exact take_eq_ok_iff.mpr ⟨(UInt8.toNat_ofNat_of_lt' short).symm, rfl⟩

theorem vectorU16_eq_ok_iff {remaining part rest : List UInt8} :
    vectorU16 remaining = .ok (part, rest) ↔
      part.length < 2 ^ 16 ∧ remaining = framed 2 part ++ rest := by
  unfold vectorU16
  rw [Transaction.bind_eq_ok_iff]
  constructor
  · rintro ⟨⟨length, left⟩, first, taken⟩
    obtain ⟨count, rfl⟩ := take_eq_ok_iff.mp taken
    have spelled := u16_eq_ok_iff.mp first
    refine ⟨count ▸ length.toNat_lt, ?_⟩
    rw [spelled, framed, count, List.append_assoc]
  · rintro ⟨short, rfl⟩
    have length : (UInt16.ofNat part.length).toNat = part.length :=
      UInt16.toNat_ofNat_of_lt' short
    refine ⟨(UInt16.ofNat part.length, part ++ rest), u16_eq_ok_iff.mpr ?_, ?_⟩
    · rw [length, framed, List.append_assoc]
    · exact take_eq_ok_iff.mpr ⟨length.symm, rfl⟩

theorem finish_eq_ok_iff {remaining : List UInt8} {done : Unit} :
    finish remaining = .ok done ↔ remaining = [] := by
  cases remaining with
  | nil => exact ⟨fun _ => rfl, fun _ => rfl⟩
  | cons byte rest => exact ⟨fun same => (by cases same), fun same => (by cases same)⟩

/-! ### Loops over items -/

section Items

variable {State Item : Type} {pass : State → Cursor State} {encode : Item → List UInt8}
  {act : State → Item → Except CaptureError State}

/-- Passes that each take an item off the front and act on it run through the items. -/
theorem loop_eq_ok_iff (some : ∀ item, encode item ≠ [])
    (takes : ∀ state next remaining rest, pass state remaining = .ok (next, rest) ↔
      ∃ item, remaining = encode item ++ rest ∧ act state item = .ok next)
    {passes : Nat} {state last : State} {remaining : List UInt8}
    (enough : remaining.length ≤ passes) :
    loop pass passes state remaining = .ok last ↔
      ∃ items : List Item,
        remaining = items.flatMap encode ∧ items.foldlM act state = .ok last := by
  induction passes generalizing state remaining with
  | zero =>
    obtain rfl := List.eq_nil_of_length_eq_zero (Nat.le_zero.mp enough)
    constructor
    · rintro ⟨⟩
      exact ⟨[], rfl, rfl⟩
    · rintro ⟨items, nothing, folded⟩
      cases items with
      | nil => exact folded
      | cons item items => exact absurd (List.append_eq_nil_iff.mp nothing.symm).1 (some item)
  | succ passes inductionHypothesis =>
    cases remaining with
    | nil =>
      constructor
      · rintro ⟨⟩
        exact ⟨[], rfl, rfl⟩
      · rintro ⟨items, nothing, folded⟩
        cases items with
        | nil => exact folded
        | cons item items => exact absurd (List.append_eq_nil_iff.mp nothing.symm).1 (some item)
    | cons byte others =>
      rw [loop, Transaction.bind_eq_ok_iff]
      have fewer : ∀ {item : Item} {rest : List UInt8}, byte :: others = encode item ++ rest →
          rest.length ≤ passes := by
        intro item rest parts
        have count := congrArg List.length parts
        have least := List.length_pos_iff.mpr (some item)
        rw [List.length_append] at count
        omega
      constructor
      · rintro ⟨⟨next, rest⟩, passed, looped⟩
        obtain ⟨item, parts, acted⟩ := (takes _ _ _ _).mp passed
        obtain ⟨items, rfl, folded⟩ := (inductionHypothesis (fewer parts)).mp looped
        exact ⟨item :: items, parts, Transaction.bind_eq_ok_iff.mpr ⟨next, acted, folded⟩⟩
      · rintro ⟨items, spelled, folded⟩
        cases items with
        | nil => cases spelled
        | cons item items =>
          obtain ⟨next, acted, folded⟩ := Transaction.bind_eq_ok_iff.mp folded
          refine ⟨(next, items.flatMap encode), (takes _ _ _ _).mpr ⟨item, spelled, acted⟩, ?_⟩
          exact (inductionHypothesis (fewer spelled)).mpr ⟨items, rfl, folded⟩

theorem whileSome_eq_ok_iff (some : ∀ item, encode item ≠ [])
    (takes : ∀ state next remaining rest, pass state remaining = .ok (next, rest) ↔
      ∃ item, remaining = encode item ++ rest ∧ act state item = .ok next)
    {state last : State} {remaining : List UInt8} :
    whileSome pass state remaining = .ok last ↔
      ∃ items : List Item,
        remaining = items.flatMap encode ∧ items.foldlM act state = .ok last :=
  loop_eq_ok_iff some takes (Nat.le_refl _)

/-- The invariant rule: what every pass preserves holds at the end of a loop. -/
theorem loop_preserves {Holds : State → Prop}
    (preserves : ∀ state next remaining rest, Holds state →
      pass state remaining = .ok (next, rest) → Holds next)
    {passes : Nat} {state last : State} {remaining : List UInt8} (before : Holds state)
    (looped : loop pass passes state remaining = .ok last) : Holds last := by
  induction passes generalizing state remaining with
  | zero =>
    cases remaining with
    | nil =>
      cases looped
      exact before
    | cons byte others => cases looped
  | succ passes inductionHypothesis =>
    cases remaining with
    | nil =>
      cases looped
      exact before
    | cons byte others =>
      obtain ⟨⟨next, rest⟩, passed, looped⟩ := Transaction.bind_eq_ok_iff.mp looped
      exact inductionHypothesis (preserves _ _ _ _ before passed) looped

end Items

end Cursor

end Bagel
