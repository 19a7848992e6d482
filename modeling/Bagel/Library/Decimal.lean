/-
This file collects what is needed of numerals. Decimal ones are digits only and are read
back to the number they were written for. Numerals of any base up to sixteen are different
for different numbers, and hold no character but their digits.
-/

import Mathlib.Data.Nat.Notation

namespace Decimal

theorem toList_toString (number : Nat) : (toString number).toList = Nat.toDigits 10 number :=
  Nat.toList_repr

theorem isDigit_of_mem {number : Nat} {char : Char} (member : char ∈ (toString number).toList) :
    char.isDigit := by
  rw [toList_toString] at member
  exact Nat.isDigit_of_mem_toDigits (by decide) (by decide) member

theorem toString_ne_nil (number : Nat) : (toString number).toList ≠ [] := by
  rw [toList_toString]
  exact Nat.toDigits_ne_nil

/-- The digits of a number are read back to it. -/
theorem foldl_toString (number : Nat) :
    (toString number).toList.foldl (fun value digit => 10 * value + (digit.toNat - '0'.toNat)) 0 =
      number := by
  rw [toList_toString, ← Nat.ofDigitChars_eq_foldl]
  exact Nat.ofDigitChars_toDigits (by decide) (by decide)

theorem toString_inj {first second : Nat} (same : toString first = toString second) :
    first = second := by
  have values := foldl_toString first
  rw [same, foldl_toString] at values
  exact values.symm

/-! ### Other bases -/

theorem digitChar_inj {first second : Nat} (small : first < 16) (small' : second < 16)
    (same : first.digitChar = second.digitChar) : first = second := by
  have all : ∀ one other : Fin 16, one.val.digitChar = other.val.digitChar → one = other := by
    decide
  exact congrArg Fin.val (all ⟨first, small⟩ ⟨second, small'⟩ same)

/-- Numerals are different for different numbers. -/
theorem toDigits_inj {base first second : Nat} (large : 1 < base) (small : base ≤ 16)
    (same : Nat.toDigits base first = Nat.toDigits base second) : first = second := by
  induction first using Nat.strongRecOn generalizing second with
  | ind first inductionHypothesis =>
    rw [Nat.toDigits_eq_if large (n := first), Nat.toDigits_eq_if large (n := second)] at same
    split at same <;> split at same
    · next below below' =>
      exact digitChar_inj (Nat.lt_of_lt_of_le below small) (Nat.lt_of_lt_of_le below' small)
        (List.cons.inj same).1
    -- A numeral of one digit is not one of several.
    · have counts := congrArg List.length same
      rw [List.length_append, List.length_singleton, List.length_singleton] at counts
      have some := Nat.length_toDigits_pos (b := base) (n := second / base)
      omega
    · have counts := congrArg List.length same
      rw [List.length_append, List.length_singleton, List.length_singleton] at counts
      have some := Nat.length_toDigits_pos (b := base) (n := first / base)
      omega
    · next above above' =>
      obtain ⟨front, last⟩ := List.append_inj' same rfl
      have positive : 0 < first := by omega
      have quotients : first / base = second / base :=
        inductionHypothesis _ (Nat.div_lt_self positive large) front
      have bounded (number : Nat) : number % base < 16 :=
        Nat.lt_of_lt_of_le (Nat.mod_lt _ (by omega)) small
      have rests : first % base = second % base :=
        digitChar_inj (bounded first) (bounded second) (List.cons.inj last).1
      rw [← Nat.div_add_mod first base, ← Nat.div_add_mod second base, quotients, rests]

/-- A numeral is made of digits. -/
theorem exists_of_mem_toDigits {base number : Nat} {char : Char} (large : 1 < base)
    (member : char ∈ Nat.toDigits base number) : ∃ digit < base, char = digit.digitChar := by
  induction number using Nat.strongRecOn with
  | ind number inductionHypothesis =>
    rw [Nat.toDigits_eq_if large] at member
    split at member
    · next below => exact ⟨number, below, List.mem_singleton.mp member⟩
    · rcases List.mem_append.mp member with front | last
      · exact inductionHypothesis _ (Nat.div_lt_self (by omega) large) front
      · exact ⟨number % base, Nat.mod_lt _ (by omega), List.mem_singleton.mp last⟩

end Decimal
