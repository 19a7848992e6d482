/-
This file develops percent-encoded bytes: bytes that may not stand for themselves are written
as a percent sign and two hexadecimal digits. Decoding leaves everything that is no such
triplet as it is, so it undoes the encoding, and it changes a sequence exactly when there is
a triplet in it. Then there are fewer ASCII bytes afterwards.
-/

import Bagel.Library.Bytes
import Mathlib.Data.List.Count

namespace Percent

/-! ### Encoding -/

/-- A hexadecimal digit in upper case. -/
def digit (value : UInt8) : UInt8 := if value < 10 then 48 + value else 55 + value

/-- A byte that may not stand for itself. -/
def triplet (byte : UInt8) : List UInt8 := [37, digit (byte >>> 4), digit (byte &&& 15)]

/-- Bytes of which some stand for themselves. -/
def encode (keep : UInt8 → Bool) (bytes : List UInt8) : List UInt8 :=
  bytes.flatMap fun byte => if keep byte then [byte] else triplet byte

/-! ### Decoding -/

/-- The value of a hexadecimal digit in either case. -/
def nibble (byte : UInt8) : Option UInt8 :=
  if 48 ≤ byte ∧ byte ≤ 57 then some (byte - 48)
  else if 97 ≤ byte ∧ byte ≤ 102 then some (byte - 97 + 10)
  else if 65 ≤ byte ∧ byte ≤ 70 then some (byte - 65 + 10)
  else none

/-- The byte that is written by a triplet at the start. -/
def escaped (byte : UInt8) : List UInt8 → Option UInt8
  | high :: low :: _ =>
    if byte = 37 then
      match nibble high, nibble low with
      | some high, some low => some (high <<< 4 ||| low)
      | _, _ => none
    else none
  | _ => none

/-- Decode bytes, after skipping some. -/
def decodeFrom : Nat → List UInt8 → List UInt8
  | _, [] => []
  | skip + 1, _ :: rest => decodeFrom skip rest
  | 0, byte :: rest =>
    match escaped byte rest with
    | some value => value :: decodeFrom 2 rest
    | none => byte :: decodeFrom 0 rest

def decode (bytes : List UInt8) : List UInt8 := decodeFrom 0 bytes

theorem decodeFrom_eq_decode_drop (skip : Nat) (bytes : List UInt8) :
    decodeFrom skip bytes = decode (bytes.drop skip) := by
  induction bytes generalizing skip with
  | nil => cases skip <;> rfl
  | cons byte rest inductionHypothesis =>
    cases skip with
    | zero => rfl
    | succ skip => exact inductionHypothesis skip

theorem decode_cons_of_escaped {byte value : UInt8} {rest : List UInt8}
    (found : escaped byte rest = some value) :
    decode (byte :: rest) = value :: decode (rest.drop 2) := by
  rw [← decodeFrom_eq_decode_drop]
  unfold decode
  rw [decodeFrom, found]

theorem decode_cons_of_not_escaped {byte : UInt8} {rest : List UInt8}
    (plain : escaped byte rest = none) : decode (byte :: rest) = byte :: decode rest := by
  unfold decode
  rw [decodeFrom, plain]

theorem escaped_eq_some {byte value : UInt8} {rest : List UInt8}
    (found : escaped byte rest = some value) :
    byte = 37 ∧ ∃ high low later, rest = high :: low :: later ∧ (nibble high).isSome ∧
      (nibble low).isSome := by
  unfold escaped at found
  split at found
  · next high low later =>
    split at found
    · next sign =>
      split at found
      · next first second =>
        exact ⟨sign, high, low, later, rfl, by rw [first]; rfl, by rw [second]; rfl⟩
      · cases found
    · cases found
  · cases found

/-! ### Round trip -/

theorem escaped_triplet (byte : UInt8) (rest : List UInt8) :
    escaped 37 (digit (byte >>> 4) :: digit (byte &&& 15) :: rest) = some byte := by
  have alone : escaped 37 [digit (byte >>> 4), digit (byte &&& 15)] = some byte := by
    induction byte using Bytes.forall_of_values with
    | every value =>
      revert value
      decide +kernel
  exact alone

theorem decode_triplet_append (byte : UInt8) (rest : List UInt8) :
    decode (triplet byte ++ rest) = byte :: decode rest :=
  decode_cons_of_escaped (escaped_triplet byte rest)

/-- What was encoded is decoded, where no percent sign stands for itself. -/
theorem decode_encode {keep : UInt8 → Bool} (sign : keep 37 = false) (bytes : List UInt8) :
    decode (encode keep bytes) = bytes := by
  induction bytes with
  | nil => rfl
  | cons byte rest inductionHypothesis =>
    unfold encode at inductionHypothesis ⊢
    rw [List.flatMap_cons]
    split
    · next kept =>
      have plain : ∀ rest, escaped byte rest = none := by
        intro rest
        by_contra found
        obtain ⟨value, found⟩ := Option.ne_none_iff_exists'.mp found
        rw [(escaped_eq_some found).1, sign] at kept
        cases kept
      rw [List.singleton_append, decode_cons_of_not_escaped (plain _), inductionHypothesis]
    · rw [decode_triplet_append, inductionHypothesis]

theorem halves_lt (byte : UInt8) : byte >>> 4 < 16 ∧ byte &&& 15 < 16 := by
  induction byte using Bytes.forall_of_values with
  | every value =>
    revert value
    decide +kernel

/-- The bytes of encoded bytes stand for themselves, or are percent signs and digits. -/
theorem mem_encode {keep : UInt8 → Bool} {bytes : List UInt8} {byte : UInt8}
    (member : byte ∈ encode keep bytes) :
    keep byte = true ∨ byte = 37 ∨ ∃ value < 16, byte = digit value := by
  obtain ⟨source, -, inside⟩ := List.mem_flatMap.mp member
  split at inside
  · next kept =>
    rw [List.mem_singleton.mp inside]
    exact .inl kept
  · simp only [triplet, List.mem_cons, List.not_mem_nil, or_false] at inside
    rcases inside with rfl | rfl | rfl
    · exact .inr (.inl rfl)
    · exact .inr (.inr ⟨_, (halves_lt source).1, rfl⟩)
    · exact .inr (.inr ⟨_, (halves_lt source).2, rfl⟩)

/-! ### What decoding changes -/

/-- Somewhere a percent sign is followed by two hexadecimal digits. -/
def HasTriplet (bytes : List UInt8) : Prop :=
  ∃ front high low rest, bytes = front ++ 37 :: high :: low :: rest ∧ (nibble high).isSome ∧
    (nibble low).isSome

theorem hasTriplet_of_escaped {byte value : UInt8} {rest : List UInt8}
    (found : escaped byte rest = some value) : HasTriplet (byte :: rest) := by
  obtain ⟨rfl, high, low, later, rfl, first, second⟩ := escaped_eq_some found
  exact ⟨[], high, low, later, rfl, first, second⟩

theorem HasTriplet.cons {bytes : List UInt8} (triplet : HasTriplet bytes) (byte : UInt8) :
    HasTriplet (byte :: bytes) := by
  obtain ⟨front, high, low, rest, rfl, first, second⟩ := triplet
  exact ⟨byte :: front, high, low, rest, rfl, first, second⟩

/-- Without a triplet at the start it comes later. -/
theorem HasTriplet.of_cons {byte : UInt8} {rest : List UInt8} (triplet : HasTriplet (byte :: rest))
    (plain : escaped byte rest = none) : HasTriplet rest := by
  obtain ⟨front, high, low, later, same, first, second⟩ := triplet
  cases front with
  | nil =>
    obtain ⟨rfl, rfl⟩ := List.cons.inj same
    obtain ⟨upper, high⟩ := Option.isSome_iff_exists.mp first
    obtain ⟨lower, low⟩ := Option.isSome_iff_exists.mp second
    simp [escaped, high, low] at plain
  | cons other front =>
    obtain ⟨-, rfl⟩ := List.cons.inj same
    exact ⟨front, high, low, later, rfl, first, second⟩

theorem decode_of_not_hasTriplet {bytes : List UInt8} (plain : ¬ HasTriplet bytes) :
    decode bytes = bytes := by
  induction bytes with
  | nil => rfl
  | cons byte rest inductionHypothesis =>
    have start : escaped byte rest = none := by
      by_contra found
      obtain ⟨value, found⟩ := Option.ne_none_iff_exists'.mp found
      exact plain (hasTriplet_of_escaped found)
    rw [decode_cons_of_not_escaped start,
      inductionHypothesis fun triplet => plain (triplet.cons byte)]

theorem isAscii_of_nibble {byte : UInt8} (digit : (nibble byte).isSome) :
    Bytes.isAscii byte = true := by
  induction byte using Bytes.forall_of_values with
  | every value =>
    revert value
    decide +kernel

/-- A triplet has three ASCII bytes. -/
theorem countP_isAscii_of_escaped {byte value : UInt8} {rest : List UInt8}
    (found : escaped byte rest = some value) :
    (byte :: rest).countP Bytes.isAscii = (rest.drop 2).countP Bytes.isAscii + 3 := by
  obtain ⟨rfl, high, low, later, rfl, first, second⟩ := escaped_eq_some found
  rw [List.countP_cons_of_pos (by decide), List.countP_cons_of_pos (isAscii_of_nibble first),
    List.countP_cons_of_pos (isAscii_of_nibble second)]
  rfl

theorem countP_isAscii_decode_le (bytes : List UInt8) :
    (decode bytes).countP Bytes.isAscii ≤ bytes.countP Bytes.isAscii := by
  induction length : bytes.length using Nat.strongRecOn generalizing bytes with
  | ind size inductionHypothesis =>
    cases bytes with
    | nil => exact Nat.le_refl _
    | cons byte rest =>
      have shorter : ∀ skip, (rest.drop skip).length < size := by
        intro skip
        rw [← length, List.length_cons, List.length_drop]
        omega
      cases found : escaped byte rest with
      | some value =>
        rw [decode_cons_of_escaped found, countP_isAscii_of_escaped found, List.countP_cons]
        have below := inductionHypothesis _ (shorter 2) (rest.drop 2) rfl
        split <;> omega
      | none =>
        rw [decode_cons_of_not_escaped found, List.countP_cons, List.countP_cons]
        exact Nat.add_le_add_right (inductionHypothesis _ (shorter 0) rest rfl) _

/-- A triplet takes ASCII bytes away. -/
theorem countP_isAscii_decode_lt {bytes : List UInt8} (triplet : HasTriplet bytes) :
    (decode bytes).countP Bytes.isAscii < bytes.countP Bytes.isAscii := by
  induction bytes with
  | nil =>
    obtain ⟨front, high, low, rest, same, -⟩ := triplet
    simp at same
  | cons byte rest inductionHypothesis =>
    cases found : escaped byte rest with
    | some value =>
      rw [decode_cons_of_escaped found, countP_isAscii_of_escaped found, List.countP_cons]
      have below := countP_isAscii_decode_le (rest.drop 2)
      split <;> omega
    | none =>
      rw [decode_cons_of_not_escaped found, List.countP_cons, List.countP_cons]
      exact Nat.add_lt_add_right (inductionHypothesis (triplet.of_cons found)) _

end Percent
