/-
This file collects what is needed of bytes that are fed to a digest: texts and integers
as bytes, and parts that are written one after the other with their length in front, so
that they can be told apart again.
-/

import Mathlib.Data.Int.ModEq
import Mathlib.Data.List.Induction

namespace Bytes

/-- What holds of the 256 values holds of every byte. -/
theorem forall_of_values {Holds : UInt8 → Prop}
    (every : ∀ value : Fin 256, Holds (UInt8.ofNat value.val)) (byte : UInt8) : Holds byte := by
  simpa using every ⟨byte.toNat, byte.toNat_lt⟩

/-- The UTF-8 bytes of a text. -/
def ofText (text : String) : List UInt8 := text.toByteArray.data.toList

theorem ofText_inj {first second : String} (same : ofText first = ofText second) :
    first = second := by
  have arrays : first.toByteArray = second.toByteArray := ByteArray.ext (Array.toList_inj.mp same)
  exact String.toByteArray_inj.mp arrays

theorem ofText_append (first second : String) :
    ofText (first ++ second) = ofText first ++ ofText second := by
  unfold ofText
  rw [String.toByteArray_append, ByteArray.data_append, Array.toList_append]

/-! ### ASCII -/

theorem ofText_ofList (characters : List Char) :
    ofText (String.ofList characters) = characters.flatMap String.utf8EncodeChar := by
  unfold ofText
  rw [String.toByteArray_ofList]
  simp [List.utf8Encode]

theorem utf8EncodeChar_ofUInt8 {byte : UInt8} (ascii : byte < 128) :
    String.utf8EncodeChar (Char.ofUInt8 byte) = [byte] := by
  induction byte using forall_of_values with
  | every value =>
    revert value
    decide +kernel

/-- ASCII bytes read as a text are the bytes of that text. -/
theorem ofText_ascii {bytes : List UInt8} (ascii : ∀ byte ∈ bytes, byte < 128) :
    ofText (String.ofList (bytes.map Char.ofUInt8)) = bytes := by
  rw [ofText_ofList]
  induction bytes with
  | nil => rfl
  | cons byte rest inductionHypothesis =>
    rw [List.map_cons, List.flatMap_cons, utf8EncodeChar_ofUInt8 (ascii byte List.mem_cons_self),
      inductionHypothesis fun other member => ascii other (List.mem_cons_of_mem _ member)]
    rfl

/-- A character has at most four bytes. -/
theorem length_ofText_le (text : String) : (ofText text).length ≤ 4 * text.toList.length := by
  obtain ⟨characters, rfl⟩ := text.exists_eq_ofList
  rw [ofText_ofList, String.toList_ofList]
  induction characters with
  | nil => exact Nat.le_refl 0
  | cons character rest inductionHypothesis =>
    have few : (String.utf8EncodeChar character).length ≤ 4 := by
      rw [String.length_utf8EncodeChar]
      exact Char.utf8Size_le_four character
    rw [List.flatMap_cons, List.length_append, List.length_cons]
    omega

theorem toNat_ofNat {value : Nat} (small : value < 256) : (UInt8.ofNat value).toNat = value :=
  UInt8.toNat_ofNat_of_lt' small

def isAscii (byte : UInt8) : Bool := byte < 128

def isAsciiCharacter (character : Char) : Bool := character.toNat < 128

/-- A character is one ASCII byte or has none. -/
theorem countP_isAscii_utf8EncodeChar (character : Char) :
    (String.utf8EncodeChar character).countP isAscii =
      if isAsciiCharacter character then 1 else 0 := by
  have value : character.toNat = character.val.toNat := rfl
  have above : ∀ {value : Nat}, 128 ≤ value → value < 256 →
      ¬ isAscii (UInt8.ofNat value) = true := by
    intro value least small
    rw [isAscii, decide_eq_true_eq, UInt8.lt_iff_toNat_lt, toNat_ofNat small]
    exact Nat.not_lt.mpr least
  unfold String.utf8EncodeChar isAsciiCharacter
  rw [value]
  dsimp only
  generalize character.val.toNat = code
  by_cases one : code ≤ 0x7f
  · have ascii : isAscii (UInt8.ofNat code) = true := by
      rw [isAscii, decide_eq_true_eq, UInt8.lt_iff_toNat_lt,
        toNat_ofNat (Nat.lt_of_le_of_lt one (by decide))]
      exact Nat.lt_succ_of_le one
    rw [if_pos one, List.countP_singleton, if_pos ascii,
      if_pos (decide_eq_true (Nat.lt_succ_of_le one))]
  · have large : ¬ decide (code < 128) = true := by
      rw [decide_eq_true_eq]
      omega
    rw [if_neg one, if_neg large, List.countP_eq_zero]
    intro byte member
    split at member
    · simp only [List.mem_cons, List.not_mem_nil, or_false] at member
      rcases member with rfl | rfl <;> exact above (by omega) (by omega)
    · split at member
      · simp only [List.mem_cons, List.not_mem_nil, or_false] at member
        rcases member with rfl | rfl | rfl <;> exact above (by omega) (by omega)
      · simp only [List.mem_cons, List.not_mem_nil, or_false] at member
        rcases member with rfl | rfl | rfl | rfl <;> exact above (by omega) (by omega)

theorem countP_isAscii_ofText (text : String) :
    (ofText text).countP isAscii = text.toList.countP isAsciiCharacter := by
  obtain ⟨characters, rfl⟩ := text.exists_eq_ofList
  rw [ofText_ofList, String.toList_ofList]
  induction characters with
  | nil => rfl
  | cons character rest inductionHypothesis =>
    rw [List.flatMap_cons, List.countP_append, countP_isAscii_utf8EncodeChar, inductionHypothesis,
      List.countP_cons, Nat.add_comm]

/-! ### Integers -/

/-- The low bytes of an integer in two's complement, the lowest first. -/
def ofInt : Nat → Int → List UInt8
  | 0, _ => []
  | count + 1, value => UInt8.ofNat (value % 256).toNat :: ofInt count (value / 256)

theorem length_ofInt (count : Nat) (value : Int) : (ofInt count value).length = count := by
  induction count generalizing value with
  | zero => rfl
  | succ count inductionHypothesis => rw [ofInt, List.length_cons, inductionHypothesis]

/-- The low bytes determine the integer up to multiples of what lies above them. -/
theorem ofInt_modEq {count : Nat} {first second : Int}
    (same : ofInt count first = ofInt count second) : first ≡ second [ZMOD 256 ^ count] := by
  induction count generalizing first second with
  | zero => exact Int.modEq_one
  | succ count inductionHypothesis =>
    obtain ⟨low, high⟩ := List.cons.inj same
    have digits : first % 256 = second % 256 := by
      have values := congrArg UInt8.toNat low
      rw [UInt8.toNat_ofNat', UInt8.toNat_ofNat'] at values
      omega
    have quotients : (256 : Int) ^ count ∣ second / 256 - first / 256 :=
      (inductionHypothesis high).dvd
    have difference : second - first = 256 * (second / 256 - first / 256) := by omega
    refine (Int.modEq_iff_dvd).mpr ?_
    rw [difference, pow_succ, mul_comm]
    exact Int.mul_dvd_mul_left 256 quotients

/-- Integers of 64 bits are determined by their eight bytes. -/
theorem ofInt_inj {first second : Int} (same : ofInt 8 first = ofInt 8 second)
    (near : |second - first| < 2 ^ 64) : first = second := by
  have multiple : (256 : Int) ^ 8 ∣ second - first := (ofInt_modEq same).dvd
  have powers : (256 : Int) ^ 8 = 2 ^ 64 := by decide
  have zero : second - first = 0 := Int.eq_zero_of_abs_lt_dvd multiple (powers ▸ near)
  omega

/-- A part with its length in front. -/
def frame (part : List UInt8) : List UInt8 := ofInt 8 part.length ++ part

/-- A frame has its part at a fixed place. -/
theorem frame_inj {first second : List UInt8} (same : frame first = frame second) :
    first = second := by
  unfold frame at same
  exact (List.append_inj same (by rw [length_ofInt, length_ofInt])).2

/-- The first part of framed parts can be told from the rest. -/
theorem frame_append_inj {first second rest other : List UInt8}
    (fits : first.length < 2 ^ 64) (fits' : second.length < 2 ^ 64)
    (same : frame first ++ rest = frame second ++ other) : first = second ∧ rest = other := by
  rw [frame, frame, List.append_assoc, List.append_assoc] at same
  obtain ⟨lengths, parts⟩ :=
    List.append_inj same (by rw [length_ofInt, length_ofInt])
  have equal : (first.length : Int) = second.length := ofInt_inj lengths (by
    rw [abs_lt]
    constructor <;> omega)
  exact List.append_inj parts (by omega)

/-! ### The highest byte first -/

/-- The low bytes of a number, the highest of them first. -/
def big : Nat → Nat → List UInt8
  | 0, _ => []
  | count + 1, value => big count (value / 256) ++ [UInt8.ofNat value]

/-- The number that bytes stand for, the highest byte first. -/
def number (bytes : List UInt8) : Nat := bytes.foldl (fun value byte => 256 * value + byte.toNat) 0

@[simp] theorem length_big (count value : Nat) : (big count value).length = count := by
  induction count generalizing value with
  | zero => rfl
  | succ count inductionHypothesis =>
    rw [big, List.length_append, inductionHypothesis, List.length_singleton]

theorem number_append_singleton (bytes : List UInt8) (byte : UInt8) :
    number (bytes ++ [byte]) = 256 * number bytes + byte.toNat := by
  unfold number
  rw [List.foldl_append, List.foldl_cons, List.foldl_nil]

theorem number_big {count value : Nat} (fits : value < 256 ^ count) :
    number (big count value) = value := by
  induction count generalizing value with
  | zero =>
    rw [Nat.pow_zero] at fits
    exact (Nat.lt_one_iff.mp fits).symm
  | succ count inductionHypothesis =>
    rw [Nat.pow_succ] at fits
    rw [big, number_append_singleton, inductionHypothesis (by omega), UInt8.toNat_ofNat']
    omega

theorem number_lt (bytes : List UInt8) : number bytes < 256 ^ bytes.length := by
  induction bytes using List.reverseRecOn with
  | nil => exact Nat.one_pos
  | append_singleton bytes byte inductionHypothesis =>
    rw [number_append_singleton, List.length_append, List.length_singleton, Nat.pow_succ]
    have small := byte.toNat_lt
    omega

/-- The bytes of the number that some bytes stand for are those bytes. -/
theorem big_number (bytes : List UInt8) : big bytes.length (number bytes) = bytes := by
  induction bytes using List.reverseRecOn with
  | nil => rfl
  | append_singleton bytes byte inductionHypothesis =>
    have small := byte.toNat_lt
    have high : (256 * number bytes + byte.toNat) / 256 = number bytes := by omega
    have low : UInt8.ofNat (256 * number bytes + byte.toNat) = byte := by
      rw [← UInt8.toNat_inj, UInt8.toNat_ofNat']
      omega
    rw [number_append_singleton, List.length_append, List.length_singleton, big, high, low,
      inductionHypothesis]

theorem big_inj {count first second : Nat} (fits : first < 256 ^ count)
    (fits' : second < 256 ^ count) (same : big count first = big count second) :
    first = second := by
  rw [← number_big fits, same, number_big fits']

/-- A part with its length in four bytes in front. -/
def bigFrame (part : List UInt8) : List UInt8 := big 4 part.length ++ part

theorem bigFrame_inj {first second : List UInt8} (same : bigFrame first = bigFrame second) :
    first = second := by
  unfold bigFrame at same
  exact (List.append_inj same (by rw [length_big, length_big])).2

theorem bigFrame_append_inj {first second rest other : List UInt8}
    (fits : first.length < 2 ^ 32) (fits' : second.length < 2 ^ 32)
    (same : bigFrame first ++ rest = bigFrame second ++ other) : first = second ∧ rest = other := by
  rw [bigFrame, bigFrame, List.append_assoc, List.append_assoc] at same
  obtain ⟨lengths, parts⟩ := List.append_inj same (by rw [length_big, length_big])
  exact List.append_inj parts (big_inj fits fits' lengths)

end Bytes
