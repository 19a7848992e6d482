/-
This file models how the standard library reads bytes as UTF-8 without ever failing, as the
program does with lines of log files and with what it takes from URLs. Text that was encoded
reads as itself, and no ASCII character appears that was not there.
-/

import Bagel.Library.Bytes
import Mathlib.Data.List.Basic
import Mathlib.Data.List.Count

namespace Bagel

/-! ### Reading -/

/-- A continuation byte of UTF-8 in the given range. -/
def continues (low high byte : UInt8) : Bool := low ≤ byte && byte ≤ high

/-- The bounds of the byte after the lead byte of a sequence of three. -/
def secondOfThree (lead : UInt8) : UInt8 × UInt8 :=
  if lead = 0xE0 then (0xA0, 0xBF) else if lead = 0xED then (0x80, 0x9F) else (0x80, 0xBF)

/-- The bounds of the byte after the lead byte of a sequence of four. -/
def secondOfFour (lead : UInt8) : UInt8 × UInt8 :=
  if lead = 0xF0 then (0x90, 0xBF) else if lead = 0xF4 then (0x80, 0x8F) else (0x80, 0xBF)

/-- The code point of a lead byte, with the given number of its low bits, and of the
continuation bytes after it. -/
def codePoint (bits : Nat) (lead : UInt8) (rest : List UInt8) : Char :=
  Char.ofNat (rest.foldl (fun value byte => value * 64 + byte.toNat % 64) (lead.toNat % 2 ^ bits))

/-- The replacement character. -/
def replacement : Char := Char.ofNat 0xFFFD

/-- `String::from_utf8_lossy`: every maximal part of an ill-formed sequence becomes one
replacement character. -/
def fromUtf8Lossy : List UInt8 → List Char
  | [] => []
  | lead :: rest =>
    if lead < 0x80 then Char.ofNat lead.toNat :: fromUtf8Lossy rest
    else if continues 0xC2 0xDF lead then
      match rest with
      | [] => [replacement]
      | second :: later =>
        if continues 0x80 0xBF second then codePoint 5 lead [second] :: fromUtf8Lossy later
        else replacement :: fromUtf8Lossy (second :: later)
    else if continues 0xE0 0xEF lead then
      match rest with
      | [] => [replacement]
      | second :: later =>
        if continues (secondOfThree lead).1 (secondOfThree lead).2 second then
          match later with
          | [] => [replacement]
          | third :: last =>
            if continues 0x80 0xBF third then codePoint 4 lead [second, third] :: fromUtf8Lossy last
            else replacement :: fromUtf8Lossy (third :: last)
        else replacement :: fromUtf8Lossy (second :: later)
    else if continues 0xF0 0xF4 lead then
      match rest with
      | [] => [replacement]
      | second :: later =>
        if continues (secondOfFour lead).1 (secondOfFour lead).2 second then
          match later with
          | [] => [replacement]
          | third :: after =>
            if continues 0x80 0xBF third then
              match after with
              | [] => [replacement]
              | fourth :: last =>
                if continues 0x80 0xBF fourth then
                  codePoint 3 lead [second, third, fourth] :: fromUtf8Lossy last
                else replacement :: fromUtf8Lossy (fourth :: last)
            else replacement :: fromUtf8Lossy (third :: after)
        else replacement :: fromUtf8Lossy (second :: later)
    else replacement :: fromUtf8Lossy rest

/-! ### Whole characters -/

theorem continues_iff {low high byte : UInt8} :
    continues low high byte = true ↔ low.toNat ≤ byte.toNat ∧ byte.toNat ≤ high.toNat := by
  simp [continues, UInt8.le_iff_toNat_le]

/-- Lead bytes of different lengths are apart. -/
theorem continues_eq_false {low high low' high' byte : UInt8}
    (inside : continues low high byte = true) (apart : high'.toNat < low.toNat) :
    ¬ continues low' high' byte = true := by
  rw [continues_iff] at inside ⊢
  omega

theorem not_ascii_of_continues {low high byte : UInt8} (inside : continues low high byte = true)
    (above : 0x80 ≤ low.toNat) : ¬ byte < 0x80 := by
  rw [continues_iff] at inside
  rw [UInt8.lt_iff_toNat_lt]
  exact Nat.not_lt.mpr (Nat.le_trans above inside.1)

section Characters

variable {lead second third fourth : UInt8} (rest : List UInt8)

theorem fromUtf8Lossy_one (ascii : lead < 0x80) :
    fromUtf8Lossy (lead :: rest) = Char.ofNat lead.toNat :: fromUtf8Lossy rest := by
  rw [fromUtf8Lossy.eq_def]
  dsimp only
  rw [if_pos ascii]

theorem fromUtf8Lossy_two (first : continues 0xC2 0xDF lead = true)
    (next : continues 0x80 0xBF second = true) :
    fromUtf8Lossy (lead :: second :: rest) =
      codePoint 5 lead [second] :: fromUtf8Lossy rest := by
  rw [fromUtf8Lossy.eq_def]
  dsimp only
  rw [if_neg (not_ascii_of_continues first (by decide)), if_pos first, if_pos next]

theorem fromUtf8Lossy_three (first : continues 0xE0 0xEF lead = true)
    (next : continues (secondOfThree lead).1 (secondOfThree lead).2 second = true)
    (last : continues 0x80 0xBF third = true) :
    fromUtf8Lossy (lead :: second :: third :: rest) =
      codePoint 4 lead [second, third] :: fromUtf8Lossy rest := by
  rw [fromUtf8Lossy.eq_def]
  dsimp only
  rw [if_neg (not_ascii_of_continues first (by decide)),
    if_neg (continues_eq_false first (by decide)), if_pos first,
    if_pos next, if_pos last]

theorem fromUtf8Lossy_four (first : continues 0xF0 0xF4 lead = true)
    (next : continues (secondOfFour lead).1 (secondOfFour lead).2 second = true)
    (after : continues 0x80 0xBF third = true) (last : continues 0x80 0xBF fourth = true) :
    fromUtf8Lossy (lead :: second :: third :: fourth :: rest) =
      codePoint 3 lead [second, third, fourth] :: fromUtf8Lossy rest := by
  rw [fromUtf8Lossy.eq_def]
  dsimp only
  rw [if_neg (not_ascii_of_continues first (by decide)),
    if_neg (continues_eq_false first (by decide)), if_neg (continues_eq_false first (by decide)),
    if_pos first, if_pos next, if_pos after, if_pos last]

end Characters

/-! ### Encoded text -/

theorem continues_ofNat {low high : UInt8} {value : Nat} (least : low.toNat ≤ value)
    (most : value ≤ high.toNat) : continues low high (UInt8.ofNat value) = true := by
  have small : value < 256 := Nat.lt_of_le_of_lt most high.toNat_lt
  rw [continues_iff, Bytes.toNat_ofNat small]
  exact ⟨least, most⟩

theorem codePoint_eq {bits : Nat} {lead : UInt8} {rest : List UInt8} {character : Char}
    (value : rest.foldl (fun value byte => value * 64 + byte.toNat % 64) (lead.toNat % 2 ^ bits) =
      character.toNat) : codePoint bits lead rest = character := by
  rw [codePoint, value, Char.ofNat_toNat]

/-- The second of three bytes: there is no shorter form, and the code is no surrogate. -/
theorem continues_secondOfThree {code : Nat} (long : 0x800 ≤ code) (short : code ≤ 0xffff)
    (low : code / 4096 % 16 = code / 4096) (valid : code < 0xd800 ∨ 0xdfff < code) :
    continues (secondOfThree (UInt8.ofNat (code / 4096 % 16 + 0xe0))).1
      (secondOfThree (UInt8.ofNat (code / 4096 % 16 + 0xe0))).2
      (UInt8.ofNat (code / 64 % 64 + 0x80)) = true := by
  have lead : (UInt8.ofNat (code / 4096 % 16 + 0xe0)).toNat = code / 4096 + 0xe0 := by
    rw [Bytes.toNat_ofNat (by omega), low]
  unfold secondOfThree
  split
  · next first =>
    rw [first] at lead
    have zero : 0xe0 = code / 4096 + 0xe0 := lead
    exact continues_ofNat (by simp; omega) (by simp; omega)
  · split
    · next first =>
      rw [first] at lead
      have thirteen : 0xed = code / 4096 + 0xe0 := lead
      exact continues_ofNat (by simp) (by simp; omega)
    · exact continues_ofNat (by simp) (by simp; omega)

/-- The second of four bytes: there is no shorter form, and the code is no higher than the last. -/
theorem continues_secondOfFour {code : Nat} (long : 0xffff < code) (short : code < 0x110000) :
    continues (secondOfFour (UInt8.ofNat (code / 262144 % 8 + 0xf0))).1
      (secondOfFour (UInt8.ofNat (code / 262144 % 8 + 0xf0))).2
      (UInt8.ofNat (code / 4096 % 64 + 0x80)) = true := by
  have lead : (UInt8.ofNat (code / 262144 % 8 + 0xf0)).toNat = code / 262144 + 0xf0 := by
    rw [Bytes.toNat_ofNat (by omega)]
    omega
  unfold secondOfFour
  split
  · next first =>
    rw [first] at lead
    have zero : 0xf0 = code / 262144 + 0xf0 := lead
    exact continues_ofNat (by simp; omega) (by simp; omega)
  · split
    · next first =>
      rw [first] at lead
      have four : 0xf4 = code / 262144 + 0xf0 := lead
      exact continues_ofNat (by simp) (by simp; omega)
    · exact continues_ofNat (by simp) (by simp; omega)

theorem fromUtf8Lossy_append (character : Char) (rest : List UInt8) :
    fromUtf8Lossy (String.utf8EncodeChar character ++ rest) = character :: fromUtf8Lossy rest := by
  have valid : character.val.toNat < 0xd800 ∨
      0xdfff < character.val.toNat ∧ character.val.toNat < 0x110000 := character.valid
  have value : character.toNat = character.val.toNat := rfl
  unfold String.utf8EncodeChar
  dsimp only
  generalize character.val.toNat = code at valid value
  split
  · next one =>
    rw [List.singleton_append, fromUtf8Lossy_one, Bytes.toNat_ofNat (by omega), ← value,
      Char.ofNat_toNat]
    rw [UInt8.lt_iff_toNat_lt, Bytes.toNat_ofNat (by omega)]
    exact Nat.lt_succ_of_le one
  · split
    · next notOne two =>
      rw [List.cons_append, List.singleton_append, fromUtf8Lossy_two, codePoint_eq]
      · simp only [List.foldl_cons, List.foldl_nil]
        rw [Bytes.toNat_ofNat (by omega), Bytes.toNat_ofNat (by omega), value]
        omega
      · exact continues_ofNat (by simp; omega) (by simp; omega)
      · exact continues_ofNat (by simp) (by simp; omega)
    · split
      · next notOne notTwo three =>
        rw [List.cons_append, List.cons_append, List.singleton_append, fromUtf8Lossy_three,
          codePoint_eq]
        · simp only [List.foldl_cons, List.foldl_nil]
          rw [Bytes.toNat_ofNat (by omega), Bytes.toNat_ofNat (by omega),
            Bytes.toNat_ofNat (by omega), value]
          omega
        · exact continues_ofNat (by simp) (by simp; omega)
        · exact continues_secondOfThree (by omega) (by omega) (by omega) (by omega)
        · exact continues_ofNat (by simp) (by simp; omega)
      · next notOne notTwo notThree =>
        rw [List.cons_append, List.cons_append, List.cons_append, List.singleton_append,
          fromUtf8Lossy_four, codePoint_eq]
        · simp only [List.foldl_cons, List.foldl_nil]
          rw [Bytes.toNat_ofNat (by omega), Bytes.toNat_ofNat (by omega),
            Bytes.toNat_ofNat (by omega), Bytes.toNat_ofNat (by omega), value]
          omega
        · exact continues_ofNat (by simp) (by simp; omega)
        · exact continues_secondOfFour (by omega) (by omega)
        · exact continues_ofNat (by simp) (by simp; omega)
        · exact continues_ofNat (by simp) (by simp; omega)

/-- An encoded text reads as itself. -/
theorem fromUtf8Lossy_ofText (text : String) : fromUtf8Lossy (Bytes.ofText text) = text.toList := by
  obtain ⟨characters, rfl⟩ := text.exists_eq_ofList
  rw [Bytes.ofText_ofList, String.toList_ofList]
  induction characters with
  | nil => rfl
  | cons character rest inductionHypothesis =>
    rw [List.flatMap_cons, fromUtf8Lossy_append, inductionHypothesis]

/-! ### ASCII -/

theorem isAsciiCharacter_codePoint {bits : Nat} {lead : UInt8} {rest : List UInt8} {code : Nat}
    (value : rest.foldl (fun value byte => value * 64 + byte.toNat % 64) (lead.toNat % 2 ^ bits) =
      code) (valid : code < 0xd800 ∨ 0xdfff < code ∧ code < 0x110000) (large : 128 ≤ code) :
    ¬ Bytes.isAsciiCharacter (codePoint bits lead rest) = true := by
  have whole : (Char.ofNat code).toNat = code := by
    rw [Char.ofNat, dif_pos valid]
    rfl
  rw [codePoint, value, Bytes.isAsciiCharacter, decide_eq_true_eq, whole]
  exact Nat.not_lt.mpr large

section Characters

variable {lead second third fourth : UInt8}

theorem codePoint_two_not_ascii (first : continues 0xC2 0xDF lead = true) :
    ¬ Bytes.isAsciiCharacter (codePoint 5 lead [second]) = true := by
  rw [continues_iff] at first
  simp only [UInt8.reduceToNat] at first
  refine isAsciiCharacter_codePoint rfl ?_ ?_
  · simp only [List.foldl_cons, List.foldl_nil]
    omega
  · simp only [List.foldl_cons, List.foldl_nil]
    omega

/-- The least and the last lead leave the second byte less room than the others. -/
theorem second_range {least last low high : UInt8} (different : least ≠ last)
    (above : 0x80 ≤ low.toNat) (below : high.toNat ≤ 0xBF)
    (next : continues
      (if lead = least then (low, 0xBF) else if lead = last then (0x80, high) else (0x80, 0xBF)).1
      (if lead = least then (low, 0xBF) else if lead = last then (0x80, high) else (0x80, 0xBF)).2
      second = true) :
    0x80 ≤ second.toNat ∧ second.toNat ≤ 0xBF ∧
      (lead.toNat = least.toNat → low.toNat ≤ second.toNat) ∧
      (lead.toNat = last.toNat → second.toNat ≤ high.toNat) := by
  rw [continues_iff] at next
  by_cases first : lead = least
  · rw [if_pos first] at next
    have other : lead.toNat ≠ last.toNat := fun same =>
      different (first.symm.trans (UInt8.toNat_inj.mp same))
    exact ⟨above.trans next.1, next.2, fun _ => next.1, fun same => absurd same other⟩
  · have notLeast : lead.toNat ≠ least.toNat := fun same => first (UInt8.toNat_inj.mp same)
    rw [if_neg first] at next
    by_cases final : lead = last
    · rw [if_pos final] at next
      exact ⟨next.1, next.2.trans below, fun same => absurd same notLeast, fun _ => next.2⟩
    · have notLast : lead.toNat ≠ last.toNat := fun same => final (UInt8.toNat_inj.mp same)
      rw [if_neg final] at next
      exact ⟨next.1, next.2, fun same => absurd same notLeast, fun same => absurd same notLast⟩

theorem codePoint_three_not_ascii (first : continues 0xE0 0xEF lead = true)
    (next : continues (secondOfThree lead).1 (secondOfThree lead).2 second = true) :
    ¬ Bytes.isAsciiCharacter (codePoint 4 lead [second, third]) = true := by
  rw [continues_iff] at first
  simp only [UInt8.reduceToNat] at first
  have range : 0x80 ≤ second.toNat ∧ second.toNat ≤ 0xBF ∧
      (lead.toNat = 0xE0 → 0xA0 ≤ second.toNat) ∧
      (lead.toNat = 0xED → second.toNat ≤ 0x9F) :=
    second_range (by decide) (by decide) (by decide) next
  refine isAsciiCharacter_codePoint rfl ?_ ?_
  · simp only [List.foldl_cons, List.foldl_nil]
    omega
  · simp only [List.foldl_cons, List.foldl_nil]
    omega

theorem codePoint_four_not_ascii (first : continues 0xF0 0xF4 lead = true)
    (next : continues (secondOfFour lead).1 (secondOfFour lead).2 second = true) :
    ¬ Bytes.isAsciiCharacter (codePoint 3 lead [second, third, fourth]) = true := by
  rw [continues_iff] at first
  simp only [UInt8.reduceToNat] at first
  have range : 0x80 ≤ second.toNat ∧ second.toNat ≤ 0xBF ∧
      (lead.toNat = 0xF0 → 0x90 ≤ second.toNat) ∧
      (lead.toNat = 0xF4 → second.toNat ≤ 0x8F) :=
    second_range (by decide) (by decide) (by decide) next
  refine isAsciiCharacter_codePoint rfl ?_ ?_
  · simp only [List.foldl_cons, List.foldl_nil]
    omega
  · simp only [List.foldl_cons, List.foldl_nil]
    omega

end Characters

/-- The ASCII characters among bytes. -/
def asciiPart (bytes : List UInt8) : List Char :=
  (bytes.filter Bytes.isAscii).map fun byte => Char.ofNat byte.toNat

/-- A character that is not ASCII, read off bytes that are not, changes nothing. -/
theorem filter_cons_eq {character : Char} {text : List Char} {rest : List UInt8}
    (front : List UInt8) (other : ¬ Bytes.isAsciiCharacter character = true)
    (above : front.Forall fun byte => ¬ byte < 0x80)
    (same : text.filter Bytes.isAsciiCharacter = asciiPart rest) :
    (character :: text).filter Bytes.isAsciiCharacter = asciiPart (front ++ rest) := by
  have skipped : front.filter Bytes.isAscii = [] :=
    List.filter_eq_nil_iff.mpr fun byte member ascii =>
      List.forall_iff_forall_mem.mp above byte member (of_decide_eq_true ascii)
  rw [List.filter_cons_of_neg other, same, asciiPart, asciiPart, List.filter_append, skipped,
    List.nil_append]

theorem second_of_three_not_ascii {lead second : UInt8}
    (next : continues (secondOfThree lead).1 (secondOfThree lead).2 second = true) :
    ¬ second < 0x80 := by
  refine not_ascii_of_continues next ?_
  unfold secondOfThree
  split
  · decide
  · split <;> decide

theorem second_of_four_not_ascii {lead second : UInt8}
    (next : continues (secondOfFour lead).1 (secondOfFour lead).2 second = true) :
    ¬ second < 0x80 := by
  refine not_ascii_of_continues next ?_
  unfold secondOfFour
  split
  · decide
  · split <;> decide

theorem third_not_ascii {third : UInt8} (next : continues 0x80 0xBF third = true) :
    ¬ third < 0x80 := not_ascii_of_continues next (by decide)

/-- ASCII bytes stand for themselves, and nothing else stands for an ASCII character. -/
theorem filter_fromUtf8Lossy (bytes : List UInt8) :
    (fromUtf8Lossy bytes).filter Bytes.isAsciiCharacter = asciiPart bytes := by
  have replaced : ¬ Bytes.isAsciiCharacter replacement = true := by decide
  fun_induction fromUtf8Lossy bytes with
  | case1 => rfl
  | case2 lead rest ascii inductionHypothesis =>
    have counts : Bytes.isAscii lead = true := decide_eq_true ascii
    have counts' : Bytes.isAsciiCharacter (Char.ofNat lead.toNat) = true := by
      induction lead using Bytes.forall_of_values with
      | every value =>
        revert value
        decide +kernel
    rw [asciiPart, List.filter_cons_of_pos counts, List.map_cons, ← asciiPart,
      ← inductionHypothesis]
    exact List.filter_cons_of_pos counts'
  | case3 lead high | case6 lead high | case11 lead high =>
    exact filter_cons_eq [lead] replaced high rfl
  | case4 lead high first second rest next inductionHypothesis =>
    exact filter_cons_eq [lead, second] (codePoint_two_not_ascii first)
      ⟨high, third_not_ascii next⟩ inductionHypothesis
  | case5 lead high _ second rest _ inductionHypothesis =>
    exact filter_cons_eq [lead] replaced high inductionHypothesis
  | case7 lead high _ _ second next =>
    exact filter_cons_eq [lead, second] replaced
      ⟨high, second_of_three_not_ascii next⟩ rfl
  | case8 lead high _ first second next third rest after inductionHypothesis =>
    exact filter_cons_eq [lead, second, third] (codePoint_three_not_ascii first next)
      ⟨high, second_of_three_not_ascii next, third_not_ascii after⟩
      inductionHypothesis
  | case9 lead high _ _ second next third rest _ inductionHypothesis =>
    exact filter_cons_eq [lead, second] replaced
      ⟨high, second_of_three_not_ascii next⟩ inductionHypothesis
  | case10 lead high _ _ second rest _ inductionHypothesis =>
    exact filter_cons_eq [lead] replaced high inductionHypothesis
  | case12 lead high _ _ _ second next =>
    exact filter_cons_eq [lead, second] replaced
      ⟨high, second_of_four_not_ascii next⟩ rfl
  | case13 lead high _ _ _ second next third after =>
    exact filter_cons_eq [lead, second, third] replaced
      ⟨high, second_of_four_not_ascii next, third_not_ascii after⟩ rfl
  | case14 lead high _ _ first second next third after fourth rest last inductionHypothesis =>
    exact filter_cons_eq [lead, second, third, fourth] (codePoint_four_not_ascii first next)
      ⟨high, second_of_four_not_ascii next, third_not_ascii after,
        third_not_ascii last⟩ inductionHypothesis
  | case15 lead high _ _ _ second next third after fourth rest _ inductionHypothesis =>
    exact filter_cons_eq [lead, second, third] replaced
      ⟨high, second_of_four_not_ascii next, third_not_ascii after⟩
      inductionHypothesis
  | case16 lead high _ _ _ second next third rest _ inductionHypothesis =>
    exact filter_cons_eq [lead, second] replaced
      ⟨high, second_of_four_not_ascii next⟩ inductionHypothesis
  | case17 lead high _ _ _ second rest _ inductionHypothesis =>
    exact filter_cons_eq [lead] replaced high inductionHypothesis
  | case18 lead rest high _ _ _ inductionHypothesis =>
    exact filter_cons_eq [lead] replaced high inductionHypothesis

/-- No ASCII character appears that was not there. -/
theorem countP_isAscii_fromUtf8Lossy_le (bytes : List UInt8) :
    (fromUtf8Lossy bytes).countP Bytes.isAsciiCharacter ≤ bytes.countP Bytes.isAscii := by
  rw [List.countP_eq_length_filter, List.countP_eq_length_filter, filter_fromUtf8Lossy, asciiPart,
    List.length_map]

end Bagel
