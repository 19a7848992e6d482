/-
This file models the query parameters of conditions and compares how they are decoded with the
form encoding of browsers. Both read a plus sign as a space and a percent sign with two
hexadecimal digits as a byte. But the digits are read here by the parser of integers, which
takes a leading plus sign, so that a percent sign with a plus sign and one digit is a byte as
well. Those three characters are the only difference.
-/

import Bagel.ClientHello
import Bagel.Hosts
import Bagel.Library.Parts
import Bagel.Library.Percent

namespace Bagel

namespace FormQuery

/-! ### Decoding -/

/-- One more digit of a number of eight bits. -/
def nextDigit (value : Nat) (character : Char) : Option Nat :=
  ((Parser.digitValue 16 character).map fun digit => value * 16 + digit).filter (· < 256)

/-- `u8::from_str_radix(_, 16)`, which allows a leading plus sign. -/
def fromStrRadix (text : List Char) : Option UInt8 :=
  let digits := match text with
    | '+' :: rest => rest
    | digits => digits
  if digits.isEmpty then none else (digits.foldlM nextDigit 0).map UInt8.ofNat

/-- The byte that an escape at the start stands for. -/
def hexPair (byte : UInt8) : List UInt8 → Option UInt8
  | high :: low :: _ => if byte = 37 then (fromUtf8 [high, low]).bind fromStrRadix else none
  | _ => none

/-- A plus sign stands for a space. -/
def plusToSpace (byte : UInt8) : UInt8 := if byte = 43 then 32 else byte

/-- The loop over the bytes, after skipping some. -/
def decodeFrom : Nat → List UInt8 → List UInt8
  | _, [] => []
  | skip + 1, _ :: rest => decodeFrom skip rest
  | 0, byte :: rest =>
    match hexPair byte rest with
    | some value => value :: decodeFrom 2 rest
    | none => plusToSpace byte :: decodeFrom 0 rest

def decodeBytes (bytes : List UInt8) : List UInt8 := decodeFrom 0 bytes

/-- `form_decode` -/
def formDecode (text : List Char) : List Char :=
  fromUtf8Lossy (decodeBytes (Bytes.ofText (String.ofList text)))

/-- The key and the value of each part of a query. -/
def pairs (query : List Char) : List (List Char × List Char) :=
  (query.splitOn '&').map fun pair => (Parts.splitOnce '=' pair).getD (pair, [])

/-- The decoded value of the first pair with a decoded key, or nothing. -/
def firstValue (decode : List Char → List Char) (query name : List Char) : List Char :=
  (((pairs query).find? fun pair => decode pair.1 = name).map fun pair => decode pair.2).getD []

/-- `query_param` -/
def queryParam (query name : List Char) : List Char := firstValue formDecode query name

/-! ### The form encoding -/

/-- How the standard decodes a name or a value: plus signs become spaces, then percent signs with
two hexadecimal digits become bytes, and the bytes are read as UTF-8. -/
def standardDecode (text : List Char) : List Char :=
  fromUtf8Lossy (Percent.decode ((Bytes.ofText (String.ofList text)).map plusToSpace))

/-- Somewhere a percent sign is followed by a plus sign and a hexadecimal digit. -/
def HasSigned (bytes : List UInt8) : Prop :=
  ∃ front low rest, bytes = front ++ 37 :: 43 :: low :: rest ∧ (Percent.nibble low).isSome

/-! ### Hexadecimal digits -/

theorem digitValue_ofUInt8 (byte : UInt8) :
    Parser.digitValue 16 (Char.ofUInt8 byte) = (Percent.nibble byte).map UInt8.toNat := by
  induction byte using Bytes.forall_of_values with
  | every value =>
    revert value
    decide +kernel

theorem nibble_lt {byte value : UInt8} (digit : Percent.nibble byte = some value) :
    value.toNat < 16 := by
  have same := digitValue_ofUInt8 byte
  rw [digit, Option.map_some] at same
  obtain ⟨-, small⟩ := Option.filter_eq_some_iff.mp same
  exact of_decide_eq_true small

theorem ofUInt8_injective : Function.Injective Char.ofUInt8 := by
  intro first second same
  exact UInt8.toNat_inj.mp (congrArg Char.toNat same)

theorem ofNat_toNat (byte : UInt8) : Char.ofNat byte.toNat = Char.ofUInt8 byte :=
  Char.ofNat_toNat (Char.ofUInt8 byte)

/-- A character that the parser of integers takes. -/
def IsAsciiByte (character : Char) : Prop := ∃ byte, byte < 128 ∧ character = Char.ofUInt8 byte

theorem isAsciiByte_of_digitValue {character : Char} {value : Nat}
    (digit : Parser.digitValue 16 character = some value) : IsAsciiByte character := by
  have ascii : character.toNat < 128 := by
    obtain ⟨same, -⟩ := Option.filter_eq_some_iff.mp digit
    split at same
    · next decimal =>
      have bounds := of_decide_eq_true (Bool.and_eq_true_iff.mp decimal).2
      exact Nat.lt_of_le_of_lt bounds (by decide)
    · split at same
      · next lower => exact Nat.lt_of_le_of_lt lower.2 (by decide)
      · split at same
        · next upper => exact Nat.lt_of_le_of_lt upper.2 (by decide)
        · cases same
  have every : ∀ code : Fin 128, IsAsciiByte (Char.ofNat code) := by
    intro code
    refine ⟨UInt8.ofNat code, ?_, ?_⟩
    · revert code
      decide
    · revert code
      decide
  have found := every ⟨character.toNat, ascii⟩
  rwa [Char.ofNat_toNat] at found

theorem isAsciiByte_of_foldlM {digits : List Char} {start : Nat}
    (read : (digits.foldlM nextDigit start).isSome) :
    ∀ character ∈ digits, IsAsciiByte character := by
  induction digits generalizing start with
  | nil => exact fun character member => absurd member List.not_mem_nil
  | cons head rest inductionHypothesis =>
    rw [List.foldlM_cons] at read
    cases step : nextDigit start head with
    | none =>
      rw [step] at read
      cases read
    | some value =>
      rw [step] at read
      obtain ⟨number, -⟩ := Option.filter_eq_some_iff.mp step
      obtain ⟨digit, found, -⟩ := Option.map_eq_some_iff.mp number
      exact List.forall_mem_cons.mpr ⟨isAsciiByte_of_digitValue found, inductionHypothesis read⟩

theorem isAsciiByte_of_fromStrRadix {text : List Char} (read : (fromStrRadix text).isSome) :
    ∀ character ∈ text, IsAsciiByte character := by
  have digits : ∀ digits : List Char, (if digits.isEmpty then none
      else (digits.foldlM nextDigit 0).map UInt8.ofNat).isSome = true →
        ∀ character ∈ digits, IsAsciiByte character := by
    intro digits number
    split at number
    · cases number
    · rw [Option.isSome_map] at number
      exact isAsciiByte_of_foldlM number
  unfold fromStrRadix at read
  dsimp only at read
  split at read
  · next rest =>
    exact List.forall_mem_cons.mpr ⟨⟨43, by decide, by decide⟩, digits rest read⟩
  · exact digits text read

/-- ASCII bytes are read as they are. -/
theorem fromUtf8_pair {high low : UInt8} (first : high < 128) (second : low < 128) :
    fromUtf8 [high, low] = some [Char.ofUInt8 high, Char.ofUInt8 low] := by
  have read : fromUtf8Lossy [high, low] = [high, low].map Char.ofUInt8 := by
    rw [fromUtf8Lossy_one _ first, fromUtf8Lossy_one _ second, ofNat_toNat, ofNat_toNat]
    rfl
  unfold fromUtf8
  rw [read]
  refine if_pos (Bytes.ofText_ascii ?_)
  exact List.forall_mem_cons.mpr ⟨first, List.forall_mem_singleton.mpr second⟩

/-- What is no pair of ASCII bytes is no number. -/
theorem fromUtf8_bind_eq_none {high low : UInt8} (other : ¬(high < 128 ∧ low < 128)) :
    (fromUtf8 [high, low]).bind fromStrRadix = none := by
  cases read : fromUtf8 [high, low] with
  | none => rfl
  | some text =>
    refine Option.not_isSome_iff_eq_none.mp fun number => other ?_
    have every := isAsciiByte_of_fromStrRadix number
    have same : Bytes.ofText (String.ofList text) = [high, low] := by
      unfold fromUtf8 at read
      dsimp only at read
      split at read
      · next whole =>
        cases read
        exact whole
      · cases read
    have bytes : ∃ bytes : List UInt8, (∀ byte ∈ bytes, byte < 128) ∧
        text = bytes.map Char.ofUInt8 := by
      clear read number same
      induction text with
      | nil => exact ⟨[], fun byte member => absurd member List.not_mem_nil, rfl⟩
      | cons character rest inductionHypothesis =>
        obtain ⟨⟨byte, small, rfl⟩, later⟩ := List.forall_mem_cons.mp every
        obtain ⟨bytes, smaller, rfl⟩ := inductionHypothesis later
        exact ⟨byte :: bytes, List.forall_mem_cons.mpr ⟨small, smaller⟩, rfl⟩
    obtain ⟨bytes, small, rfl⟩ := bytes
    rw [Bytes.ofText_ascii small] at same
    subst same
    exact ⟨small high List.mem_cons_self, small low (List.mem_cons_of_mem _ List.mem_cons_self)⟩

/-! ### Escapes -/

theorem nextDigit_ofUInt8 {start : Nat} (small : start < 16) (byte : UInt8) :
    nextDigit start (Char.ofUInt8 byte) =
      (Percent.nibble byte).map fun digit => start * 16 + digit.toNat := by
  unfold nextDigit
  rw [digitValue_ofUInt8, Option.map_map]
  cases digit : Percent.nibble byte with
  | none => rfl
  | some value =>
    have below := nibble_lt digit
    exact if_pos (decide_eq_true (by dsimp only [Function.comp_apply]; omega))

theorem shift_or_eq {high low : UInt8} (first : high.toNat < 16) (second : low.toNat < 16) :
    UInt8.ofNat (high.toNat * 16 + low.toNat) = high <<< 4 ||| low := by
  have every : ∀ high low : Fin 16, UInt8.ofNat (high.val * 16 + low.val) =
      UInt8.ofNat high.val <<< 4 ||| UInt8.ofNat low.val := by decide +kernel
  have found := every ⟨high.toNat, first⟩ ⟨low.toNat, second⟩
  rwa [UInt8.ofNat_toNat, UInt8.ofNat_toNat] at found

/-- A plus sign in place of the first digit makes a number of the second. -/
theorem hexPair_signed (low : UInt8) (later : List UInt8) :
    hexPair 37 (43 :: low :: later) = Percent.nibble low := by
  unfold hexPair
  dsimp only
  rw [if_pos rfl]
  by_cases ascii : low < 128
  · rw [fromUtf8_pair (by decide) ascii, Option.bind_some]
    change (List.foldlM nextDigit 0 [Char.ofUInt8 low]).map UInt8.ofNat = _
    rw [List.foldlM_cons, nextDigit_ofUInt8 (by decide)]
    cases Percent.nibble low with
    | none => rfl
    | some digit =>
      change some (UInt8.ofNat (0 * 16 + digit.toNat)) = some digit
      rw [Nat.zero_mul, Nat.zero_add, UInt8.ofNat_toNat]
  · rw [fromUtf8_bind_eq_none fun both => ascii both.2]
    cases digit : Percent.nibble low with
    | none => rfl
    | some value =>
      have small := Percent.isAscii_of_nibble (Option.isSome_of_eq_some digit)
      exact absurd (of_decide_eq_true small) ascii

/-- Two digits without a plus sign are read as everywhere else. -/
theorem hexPair_unsigned {high : UInt8} (unsigned : high ≠ 43) (low : UInt8)
    (later : List UInt8) :
    hexPair 37 (high :: low :: later) = Percent.escaped 37 (high :: low :: later) := by
  unfold hexPair Percent.escaped
  dsimp only
  rw [if_pos rfl, if_pos rfl]
  by_cases ascii : high < 128 ∧ low < 128
  · rw [fromUtf8_pair ascii.1 ascii.2, Option.bind_some]
    have character : Char.ofUInt8 high ≠ '+' :=
      fun same => unsigned (ofUInt8_injective (same.trans (by decide : '+' = Char.ofUInt8 43)))
    have digits : fromStrRadix [Char.ofUInt8 high, Char.ofUInt8 low] =
        ([Char.ofUInt8 high, Char.ofUInt8 low].foldlM nextDigit 0).map UInt8.ofNat := by
      unfold fromStrRadix
      split
      · next sign => exact absurd (List.cons.inj sign).1 character
      · rfl
    rw [digits, List.foldlM_cons, nextDigit_ofUInt8 (by decide)]
    cases first : Percent.nibble high with
    | none => rfl
    | some upper =>
      have small := nibble_lt first
      change Option.map _ (List.foldlM nextDigit (0 * 16 + upper.toNat) [Char.ofUInt8 low]) = _
      rw [List.foldlM_cons, nextDigit_ofUInt8 (by omega)]
      cases second : Percent.nibble low with
      | none => rfl
      | some lower =>
        change some (UInt8.ofNat ((0 * 16 + upper.toNat) * 16 + lower.toNat)) = _
        rw [Nat.zero_mul, Nat.zero_add, shift_or_eq small (nibble_lt second)]
  · rw [fromUtf8_bind_eq_none ascii]
    cases first : Percent.nibble high with
    | none => rfl
    | some upper =>
      cases second : Percent.nibble low with
      | none => rfl
      | some lower =>
        have small := Percent.isAscii_of_nibble (Option.isSome_of_eq_some first)
        have small' := Percent.isAscii_of_nibble (Option.isSome_of_eq_some second)
        exact absurd ⟨of_decide_eq_true small, of_decide_eq_true small'⟩ ascii

/-! ### Where the decoders part -/

theorem decodeFrom_eq_decodeBytes_drop (skip : Nat) (bytes : List UInt8) :
    decodeFrom skip bytes = decodeBytes (bytes.drop skip) := by
  induction bytes generalizing skip with
  | nil => cases skip <;> rfl
  | cons byte rest inductionHypothesis =>
    cases skip with
    | zero => rfl
    | succ skip => exact inductionHypothesis skip

theorem decodeBytes_cons_of_some {byte value : UInt8} {rest : List UInt8}
    (found : hexPair byte rest = some value) :
    decodeBytes (byte :: rest) = value :: decodeBytes (rest.drop 2) := by
  rw [← decodeFrom_eq_decodeBytes_drop]
  unfold decodeBytes
  rw [decodeFrom, found]

theorem decodeBytes_cons_of_none {byte : UInt8} {rest : List UInt8}
    (plain : hexPair byte rest = none) :
    decodeBytes (byte :: rest) = plusToSpace byte :: decodeBytes rest := by
  unfold decodeBytes
  rw [decodeFrom, plain]

/-- What the standard makes of some bytes. -/
def standardBytes (bytes : List UInt8) : List UInt8 := Percent.decode (bytes.map plusToSpace)

/-- A space is no digit, and a plus sign is none either. -/
theorem nibble_plusToSpace (byte : UInt8) :
    Percent.nibble (plusToSpace byte) = Percent.nibble byte := by
  unfold plusToSpace
  split
  · next sign =>
    rw [sign]
    decide
  · rfl

theorem plusToSpace_eq_sign_iff {byte : UInt8} : plusToSpace byte = 37 ↔ byte = 37 := by
  unfold plusToSpace
  split
  · next sign =>
    rw [sign]
    decide
  · rfl

/-- Plus signs make no difference to the escapes of the standard. -/
theorem escaped_plusToSpace (byte : UInt8) (rest : List UInt8) :
    Percent.escaped (plusToSpace byte) (rest.map plusToSpace) = Percent.escaped byte rest := by
  cases rest with
  | nil => rfl
  | cons high rest =>
    cases rest with
    | nil => rfl
    | cons low later =>
      simp only [List.map_cons, Percent.escaped, nibble_plusToSpace, plusToSpace_eq_sign_iff]

/-- An escape is read alike, except after a plus sign. -/
theorem hexPair_eq_escaped {byte : UInt8} {rest : List UInt8}
    (unsigned : ¬∃ low later, byte = 37 ∧ rest = 43 :: low :: later ∧
      (Percent.nibble low).isSome) : hexPair byte rest = Percent.escaped byte rest := by
  cases rest with
  | nil => rfl
  | cons high rest =>
    cases rest with
    | nil => rfl
    | cons low later =>
      by_cases sign : byte = 37
      · subst sign
        by_cases plus : high = 43
        · subst plus
          rw [hexPair_signed]
          have none : ¬(Percent.nibble low).isSome := fun digit =>
            unsigned ⟨low, later, rfl, rfl, digit⟩
          rw [Option.not_isSome_iff_eq_none.mp none]
          rfl
        · exact hexPair_unsigned plus low later
      · have left : hexPair byte (high :: low :: later) = none := if_neg sign
        have right : Percent.escaped byte (high :: low :: later) = none := if_neg sign
        rw [left, right]

theorem HasSigned.cons {bytes : List UInt8} (signed : HasSigned bytes) (byte : UInt8) :
    HasSigned (byte :: bytes) := by
  obtain ⟨front, low, rest, rfl, digit⟩ := signed
  exact ⟨byte :: front, low, rest, rfl, digit⟩

/-- The signed escapes of a sequence are at its start or in the rest. -/
theorem hasSigned_cons_iff {byte : UInt8} {rest : List UInt8} :
    HasSigned (byte :: rest) ↔ (∃ low later, byte = 37 ∧ rest = 43 :: low :: later ∧
      (Percent.nibble low).isSome) ∨ HasSigned rest := by
  constructor
  · rintro ⟨front, low, later, same, digit⟩
    cases front with
    | nil =>
      obtain ⟨rfl, rfl⟩ := List.cons.inj same
      exact .inl ⟨low, later, rfl, rfl, digit⟩
    | cons other front =>
      obtain ⟨-, rfl⟩ := List.cons.inj same
      exact .inr ⟨front, low, later, rfl, digit⟩
  · rintro (⟨low, later, rfl, rfl, digit⟩ | signed)
    · exact ⟨[], low, later, rfl, digit⟩
    · exact signed.cons byte

/-- No signed escape starts in a digit. -/
theorem hasSigned_digit_cons {digit : UInt8} {rest : List UInt8}
    (value : (Percent.nibble digit).isSome) : HasSigned (digit :: rest) ↔ HasSigned rest := by
  rw [hasSigned_cons_iff]
  refine or_iff_right ?_
  rintro ⟨low, later, rfl, -⟩
  cases value

theorem standardBytes_cons_of_some {byte value : UInt8} {rest : List UInt8}
    (found : Percent.escaped byte rest = some value) :
    standardBytes (byte :: rest) = value :: standardBytes (rest.drop 2) := by
  rw [← escaped_plusToSpace] at found
  unfold standardBytes
  rw [List.map_cons, Percent.decode_cons_of_escaped found, List.map_drop]

theorem standardBytes_cons_of_none {byte : UInt8} {rest : List UInt8}
    (plain : Percent.escaped byte rest = none) :
    standardBytes (byte :: rest) = plusToSpace byte :: standardBytes rest := by
  rw [← escaped_plusToSpace] at plain
  unfold standardBytes
  rw [List.map_cons, Percent.decode_cons_of_not_escaped plain]

/-- A signed escape is a byte for one decoder and three for the other. -/
theorem decode_signed {low value : UInt8} (later : List UInt8)
    (digit : Percent.nibble low = some value) :
    decodeBytes (37 :: 43 :: low :: later) = value :: decodeBytes later ∧
      standardBytes (37 :: 43 :: low :: later) = 37 :: 32 :: low :: standardBytes later := by
  have isDigit := Option.isSome_of_eq_some digit
  have notSign : low ≠ 37 := by
    rintro rfl
    cases isDigit
  have notPlus : plusToSpace low = low := by
    refine if_neg ?_
    rintro rfl
    cases isDigit
  have first : Percent.escaped 37 (43 :: low :: later) = none := rfl
  have second : Percent.escaped 43 (low :: later) = none := by
    cases later <;> rfl
  have third : Percent.escaped low later = none := by
    cases none : Percent.escaped low later with
    | none => rfl
    | some other => exact absurd (Percent.escaped_eq_some none).1 notSign
  constructor
  · rw [decodeBytes_cons_of_some ((hexPair_signed low later).trans digit)]
    rfl
  · rw [standardBytes_cons_of_none first, standardBytes_cons_of_none second,
      standardBytes_cons_of_none third, notPlus]
    rfl

/-- A signed escape at the start is a percent sign that the standard alone keeps. -/
theorem count_lt_of_signed {low : UInt8} {later : List UInt8}
    (digit : (Percent.nibble low).isSome)
    (atMost : (decodeBytes later).count 37 ≤ (standardBytes later).count 37) :
    (decodeBytes (37 :: 43 :: low :: later)).count 37 <
      (standardBytes (37 :: 43 :: low :: later)).count 37 := by
  obtain ⟨value, digit⟩ := Option.isSome_iff_exists.mp digit
  obtain ⟨ours, theirs⟩ := decode_signed later digit
  have small := nibble_lt digit
  have other : value ≠ 37 := by
    rintro rfl
    exact absurd small (by decide)
  rw [ours, theirs, List.count_cons_of_ne other, List.count_cons_self]
  exact Nat.lt_succ_of_le (atMost.trans
    ((List.count_le_count_cons ..).trans (List.count_le_count_cons ..)))

/-- Without a signed escape the decoders agree, and with one the standard keeps a percent sign
more. -/
theorem decodeBytes_cases (bytes : List UInt8) :
    (¬HasSigned bytes → decodeBytes bytes = standardBytes bytes) ∧
      (HasSigned bytes → (decodeBytes bytes).count 37 < (standardBytes bytes).count 37) := by
  induction length : bytes.length using Nat.strongRecOn generalizing bytes with
  | ind size inductionHypothesis =>
    have atMost : ∀ later : List UInt8, later.length < size →
        (decodeBytes later).count 37 ≤ (standardBytes later).count 37 := by
      intro later shorter
      obtain ⟨same, less⟩ := inductionHypothesis _ shorter later rfl
      by_cases signed : HasSigned later
      · exact (less signed).le
      · rw [same signed]
    cases bytes with
    | nil =>
      refine ⟨fun _ => rfl, ?_⟩
      rintro ⟨front, low, rest, same, -⟩
      simp at same
    | cons byte rest =>
      by_cases start : ∃ low later, byte = 37 ∧ rest = 43 :: low :: later ∧
          (Percent.nibble low).isSome
      · have signed := hasSigned_cons_iff.mpr (.inl start)
        refine ⟨fun without => absurd signed without, fun _ => ?_⟩
        obtain ⟨low, later, rfl, rfl, digit⟩ := start
        have fewer := atMost later (by rw [← length]; simp only [List.length_cons]; omega)
        exact count_lt_of_signed digit fewer
      · have agree := hexPair_eq_escaped start
        have signed : HasSigned (byte :: rest) ↔ HasSigned rest :=
          hasSigned_cons_iff.trans (or_iff_right start)
        cases found : Percent.escaped byte rest with
        | none =>
          obtain ⟨same, less⟩ := inductionHypothesis rest.length (by rw [← length]; simp) rest rfl
          rw [signed, decodeBytes_cons_of_none (agree.trans found),
            standardBytes_cons_of_none found]
          refine ⟨fun without => by rw [same without], fun present => ?_⟩
          rw [List.count_cons, List.count_cons]
          exact Nat.add_lt_add_right (less present) _
        | some value =>
          obtain ⟨-, high, low, later, rfl, first, second⟩ := Percent.escaped_eq_some found
          have shorter : later.length < size := by
            rw [← length]
            simp only [List.length_cons]
            omega
          obtain ⟨same, less⟩ := inductionHypothesis later.length shorter later rfl
          rw [signed, hasSigned_digit_cons first, hasSigned_digit_cons second,
            decodeBytes_cons_of_some (agree.trans found), standardBytes_cons_of_some found]
          refine ⟨fun without => congrArg (value :: ·) (same without), fun present => ?_⟩
          rw [List.count_cons, List.count_cons]
          exact Nat.add_lt_add_right (less present) _

/-! ### Texts -/

/-- A text with a percent sign before a plus sign and a hexadecimal digit. -/
def Signed (text : List Char) : Prop := HasSigned (Bytes.ofText (String.ofList text))

theorem ofNat_toNat_injective : Function.Injective fun byte : UInt8 => Char.ofNat byte.toNat := by
  intro first second same
  dsimp only at same
  rw [ofNat_toNat, ofNat_toNat] at same
  exact ofUInt8_injective same

/-- Every percent sign that is read was one of the bytes. -/
theorem count_fromUtf8Lossy (bytes : List UInt8) :
    (fromUtf8Lossy bytes).count '%' = bytes.count 37 := by
  have sign : Bytes.isAsciiCharacter '%' = true := by decide
  have byte : Bytes.isAscii 37 = true := by decide
  rw [← List.count_filter sign, filter_fromUtf8Lossy, asciiPart, ← List.count_filter byte]
  exact List.count_map_of_injective _ _ ofNat_toNat_injective 37

theorem formDecode_eq_iff (text : List Char) :
    formDecode text = standardDecode text ↔ ¬Signed text := by
  obtain ⟨same, less⟩ := decodeBytes_cases (Bytes.ofText (String.ofList text))
  constructor
  · intro equal signed
    have signs := congrArg (List.count '%') equal
    unfold formDecode standardDecode at signs
    rw [count_fromUtf8Lossy, count_fromUtf8Lossy] at signs
    exact absurd signs (less signed).ne
  · intro unsigned
    exact congrArg fromUtf8Lossy (same unsigned)

/-- What a text has in a part of it, it has. -/
theorem Signed.of_infix {part text : List Char} (inside : part <:+: text) (signed : Signed part) :
    Signed text := by
  obtain ⟨before, after, rfl⟩ := inside
  obtain ⟨front, low, rest, same, digit⟩ := signed
  refine ⟨Bytes.ofText (String.ofList before) ++ front, low,
    rest ++ Bytes.ofText (String.ofList after), ?_, digit⟩
  rw [String.ofList_append, String.ofList_append, Bytes.ofText_append, Bytes.ofText_append, same]
  simp

theorem infix_of_mem_pairs {query : List Char} {pair : List Char × List Char}
    (member : pair ∈ pairs query) : pair.1 <:+: query ∧ pair.2 <:+: query := by
  obtain ⟨part, listed, rfl⟩ := List.mem_map.mp member
  have inside := Lines.infix_of_mem_splitOn listed
  cases split : Parts.splitOnce '=' part with
  | none => exact ⟨inside, List.nil_infix⟩
  | some sides =>
    have whole := Parts.eq_append_of_splitOnce split
    have key : sides.1 <:+: part := ⟨[], '=' :: sides.2, whole.symm⟩
    have value : sides.2 <:+: part := ⟨sides.1 ++ ['='], [], by rw [whole]; simp⟩
    exact ⟨key.trans inside, value.trans inside⟩

/-- Two ways to decode that agree on the parts of a query find the same value. -/
theorem firstValue_congr {decode decode' : List Char → List Char} {query : List Char}
    (agree : ∀ part, part <:+: query → decode part = decode' part) (name : List Char) :
    firstValue decode query name = firstValue decode' query name := by
  have keys : (pairs query).find? (fun pair => decode pair.1 = name) =
      (pairs query).find? fun pair => decode' pair.1 = name := by
    rw [← List.head?_filter, ← List.head?_filter]
    refine congrArg List.head? (List.filter_congr fun pair member => ?_)
    rw [agree pair.1 (infix_of_mem_pairs member).1]
  unfold firstValue
  rw [keys]
  cases found : (pairs query).find? fun pair => decode' pair.1 = name with
  | none => rfl
  | some pair =>
    exact agree pair.2 (infix_of_mem_pairs (List.mem_of_find?_eq_some found)).2

/-- A part without a name is found under the empty name alone, so that for every other name it
makes no difference whether empty parts count. -/
theorem firstValue_of_name {decode : List Char → List Char} (nothing : decode [] = [])
    (query : List Char) {name : List Char} (named : name ≠ []) :
    firstValue decode query name =
      (((((query.splitOn '&').filter (· ≠ [])).map fun pair =>
          (Parts.splitOnce '=' pair).getD (pair, [])).find? fun pair =>
        decode pair.1 = name).map fun pair => decode pair.2).getD [] := by
  unfold firstValue pairs
  induction query.splitOn '&' with
  | nil => rfl
  | cons part rest inductionHypothesis =>
    by_cases empty : part = []
    · subst empty
      have other : decide (decode [] = name) = false :=
        decide_eq_false fun same => named (same.symm.trans nothing)
      rw [List.filter_cons_of_neg (by simp), ← inductionHypothesis, List.map_cons, List.find?_cons]
      simp only [Parts.splitOnce_of_notMem List.not_mem_nil, Option.getD_none, other]
    · rw [List.filter_cons_of_pos (by simpa using empty), List.map_cons, List.map_cons,
        List.find?_cons, List.find?_cons]
      split
      · rfl
      · exact inductionHypothesis

/-- Text by text, decoding and lookups agree with the form encoding exactly where no percent sign
is followed by a plus sign and a hexadecimal digit. -/
theorem decodes_as_forms_iff (text : List Char) :
    (formDecode text = standardDecode text ∧
        ∀ name, queryParam text name = firstValue standardDecode text name) ↔
      ¬Signed text := by
  rw [formDecode_eq_iff]
  refine and_iff_left_of_imp fun unsigned name => firstValue_congr ?_ name
  exact fun part inside => (formDecode_eq_iff part).mpr fun signed =>
    unsigned (signed.of_infix inside)

/-- A lookup reads the keys and one value. Where no key has such a percent sign, it agrees with the
form encoding exactly when the value that is found has none, whatever the other values have. -/
theorem queryParam_eq_firstValue_iff {query : List Char}
    (keys : ∀ pair ∈ pairs query, ¬Signed pair.1) (name : List Char) :
    queryParam query name = firstValue standardDecode query name ↔
      ∀ pair, (pairs query).find? (fun pair => standardDecode pair.1 = name) = some pair →
        ¬Signed pair.2 := by
  have same : (pairs query).find? (fun pair => formDecode pair.1 = name) =
      (pairs query).find? fun pair => standardDecode pair.1 = name := by
    rw [← List.head?_filter, ← List.head?_filter]
    refine congrArg List.head? (List.filter_congr fun pair member => ?_)
    rw [(formDecode_eq_iff pair.1).mpr (keys pair member)]
  have reads : queryParam query name = firstValue formDecode query name := rfl
  rw [reads, firstValue, firstValue, same]
  cases (pairs query).find? fun pair => standardDecode pair.1 = name with
  | none => exact iff_of_true rfl fun _ none => by cases none
  | some pair =>
    refine (formDecode_eq_iff pair.2).trans ⟨fun unsigned other found => ?_, fun every =>
      every pair rfl⟩
    cases found
    exact unsigned

theorem signed_digit_decoded : formDecode "%+f".toList = [Char.ofNat 15] ∧
    standardDecode "%+f".toList = "% f".toList := by
  decide +kernel

/-- A percent sign, a plus sign and a digit are one character here and three everywhere else. -/
theorem not_decodes_as_forms :
    ¬∀ text, formDecode text = standardDecode text ∧
      ∀ name, queryParam text name = firstValue standardDecode text name := by
  intro every
  have same := (every "%+f".toList).1
  rw [signed_digit_decoded.1, signed_digit_decoded.2] at same
  exact absurd same (by decide)

end FormQuery

end Bagel
