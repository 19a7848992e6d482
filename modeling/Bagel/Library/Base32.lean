/-
This file develops Base32 in lower case and without padding. Bytes and symbols are both read as
groups of bits, the highest bit first, so that to encode and to decode are the same regrouping
in the two directions. A text whose last symbol has bits that belong to no byte is decoded only
if these bits are zero. This is why no two texts have the same bytes.
-/

import Mathlib.Algebra.Group.Nat.Defs
import Mathlib.Data.List.Induction
import Mathlib.Data.Option.Basic

namespace Bits

/-- The low bits of a number. -/
def ofNat : Nat → Nat → List Bool
  | 0, _ => []
  | width + 1, value => ofNat width (value / 2) ++ [decide (value % 2 = 1)]

def toNat (bits : List Bool) : Nat := bits.foldl (fun value bit => 2 * value + bit.toNat) 0

@[simp] theorem length_ofNat (width value : Nat) : (ofNat width value).length = width := by
  induction width generalizing value with
  | zero => rfl
  | succ width inductionHypothesis =>
    rw [ofNat, List.length_append, inductionHypothesis, List.length_singleton]

theorem toNat_append_singleton (bits : List Bool) (bit : Bool) :
    toNat (bits ++ [bit]) = 2 * toNat bits + bit.toNat := by
  unfold toNat
  rw [List.foldl_append, List.foldl_cons, List.foldl_nil]

theorem toNat_ofNat {width value : Nat} (fits : value < 2 ^ width) :
    toNat (ofNat width value) = value := by
  induction width generalizing value with
  | zero =>
    rw [Nat.pow_zero] at fits
    exact (Nat.lt_one_iff.mp fits).symm
  | succ width inductionHypothesis =>
    rw [Nat.pow_succ] at fits
    rw [ofNat, toNat_append_singleton, inductionHypothesis (by omega)]
    by_cases odd : value % 2 = 1
    · rw [decide_eq_true odd, Bool.toNat_true]
      omega
    · rw [decide_eq_false odd, Bool.toNat_false]
      omega

theorem toNat_lt (bits : List Bool) : toNat bits < 2 ^ bits.length := by
  induction bits using List.reverseRecOn with
  | nil => exact Nat.one_pos
  | append_singleton bits bit inductionHypothesis =>
    have low : bit.toNat < 2 := Bool.toNat_lt bit
    rw [toNat_append_singleton, List.length_append, List.length_singleton, Nat.pow_succ]
    omega

theorem ofNat_toNat {width : Nat} {bits : List Bool} (long : bits.length = width) :
    ofNat width (toNat bits) = bits := by
  induction bits using List.reverseRecOn generalizing width with
  | nil =>
    subst long
    rfl
  | append_singleton bits bit inductionHypothesis =>
    rw [List.length_append, List.length_singleton] at long
    subst long
    have low : bit.toNat < 2 := Bool.toNat_lt bit
    have high : (2 * toNat bits + bit.toNat) / 2 = toNat bits := by omega
    rw [toNat_append_singleton, ofNat, high, inductionHypothesis rfl]
    cases bit <;> simp

/-! ### Groups -/

/-- So many groups of bits, one after the other. -/
def groups (width : Nat) : Nat → List Bool → List (List Bool)
  | 0, _ => []
  | count + 1, bits => bits.take width :: groups width count (bits.drop width)

variable {width count : Nat}

theorem length_groups (bits : List Bool) : (groups width count bits).length = count := by
  induction count generalizing bits with
  | zero => rfl
  | succ count inductionHypothesis => rw [groups, List.length_cons, inductionHypothesis]

theorem length_of_mem_groups {bits group : List Bool} (enough : width * count ≤ bits.length)
    (member : group ∈ groups width count bits) : group.length = width := by
  induction count generalizing bits with
  | zero => cases member
  | succ count inductionHypothesis =>
    rw [Nat.mul_succ] at enough
    rcases List.mem_cons.mp member with rfl | later
    · rw [List.length_take]
      omega
    · refine inductionHypothesis ?_ later
      rw [List.length_drop]
      omega

/-- Groups one after the other are the bits they were taken from. -/
theorem flatten_groups {bits : List Bool} (enough : width * count ≤ bits.length) :
    (groups width count bits).flatten = bits.take (width * count) := by
  induction count generalizing bits with
  | zero => rfl
  | succ count inductionHypothesis =>
    rw [Nat.mul_succ] at enough
    have left : width * count ≤ (bits.drop width).length := by
      rw [List.length_drop]
      omega
    rw [groups, List.flatten_cons, inductionHypothesis left, Nat.mul_succ, Nat.add_comm,
      List.take_add]

/-- Lists of one length are the groups of what they make up, whatever comes after. -/
theorem groups_flatten {parts : List (List Bool)} (even : ∀ part ∈ parts, part.length = width)
    (rest : List Bool) : groups width parts.length (parts.flatten ++ rest) = parts := by
  induction parts with
  | nil => rfl
  | cons part parts inductionHypothesis =>
    have first : part.length = width := even part List.mem_cons_self
    rw [List.length_cons, groups, List.flatten_cons, List.append_assoc, List.take_left' first,
      List.drop_left' first,
      inductionHypothesis fun other member => even other (List.mem_cons_of_mem part member)]

theorem length_flatMap_ofNat (values : List Nat) :
    (values.flatMap (ofNat width)).length = width * values.length := by
  induction values with
  | nil => rfl
  | cons value values inductionHypothesis =>
    rw [List.flatMap_cons, List.length_append, length_ofNat, inductionHypothesis,
      List.length_cons, Nat.mul_succ, Nat.add_comm]

/-- The numbers that groups of bits stand for have these bits. -/
theorem flatMap_ofNat_toNat {parts : List (List Bool)}
    (even : ∀ part ∈ parts, part.length = width) :
    (parts.map toNat).flatMap (ofNat width) = parts.flatten := by
  induction parts with
  | nil => rfl
  | cons part parts inductionHypothesis =>
    rw [List.map_cons, List.flatMap_cons, List.flatten_cons,
      ofNat_toNat (even part List.mem_cons_self),
      inductionHypothesis fun other member => even other (List.mem_cons_of_mem part member)]

/-- Numbers are those that their bits stand for, group by group. -/
theorem map_toNat_groups {values : List Nat} (fits : ∀ value ∈ values, value < 2 ^ width)
    (rest : List Bool) :
    (groups width values.length (values.flatMap (ofNat width) ++ rest)).map toNat = values := by
  have even : ∀ part ∈ values.map (ofNat width), part.length = width := by
    intro part member
    obtain ⟨value, _, rfl⟩ := List.mem_map.mp member
    exact length_ofNat width value
  have grouped := groups_flatten even rest
  rw [List.length_map, ← List.flatMap_def] at grouped
  rw [grouped, List.map_map]
  exact List.map_congr_left (fun value member => toNat_ofNat (fits value member)) |>.trans
    (List.map_id values)

end Bits

namespace Base32

/-- The alphabet of RFC 4648 in lower case. -/
def symbols : List Char := "abcdefghijklmnopqrstuvwxyz234567".toList

def symbol (value : Nat) : Char := symbols.getD value 'a'

def value (character : Char) : Option Nat := symbols.idxOf? character

/-- How many symbols so many bits take. -/
def symbolCount (bits : Nat) : Nat := (bits + 4) / 5

/-- The bits of bytes. -/
def bitsOf (bytes : List UInt8) : List Bool := (bytes.map UInt8.toNat).flatMap (Bits.ofNat 8)

def encode (bytes : List UInt8) : List Char :=
  let bits := bitsOf bytes
  let count := symbolCount bits.length
  let padding := List.replicate (5 * count - bits.length) false
  (Bits.groups 5 count (bits ++ padding)).map fun group => symbol (Bits.toNat group)

def decode (text : List Char) : Option (List UInt8) := do
  let values ← text.mapM value
  let bits := values.flatMap (Bits.ofNat 5)
  let count := bits.length / 8
  let rest := bits.drop (8 * count)
  if rest.length < 5 ∧ rest.all (!·) then
    some ((Bits.groups 8 count bits).map fun group => UInt8.ofNat (Bits.toNat group))
  else none

theorem value_symbol {number : Nat} (small : number < 32) :
    value (symbol number) = some number := by
  have every : ∀ number : Fin 32, value (symbol number.val) = some number.val := by decide
  exact every ⟨number, small⟩

theorem symbol_of_value {character : Char} {number : Nat} (found : value character = some number) :
    number < 32 ∧ symbol number = character := by
  obtain ⟨within, there, -⟩ := List.idxOf?_eq_some_iff.mp found
  refine ⟨within, ?_⟩
  rw [symbol, List.getD_eq_getElem?_getD, List.getElem?_eq_getElem within, Option.getD_some]
  exact there

theorem length_bitsOf (bytes : List UInt8) : (bitsOf bytes).length = 8 * bytes.length := by
  rw [bitsOf, Bits.length_flatMap_ofNat, List.length_map]

theorem length_encode (bytes : List UInt8) :
    (encode bytes).length = symbolCount (8 * bytes.length) := by
  rw [encode, List.length_map, Bits.length_groups, length_bitsOf]

/-- What is encoded consists of symbols. -/
theorem mem_symbols_of_mem_encode {bytes : List UInt8} {character : Char}
    (member : character ∈ encode bytes) : character ∈ symbols := by
  obtain ⟨group, _, rfl⟩ := List.mem_map.mp member
  rw [symbol, List.getD_eq_getElem?_getD]
  cases found : symbols[Bits.toNat group]? with
  | none => exact List.mem_cons_self
  | some found' => exact List.mem_of_getElem? found

/-- Symbols that stand for numbers are read as these numbers. -/
theorem mapM_value {numbers : List Nat} (small : ∀ number ∈ numbers, number < 32) :
    (numbers.map symbol).mapM value = some numbers := by
  induction numbers with
  | nil => rfl
  | cons number numbers inductionHypothesis =>
    rw [List.map_cons, List.mapM_cons, value_symbol (small number List.mem_cons_self),
      inductionHypothesis fun other member => small other (List.mem_cons_of_mem number member)]
    rfl

theorem map_symbol_of_mapM {text : List Char} {numbers : List Nat}
    (found : text.mapM value = some numbers) :
    (∀ number ∈ numbers, number < 32) ∧ numbers.map symbol = text := by
  induction text generalizing numbers with
  | nil =>
    cases found
    exact ⟨fun _ member => absurd member List.not_mem_nil, rfl⟩
  | cons character text inductionHypothesis =>
    simp only [List.mapM_cons, Option.bind_eq_bind, Option.bind_eq_some_iff] at found
    obtain ⟨number, first, others, rest, ⟨⟩⟩ := found
    obtain ⟨small, same⟩ := symbol_of_value first
    obtain ⟨smallOthers, sameOthers⟩ := inductionHypothesis rest
    refine ⟨List.forall_mem_cons.mpr ⟨small, smallOthers⟩, ?_⟩
    rw [List.map_cons, same, sameOthers]

/-- The bits of bytes, with the padding that `encode` adds. -/
def padded (bytes : List UInt8) : List Bool :=
  bitsOf bytes ++
    List.replicate (5 * symbolCount (8 * bytes.length) - 8 * bytes.length) false

theorem encode_eq (bytes : List UInt8) :
    encode bytes =
      ((Bits.groups 5 (symbolCount (8 * bytes.length)) (padded bytes)).map Bits.toNat).map
        symbol := by
  rw [encode, length_bitsOf, List.map_map]
  rfl

theorem length_padded (bytes : List UInt8) :
    (padded bytes).length = 5 * symbolCount (8 * bytes.length) := by
  rw [padded, List.length_append, length_bitsOf, List.length_replicate]
  unfold symbolCount
  omega

/-- What was encoded is decoded. -/
theorem decode_encode (bytes : List UInt8) : decode (encode bytes) = some bytes := by
  have even : ∀ part ∈ Bits.groups 5 (symbolCount (8 * bytes.length)) (padded bytes),
      part.length = 5 :=
    fun part member => Bits.length_of_mem_groups (Nat.le_of_eq (length_padded bytes).symm) member
  have read : (encode bytes).mapM value =
      some ((Bits.groups 5 (symbolCount (8 * bytes.length)) (padded bytes)).map Bits.toNat) := by
    rw [encode_eq]
    refine mapM_value fun number member => ?_
    obtain ⟨part, among, rfl⟩ := List.mem_map.mp member
    exact Nat.lt_of_lt_of_eq (Bits.toNat_lt part) (by rw [even part among]; rfl)
  have bits : (Bits.groups 5 (symbolCount (8 * bytes.length)) (padded bytes)).flatten =
      padded bytes := by
    rw [Bits.flatten_groups (Nat.le_of_eq (length_padded bytes).symm), ← length_padded,
      List.take_length]
  have count : (padded bytes).length / 8 = bytes.length := by
    rw [length_padded]
    unfold symbolCount
    omega
  have rest : (padded bytes).drop (8 * bytes.length) =
      List.replicate (5 * symbolCount (8 * bytes.length) - 8 * bytes.length) false := by
    rw [padded, List.drop_left' (length_bitsOf bytes)]
  have few : 5 * symbolCount (8 * bytes.length) - 8 * bytes.length < 5 := by
    unfold symbolCount
    omega
  unfold decode
  rw [read, Option.bind_eq_bind, Option.bind_some]
  dsimp only
  rw [Bits.flatMap_ofNat_toNat even, bits, count, rest, List.length_replicate,
    if_pos ⟨few, by simp⟩]
  have small : ∀ number ∈ bytes.map UInt8.toNat, number < 2 ^ 8 := by
    intro number member
    obtain ⟨byte, _, rfl⟩ := List.mem_map.mp member
    exact byte.toNat_lt
  have grouped := Bits.map_toNat_groups small
    (List.replicate (5 * symbolCount (8 * bytes.length) - 8 * bytes.length) false)
  rw [List.length_map] at grouped
  have whole := congrArg (List.map UInt8.ofNat) grouped
  rw [List.map_map, List.map_map] at whole
  refine congrArg some (whole.trans ?_)
  exact (List.map_congr_left fun byte _ => UInt8.ofNat_toNat).trans (List.map_id bytes)

/-- What is decoded is what these bytes are encoded as. -/
theorem encode_of_decode {text : List Char} {bytes : List UInt8}
    (decoded : decode text = some bytes) : encode bytes = text := by
  simp only [decode, Option.bind_eq_bind, Option.bind_eq_some_iff] at decoded
  obtain ⟨numbers, read, rest⟩ := decoded
  obtain ⟨small, same⟩ := map_symbol_of_mapM read
  split at rest
  case isFalse => cases rest
  rename_i trailing
  obtain ⟨few, zero⟩ := trailing
  have result := (Option.some.inj rest).symm
  generalize bits : numbers.flatMap (Bits.ofNat 5) = stream at few zero result
  have long : stream.length = 5 * numbers.length := by
    rw [← bits, Bits.length_flatMap_ofNat]
  have enough : 8 * (stream.length / 8) ≤ stream.length := Nat.mul_div_le _ _
  have bytesLength : bytes.length = stream.length / 8 := by
    rw [result, List.length_map, Bits.length_groups]
  have values : bytes.map UInt8.toNat =
      (Bits.groups 8 (stream.length / 8) stream).map Bits.toNat := by
    rw [result, List.map_map]
    refine List.map_congr_left fun group member => ?_
    have fits := Bits.toNat_lt group
    rw [Bits.length_of_mem_groups enough member] at fits
    exact UInt8.toNat_ofNat_of_lt' fits
  have whole : bitsOf bytes = stream.take (8 * (stream.length / 8)) := by
    rw [bitsOf, values, Bits.flatMap_ofNat_toNat fun group member =>
      Bits.length_of_mem_groups enough member, Bits.flatten_groups enough]
  have count : symbolCount (8 * bytes.length) = numbers.length := by
    rw [List.length_drop] at few
    rw [bytesLength]
    unfold symbolCount
    omega
  have zeros : stream.drop (8 * (stream.length / 8)) =
      List.replicate (5 * numbers.length - 8 * bytes.length) false := by
    refine List.eq_replicate_iff.mpr ⟨?_, fun bit member => ?_⟩
    · rw [List.length_drop, bytesLength, long]
    · simpa using List.all_eq_true.mp zero bit member
  have stretched : padded bytes = stream ++ [] := by
    rw [padded, whole, count, ← zeros, List.take_append_drop, List.append_nil]
  rw [encode_eq, count, stretched, ← bits, Bits.map_toNat_groups small, same]

/-- No two texts are decoded to the same bytes. -/
theorem decode_inj {first second : List Char} {bytes : List UInt8}
    (decoded : decode first = some bytes) (decoded' : decode second = some bytes) :
    first = second :=
  (encode_of_decode decoded).symm.trans (encode_of_decode decoded')

end Base32
