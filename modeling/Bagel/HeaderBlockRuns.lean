/-
This file follows the reader of pseudo headers through a block. Whatever the block is, the size that
its table keeps is that of the entries, so that an entry is always there where one has to go, and
integers come out as they were written, within 64 bits.

The reader takes no more than ten octets behind the prefix of an integer. The RFC lets a reader set
such a limit; without one, zeros may follow that add nothing, and the two differ there.
-/

import Bagel.HeaderBlocks

namespace Bagel

namespace Hpack

open HeaderCompression (totalSize)

variable {huffman : List UInt8 → Option (List UInt8)}

/-! ### Eviction -/

/-- The loop of `evict_to` over the entries, the oldest first, with a size that is kept apart from
them. There is no result where the pop finds nothing. -/
def popTo (limit : Nat) : List TableEntry → Nat → Option (List TableEntry × Nat)
  | [], size => if limit < size then none else some ([], size)
  | oldest :: newer, size =>
    if limit < size then popTo limit newer (size - oldest.size) else some (oldest :: newer, size)

/-- The pop always finds something. -/
theorem popTo_eq (limit : Nat) (table : DynamicTable) :
    popTo limit table.entries.reverse table.size =
      some ((table.evictTo limit).entries.reverse, (table.evictTo limit).size) := by
  generalize count : table.entries.length = length
  induction length generalizing table with
  | zero =>
    have none := List.eq_nil_of_length_eq_zero count
    have fits : ¬limit < table.size := fun exceeds => DynamicTable.entries_ne_nil exceeds none
    rw [DynamicTable.evictTo, dif_neg fits, none, List.reverse_nil, popTo, if_neg fits]
  | succ length inductionHypothesis =>
    have filled : table.entries ≠ [] := by
      intro none
      rw [none] at count
      cases count
    have parts : table.entries.reverse =
        table.entries.getLast filled :: table.entries.dropLast.reverse := by
      rw [← List.reverse_concat, List.dropLast_concat_getLast]
    rw [DynamicTable.evictTo, parts, popTo]
    by_cases exceeds : limit < table.size
    · rw [if_pos exceeds, dif_pos exceeds]
      refine inductionHypothesis (table.popBack (DynamicTable.entries_ne_nil exceeds)) ?_
      rw [DynamicTable.popBack, List.length_dropLast, count, Nat.add_sub_cancel]
    · rw [if_neg exceeds, dif_neg exceeds, parts]

/-! ### What the loop comes to -/

/-- The decoders that the loop over a block comes to, with the bytes that remain. -/
inductive Reached (huffman : List UInt8 → Option (List UInt8)) (block : List UInt8) :
    Decoder → List UInt8 → Prop where
  | start : Reached huffman block start block
  | pass {decoder next : Decoder} {remaining rest : List UInt8}
      (before : Reached huffman block decoder remaining) (some : remaining ≠ [])
      (passed : Decoder.pass huffman decoder remaining = .ok (next, rest)) :
      Reached huffman block next rest

variable {block : List UInt8}

/-- Passes only take from the block. -/
theorem Reached.length_le {decoder : Decoder} {remaining : List UInt8}
    (reached : Reached huffman block decoder remaining) : remaining.length ≤ block.length := by
  induction reached with
  | start => exact Nat.le_refl _
  | @pass decoder next remaining rest before some passed inductionHypothesis =>
    exact (Nat.le_of_lt (Decoder.advances_pass decoder passed)).trans inductionHypothesis

/-- Every decoder of the loop carries what was decoded. -/
theorem Reached.carries {decoder : Decoder} {remaining : List UInt8}
    (reached : Reached huffman block decoder remaining) (short : block.length < 2 ^ 64) :
    ∃ state, Carries decoder state := by
  induction reached with
  | start => exact ⟨_, carries_start⟩
  | @pass decoder next remaining rest before some passed inductionHypothesis =>
    obtain ⟨state, carries⟩ := inductionHypothesis
    cases remaining with
    | nil => exact absurd rfl some
    | cons first later =>
      obtain ⟨meant, result, -, -, -, carries⟩ :=
        exists_of_pass carries (before.length_le.trans_lt short) passed
      exact ⟨result, carries⟩

/-- What holds of the dynamic table throughout. -/
structure DynamicTable.Sound (table : DynamicTable) : Prop where
  tracks : table.size = (table.entries.map TableEntry.size).sum
  fits : table.size ≤ table.capacity
  within : table.capacity ≤ maxTable
  pops : ∀ limit, (popTo limit table.entries.reverse table.size).isSome

theorem Representation.bits_le {representation : Representation} {bits : Nat}
    (mask : representation.mask = 2 ^ bits - 1) : bits ≤ 7 := by
  have small : representation.mask < 2 ^ 7 := by
    cases representation <;> decide
  have less : 2 ^ bits ≤ 2 ^ 7 := by omega
  exact (Nat.pow_le_pow_iff_right (by decide : 1 < 2)).mp less

theorem Reached.sound {decoder : Decoder} {remaining : List UInt8}
    (reached : Reached huffman block decoder remaining) (short : block.length < 2 ^ 64) :
    decoder.table.Sound := by
  obtain ⟨state, carries⟩ := reached.carries short
  refine ⟨decoder.table.tracks, ?_, ?_, ?_⟩
  · rw [size_eq_totalSize carries.table.entries, carries.table.capacity]
    exact carries.fits
  · rw [carries.table.capacity]
    exact carries.within
  · intro limit
    rw [popTo_eq]
    rfl

/-- The reader follows the RFC: it accepts the blocks that decode within its limits, with the pseudo
headers in their order. Its table is sound throughout, and so are the integers wherever it reads
one. -/
theorem reader_follows_rfc (huffman : List UInt8 → Option (List UInt8)) (block : List UInt8)
    (fits : block.length ≤ maxBlock) :
    (∀ order, Order.tryFrom huffman block = .ok order ↔
      ∃ final, HeaderCompression.Decodes (coding huffman) setting setting.start block final ∧
        final.fields.length ≤ maxHeaders ∧ totalSize final.fields ≤ maxDecoded ∧
          PseudoFirst final.fields order) ∧
      (∀ decoder remaining, Reached huffman block decoder remaining → decoder.table.Sound) ∧
        ∀ (representation : Representation) (bits : Nat), representation.mask = 2 ^ bits - 1 →
          ∀ remaining value rest, integer representation.mask remaining = .ok (value, rest) ↔
            HeaderCompression.integer (some maxOctets) bits remaining = some (value, rest) ∧
              value < 2 ^ 64 := by
  refine ⟨fun order => tryFrom_eq_ok_iff fits, ?_, ?_⟩
  · intro decoder remaining reached
    exact reached.sound (Nat.lt_of_le_of_lt fits (by decide))
  · intro representation bits mask remaining value rest
    rw [mask]
    exact integer_eq_ok_iff bits (Representation.bits_le mask)

end Hpack

namespace SampleHeaders

/-- A decoder of strings that knows none. -/
def silent (_ : List UInt8) : Option (List UInt8) := none

/-- A table of 70 bytes, and `:method: PUT`, `:scheme: https`, `:path: /a` and `x: y`. The first,
the third and the last of them are inserted, each but the first drives the one before out, and
`x: y` comes once more by its index. -/
def evicting : List UInt8 :=
  [0x3F, 39, 0x42, 3, 0x50, 0x55, 0x54, 0x87, 0x44, 2, 0x2F, 0x61, 0x40, 1, 0x78, 1, 0x79, 0xBE]

theorem exists_decodes_evicting : ∃ final, HeaderCompression.Decodes (Hpack.coding silent)
    Hpack.setting Hpack.setting.start evicting final ∧ final.table = ⟨[⟨[0x78], [0x79]⟩], 70⟩ ∧
      final.fields.length = 5 ∧ HeaderCompression.totalSize final.fields = 193 ∧
        Hpack.PseudoFirst final.fields [.method, .scheme, .path] := by
  have decodes : HeaderCompression.Decodes (Hpack.coding silent) Hpack.setting
      Hpack.setting.start evicting _ :=
    .more rfl rfl <| .more rfl rfl <| .more rfl rfl <| .more rfl rfl <| .more rfl rfl <|
      .more rfl rfl <| .done _
  refine ⟨_, decodes, rfl, rfl, rfl, List.take 3 _, List.replicate 2 ⟨[0x78], [0x79]⟩,
    (List.take_append_drop 3 _).symm, rfl, by decide, fun field member => ?_⟩
  rw [List.eq_of_mem_replicate member]
  exact ⟨List.cons_ne_nil _ _, by decide⟩

theorem evicting_follows_rfc :
    Hpack.Order.tryFrom silent evicting = .ok [.method, .scheme, .path] ∧
      (∃ final, HeaderCompression.Decodes (Hpack.coding silent) Hpack.setting Hpack.setting.start
        evicting final ∧ final.table = ⟨[⟨[0x78], [0x79]⟩], 70⟩) ∧
      ∀ decoder remaining, Hpack.Reached silent evicting decoder remaining →
        decoder.table.Sound := by
  obtain ⟨follows, sound, -⟩ := Hpack.reader_follows_rfc silent evicting (by decide)
  obtain ⟨final, decodes, table, count, size, first⟩ := exists_decodes_evicting
  have fits : final.fields.length ≤ Hpack.maxHeaders := by
    rw [count]
    decide
  have short : HeaderCompression.totalSize final.fields ≤ Hpack.maxDecoded := by
    rw [size]
    decide
  exact ⟨(follows _).mpr ⟨final, decodes, fits, short, first⟩, ⟨final, decodes, table⟩, sound⟩

/-- A size update to 31 with ten zeros behind it, and the last of the octets. -/
def padded : List UInt8 := 0x3F :: (List.replicate 10 0x80 ++ [0])

/-- Without a limit on the octets, the reader and the RFC differ. -/
theorem reader_refuses_padded : ¬∀ block : List UInt8, block.length ≤ Hpack.maxBlock → ∀ order,
    (Hpack.Order.tryFrom silent block = .ok order ↔
      ∃ final, HeaderCompression.Decodes ⟨silent, none⟩ Hpack.setting Hpack.setting.start block
          final ∧
        final.fields.length ≤ Hpack.maxHeaders ∧
          HeaderCompression.totalSize final.fields ≤ Hpack.maxDecoded ∧
            Hpack.PseudoFirst final.fields order) := by
  intro follows
  have reads : HeaderCompression.read ⟨silent, none⟩ padded = some (.sizeUpdate 31, []) := by
    rfl
  have applies : (HeaderCompression.Representation.sizeUpdate 31).apply Hpack.setting
      Hpack.setting.start = some ⟨⟨[], 31⟩, []⟩ := by
    rfl
  have decodes := HeaderCompression.Decodes.more reads applies (.done _)
  have accepted := (follows padded (by decide) []).mpr
    ⟨_, decodes, Nat.zero_le _, Nat.zero_le _, [], [], rfl, rfl, List.nodup_nil,
      fun field member => absurd member List.not_mem_nil⟩
  have refused : Hpack.Order.tryFrom silent padded = .error .invalid := by
    rfl
  rw [refused] at accepted
  cases accepted

end SampleHeaders

end Bagel
