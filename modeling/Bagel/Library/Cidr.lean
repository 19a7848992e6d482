/-
This file develops blocks of fixed-width addresses, the way routing notation
writes them: an address and the number of leading bits that the block fixes. The
address may have bits set below the fixed ones, so one block has many spellings.

Two facts carry everything that is done with blocks elsewhere. A point lies in a
block exactly when dividing both by the size of the block gives the same number,
so blocks of growing length form a refining sequence of partitions. And
therefore two blocks that share a point are nested, the longer one inside the
shorter one.
-/

import Mathlib.Data.BitVec

namespace Cidr

/-- A block of `width`-bit addresses: the addresses that agree with `address` on its
`length` leading bits. -/
structure Block (width : Nat) where
  address : BitVec width
  length : Nat
  length_le : length ≤ width
  deriving DecidableEq

namespace Block

variable {width : Nat}

/-- The mask that keeps the leading bits the block fixes. -/
def mask (block : Block width) : BitVec width :=
  BitVec.allOnes width <<< (width - block.length)

/-- A point lies in the block when it agrees with the block's address under the mask. -/
def contains (block : Block width) (point : BitVec width) : Bool :=
  point &&& block.mask == block.address &&& block.mask

/-- The block of one address. -/
def single (address : BitVec width) : Block width :=
  ⟨address, width, le_rfl⟩

/-! ### Membership as a quotient -/

/-- Two values agree under a mask of leading ones exactly when they agree after the bits
below the mask are shifted out. -/
theorem and_allOnes_shiftLeft_eq_iff (first second : BitVec width) (shift : Nat) :
    first &&& BitVec.allOnes width <<< shift = second &&& BitVec.allOnes width <<< shift ↔
      first >>> shift = second >>> shift := by
  constructor
  · intro same
    refine BitVec.eq_of_getLsbD_eq fun index _ => ?_
    rw [BitVec.getLsbD_ushiftRight, BitVec.getLsbD_ushiftRight]
    by_cases inside : shift + index < width
    · have kept : ¬ shift + index < shift := by omega
      have bit := congrArg (fun value => value.getLsbD (shift + index)) same
      simpa [inside, kept] using bit
    · rw [BitVec.getLsbD_of_ge _ _ (by omega), BitVec.getLsbD_of_ge _ _ (by omega)]
  · intro same
    refine BitVec.eq_of_getLsbD_eq fun index inside => ?_
    by_cases kept : shift ≤ index
    · have bit := congrArg (fun value => value.getLsbD (index - shift)) same
      simp only [BitVec.getLsbD_ushiftRight, Nat.add_sub_cancel' kept] at bit
      simp [bit]
    · have below : index < shift := by omega
      simp [below]

/-- A point lies in a block when dividing by the size of the block sends it where it
sends the block's address. -/
theorem contains_iff (block : Block width) (point : BitVec width) :
    block.contains point ↔
      point.toNat / 2 ^ (width - block.length) =
        block.address.toNat / 2 ^ (width - block.length) := by
  unfold contains mask
  rw [beq_iff_eq, and_allOnes_shiftLeft_eq_iff, ← BitVec.toNat_inj, BitVec.toNat_ushiftRight,
    BitVec.toNat_ushiftRight, Nat.shiftRight_eq_div_pow, Nat.shiftRight_eq_div_pow]

theorem contains_address (block : Block width) : block.contains block.address := by
  rw [contains_iff]

/-- The block of one address holds no other. -/
theorem contains_single_iff (address point : BitVec width) :
    (single address).contains point = true ↔ point = address := by
  rw [contains_iff]
  simp [single, BitVec.toNat_inj, eq_comm]

/-! ### Two blocks that share a point are nested -/

/-- A longer block refines a shorter one: points that agree up to the longer block's size
agree up to the shorter block's. -/
theorem div_eq_of_length_le {short long : Nat} (shorter : short ≤ long) (first second : Nat)
    (same : first / 2 ^ (width - long) = second / 2 ^ (width - long)) :
    first / 2 ^ (width - short) = second / 2 ^ (width - short) := by
  have split : 2 ^ (width - short) = 2 ^ (width - long) * 2 ^ (width - short - (width - long)) := by
    rw [← pow_add]
    congr 1
    omega
  rw [split, ← Nat.div_div_eq_div_mul, ← Nat.div_div_eq_div_mul, same]

/-- Of two blocks that share a point, the shorter one contains the longer one. -/
theorem contains_of_length_le {outer inner : Block width} (shorter : outer.length ≤ inner.length)
    {shared : BitVec width} (inOuter : outer.contains shared) (inInner : inner.contains shared)
    {point : BitVec width} (member : inner.contains point) : outer.contains point := by
  rw [contains_iff] at *
  rw [← inOuter]
  exact div_eq_of_length_le shorter _ _ (member.trans inInner.symm)

/-- Two blocks share a point exactly when one of them contains the address the other is
written with. -/
theorem contains_address_or_iff (first second : Block width) :
    (first.contains second.address ∨ second.contains first.address) ↔
      ∃ point, first.contains point ∧ second.contains point := by
  constructor
  · rintro (inside | inside)
    · exact ⟨second.address, inside, second.contains_address⟩
    · exact ⟨first.address, first.contains_address, inside⟩
  · rintro ⟨point, inFirst, inSecond⟩
    rcases le_total first.length second.length with shorter | shorter
    · exact Or.inl (contains_of_length_le shorter inFirst inSecond second.contains_address)
    · exact Or.inr (contains_of_length_le shorter inSecond inFirst first.contains_address)

/-! ### Other spellings of a block -/

/-- A block of more than one address can be written with another address. -/
theorem exists_respelling (block : Block width) (several : block.length < width) :
    ∃ other : Block width, other.address ≠ block.address ∧
      ∀ point, other.contains point = block.contains point := by
  have one : (BitVec.ofNat width 1).toNat = 1 :=
    BitVec.toNat_one (by omega)
  have quotient : (block.address ^^^ BitVec.ofNat width 1).toNat / 2 ^ (width - block.length) =
      block.address.toNat / 2 ^ (width - block.length) := by
    have small : 1 / 2 ^ (width - block.length) = 0 :=
      Nat.div_eq_of_lt (Nat.one_lt_two_pow (by omega))
    rw [BitVec.toNat_xor, one, ← Nat.shiftRight_eq_div_pow, ← Nat.shiftRight_eq_div_pow,
      Nat.shiftRight_xor_distrib, Nat.shiftRight_eq_div_pow 1, small, Nat.xor_zero]
  refine ⟨⟨block.address ^^^ BitVec.ofNat width 1, block.length, block.length_le⟩, fun same => ?_,
    fun point => ?_⟩
  · have bits := congrArg (fun address => (block.address ^^^ address).toNat) same
    dsimp only at bits
    rw [← BitVec.xor_assoc, BitVec.xor_self, BitVec.zero_xor, one, BitVec.toNat_zero] at bits
    cases bits
  · rw [Bool.eq_iff_iff, contains_iff, contains_iff]
    dsimp only
    rw [quotient]

/-- A block that holds the same as the block of one address is that block. -/
theorem eq_of_single {block other : Block width} (whole : block.length = width)
    (same : ∀ point, block.contains point = other.contains point) : block = other := by
  have only (point : BitVec width) (inside : other.contains point = true) :
      point = block.address := by
    rw [← same, contains_iff, whole, Nat.sub_self, Nat.pow_zero, Nat.div_one, Nat.div_one] at inside
    exact BitVec.eq_of_toNat_eq inside
  have address : other.address = block.address := only _ other.contains_address
  have length : other.length = width := by
    by_contra short
    obtain ⟨third, different, alike⟩ :=
      other.exists_respelling (Nat.lt_of_le_of_ne other.length_le short)
    refine different (address ▸ only _ ?_)
    rw [← alike]
    exact third.contains_address
  obtain ⟨first, bits, fits⟩ := block
  obtain ⟨second, bits', fits'⟩ := other
  cases address
  cases whole.trans length.symm
  rfl

end Block

end Cidr
