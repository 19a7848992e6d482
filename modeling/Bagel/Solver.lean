/-
This file models the proof of work, the module that solves it in a browser and the
verifier of its solutions. The solver has a SHA-256 of its own: it is the one of
FIPS 180-4 on the messages it is used for, so that every nonce the solver reports is
accepted.
-/

import Bagel.Challenge
import Bagel.Library.Base32
import Bagel.Library.Sha256

namespace Bagel

namespace Solver

open Sha256 (Word)

/-- Thirty-two bytes: a key, a digest or a block of the scratchpad. -/
abbrev Hash := Vector UInt8 32

/-- The values from a place on are replaced, as long as there are any. -/
def overwrite {Value : Type} (values : List Value) (start : Nat) (new : List Value) : List Value :=
  values.take start ++ new.take (values.length - start) ++ values.drop (start + new.length)

@[simp] theorem length_overwrite {Value : Type} (values new : List Value) (start : Nat) :
    (overwrite values start new).length = values.length := by
  rw [overwrite, List.length_append, List.length_append, List.length_take, List.length_take,
    List.length_drop]
  omega

theorem overwrite_append {Value : Type} {front old new : List Value} {start : Nat}
    (place : front.length = start) (even : old.length = new.length) (back : List Value) :
    overwrite (front ++ old ++ back) start new = front ++ new ++ back := by
  subst place
  have room : (front ++ old ++ back).length - front.length = new.length + back.length := by
    rw [List.length_append, List.length_append, even]
    omega
  rw [overwrite, room, List.take_of_length_le (Nat.le_add_right _ _), ← even, ← List.length_append,
    List.drop_left, List.append_assoc front old, List.take_left]

/-- Values in front of the place stay what they are. -/
theorem overwrite_append_right {Value : Type} (front back new : List Value) (start : Nat) :
    overwrite (front ++ back) (front.length + start) new = front ++ overwrite back start new := by
  have room : (front ++ back).length - (front.length + start) = back.length - start := by
    rw [List.length_append, Nat.add_sub_add_left]
  rw [overwrite, overwrite, room, List.take_length_add_append, Nat.add_assoc,
    List.drop_length_add_append, List.append_assoc, List.append_assoc, List.append_assoc]

/-! ### `compress` -/

def K : List Word :=
  [0x428a2f98, 0x71374491, 0xb5c0fbcf, 0xe9b5dba5, 0x3956c25b, 0x59f111f1, 0x923f82a4, 0xab1c5ed5,
    0xd807aa98, 0x12835b01, 0x243185be, 0x550c7dc3, 0x72be5d74, 0x80deb1fe, 0x9bdc06a7, 0xc19bf174,
    0xe49b69c1, 0xefbe4786, 0x0fc19dc6, 0x240ca1cc, 0x2de92c6f, 0x4a7484aa, 0x5cb0a9dc, 0x76f988da,
    0x983e5152, 0xa831c66d, 0xb00327c8, 0xbf597fc7, 0xc6e00bf3, 0xd5a79147, 0x06ca6351, 0x14292967,
    0x27b70a85, 0x2e1b2138, 0x4d2c6dfc, 0x53380d13, 0x650a7354, 0x766a0abb, 0x81c2c92e, 0x92722c85,
    0xa2bfe8a1, 0xa81a664b, 0xc24b8b70, 0xc76c51a3, 0xd192e819, 0xd6990624, 0xf40e3585, 0x106aa070,
    0x19a4c116, 0x1e376c08, 0x2748774c, 0x34b0bcb5, 0x391c0cb3, 0x4ed8aa4a, 0x5b9cca4f, 0x682e6ff3,
    0x748f82ee, 0x78a5636f, 0x84c87814, 0x8cc70208, 0x90befffa, 0xa4506ceb, 0xbef9a3f7, 0xc67178f2]

def H0 : Sha256.State :=
  { a := 0x6a09e667, b := 0xbb67ae85, c := 0x3c6ef372, d := 0xa54ff53a,
    e := 0x510e527f, f := 0x9b05688c, g := 0x1f83d9ab, h := 0x5be0cd19 }

/-- The table of the solver holds the digits of the roots. -/
theorem K_eq : K = Sha256.constants := by decide +kernel

theorem H0_eq : H0 = Sha256.initial := by decide +kernel

/-- One pass of the loop over the later words. -/
def extend (w : List Word) (i : Nat) : List Word :=
  let s0 := (w.getD (i - 15) 0).rotateRight 7 ^^^ (w.getD (i - 15) 0).rotateRight 18 ^^^
    w.getD (i - 15) 0 >>> 3
  let s1 := (w.getD (i - 2) 0).rotateRight 17 ^^^ (w.getD (i - 2) 0).rotateRight 19 ^^^
    w.getD (i - 2) 0 >>> 10
  w.set i (w.getD (i - 16) 0 + s0 + w.getD (i - 7) 0 + s1)

/-- The words of a block, in the array that the later ones are written to. -/
def words (block : List UInt8) : List Word :=
  overwrite (List.replicate 64 0) 0 ((List.range 16).map fun index =>
    BitVec.ofNat 32 (Bytes.number ((block.drop (4 * index)).take 4)))

/-- One pass of the loop over the working variables. -/
def mix (w : List Word) (state : Sha256.State) (i : Nat) : Sha256.State :=
  let { a, b, c, d, e, f, g, h } := state
  let s1 := e.rotateRight 6 ^^^ e.rotateRight 11 ^^^ e.rotateRight 25
  let ch := (e &&& f) ^^^ (~~~e &&& g)
  let t1 := h + s1 + ch + K.getD i 0 + w.getD i 0
  let s0 := a.rotateRight 2 ^^^ a.rotateRight 13 ^^^ a.rotateRight 22
  let maj := (a &&& b) ^^^ (a &&& c) ^^^ (b &&& c)
  let t2 := s0 + maj
  { h := g, g := f, f := e, e := d + t1, d := c, c := b, b := a, a := t1 + t2 }

def compress (state : Sha256.State) (block : List UInt8) : Sha256.State :=
  let w := (List.range' 16 48).foldl extend (words block)
  state.add ((List.range 64).foldl (mix w) state)

theorem words_eq (block : List UInt8) :
    words block = (List.range 16).map (Sha256.input block) ++ List.replicate 48 0 := by
  have zeros : List.replicate 64 (0 : Word) =
      [] ++ List.replicate 16 0 ++ List.replicate 48 0 := rfl
  rw [words, zeros, overwrite_append List.length_nil (by simp),
    List.nil_append]
  rfl

theorem schedule_first (block : List UInt8) {count : Nat} (small : count ≤ 16) :
    Sha256.schedule block count = (List.range count).map (Sha256.input block) := by
  induction count with
  | zero => rfl
  | succ count inductionHypothesis =>
    rw [Sha256.schedule, inductionHypothesis (by omega), if_pos (by omega), List.range_succ,
      List.map_append, List.map_singleton]

/-- The array holds the schedule as far as the loop has come. -/
theorem foldl_extend (block : List UInt8) {passes : Nat} (small : passes ≤ 48) :
    (List.range' 16 passes).foldl extend (words block) =
      Sha256.schedule block (16 + passes) ++ List.replicate (48 - passes) 0 := by
  induction passes with
  | zero => rw [List.range'_zero, List.foldl_nil, words_eq, schedule_first block (Nat.le_refl 16)]
  | succ passes inductionHypothesis =>
    rw [List.range'_1_concat, List.foldl_concat, inductionHypothesis (by omega)]
    have before : ∀ back, 0 < back → back ≤ 16 →
        (Sha256.schedule block (16 + passes) ++ List.replicate (48 - passes) 0).getD
            (16 + passes - back) 0 =
          (Sha256.schedule block (16 + passes)).getD (16 + passes - back) 0 := by
      intro back positive within
      have inside : 16 + passes - back < (Sha256.schedule block (16 + passes)).length := by
        rw [Sha256.length_schedule]
        omega
      rw [List.getD_eq_getElem?_getD, List.getElem?_append_left inside,
        ← List.getD_eq_getElem?_getD]
    have room : List.replicate (48 - passes) (0 : Word) =
        0 :: List.replicate (48 - (passes + 1)) 0 := by
      rw [← List.replicate_succ]
      congr 1
      omega
    rw [extend, before 15 (by decide) (by decide), before 2 (by decide) (by decide),
      before 16 (by decide) (by decide), before 7 (by decide) (by decide), ← Nat.add_assoc,
      Sha256.schedule, if_neg (by omega), room, List.set_append_right _ _ (by simp),
      Sha256.length_schedule, Nat.sub_self, List.set_cons_zero, List.append_assoc]
    simp (disch := decide) only [Sha256.rotateRight_eq]
    -- The solver adds the four terms in another order.
    have order : ∀ first second third fourth : Word,
        first + second + third + fourth = fourth + third + second + first := by
      intro first second third fourth
      ac_rfl
    rw [order]
    rfl

/-- The rounds of the solver are those of the standard, for the words that they read. -/
theorem foldl_mix {w : List Word} (full : w.length = 64) (state : Sha256.State) :
    (List.range 64).foldl (mix w) state =
      (Sha256.constants.zip w).foldl (fun working entry => Sha256.round working entry.1 entry.2)
        state := by
  have entries : Sha256.constants.zip w =
      (List.range 64).map fun i => (K.getD i 0, w.getD i 0) := by
    refine List.ext_getElem (by simp [full, Sha256.length_constants]) fun i bound _ => ?_
    rw [List.length_zip, Sha256.length_constants, full, Nat.min_self] at bound
    rw [List.getElem_zip, List.getElem_map, List.getElem_range, K_eq,
      List.getD_eq_getElem?_getD, List.getD_eq_getElem?_getD,
      List.getElem?_eq_getElem (by rwa [Sha256.length_constants]),
      List.getElem?_eq_getElem (by rwa [full]), Option.getD_some, Option.getD_some]
  have passes : mix w = fun working i => Sha256.round working (K.getD i 0) (w.getD i 0) := by
    funext working i
    simp (disch := decide) only [mix, Sha256.rotateRight_eq]
    rfl
  rw [entries, List.foldl_map, passes]

/-- The solver's compression is that of the standard. -/
theorem compress_eq (state : Sha256.State) (block : List UInt8) :
    compress state block = Sha256.compress state block := by
  have filled := foldl_extend block (Nat.le_refl 48)
  rw [Nat.sub_self, List.replicate_zero, List.append_nil] at filled
  rw [compress, filled, foldl_mix (Sha256.length_schedule block 64), Sha256.compress]

/-! ### `hash_pair` -/

/-- Two inputs fill one block, and a second block is padding. -/
def hashPair (left right : Hash) : Hash :=
  let block := overwrite (List.replicate 64 0) 0 (left.toList ++ right.toList)
  let state := compress H0 block
  let tail := overwrite (overwrite (List.replicate 64 0) 0 [0x80]) 62 (Bytes.big 2 (64 * 8))
  (compress state tail).toBytes

theorem hashPair_eq (left right : Hash) :
    hashPair left right = Sha256.hash (left.toList ++ right.toList) := by
  have length : (left.toList ++ right.toList).length = 64 := by simp
  have block : overwrite (List.replicate 64 0) 0 (left.toList ++ right.toList) =
      left.toList ++ right.toList := by
    have zeros : List.replicate 64 (0 : UInt8) = [] ++ List.replicate 64 0 ++ [] := rfl
    rw [zeros, overwrite_append List.length_nil (by simp), List.nil_append, List.append_nil]
  have tail : overwrite (overwrite (List.replicate 64 0) 0 [0x80]) 62 (Bytes.big 2 (64 * 8)) =
      Sha256.padding 64 := by decide
  have one : Sha256.blocks (Sha256.padding 64) = [Sha256.padding 64] := by decide
  rw [hashPair, block, tail, compress_eq, compress_eq, H0_eq, Sha256.hash, length,
    Sha256.blocks_append length, one, List.foldl_cons, List.foldl_cons, List.foldl_nil]

/-! ### `KeyBlock` -/

/-- One padded block that holds a key and a nonce. -/
structure KeyBlock where
  block : List UInt8
  full : block.length = 64

namespace KeyBlock

def new (key : Hash) : KeyBlock where
  block := overwrite (overwrite (overwrite (List.replicate 64 0) 0 key.toList) 40 [0x80]) 62
    (Bytes.big 2 (40 * 8))
  full := by simp

/-- The digest of the key and a nonce, which is written to the block. -/
def digest (keyBlock : KeyBlock) (nonce : UInt64) : Hash × KeyBlock :=
  let block := overwrite keyBlock.block 32 (Bytes.big 8 nonce.toNat)
  ((compress H0 block).toBytes, { block, full := by simpa [block] using keyBlock.full })

/-- A block for a key, whatever nonce it was last used with. -/
def Holds (key : Hash) (keyBlock : KeyBlock) : Prop :=
  ∃ nonce : List UInt8, nonce.length = 8 ∧
    keyBlock.block = key.toList ++ nonce ++ Sha256.padding 40

theorem holds_new (key : Hash) : Holds key (new key) := by
  have key_length : key.toList.length = 32 := by simp
  have zeros : List.replicate 64 (0 : UInt8) = [] ++ List.replicate 32 0 ++ List.replicate 32 0 :=
    rfl
  have first : overwrite (List.replicate 64 0) 0 key.toList =
      key.toList ++ List.replicate 32 0 := by
    rw [zeros, overwrite_append List.length_nil (by simp), List.nil_append]
  have rest : overwrite (overwrite (List.replicate 32 0) 8 [0x80]) 30 (Bytes.big 2 (40 * 8)) =
      List.replicate 8 0 ++ Sha256.padding 40 := by decide
  have marker := overwrite_append_right key.toList (List.replicate 32 0) [0x80] 8
  have ends := overwrite_append_right key.toList (overwrite (List.replicate 32 0) 8 [0x80])
    (Bytes.big 2 (40 * 8)) 30
  rw [key_length] at marker ends
  refine ⟨List.replicate 8 0, rfl, ?_⟩
  calc overwrite (overwrite (overwrite (List.replicate 64 0) 0 key.toList) 40 [0x80]) 62
        (Bytes.big 2 (40 * 8))
      = overwrite (overwrite (key.toList ++ List.replicate 32 0) 40 [0x80]) 62
          (Bytes.big 2 (40 * 8)) := by rw [first]
    _ = key.toList ++ (List.replicate 8 0 ++ Sha256.padding 40) := by rw [marker, ends, rest]
    _ = key.toList ++ List.replicate 8 0 ++ Sha256.padding 40 := (List.append_assoc _ _ _).symm

/-- The nonce takes the place of the one before it. -/
theorem block_digest {key : Hash} {keyBlock : KeyBlock} (holds : Holds key keyBlock)
    (nonce : UInt64) :
    (keyBlock.digest nonce).2.block =
      key.toList ++ Bytes.big 8 nonce.toNat ++ Sha256.padding 40 := by
  obtain ⟨earlier, eight, block⟩ := holds
  show overwrite keyBlock.block 32 (Bytes.big 8 nonce.toNat) = _
  rw [block, overwrite_append (by simp) (by rw [eight, Bytes.length_big])]

theorem holds_digest {key : Hash} {keyBlock : KeyBlock} (holds : Holds key keyBlock)
    (nonce : UInt64) : Holds key (keyBlock.digest nonce).2 :=
  ⟨Bytes.big 8 nonce.toNat, Bytes.length_big 8 _, block_digest holds nonce⟩

/-- Whatever the block was used for, the digest is that of the key and the nonce. -/
theorem digest_eq {key : Hash} {keyBlock : KeyBlock} (holds : Holds key keyBlock)
    (nonce : UInt64) :
    (keyBlock.digest nonce).1 = Sha256.hash (key.toList ++ Bytes.big 8 nonce.toNat) := by
  have length : (key.toList ++ Bytes.big 8 nonce.toNat).length = 40 := by simp
  have full : (key.toList ++ Bytes.big 8 nonce.toNat ++ Sha256.padding 40).length = 64 := by
    rw [List.length_append, length]
    rfl
  have alone := Sha256.blocks_append full []
  rw [List.append_nil, Sha256.blocks_nil] at alone
  have compressed : (keyBlock.digest nonce).1 =
      (compress H0 (keyBlock.digest nonce).2.block).toBytes := rfl
  rw [compressed, block_digest holds, Sha256.hash, length, alone, List.foldl_cons, List.foldl_nil,
    compress_eq, H0_eq]

end KeyBlock

/-! ### `leading_zero_bits` -/

def leadingZeros (byte : UInt8) : Nat := byte.toBitVec.clz.toNat

/-- The loop over a digest, with the number of zero bits that remain to be seen. -/
def leadingZeroBits : List UInt8 → Nat → Bool
  | [], remaining => remaining = 0
  | byte :: rest, remaining =>
    if remaining = 0 then true
    else if leadingZeros byte < min remaining 8 then false
    else leadingZeroBits rest (remaining - 8)

theorem leadingZeroBits_zero (digest : List UInt8) : leadingZeroBits digest 0 = true := by
  cases digest <;> rfl

/-- The bits of a byte, the highest first. -/
def bitsOf (byte : UInt8) : List Bool := Bits.ofNat 8 byte.toNat

theorem zeros_isPrefix_bitsOf (byte : UInt8) (count : Fin 9) :
    List.replicate count.val false <+: bitsOf byte ↔ count.val ≤ leadingZeros byte := by
  induction byte using Bytes.forall_of_values with
  | every value =>
    revert value count
    decide +kernel

/-- A digest opens with zero bits if its first byte does, and the rest with the others. -/
theorem zeros_isPrefix_append {first rest : List Bool} (eight : first.length = 8) (bits : Nat) :
    List.replicate bits false <+: first ++ rest ↔
      List.replicate (min bits 8) false <+: first ∧ List.replicate (bits - 8) false <+: rest := by
  rcases Nat.le_total bits 8 with few | many
  · rw [Nat.min_eq_left few, Nat.sub_eq_zero_of_le few, List.replicate_zero]
    refine ⟨fun opens => ⟨?_, List.nil_prefix⟩,
      fun both => both.1.trans (List.prefix_append first rest)⟩
    exact List.prefix_of_prefix_length_le opens (List.prefix_append first rest)
      (by rw [List.length_replicate, eight]; exact few)
  · have split : List.replicate bits false =
        List.replicate 8 false ++ List.replicate (bits - 8) false := by
      rw [← List.replicate_add, Nat.add_sub_cancel' many]
    rw [Nat.min_eq_right many, split]
    constructor
    · rintro ⟨after, whole⟩
      rw [List.append_assoc] at whole
      obtain ⟨front, back⟩ := List.append_inj whole (by rw [List.length_replicate, eight])
      exact ⟨⟨[], by rw [List.append_nil, front]⟩, after, back⟩
    · rintro ⟨opens, ⟨after, back⟩⟩
      have front := opens.eq_of_length (by rw [List.length_replicate, eight])
      exact ⟨after, by rw [front, List.append_assoc, back]⟩

/-- The digest opens with at least so many zero bits. -/
theorem leadingZeroBits_iff {digest : List UInt8} {bits : Nat} :
    leadingZeroBits digest bits = true ↔
      List.replicate bits false <+: digest.flatMap bitsOf := by
  induction digest generalizing bits with
  | nil =>
    rw [leadingZeroBits, decide_eq_true_iff, List.flatMap_nil, List.prefix_nil,
      List.replicate_eq_nil_iff]
  | cons byte rest inductionHypothesis =>
    have eight : (bitsOf byte).length = 8 := Bits.length_ofNat 8 _
    have first : List.replicate (min bits 8) false <+: bitsOf byte ↔
        min bits 8 ≤ leadingZeros byte := zeros_isPrefix_bitsOf byte ⟨min bits 8, by omega⟩
    rw [List.flatMap_cons, zeros_isPrefix_append eight, first, ← inductionHypothesis,
      leadingZeroBits]
    split
    · next none => simp [none, leadingZeroBits_zero]
    · split
      · next short => simp [Nat.not_le.mpr short]
      · next long => simp [Nat.not_lt.mp long]

/-- Who proved a difficulty proved every lower one. -/
theorem leadingZeroBits_mono {digest : List UInt8} {bits fewer : Nat} (lower : fewer ≤ bits)
    (opens : leadingZeroBits digest bits = true) : leadingZeroBits digest fewer = true := by
  rw [leadingZeroBits_iff] at opens ⊢
  have front : List.replicate fewer false <+: List.replicate bits false :=
    ⟨List.replicate (bits - fewer) false, by rw [← List.replicate_add, Nat.add_sub_cancel' lower]⟩
  exact front.trans opens

def KeyBlock.satisfies (keyBlock : KeyBlock) (nonce : UInt64) (bits : Nat) : Bool × KeyBlock :=
  (leadingZeroBits (keyBlock.digest nonce).1.toList bits, (keyBlock.digest nonce).2)

/-! ### `scratch` -/

/-- A block of the scratchpad. -/
def readBlock {size : Nat} (pad : Vector Hash size) (index : Nat) : Hash :=
  pad[index]?.getD (Vector.replicate 32 0)

/-- The first blocks of a pad, each from the one before it. -/
def fill {size : Nat} (pad : Vector Hash size) (seed : Hash) (blocks : Nat) : Vector Hash size :=
  (List.range' 1 (blocks - 1)).foldl
    (fun pad index => pad.setIfInBounds index (hashPair (readBlock pad (index - 1)) seed))
    (pad.setIfInBounds 0 seed)

/-- One pass of the walk, which reads a block and writes it anew. -/
def walk {size : Nat} (blocks : Nat) (work : Hash × Vector Hash size) : Hash × Vector Hash size :=
  let pick := Bytes.number (work.1.toList.take 4).reverse &&& (blocks - 1)
  let acc := hashPair work.1 (readBlock work.2 pick)
  (acc, work.2.setIfInBounds pick acc)

/-- Whether a nonce solves the challenge, with what becomes of the pad and of the block of the
key. -/
def satisfies {size : Nat} (pad : Vector Hash size) (key : KeyBlock) (nonce : UInt64)
    (blocksLog2 bits : Nat) : Bool × Vector Hash size × KeyBlock :=
  let blocks := 1 <<< blocksLog2
  if blocks ≤ size then
    let seed := key.digest nonce
    let walked := (walk blocks)^[blocks] (seed.1, fill pad seed.1 blocks)
    (leadingZeroBits walked.1.toList bits, walked.2, seed.2)
  else (false, pad, key)

/-- The first blocks of two pads are the same. -/
def Agree {size other : Nat} (blocks : Nat) (pad : Vector Hash size) (pad' : Vector Hash other) :
    Prop :=
  ∀ index < blocks, readBlock pad index = readBlock pad' index

section Agree

variable {size other blocks : Nat} {pad : Vector Hash size} {pad' : Vector Hash other}

theorem readBlock_set (index place : Nat) (value : Hash) (within : place < size) :
    readBlock (pad.setIfInBounds place value) index =
      if place = index then value else readBlock pad index := by
  rw [readBlock, readBlock, Vector.getElem?_setIfInBounds, if_pos within]
  split <;> rfl

/-- Writing the next block makes one more block the same. -/
theorem Agree.push (agree : Agree blocks pad pad') (value : Hash) (within : blocks < size)
    (within' : blocks < other) :
    Agree (blocks + 1) (pad.setIfInBounds blocks value) (pad'.setIfInBounds blocks value) := by
  intro index small
  rw [readBlock_set index blocks value within, readBlock_set index blocks value within']
  split
  · rfl
  · exact agree index (by omega)

theorem Agree.set (agree : Agree blocks pad pad') (place : Nat) (value : Hash)
    (within : place < size) (within' : place < other) :
    Agree blocks (pad.setIfInBounds place value) (pad'.setIfInBounds place value) := by
  intro index small
  rw [readBlock_set index place value within, readBlock_set index place value within']
  split
  · rfl
  · exact agree index small

/-- Filled pads do not tell what they held before. -/
theorem agree_fill (pad : Vector Hash size) (pad' : Vector Hash other) (seed : Hash)
    (positive : 0 < blocks) (within : blocks ≤ size) (within' : blocks ≤ other) :
    Agree blocks (fill pad seed blocks) (fill pad' seed blocks) := by
  obtain ⟨count, rfl⟩ : ∃ count, blocks = count + 1 := ⟨blocks - 1, by omega⟩
  rw [fill, fill, Nat.add_sub_cancel]
  induction count with
  | zero =>
    have none : Agree 0 pad pad' := fun index small => absurd small (Nat.not_lt_zero index)
    exact none.push seed within within'
  | succ count inductionHypothesis =>
    have agree := inductionHypothesis (Nat.succ_pos count) (by omega) (by omega)
    rw [List.range'_1_concat, List.foldl_concat, List.foldl_concat, Nat.add_comm 1 count,
      Nat.add_sub_cancel, agree count (Nat.lt_succ_self count)]
    exact agree.push _ within within'

theorem agree_walk (positive : 0 < blocks) (within : blocks ≤ size) (within' : blocks ≤ other)
    {acc acc' : Hash} (same : acc = acc') (agree : Agree blocks pad pad') :
    (walk blocks (acc, pad)).1 = (walk blocks (acc', pad')).1 ∧
      Agree blocks (walk blocks (acc, pad)).2 (walk blocks (acc', pad')).2 := by
  subst same
  have pick : Bytes.number (acc.toList.take 4).reverse &&& (blocks - 1) < blocks := by
    have bound := @Nat.and_le_right (Bytes.number (acc.toList.take 4).reverse) (blocks - 1)
    omega
  unfold walk
  simp only [agree _ pick]
  exact ⟨trivial, agree.set _ _ (by omega) (by omega)⟩

theorem agree_iterate_walk (positive : 0 < blocks) (within : blocks ≤ size)
    (within' : blocks ≤ other) {acc acc' : Hash} (same : acc = acc')
    (agree : Agree blocks pad pad') (passes : Nat) :
    ((walk blocks)^[passes] (acc, pad)).1 = ((walk blocks)^[passes] (acc', pad')).1 := by
  induction passes generalizing acc acc' pad pad' with
  | zero => exact same
  | succ passes inductionHypothesis =>
    have next := agree_walk positive within within' same agree
    exact inductionHypothesis next.1 next.2

/-- The answer depends on the digest of the key and the nonce, for pads that are large enough. -/
theorem satisfies_eq {keyBlock keyBlock' : KeyBlock} {nonce : UInt64}
    (seed : (keyBlock.digest nonce).1 = (keyBlock'.digest nonce).1) (blocksLog2 bits : Nat)
    (within : 1 <<< blocksLog2 ≤ size) (within' : 1 <<< blocksLog2 ≤ other) :
    (satisfies pad keyBlock nonce blocksLog2 bits).1 =
      (satisfies pad' keyBlock' nonce blocksLog2 bits).1 := by
  have positive : 0 < 1 <<< blocksLog2 := by
    rw [Nat.one_shiftLeft]
    exact Nat.two_pow_pos blocksLog2
  have filled : Agree (1 <<< blocksLog2) (fill pad (keyBlock.digest nonce).1 (1 <<< blocksLog2))
      (fill pad' (keyBlock'.digest nonce).1 (1 <<< blocksLog2)) := by
    rw [seed]
    exact agree_fill pad pad' _ positive within within'
  have walked := agree_iterate_walk positive within within' seed filled (1 <<< blocksLog2)
  rw [satisfies, satisfies, if_pos within, if_pos within']
  show leadingZeroBits _ bits = leadingZeroBits _ bits
  rw [walked]

end Agree

/-- What the pad held before makes no difference. -/
theorem satisfies_congr {size : Nat} (pad pad' : Vector Hash size) (keyBlock : KeyBlock)
    (nonce : UInt64) (blocksLog2 bits : Nat) :
    (satisfies pad keyBlock nonce blocksLog2 bits).1 =
      (satisfies pad' keyBlock nonce blocksLog2 bits).1 := by
  by_cases within : 1 <<< blocksLog2 ≤ size
  · exact satisfies_eq rfl blocksLog2 bits within within
  · rw [satisfies, satisfies, if_neg within, if_neg within]

theorem holds_satisfies {size : Nat} {pad : Vector Hash size} {key : Hash} {keyBlock : KeyBlock}
    (holds : keyBlock.Holds key) (nonce : UInt64) (blocksLog2 bits : Nat) :
    (satisfies pad keyBlock nonce blocksLog2 bits).2.2.Holds key := by
  rw [satisfies]
  split
  · exact KeyBlock.holds_digest holds nonce
  · exact holds

/-! ### Handoffs -/

def ivLen : Nat := 4

def keyLen : Nat := 32

def handoffLen : Nat := ivLen + keyLen + 4

def maxBlocksLog2 : UInt8 := 15

/-- What the page hands to the solver. -/
structure Handoff where
  key : Hash
  kind : PowKind
  difficulty : UInt8
  blocksLog2 : UInt8
  gpuDifficulty : UInt8
  deriving DecidableEq

/-- `Kind::from_tag` -/
def kindOfTag : UInt8 → Option PowKind
  | 0 => some .sha256
  | 1 => some .scratch
  | _ => none

/-- One step of `xorshift32`. -/
def xorshift (state : UInt32) : UInt32 :=
  let state := state ^^^ state <<< 13
  let state := state ^^^ state >>> 17
  state ^^^ state <<< 5

/-- The bytes with the keystream over them, from a state of the generator on. -/
def keystreamFrom (state : UInt32) : List UInt8 → List UInt8
  | [] => []
  | byte :: rest =>
    (byte ^^^ (xorshift state >>> 24).toUInt8) :: keystreamFrom (xorshift state) rest

def keystream (iv : List UInt8) (data : List UInt8) : List UInt8 :=
  keystreamFrom (UInt32.ofNat (Bytes.number iv.reverse) ||| 1) data

def unpackHandoff (blob : List UInt8) : Option Handoff :=
  if blob.length = handoffLen then
    let body := keystream (blob.take ivLen) (blob.drop ivLen)
    (kindOfTag (body.getD keyLen 0)).map fun kind =>
      { key := Vector.ofFn fun index => body.getD index.val 0
        kind
        difficulty := body.getD (keyLen + 1) 0
        blocksLog2 := body.getD (keyLen + 2) 0
        gpuDifficulty := body.getD (keyLen + 3) 0 }
  else none

/-! ### `exports` -/

def padBlocks : Nat := 1 <<< maxBlocksLog2.toNat

/-- `find` over so many nonces, where an attempt may change what it works with. -/
def find {Work : Type} (attempt : UInt64 → Work → Bool × Work) :
    Nat → UInt64 → Work → Option UInt64 × Work
  | 0, _, work => (none, work)
  | left + 1, nonce, work =>
    match attempt nonce work with
    | (true, work) => (some nonce, work)
    | (false, work) => find attempt left (nonce + 1) work

/-- A nonce that an `i64` can hold, or `-1`. -/
def report : Option UInt64 → Int
  | none => -1
  | some nonce => if nonce.toNat < 2 ^ 63 then nonce.toNat else -1

def saturatingAdd (start : UInt64) (count : UInt32) : UInt64 :=
  UInt64.ofNat (min (start.toNat + count.toNat) (2 ^ 64 - 1))

/-- A nonce that was found solves the challenge, whatever the attempts before it left behind. -/
theorem find_eq_some {Work : Type} {attempt : UInt64 → Work → Bool × Work} (Holds : Work → Prop)
    (preserves : ∀ nonce work, Holds work → Holds (attempt nonce work).2)
    {left : Nat} {start nonce : UInt64} {work : Work} (holds : Holds work)
    (found : (find attempt left start work).1 = some nonce) :
    ∃ before, Holds before ∧ (attempt nonce before).1 = true := by
  induction left generalizing start work with
  | zero => cases found
  | succ left inductionHypothesis =>
    rw [find] at found
    have next := preserves start work holds
    split at found
    · next after solved =>
      cases found
      exact ⟨work, holds, by rw [solved]⟩
    · next after unsolved =>
      rw [unsolved] at next
      exact inductionHypothesis next found

theorem report_eq {found : Option UInt64} {nonce : UInt64} (reported : report found = nonce.toNat) :
    found = some nonce := by
  cases found with
  | none => cases reported
  | some first =>
    rw [report] at reported
    split at reported
    · rw [UInt64.toNat_inj.mp (Int.ofNat.inj reported)]
    · cases reported

/-- The memory of the module between two calls. -/
structure State where
  buf : Vector UInt8 64
  handoff : Handoff
  pad : Vector Hash padBlocks
  /-- A pad as the handoff asks for fits into the one there is. -/
  fits : handoff.kind = .scratch → handoff.blocksLog2 ≤ maxBlocksLog2

namespace State

/-- Takes the handoff out of the buffer. -/
def unpack (state : State) (length : UInt32) : Int × State :=
  let blob := if length.toNat ≤ 64 then some (state.buf.toList.take length.toNat) else none
  match blob.bind unpackHandoff with
  | none => (-1, state)
  | some handoff =>
    if large : handoff.kind = .scratch ∧ maxBlocksLog2 < handoff.blocksLog2 then (-1, state)
    else
      (handoff.difficulty.toNat ||| handoff.gpuDifficulty.toNat <<< 8,
        { state with
          handoff
          fits := fun scratch => UInt8.not_lt.mp fun exceeds => large ⟨scratch, exceeds⟩ })

/-- Tries nonces for the handoff, and reports the first that solves it. -/
def solve (state : State) (start : UInt64) (count : UInt32) : Int × State :=
  let key := KeyBlock.new state.handoff.key
  let bits := state.handoff.difficulty.toNat
  let left := (saturatingAdd start count).toNat - start.toNat
  match state.handoff.kind with
  | .sha256 =>
    let found := find (fun nonce key => key.satisfies nonce bits) left start key
    (report found.1, state)
  | .scratch =>
    let found := find (fun nonce (work : Vector Hash padBlocks × KeyBlock) =>
      satisfies work.1 work.2 nonce state.handoff.blocksLog2.toNat bits) left start
      (state.pad, key)
    (report found.1, { state with pad := found.2.1 })

variable {state : State} (start : UInt64) (count : UInt32)

theorem solve_sha256 (kind : state.handoff.kind = .sha256) :
    (state.solve start count).1 =
      report (find (fun nonce key => key.satisfies nonce state.handoff.difficulty.toNat)
        ((saturatingAdd start count).toNat - start.toNat) start
        (KeyBlock.new state.handoff.key)).1 := by
  simp only [solve, kind]

theorem solve_scratch (kind : state.handoff.kind = .scratch) :
    (state.solve start count).1 =
      report (find (fun nonce (work : Vector Hash padBlocks × KeyBlock) =>
          Solver.satisfies work.1 work.2 nonce state.handoff.blocksLog2.toNat
            state.handoff.difficulty.toNat)
        ((saturatingAdd start count).toNat - start.toNat) start
        (state.pad, KeyBlock.new state.handoff.key)).1 := by
  simp only [solve, kind]

end State

end Solver

/-! ### `PowChallenge::verify` -/

namespace PowChallenge

open Solver

/-- The verifier takes SHA-256 from a library. -/
def verify (digest : List UInt8 → Hash) (pow : PowChallenge) (challengeKey : Hash) (nonce : UInt64)
    (difficulty : Nat) : Bool :=
  match pow.kind with
  | .sha256 =>
    leadingZeroBits (digest (challengeKey.toList ++ Bytes.big 8 nonce.toNat)).toList difficulty
  | .scratch =>
    (satisfies (Vector.replicate (1 <<< pow.blocksLog2) (Vector.replicate 32 0))
      (KeyBlock.new challengeKey) nonce pow.blocksLog2 difficulty).1

variable {digest : List UInt8 → Hash}

theorem verify_sha256 {pow : PowChallenge} (kind : pow.kind = .sha256) (key : Hash)
    (nonce : UInt64) (difficulty : Nat) :
    pow.verify digest key nonce difficulty =
      leadingZeroBits (digest (key.toList ++ Bytes.big 8 nonce.toNat)).toList difficulty := by
  rw [verify, kind]

theorem verify_scratch {pow : PowChallenge} (kind : pow.kind = .scratch) (key : Hash)
    (nonce : UInt64) (difficulty : Nat) :
    pow.verify digest key nonce difficulty =
      (satisfies (Vector.replicate (1 <<< pow.blocksLog2) (Vector.replicate 32 0))
        (KeyBlock.new key) nonce pow.blocksLog2 difficulty).1 := by
  rw [verify, kind]

theorem verify_mono {pow : PowChallenge} {key : Hash} {nonce : UInt64} {difficulty lower : Nat}
    (below : lower ≤ difficulty) (verified : pow.verify digest key nonce difficulty = true) :
    pow.verify digest key nonce lower = true := by
  cases kind : pow.kind with
  | sha256 =>
    rw [verify_sha256 kind] at verified ⊢
    exact leadingZeroBits_mono below verified
  | scratch =>
    rw [verify_scratch kind, satisfies, if_pos (Nat.le_refl _)] at verified ⊢
    exact leadingZeroBits_mono below verified

/-- The verifier accepts what the solver reports. -/
theorem verify_of_solve (conforms : ∀ message : List UInt8, 8 * message.length < 2 ^ 64 →
      digest message = Sha256.hash message)
    {pow : PowChallenge} {state : State} {start nonce : UInt64} {count : UInt32}
    (kind : pow.kind = state.handoff.kind)
    (blocks : pow.kind = .scratch → pow.blocksLog2 = state.handoff.blocksLog2.toNat)
    (reported : (state.solve start count).1 = nonce.toNat) :
    pow.verify digest state.handoff.key nonce state.handoff.difficulty.toNat = true := by
  have new := KeyBlock.holds_new state.handoff.key
  cases chosen : state.handoff.kind with
  | sha256 =>
    rw [State.solve_sha256 start count chosen] at reported
    obtain ⟨keyBlock, holds, solved⟩ := find_eq_some (KeyBlock.Holds state.handoff.key)
      (fun nonce keyBlock holds => KeyBlock.holds_digest holds nonce) new (report_eq reported)
    have conform := conforms (state.handoff.key.toList ++ Bytes.big 8 nonce.toNat) (by simp)
    rw [verify_sha256 (kind.trans chosen), conform, ← KeyBlock.digest_eq holds]
    exact solved
  | scratch =>
    rw [State.solve_scratch start count chosen] at reported
    obtain ⟨work, holds, solved⟩ :=
      find_eq_some (fun work => KeyBlock.Holds state.handoff.key work.2)
        (fun nonce work holds => holds_satisfies holds nonce _ _) new (report_eq reported)
    have room : 1 <<< state.handoff.blocksLog2.toNat ≤ padBlocks := by
      rw [padBlocks, Nat.one_shiftLeft, Nat.one_shiftLeft]
      exact Nat.pow_le_pow_right (by decide) (state.fits chosen)
    have seed : ((KeyBlock.new state.handoff.key).digest nonce).1 = (work.2.digest nonce).1 := by
      rw [KeyBlock.digest_eq new, KeyBlock.digest_eq holds]
    rw [verify_scratch (kind.trans chosen), blocks (kind.trans chosen)]
    exact (satisfies_eq seed _ _ (Nat.le_refl _) room).trans solved

end PowChallenge

open Solver in
/-- The solver hashes as the standard says, its pad may hold anything, and what it reports for a
handoff is accepted at every difficulty up to that of the handoff. -/
theorem solver_agrees {digest : List UInt8 → Hash}
    (conforms : ∀ message : List UInt8, 8 * message.length < 2 ^ 64 →
      digest message = Sha256.hash message) :
    (∀ (key : Hash) (earlier : List UInt64) (nonce : UInt64),
      ((earlier.foldl (fun keyBlock nonce => (keyBlock.digest nonce).2)
          (KeyBlock.new key)).digest nonce).1 =
        Sha256.hash (key.toList ++ Bytes.big 8 nonce.toNat)) ∧
      (∀ left right : Hash, hashPair left right = Sha256.hash (left.toList ++ right.toList)) ∧
      (∀ (size : Nat) (pad pad' : Vector Hash size) (keyBlock : KeyBlock) (nonce : UInt64)
        (blocksLog2 bits : Nat),
        (satisfies pad keyBlock nonce blocksLog2 bits).1 =
          (satisfies pad' keyBlock nonce blocksLog2 bits).1) ∧
      (∀ (pow : PowChallenge) (state : State) (start nonce : UInt64) (count : UInt32),
        pow.kind = state.handoff.kind →
        (pow.kind = .scratch → pow.blocksLog2 = state.handoff.blocksLog2.toNat) →
        (state.solve start count).1 = nonce.toNat →
        pow.verify digest state.handoff.key nonce state.handoff.difficulty.toNat = true) ∧
      ∀ (pow : PowChallenge) (key : Hash) (nonce : UInt64) (difficulty lower : Nat),
        lower ≤ difficulty → pow.verify digest key nonce difficulty = true →
        pow.verify digest key nonce lower = true := by
  refine ⟨fun key earlier nonce => ?_, hashPair_eq, fun size => satisfies_congr,
    fun pow state start nonce count kind blocks reported =>
      PowChallenge.verify_of_solve conforms kind blocks reported,
    fun pow key nonce difficulty lower below verified => PowChallenge.verify_mono below verified⟩
  refine KeyBlock.digest_eq ?_ nonce
  induction earlier using List.reverseRecOn with
  | nil => exact KeyBlock.holds_new key
  | append_singleton earlier last inductionHypothesis =>
    rw [List.foldl_concat]
    exact KeyBlock.holds_digest inductionHypothesis last

namespace SampleSolver

open Solver

def handoff : Handoff :=
  { key := Vector.replicate 32 7, kind := .sha256, difficulty := 3, blocksLog2 := 0,
    gpuDifficulty := 0 }

def state : State :=
  { buf := Vector.replicate 64 0, handoff
    pad := Vector.replicate padBlocks (Vector.replicate 32 0), fits := by decide }

def pow : PowChallenge :=
  { kind := .sha256, difficulty := 3, blocksLog2 := 0, gpuDifficulty := none, inRange := by decide,
    gpuInRange := by decide }

theorem solve_eq : (state.solve 3 20).1 = (4 : UInt64).toNat := by decide +kernel

/-- The nonce 4 solves this handoff, and the verifier accepts it. -/
theorem solver_agrees_state :
    pow.verify Sha256.hash state.handoff.key 4 state.handoff.difficulty.toNat = true :=
  (solver_agrees fun _ _ => rfl).2.2.2.1 pow state 3 4 20 rfl (fun _ => rfl) solve_eq

end SampleSolver

end Bagel
