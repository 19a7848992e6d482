/-
This file states SHA-256 as FIPS 180-4 does: the functions on words, the constants as
digits of roots of primes, the message schedule, the rounds, and the padding that cuts a
message into blocks.
-/

import Bagel.Library.Bytes

namespace Sha256

abbrev Word := BitVec 32

/-! ### Words -/

def rotr (count : Nat) (word : Word) : Word := word >>> count ||| word <<< (32 - count)

def ch (x y z : Word) : Word := (x &&& y) ^^^ (~~~x &&& z)

def maj (x y z : Word) : Word := (x &&& y) ^^^ (x &&& z) ^^^ (y &&& z)

def bigSigma0 (word : Word) : Word := rotr 2 word ^^^ rotr 13 word ^^^ rotr 22 word

def bigSigma1 (word : Word) : Word := rotr 6 word ^^^ rotr 11 word ^^^ rotr 25 word

def smallSigma0 (word : Word) : Word := rotr 7 word ^^^ rotr 18 word ^^^ word >>> 3

def smallSigma1 (word : Word) : Word := rotr 17 word ^^^ rotr 19 word ^^^ word >>> 10

theorem rotateRight_eq {count : Nat} (small : count < 32) (word : Word) :
    word.rotateRight count = rotr count word := by
  rw [BitVec.rotateRight, Nat.mod_eq_of_lt small]
  rfl

/-! ### Constants -/

/-- The greatest root that is found by adding powers of two, the highest of them first. -/
def root (degree value : Nat) : Nat → Nat → Nat
  | 0, found => found
  | bits + 1, found =>
    root degree value bits
      (if (found + 2 ^ bits) ^ degree ≤ value then found + 2 ^ bits else found)

def primes : List Nat :=
  [2, 3, 5, 7, 11, 13, 17, 19, 23, 29, 31, 37, 41, 43, 47, 53, 59, 61, 67, 71, 73, 79, 83, 89, 97,
    101, 103, 107, 109, 113, 127, 131, 137, 139, 149, 151, 157, 163, 167, 173, 179, 181, 191, 193,
    197, 199, 211, 223, 227, 229, 233, 239, 241, 251, 257, 263, 269, 271, 277, 281, 283, 293, 307,
    311]

/-- The first 32 bits of the fractional part of a root of a prime. -/
def fraction (degree prime : Nat) : Word :=
  BitVec.ofNat 32 (root degree (prime * 2 ^ (32 * degree)) 36 0)

/-- The constants of the rounds, from the cube roots. -/
def constants : List Word := primes.map (fraction 3)

/-! ### Blocks -/

/-- The eight working variables, which are also the words of the hash value. -/
structure State where
  a : Word
  b : Word
  c : Word
  d : Word
  e : Word
  f : Word
  g : Word
  h : Word
  deriving DecidableEq

namespace State

def toBytes (state : State) : Vector UInt8 32 :=
  ⟨([state.a, state.b, state.c, state.d, state.e, state.f, state.g, state.h].flatMap
    fun word => Bytes.big 4 word.toNat).toArray, by simp⟩

/-- The words of two states, added one by one. -/
def add (state other : State) : State :=
  { a := state.a + other.a, b := state.b + other.b, c := state.c + other.c, d := state.d + other.d,
    e := state.e + other.e, f := state.f + other.f, g := state.g + other.g, h := state.h + other.h }

end State

/-- The initial hash value, from the square roots. -/
def initial : State :=
  { a := fraction 2 2, b := fraction 2 3, c := fraction 2 5, d := fraction 2 7,
    e := fraction 2 11, f := fraction 2 13, g := fraction 2 17, h := fraction 2 19 }

/-- A word of a block. -/
def input (block : List UInt8) (index : Nat) : Word :=
  BitVec.ofNat 32 (Bytes.number ((block.drop (4 * index)).take 4))

/-- The first words of the message schedule. -/
def schedule (block : List UInt8) : Nat → List Word
  | 0 => []
  | count + 1 =>
    let before := schedule block count
    before ++ [if count < 16 then input block count
      else smallSigma1 (before.getD (count - 2) 0) + before.getD (count - 7) 0 +
        smallSigma0 (before.getD (count - 15) 0) + before.getD (count - 16) 0]

@[simp] theorem length_schedule (block : List UInt8) (count : Nat) :
    (schedule block count).length = count := by
  induction count with
  | zero => rfl
  | succ count inductionHypothesis =>
    rw [schedule, List.length_append, inductionHypothesis, List.length_singleton]

theorem length_constants : constants.length = 64 := rfl

def round (state : State) (constant word : Word) : State :=
  let first := state.h + bigSigma1 state.e + ch state.e state.f state.g + constant + word
  let second := bigSigma0 state.a + maj state.a state.b state.c
  { a := first + second, b := state.a, c := state.b, d := state.c,
    e := state.d + first, f := state.e, g := state.f, h := state.g }

/-- What one block makes of the hash value. -/
def compress (state : State) (block : List UInt8) : State :=
  state.add ((constants.zip (schedule block 64)).foldl
    (fun working entry => round working entry.1 entry.2) state)

/-! ### Messages -/

/-- A one bit, zero bits, and the length in bits up to the end of a block. -/
def padding (length : Nat) : List UInt8 :=
  0x80 :: List.replicate ((119 - length % 64) % 64) 0 ++ Bytes.big 8 (8 * length)

def blocks (padded : List UInt8) : List (List UInt8) :=
  (List.range (padded.length / 64)).map fun index => (padded.drop (64 * index)).take 64

def hash (message : List UInt8) : Vector UInt8 32 :=
  ((blocks (message ++ padding message.length)).foldl compress initial).toBytes

@[simp] theorem blocks_nil : blocks [] = [] := rfl

theorem blocks_append {block : List UInt8} (full : block.length = 64) (rest : List UInt8) :
    blocks (block ++ rest) = block :: blocks rest := by
  have count : (block ++ rest).length / 64 = rest.length / 64 + 1 := by
    rw [List.length_append, full]
    omega
  rw [blocks, count, List.range_succ_eq_map, List.map_cons, List.map_map]
  refine List.cons_eq_cons.mpr ⟨?_, ?_⟩
  · rw [Nat.mul_zero, List.drop_zero, List.take_left' full]
  · refine List.map_congr_left fun index _ => ?_
    have later : 64 * (index + 1) = block.length + 64 * index := by omega
    rw [Function.comp_apply, Nat.succ_eq_add_one, later, List.drop_length_add_append]

/-- The message `abc`. -/
example : Bytes.number (hash [97, 98, 99]).toList =
    0xba7816bf8f01cfea414140de5dae2223b00361a396177a9cb410ff61f20015ad := by decide +kernel

end Sha256
