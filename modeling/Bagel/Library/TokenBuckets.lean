/-
This file develops buckets of tokens. A bucket fills at a rate up to a burst, and whoever takes
from it needs a whole token. It is filled only when someone looks at it.

The level of a bucket at a time is what a look would find. It never grows faster than the rate,
it never exceeds the burst, and a take lowers it by one if it succeeds and not at all if it
fails. So the takes that succeed within a time are at most the burst and what flows in meanwhile.
-/

import Mathlib.Algebra.Order.Field.Basic
import Mathlib.Tactic.Linarith
import Mathlib.Tactic.Ring

namespace TokenBuckets

/-- The tokens of a bucket when it was looked at last. -/
structure Bucket (Amount : Type) where
  tokens : Amount
  last : Amount
  deriving DecidableEq

variable {Amount : Type} [Field Amount] [LinearOrder Amount]

namespace Bucket

def full (burst now : Amount) : Bucket Amount := ⟨burst, now⟩

/-- The tokens that a look finds. -/
def level (rate burst : Amount) (bucket : Bucket Amount) (now : Amount) : Amount :=
  min (max 0 (now - bucket.last) * rate + bucket.tokens) burst

/-- Take a token if there is one. -/
def take (rate burst : Amount) (bucket : Bucket Amount) (now : Amount) : Bool × Bucket Amount :=
  let tokens := bucket.level rate burst now
  if 1 ≤ tokens then (true, ⟨tokens - 1, now⟩) else (false, ⟨tokens, now⟩)

end Bucket

variable {rate burst now later : Amount} {bucket : Bucket Amount}

theorem level_le_burst : bucket.level rate burst now ≤ burst := min_le_right _ _

/-- A bucket looked at just now has its tokens. -/
theorem level_of_now {tokens : Amount} (bounded : tokens ≤ burst) :
    (⟨tokens, now⟩ : Bucket Amount).level rate burst now = tokens := by
  rw [Bucket.level, sub_self, max_self, zero_mul, zero_add, min_eq_left bounded]

variable [IsStrictOrderedRing Amount]

/-- The level grows no faster than the rate. -/
theorem level_le_add (positive : 0 ≤ rate) (order : now ≤ later) :
    bucket.level rate burst later ≤ bucket.level rate burst now + rate * (later - now) := by
  have flows : 0 ≤ rate * (later - now) := mul_nonneg positive (sub_nonneg.mpr order)
  have elapsed : max 0 (later - bucket.last) ≤ max 0 (now - bucket.last) + (later - now) := by
    refine max_le (add_nonneg (le_max_left _ _) (sub_nonneg.mpr order)) ?_
    have since : now - bucket.last ≤ max 0 (now - bucket.last) := le_max_right _ _
    linarith
  have grown := mul_le_mul_of_nonneg_right elapsed positive
  rw [Bucket.level, Bucket.level, ← min_add_add_right]
  refine min_le_min ?_ (le_add_of_nonneg_right flows)
  linarith

theorem level_nonneg (positive : 0 ≤ rate) (room : 0 ≤ burst) (some : 0 ≤ bucket.tokens) :
    0 ≤ bucket.level rate burst now :=
  le_min (add_nonneg (mul_nonneg (le_max_left _ _) positive) some) room

/-- A take that succeeds lowers the level by one, and one that fails leaves it. -/
theorem level_take : (if (bucket.take rate burst now).1 then 1 else 0) +
    (bucket.take rate burst now).2.level rate burst now = bucket.level rate burst now := by
  unfold Bucket.take
  by_cases enough : 1 ≤ bucket.level rate burst now
  · have less : bucket.level rate burst now - 1 ≤ burst :=
      (sub_le_self _ zero_le_one).trans level_le_burst
    simp only [if_pos enough, level_of_now less, if_true]
    ring
  · simp only [if_neg enough, level_of_now level_le_burst, Bool.false_eq_true, if_false, zero_add]

theorem tokens_take_nonneg (positive : 0 ≤ rate) (room : 0 ≤ burst) (some : 0 ≤ bucket.tokens) :
    0 ≤ (bucket.take rate burst now).2.tokens := by
  unfold Bucket.take
  by_cases enough : 1 ≤ bucket.level rate burst now
  · rw [if_pos enough]
    exact sub_nonneg.mpr enough
  · rw [if_neg enough]
    exact level_nonneg positive room some

end TokenBuckets
