/-
This file develops the matches of a pattern in a text, as a global search finds them: from the
left, the next one after the end of the last.

A pattern is given by what it matches at the beginning of a text: a value, and the number of
symbols that belong to the match, of which there is at least one.
-/

import Mathlib.Data.List.Basic

namespace Matches

variable {Symbol Value : Type}

/-- The matches of a pattern after some symbols that belong to the match before. -/
def findFrom (pattern : List Symbol → Option (Value × Nat)) : Nat → List Symbol → List Value
  | _, [] => []
  | skipped + 1, _ :: rest => findFrom pattern skipped rest
  | 0, symbol :: rest =>
    match pattern (symbol :: rest) with
    | some (value, length) => value :: findFrom pattern (length - 1) rest
    | none => findFrom pattern 0 rest

/-- The matches of a pattern. -/
def find (pattern : List Symbol → Option (Value × Nat)) (text : List Symbol) : List Value :=
  findFrom pattern 0 text

variable {pattern : List Symbol → Option (Value × Nat)} {symbol : Symbol} {rest : List Symbol}

theorem findFrom_eq (skipped : Nat) (text : List Symbol) :
    findFrom pattern skipped text = find pattern (text.drop skipped) := by
  induction text generalizing skipped with
  | nil =>
    rw [List.drop_nil]
    cases skipped <;> rfl
  | cons symbol rest inductionHypothesis =>
    cases skipped with
    | zero => rfl
    | succ skipped => exact inductionHypothesis skipped

theorem find_nil : find pattern [] = [] := rfl

theorem find_of_none (missing : pattern (symbol :: rest) = none) :
    find pattern (symbol :: rest) = find pattern rest := by
  rw [find, findFrom, missing]
  rfl

/-- After a match, the search goes on where the match ends. -/
theorem find_of_some {value : Value} {found : List Symbol} (positive : found ≠ [])
    (matched : pattern (found ++ rest) = some (value, found.length)) :
    find pattern (found ++ rest) = value :: find pattern rest := by
  cases found with
  | nil => exact absurd rfl positive
  | cons symbol found =>
    rw [List.cons_append] at matched ⊢
    rw [find, findFrom, matched]
    have passed : findFrom pattern found.length (found ++ rest) = find pattern rest := by
      rw [findFrom_eq, List.drop_left]
    exact congrArg (value :: ·) passed

/-- Symbols at which the pattern matches nothing are passed over. -/
theorem find_append_of_none {front : List Symbol}
    (missing : ∀ symbol ∈ front, ∀ rest, pattern (symbol :: rest) = none) (rest : List Symbol) :
    find pattern (front ++ rest) = find pattern rest := by
  induction front with
  | nil => rfl
  | cons symbol front inductionHypothesis =>
    rw [List.cons_append, find_of_none (missing symbol List.mem_cons_self _)]
    exact inductionHypothesis fun other member => missing other (.tail _ member)

end Matches
