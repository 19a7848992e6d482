/-
This file collects what is needed of maps that hold a list of values for each key, the
way a header map does: one reads the first value or all of them, replaces them by one, adds
one at the end, removes them all, or inserts every entry of another map.
-/

import Mathlib.Logic.Function.Basic

/-- The values of each key, in the order they were added. -/
@[ext]
structure Multimap (Key Value : Type) where
  getAll : Key → List Value

namespace Multimap

variable {Key Value : Type}

def empty : Multimap Key Value := ⟨fun _ => []⟩

def get (map : Multimap Key Value) (key : Key) : Option Value := (map.getAll key).head?

/-- Insert the entries of a second map one after the other: the last value of a key wins. -/
def overlay (map entries : Multimap Key Value) : Multimap Key Value :=
  ⟨fun key =>
    match (entries.getAll key).getLast? with
    | some value => [value]
    | none => map.getAll key⟩

theorem getAll_overlay_of_nil {map entries : Multimap Key Value} {key : Key}
    (absent : entries.getAll key = []) : (map.overlay entries).getAll key = map.getAll key := by
  simp only [overlay, absent, List.getLast?_nil]

variable [DecidableEq Key]

/-- The values of a key become one value. -/
def insert (map : Multimap Key Value) (key : Key) (value : Value) : Multimap Key Value :=
  ⟨Function.update map.getAll key [value]⟩

def append (map : Multimap Key Value) (key : Key) (value : Value) : Multimap Key Value :=
  ⟨Function.update map.getAll key (map.getAll key ++ [value])⟩

def remove (map : Multimap Key Value) (key : Key) : Multimap Key Value :=
  ⟨Function.update map.getAll key []⟩

variable (map : Multimap Key Value) (key other : Key) (value : Value)

theorem getAll_insert :
    (map.insert key value).getAll other = if other = key then [value] else map.getAll other :=
  Function.update_apply map.getAll key [value] other

theorem getAll_append :
    (map.append key value).getAll other =
      if other = key then map.getAll key ++ [value] else map.getAll other :=
  Function.update_apply map.getAll key (map.getAll key ++ [value]) other

theorem getAll_remove :
    (map.remove key).getAll other = if other = key then [] else map.getAll other :=
  Function.update_apply map.getAll key [] other

/-- Remove the keys of a list one after the other. -/
def removeAll (map : Multimap Key Value) (keys : List Key) : Multimap Key Value :=
  keys.foldl remove map

theorem getAll_removeAll (keys : List Key) :
    (map.removeAll keys).getAll other = if other ∈ keys then [] else map.getAll other := by
  induction keys generalizing map with
  | nil => rfl
  | cons key rest inductionHypothesis =>
    unfold removeAll at inductionHypothesis ⊢
    rw [List.foldl_cons, inductionHypothesis, getAll_remove]
    by_cases later : other ∈ rest
    · rw [if_pos later, if_pos (List.mem_cons_of_mem key later)]
    · by_cases same : other = key
      · rw [if_neg later, if_pos same, if_pos (same ▸ List.mem_cons_self)]
      · rw [if_neg later, if_neg same, if_neg (by simp [later, same])]

end Multimap
