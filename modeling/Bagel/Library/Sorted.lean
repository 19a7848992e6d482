/-
This file models ordered sets and ordered maps as sorted lists: the standard
library's tree sets and tree maps, read as the sequence their iterators yield.
Only the comparison function decides where an element goes, and the lemmas ask of
it no more than that it answers "equal" for equal keys alone. Before come lists of entries
in any order, of which the first one with a key is read.
-/

import Mathlib.Data.List.Basic
import Mathlib.Data.List.Nodup
import Mathlib.Order.Basic

namespace Sorted

variable {Key Value : Type}

/-! ### Entries with keys -/

section Entries

variable [BEq Key] [LawfulBEq Key]

/-- What is read from a list whose keys are all different. -/
theorem lookup_eq_some_iff_mem {entries : List (Key × Value)}
    (distinct : (entries.map Prod.fst).Nodup) (key : Key) (value : Value) :
    entries.lookup key = some value ↔ (key, value) ∈ entries := by
  induction entries with
  | nil => exact iff_of_false (fun read => by cases read) List.not_mem_nil
  | cons head rest inductionHypothesis =>
    obtain ⟨headKey, headValue⟩ := head
    obtain ⟨fresh, restDistinct⟩ := List.nodup_cons.mp distinct
    rw [List.mem_cons]
    by_cases same : key = headKey
    · subst same
      have absent : (key, value) ∉ rest := fun listed =>
        fresh (List.mem_map.mpr ⟨_, listed, rfl⟩)
      rw [List.lookup_cons_self, or_iff_left absent, Prod.mk.injEq, Option.some.injEq]
      exact ⟨fun equal => ⟨rfl, equal.symm⟩, fun equal => equal.2.symm⟩
    · have different : (key == headKey) = false := beq_false_of_ne same
      have other : (key, value) ≠ (headKey, headValue) := fun equal =>
        same (congrArg Prod.fst equal)
      rw [List.lookup_cons, different, or_iff_right other]
      exact inductionHypothesis restDistinct

/-- Two lists whose keys are all different have the same entries when the same is read from
them. -/
theorem perm_iff_lookup {first second : List (Key × Value)}
    (firstDistinct : (first.map Prod.fst).Nodup) (secondDistinct : (second.map Prod.fst).Nodup) :
    first.Perm second ↔ ∀ key, first.lookup key = second.lookup key := by
  have firstNodup : first.Nodup := List.Nodup.of_map Prod.fst firstDistinct
  have secondNodup : second.Nodup := List.Nodup.of_map Prod.fst secondDistinct
  rw [List.perm_ext_iff_of_nodup firstNodup secondNodup]
  constructor
  · intro same key
    refine Option.ext fun value => ?_
    rw [lookup_eq_some_iff_mem firstDistinct, lookup_eq_some_iff_mem secondDistinct]
    exact same (key, value)
  · intro same entry
    rw [← lookup_eq_some_iff_mem firstDistinct, ← lookup_eq_some_iff_mem secondDistinct, same]

/-- What is read from the entries with some keys. -/
theorem lookup_filter_keys (keep : Key → Bool) (entries : List (Key × Value)) (key : Key) :
    (entries.filter fun entry => keep entry.1).lookup key =
      if keep key then entries.lookup key else none := by
  induction entries with
  | nil => rw [List.filter_nil, List.lookup_nil, ite_self]
  | cons head rest inductionHypothesis =>
    rw [List.filter_cons, List.lookup_cons]
    by_cases same : key = head.1
    · rw [same, beq_self_eq_true]
      rw [same] at inductionHypothesis
      cases kept : keep head.1 with
      | true => rw [if_pos rfl, if_pos rfl, List.lookup_cons, beq_self_eq_true]
      | false =>
        rw [kept] at inductionHypothesis
        rw [if_neg Bool.false_ne_true, if_neg Bool.false_ne_true, inductionHypothesis,
          if_neg Bool.false_ne_true]
    · have different : (key == head.1) = false := beq_false_of_ne same
      rw [different, ← inductionHypothesis]
      split
      · rw [List.lookup_cons, different]
      · rfl

end Entries

/-! ### Sets and maps -/

variable [Ord Key]

/-- Insert a key into an ordered set, leaving the set unchanged when it is there. -/
def insert (key : Key) : List Key → List Key
  | [] => [key]
  | head :: rest =>
    match compare key head with
    | .lt => key :: head :: rest
    | .eq => head :: rest
    | .gt => head :: insert key rest

/-- Update the value of a key in an ordered map, starting from a fallback when the key is
absent. -/
def alter (key : Key) (fallback : Value) (update : Value → Value) :
    List (Key × Value) → List (Key × Value)
  | [] => [(key, update fallback)]
  | head :: rest =>
    match compare key head.1 with
    | .lt => (key, update fallback) :: head :: rest
    | .eq => (head.1, update head.2) :: rest
    | .gt => head :: alter key fallback update rest

/-! ### Ordered maps -/

/-- The keys of an ordered map go up, so that each of them occurs once. -/
def Ordered (entries : List (Key × Value)) : Prop :=
  entries.Pairwise fun first second => compare first.1 second.1 = .lt

theorem Ordered.nodup_keys [Std.ReflOrd Key] {entries : List (Key × Value)}
    (ordered : Ordered entries) : (entries.map Prod.fst).Nodup := by
  refine List.pairwise_map.mpr (ordered.imp fun {first second} before same => ?_)
  have equal : compare second.1 second.1 = .eq := Std.ReflCmp.compare_self
  rw [same] at before
  cases before.symm.trans equal

/-- The keys of an updated map. -/
theorem key_of_mem_alter {key : Key} {fallback : Value} {update : Value → Value}
    {entries : List (Key × Value)} {entry : Key × Value}
    (member : entry ∈ alter key fallback update entries) :
    entry.1 = key ∨ ∃ other ∈ entries, other.1 = entry.1 := by
  induction entries with
  | nil => exact Or.inl (congrArg Prod.fst (List.mem_singleton.mp member))
  | cons head rest inductionHypothesis =>
    simp only [alter] at member
    split at member
    · rcases List.mem_cons.mp member with new | old
      · exact Or.inl (congrArg Prod.fst new)
      · exact Or.inr ⟨entry, old, rfl⟩
    · rcases List.mem_cons.mp member with new | old
      · exact Or.inr ⟨head, List.mem_cons_self, (congrArg Prod.fst new).symm⟩
      · exact Or.inr ⟨entry, List.mem_cons_of_mem _ old, rfl⟩
    · rcases List.mem_cons.mp member with old | inside
      · exact Or.inr ⟨head, List.mem_cons_self, congrArg Prod.fst old.symm⟩
      · rcases inductionHypothesis inside with same | ⟨other, listed, same⟩
        · exact Or.inl same
        · exact Or.inr ⟨other, List.mem_cons_of_mem _ listed, same⟩

/-- An update keeps the order. -/
theorem Ordered.alter [Std.TransOrd Key] {entries : List (Key × Value)} (ordered : Ordered entries)
    (key : Key) (fallback : Value) (update : Value → Value) :
    Ordered (alter key fallback update entries) := by
  induction entries with
  | nil => exact List.pairwise_singleton _ _
  | cons head rest inductionHypothesis =>
    obtain ⟨smallest, restOrdered⟩ := List.pairwise_cons.mp ordered
    simp only [Sorted.alter]
    split
    · next before =>
      refine List.pairwise_cons.mpr ⟨fun entry listed => ?_, ordered⟩
      rcases List.mem_cons.mp listed with rfl | later
      · exact before
      · exact Std.TransCmp.lt_trans before (smallest entry later)
    · exact List.pairwise_cons.mpr ⟨smallest, restOrdered⟩
    · next after =>
      refine List.pairwise_cons.mpr ⟨fun entry listed => ?_, inductionHypothesis restOrdered⟩
      rcases key_of_mem_alter listed with same | ⟨other, later, same⟩
      · rw [same]
        exact Std.OrientedCmp.gt_iff_lt.mp after
      · rw [← same]
        exact smallest other later

/-- An update adds a key at most. -/
theorem length_alter_le (key : Key) (fallback : Value) (update : Value → Value)
    (entries : List (Key × Value)) :
    (alter key fallback update entries).length ≤ entries.length + 1 := by
  induction entries with
  | nil => exact Nat.le_refl 1
  | cons head rest inductionHypothesis =>
    simp only [alter]
    split
    · exact Nat.le_refl _
    · exact Nat.le_succ _
    · exact Nat.succ_le_succ inductionHypothesis

/-- An update of a key that is there adds none. -/
theorem Ordered.length_alter [Std.TransOrd Key] {entries : List (Key × Value)}
    (ordered : Ordered entries) {key : Key} (present : ∃ entry ∈ entries, entry.1 = key)
    (fallback : Value) (update : Value → Value) :
    (Sorted.alter key fallback update entries).length = entries.length := by
  induction entries with
  | nil =>
    obtain ⟨entry, absent, -⟩ := present
    exact absurd absent List.not_mem_nil
  | cons head rest inductionHypothesis =>
    obtain ⟨smallest, restOrdered⟩ := List.pairwise_cons.mp ordered
    obtain ⟨entry, listed, rfl⟩ := present
    simp only [Sorted.alter]
    split
    · next before =>
      have equal : compare entry.1 entry.1 = .eq := Std.ReflCmp.compare_self
      rcases List.mem_cons.mp listed with rfl | later
      · cases before.symm.trans equal
      · cases (Std.TransCmp.lt_trans before (smallest entry later)).symm.trans equal
    · rfl
    · next after =>
      rcases List.mem_cons.mp listed with rfl | later
      · have equal : compare entry.1 entry.1 = .eq := Std.ReflCmp.compare_self
        cases after.symm.trans equal
      · exact congrArg (· + 1) (inductionHypothesis restOrdered ⟨entry, later, rfl⟩)

/-! ### Membership -/

variable [Std.LawfulEqOrd Key]

theorem mem_insert (key other : Key) (keys : List Key) :
    other ∈ insert key keys ↔ other = key ∨ other ∈ keys := by
  induction keys with
  | nil => simp [insert]
  | cons head rest inductionHypothesis =>
    simp only [insert]
    split
    · simp
    · next same =>
      have same : key = head := Std.LawfulEqOrd.eq_of_compare same
      simp [same]
    · simp only [List.mem_cons, inductionHypothesis]
      exact or_left_comm

/-- What an entry of an ordered map satisfies after an update: the updated key gains the
new fact and every other entry keeps its own. -/
theorem exists_mem_alter (holds : Value → Prop) (new : Prop) {fallback : Value}
    {update : Value → Value} (updated : ∀ value, holds (update value) ↔ new ∨ holds value)
    (absent : ¬ holds fallback) (key other : Key) (entries : List (Key × Value)) :
    (∃ entry ∈ alter key fallback update entries, entry.1 = other ∧ holds entry.2) ↔
      (key = other ∧ new) ∨ ∃ entry ∈ entries, entry.1 = other ∧ holds entry.2 := by
  induction entries with
  | nil => simp [alter, updated, absent]
  | cons head rest inductionHypothesis =>
    simp only [alter]
    split
    · simp [updated, absent]
    · next same =>
      have same : key = head.1 := Std.LawfulEqOrd.eq_of_compare same
      simp only [List.mem_cons, exists_eq_or_imp, updated, same]
      rw [and_or_left, or_assoc]
    · simp only [List.mem_cons, exists_eq_or_imp, inductionHypothesis]
      exact or_left_comm

/-- The entries after a key was given a value. -/
theorem mem_of_mem_alter {key : Key} {value : Value} {entries : List (Key × Value)}
    {entry : Key × Value} (member : entry ∈ alter key value (fun _ => value) entries) :
    entry = (key, value) ∨ entry ∈ entries := by
  induction entries with
  | nil => exact Or.inl (List.mem_singleton.mp member)
  | cons head rest inductionHypothesis =>
    simp only [alter] at member
    split at member
    · exact List.mem_cons.mp member
    · next same =>
      rw [← Std.LawfulEqOrd.eq_of_compare same] at member
      exact (List.mem_cons.mp member).imp_right (List.mem_cons_of_mem _)
    · rcases List.mem_cons.mp member with first | inside
      · exact Or.inr (List.mem_cons.mpr (Or.inl first))
      · exact (inductionHypothesis inside).imp_right (List.mem_cons_of_mem _)

/-! ### Reading a key -/

section Lookup

variable [BEq Key] [LawfulBEq Key]

theorem lookup_alter_self (key : Key) (value : Value)
    (entries : List (Key × Value)) :
    (alter key value (fun _ => value) entries).lookup key = some value := by
  induction entries with
  | nil => exact List.lookup_cons_self
  | cons head rest inductionHypothesis =>
    simp only [alter]
    split
    · exact List.lookup_cons_self
    · next same =>
      rw [Std.LawfulEqOrd.eq_of_compare same]
      exact List.lookup_cons_self
    · next after =>
      have different : (key == head.1) = false := by
        refine beq_false_of_ne fun same => ?_
        have equal : compare head.1 head.1 = .eq := Std.ReflCmp.compare_self
        rw [same, equal] at after
        cases after
      rw [List.lookup_cons, different]
      exact inductionHypothesis

theorem lookup_alter_of_ne {key other : Key} (different : other ≠ key) (fallback : Value)
    (update : Value → Value) (entries : List (Key × Value)) :
    (alter key fallback update entries).lookup other = entries.lookup other := by
  have notKey : (other == key) = false := beq_false_of_ne different
  induction entries with
  | nil => rw [alter, List.lookup_cons, notKey]
  | cons head rest inductionHypothesis =>
    simp only [alter]
    split
    · rw [List.lookup_cons, notKey]
    · next same =>
      have headKey : key = head.1 := Std.LawfulEqOrd.eq_of_compare same
      rw [List.lookup_cons, List.lookup_cons, ← headKey, notKey]
    · rw [List.lookup_cons, List.lookup_cons, inductionHypothesis]

/-- What is found in a part of an ordered map. -/
theorem Ordered.lookup_filter {entries : List (Key × Value)}
    (ordered : Ordered entries) (keep : Key × Value → Bool) (key : Key) :
    (entries.filter keep).lookup key =
      (entries.lookup key).filter fun value => keep (key, value) := by
  induction entries with
  | nil => rfl
  | cons head rest inductionHypothesis =>
    obtain ⟨smallest, restOrdered⟩ := List.pairwise_cons.mp ordered
    obtain ⟨headKey, value⟩ := head
    by_cases same : key = headKey
    · subst same
      have absent : rest.lookup key = none := by
        refine List.lookup_eq_none_iff.mpr fun entry listed => ?_
        refine bne_iff_ne.mpr fun equal => ?_
        have before := smallest entry listed
        have reflexive : compare key key = .eq := Std.ReflCmp.compare_self
        rw [← equal] at before
        cases before.symm.trans reflexive
      rw [List.lookup_cons_self, List.filter_cons, Option.filter_some]
      cases keep (key, value) with
      | true => rw [if_pos rfl, if_pos rfl, List.lookup_cons_self]
      | false =>
        rw [if_neg Bool.false_ne_true, if_neg Bool.false_ne_true,
          inductionHypothesis restOrdered, absent, Option.filter_none]
    · have different : (key == headKey) = false := beq_false_of_ne same
      rw [List.lookup_cons, different, List.filter_cons]
      cases keep (headKey, value) with
      | true =>
        rw [if_pos rfl, List.lookup_cons, different]
        exact inductionHypothesis restOrdered
      | false =>
        rw [if_neg Bool.false_ne_true]
        exact inductionHypothesis restOrdered

end Lookup

/-! ### Collecting entries -/

/-- The ordered map of some entries: of several with one key the last counts. -/
def collect (entries : List (Key × Value)) : List (Key × Value) :=
  entries.foldl (fun collected entry => alter entry.1 entry.2 (fun _ => entry.2) collected) []

omit [Std.LawfulEqOrd Key] in
theorem ordered_collect [Std.TransOrd Key] (entries : List (Key × Value)) :
    Ordered (collect entries) := by
  have step : ∀ collected : List (Key × Value), Ordered collected → Ordered (entries.foldl
      (fun collected entry => alter entry.1 entry.2 (fun _ => entry.2) collected) collected) := by
    induction entries with
    | nil => exact fun _ ordered => ordered
    | cons entry entries inductionHypothesis =>
      exact fun collected ordered => inductionHypothesis _ (ordered.alter _ _ _)
  exact step [] List.Pairwise.nil

/-- The last entry of a key is read. -/
theorem lookup_collect [BEq Key] [LawfulBEq Key] (entries : List (Key × Value)) (key : Key) :
    (collect entries).lookup key = entries.reverse.lookup key := by
  have step : ∀ collected : List (Key × Value), (entries.foldl
      (fun collected entry => alter entry.1 entry.2 (fun _ => entry.2) collected)
      collected).lookup key = (entries.reverse.lookup key).or (collected.lookup key) := by
    induction entries with
    | nil => exact fun _ => rfl
    | cons entry entries inductionHypothesis =>
      intro collected
      have updated : (alter entry.1 entry.2 (fun _ => entry.2) collected).lookup key =
          ([entry].lookup key).or (collected.lookup key) := by
        rw [List.lookup_cons]
        by_cases same : key = entry.1
        · rw [same, lookup_alter_self, beq_self_eq_true]
          rfl
        · rw [lookup_alter_of_ne same, beq_false_of_ne same]
          rfl
      rw [List.foldl_cons, inductionHypothesis, updated, List.reverse_cons, List.lookup_append,
        Option.or_assoc]
  exact (step []).trans Option.or_none

/-- Entries with different keys are all kept. -/
theorem collect_perm [Std.TransOrd Key] [BEq Key] [LawfulBEq Key] {entries : List (Key × Value)}
    (distinct : (entries.map Prod.fst).Nodup) : (collect entries).Perm entries := by
  have turned : (entries.reverse.map Prod.fst).Nodup := by
    rw [List.map_reverse, List.nodup_reverse]
    exact distinct
  rw [perm_iff_lookup (ordered_collect entries).nodup_keys distinct]
  intro key
  rw [lookup_collect]
  exact (perm_iff_lookup turned distinct).mp (List.reverse_perm entries) key

/-- Nothing else is collected. -/
theorem mem_of_mem_collect {entries : List (Key × Value)} {entry : Key × Value}
    (collected : entry ∈ collect entries) : entry ∈ entries := by
  have step : ∀ before : List (Key × Value), entry ∈ entries.foldl
      (fun collected entry => alter entry.1 entry.2 (fun _ => entry.2) collected) before →
        entry ∈ before ∨ entry ∈ entries := by
    clear collected
    induction entries with
    | nil => exact fun _ listed => .inl listed
    | cons head rest inductionHypothesis =>
      intro before listed
      rcases inductionHypothesis _ listed with earlier | later
      · rcases mem_of_mem_alter earlier with new | old
        · exact .inr (List.mem_cons.mpr (.inl new))
        · exact .inl old
      · exact .inr (List.mem_cons_of_mem _ later)
  exact (step [] collected).resolve_left List.not_mem_nil

end Sorted
