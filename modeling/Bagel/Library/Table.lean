/-
This file develops the statements of a relational store over tables kept as
lists, oldest row first: updating and deleting the rows that satisfy a condition,
and counting rows by a key that may be absent.

`COUNT(DISTINCT key) + COUNT(*) - COUNT(key)` counts every distinct key once and
every row without a key. It is the size of the largest selection of rows in which
no key occurs twice: no selection is larger, and picking the last row of every key
gives one of exactly that size.
-/

import Mathlib.Data.Finset.Card
import Mathlib.Data.List.Dedup
import Mathlib.Data.List.Pairwise
import Mathlib.Data.List.Perm.Subperm

namespace Table

variable {Row Key : Type}

/-- `UPDATE ... WHERE`. -/
def update (condition : Row → Bool) (change : Row → Row) (rows : List Row) : List Row :=
  rows.map fun row => if condition row then change row else row

/-- `DELETE ... WHERE`. -/
def delete (condition : Row → Bool) (rows : List Row) : List Row :=
  rows.filter fun row => !condition row

/-! ### Updating and deleting -/

theorem mem_update {condition : Row → Bool} {change : Row → Row} {rows : List Row} {row : Row} :
    row ∈ update condition change rows ↔
      ∃ old ∈ rows, (if condition old then change old else old) = row :=
  List.mem_map

theorem mem_delete {condition : Row → Bool} {rows : List Row} {row : Row} :
    row ∈ delete condition rows ↔ row ∈ rows ∧ condition row = false := by
  rw [delete, List.mem_filter, Bool.not_eq_true']

/-- An update does not change which rows a condition selects when it leaves the condition
and the selected rows alone. -/
theorem filter_update {condition keep : Row → Bool} {change : Row → Row}
    (apart : ∀ row, condition row = true → keep row = false ∧ keep (change row) = false)
    (rows : List Row) : (update condition change rows).filter keep = rows.filter keep := by
  induction rows with
  | nil => rfl
  | cons row rest inductionHypothesis =>
    rw [update, List.map_cons, ← update]
    by_cases chosen : condition row = true
    · rw [if_pos chosen, List.filter_cons_of_neg (by simp [(apart row chosen).2]),
        List.filter_cons_of_neg (by simp [(apart row chosen).1]), inductionHypothesis]
    · rw [if_neg chosen]
      simp only [List.filter_cons, inductionHypothesis]

/-- An update that a condition does not notice can be done on the condition's selection. -/
theorem filter_update_of_unnoticed {condition keep : Row → Bool} {change : Row → Row}
    (unnoticed : ∀ row, keep (change row) = keep row) (rows : List Row) :
    (update condition change rows).filter keep = update condition change (rows.filter keep) := by
  rw [update, update, List.filter_map]
  congr 1
  refine List.filter_congr fun row _ => ?_
  rw [Function.comp_apply]
  split
  · exact unnoticed row
  · rfl

/-- An update that makes its rows fail a condition removes them from the condition's
selection. -/
theorem filter_update_of_dropped {condition keep : Row → Bool} {change : Row → Row}
    (dropped : ∀ row, keep (change row) = false) (rows : List Row) :
    (update condition change rows).filter keep =
      rows.filter fun row => keep row && !condition row := by
  induction rows with
  | nil => rfl
  | cons row rest inductionHypothesis =>
    rw [update, List.map_cons, ← update]
    by_cases chosen : condition row = true
    · rw [if_pos chosen, List.filter_cons_of_neg (by simp [dropped]),
        List.filter_cons_of_neg (by simp [chosen]), inductionHypothesis]
    · rw [if_neg chosen]
      simp only [List.filter_cons, inductionHypothesis, chosen, Bool.not_false, Bool.and_true]

/-- Deleting rows that a condition does not select leaves its selection alone. -/
theorem filter_delete {condition keep : Row → Bool}
    (apart : ∀ row, condition row = true → keep row = false) (rows : List Row) :
    (delete condition rows).filter keep = rows.filter keep := by
  rw [delete, List.filter_filter]
  refine List.filter_congr fun row _ => ?_
  cases chosen : condition row with
  | false => simp
  | true => simp [apart row chosen]

/-! ### Counting distinct keys -/

/-- `COUNT(DISTINCT key) + COUNT(*) - COUNT(key)`. -/
def countDistinct [DecidableEq Key] (key : Row → Option Key) (rows : List Row) : Nat :=
  (rows.filterMap key).dedup.length + rows.length - (rows.filterMap key).length

/-- No key occurs twice in a selection of rows. -/
def KeysDistinct (key : Row → Option Key) (rows : List Row) : Prop :=
  rows.Pairwise fun first second => key first = none ∨ key first ≠ key second

/-- The last row of every key and every row without a key. -/
def representatives [DecidableEq Key] (key : Row → Option Key) : List Row → List Row
  | [] => []
  | row :: rest =>
    match key row with
    | none => row :: representatives key rest
    | some value =>
      if value ∈ rest.filterMap key then representatives key rest
      else row :: representatives key rest

variable (key : Row → Option Key)

theorem KeysDistinct.nodup_keys {rows : List Row} (distinct : KeysDistinct key rows) :
    (rows.filterMap key).Nodup := by
  rw [List.Nodup, List.pairwise_filterMap]
  refine distinct.imp fun {first second} apart value present other alsoPresent => ?_
  rintro rfl
  rcases apart with absent | different
  · exact absurd present (by rw [absent]; simp)
  · exact different (present.trans alsoPresent.symm)

theorem KeysDistinct.of_ne {rows : List Row} (distinct : KeysDistinct key rows) {first second : Row}
    (firstMember : first ∈ rows) (secondMember : second ∈ rows) (different : first ≠ second) :
    key first = none ∨ key first ≠ key second := by
  have symmetric : Std.Symm fun first second : Row =>
      key first = none ∨ key first ≠ key second := by
    refine ⟨fun first second related => ?_⟩
    rcases related with absent | apart
    · rw [absent]
      exact (Classical.em (key second = none)).imp_right id
    · exact Or.inr apart.symm
  exact List.Pairwise.forall distinct firstMember secondMember different

/-- The rows of a table are its rows without a key and its rows with one. -/
theorem length_eq_keyless_add (rows : List Row) :
    rows.length =
      (rows.filter fun row => (key row).isNone).length + (rows.filterMap key).length := by
  induction rows with
  | nil => rfl
  | cons row rest inductionHypothesis =>
    cases present : key row with
    | none =>
      rw [List.filter_cons_of_pos (by simp [present]), List.filterMap_cons_none present,
        List.length_cons, List.length_cons, inductionHypothesis]
      omega
    | some value =>
      rw [List.filter_cons_of_neg (by simp [present]), List.filterMap_cons_some present,
        List.length_cons, List.length_cons, inductionHypothesis]
      omega

variable [DecidableEq Key]

theorem representatives_sublist (rows : List Row) : (representatives key rows).Sublist rows := by
  induction rows with
  | nil => exact List.Sublist.refl _
  | cons row rest inductionHypothesis =>
    simp only [representatives]
    split
    · exact inductionHypothesis.cons_cons row
    · split
      · exact inductionHypothesis.cons row
      · exact inductionHypothesis.cons_cons row

theorem representatives_keysDistinct (rows : List Row) :
    KeysDistinct key (representatives key rows) := by
  induction rows with
  | nil => exact List.Pairwise.nil
  | cons row rest inductionHypothesis =>
    simp only [representatives]
    split
    · next absent =>
      exact List.pairwise_cons.mpr ⟨fun _ _ => Or.inl absent, inductionHypothesis⟩
    · next value present =>
      split
      · exact inductionHypothesis
      · next new =>
        refine List.pairwise_cons.mpr ⟨fun later member => Or.inr fun same => ?_,
          inductionHypothesis⟩
        refine new (List.mem_filterMap.mpr ⟨later, ?_, same.symm.trans present⟩)
        exact (representatives_sublist key rest).subset member

theorem length_representatives (rows : List Row) :
    (representatives key rows).length = countDistinct key rows := by
  induction rows with
  | nil => rfl
  | cons row rest inductionHypothesis =>
    have fits := List.length_filterMap_le key rest
    simp only [representatives, countDistinct] at inductionHypothesis ⊢
    split
    · next absent =>
      rw [List.filterMap_cons_none absent, List.length_cons, List.length_cons, inductionHypothesis]
      omega
    · next value present =>
      rw [List.filterMap_cons_some present]
      split
      · next old =>
        rw [List.dedup_cons_of_mem old, inductionHypothesis, List.length_cons, List.length_cons]
        omega
      · next new =>
        rw [List.dedup_cons_of_notMem new, List.length_cons, List.length_cons, List.length_cons,
          List.length_cons, inductionHypothesis]
        omega

/-- No selection in which keys do not repeat is larger than the count. -/
theorem KeysDistinct.length_le {selection rows : List Row} (distinct : KeysDistinct key selection)
    (selected : selection.Sublist rows) : selection.length ≤ countDistinct key rows := by
  have keyless : (selection.filter fun row => (key row).isNone).length ≤
      (rows.filter fun row => (key row).isNone).length :=
    (selected.filter _).length_le
  have keyed : (selection.filterMap key).length ≤ (rows.filterMap key).dedup.length := by
    refine (List.subperm_of_subset (distinct.nodup_keys key) fun value member => ?_).length_le
    exact List.mem_dedup.mpr ((selected.filterMap key).subset member)
  have selectionSplit := length_eq_keyless_add key selection
  have rowsSplit := length_eq_keyless_add key rows
  rw [countDistinct]
  omega

/-! ### Disjoint selections -/

/-- Disjoint selections of one size from a set take no more than the set has. -/
theorem length_mul_le_card [DecidableEq Row] {size : Nat} {selections : List (Finset Row)}
    {rows : Finset Row} (disjoint : selections.Pairwise Disjoint)
    (sized : ∀ selection ∈ selections, selection.card = size)
    (within : ∀ selection ∈ selections, selection ⊆ rows) :
    selections.length * size ≤ rows.card := by
  induction selections generalizing rows with
  | nil => simp
  | cons selection rest inductionHypothesis =>
    obtain ⟨apart, disjoint⟩ := List.pairwise_cons.mp disjoint
    have remaining : rest.length * size ≤ (rows \ selection).card := by
      refine inductionHypothesis disjoint (fun other member => ?_) fun other member => ?_
      · exact sized other (List.mem_cons_of_mem _ member)
      · exact Finset.subset_sdiff.mpr
          ⟨within other (List.mem_cons_of_mem _ member), (apart other member).symm⟩
    have fits := Finset.card_le_card (within selection List.mem_cons_self)
    rw [Finset.card_sdiff_of_subset (within selection List.mem_cons_self),
      sized selection List.mem_cons_self] at remaining
    rw [sized selection List.mem_cons_self] at fits
    rw [List.length_cons, Nat.succ_mul]
    omega

end Table
