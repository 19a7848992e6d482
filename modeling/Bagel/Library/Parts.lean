/-
This file collects what is needed of sequences that are taken apart at a mark and cleaned
of blanks at both ends, as one reads a list of fields from a line of text: joining cleaned
parts and taking the result apart again gives the parts back.
-/

import Bagel.Library.Lines
import Mathlib.Algebra.GroupWithZero.Nat
import Mathlib.Data.List.DropRight

namespace Parts

variable {Symbol : Type}

/-- What is said of every symbol of a sequence is checked by going through the sequence. -/
theorem forall_mem_of_all {property : Symbol → Prop} [DecidablePred property]
    {sequence : List Symbol} (checked : (sequence.all fun symbol => property symbol) = true) :
    ∀ symbol ∈ sequence, property symbol := fun symbol member =>
  of_decide_eq_true (List.all_eq_true.mp checked symbol member)

/-! ### Blanks at the ends -/

/-- The sequence without the blanks at its two ends. -/
def trim (blank : Symbol → Bool) (sequence : List Symbol) : List Symbol :=
  (sequence.dropWhile blank).rdropWhile blank

variable {blank : Symbol → Bool}

theorem mem_of_mem_trim {sequence : List Symbol} {symbol : Symbol}
    (member : symbol ∈ trim blank sequence) : symbol ∈ sequence :=
  (List.dropWhile_suffix blank).subset ((List.rdropWhile_prefix blank _).subset member)

/-- A blank in front does not count. -/
theorem trim_cons_of_blank {symbol : Symbol} (isBlank : blank symbol = true)
    (sequence : List Symbol) : trim blank (symbol :: sequence) = trim blank sequence := by
  unfold trim
  rw [List.dropWhile_cons_of_pos isBlank]

/-- What starts with no blank starts so after its end was cleaned. -/
theorem dropWhile_rdropWhile_of_dropWhile {sequence : List Symbol}
    (clean : sequence.dropWhile blank = sequence) :
    (sequence.rdropWhile blank).dropWhile blank = sequence.rdropWhile blank := by
  obtain ⟨rest, whole⟩ := List.rdropWhile_prefix blank sequence
  cases kept : sequence.rdropWhile blank with
  | nil => rfl
  | cons first others =>
    refine List.dropWhile_cons_of_neg fun isBlank => ?_
    rw [kept] at whole
    rw [← whole, List.cons_append, List.dropWhile_cons_of_pos isBlank] at clean
    have shorter := (List.dropWhile_suffix (l := others ++ rest) blank).length_le
    rw [clean, List.length_cons] at shorter
    omega

@[simp]
theorem trim_trim (sequence : List Symbol) :
    trim blank (trim blank sequence) = trim blank sequence := by
  unfold trim
  rw [dropWhile_rdropWhile_of_dropWhile (List.dropWhile_idempotent blank _),
    List.rdropWhile_idempotent]

/-- Blanks are the same to two tests that agree on the sequence. -/
theorem trim_congr {blank' : Symbol → Bool} {sequence : List Symbol}
    (agree : ∀ symbol ∈ sequence, blank symbol = blank' symbol) :
    trim blank sequence = trim blank' sequence := by
  have fronts : ∀ sequence : List Symbol, (∀ symbol ∈ sequence, blank symbol = blank' symbol) →
      sequence.dropWhile blank = sequence.dropWhile blank' := by
    intro sequence agree
    induction sequence with
    | nil => rfl
    | cons symbol rest inductionHypothesis =>
      rw [List.dropWhile_cons, List.dropWhile_cons, agree symbol List.mem_cons_self,
        inductionHypothesis fun other member => agree other (List.mem_cons_of_mem _ member)]
  unfold trim List.rdropWhile
  rw [fronts sequence agree, fronts]
  intro symbol member
  exact agree symbol ((List.dropWhile_suffix blank').subset (List.mem_reverse.mp member))

/-! ### Around the first mark -/

variable [DecidableEq Symbol]

/-- What stands before and after the first mark. -/
def splitOnce (mark : Symbol) (sequence : List Symbol) : Option (List Symbol × List Symbol) :=
  if mark ∈ sequence then
    some (sequence.takeWhile (· ≠ mark), (sequence.dropWhile (· ≠ mark)).tail)
  else none

theorem splitOnce_append {mark : Symbol} {front : List Symbol} (without : mark ∉ front)
    (rest : List Symbol) : splitOnce mark (front ++ mark :: rest) = some (front, rest) := by
  have passes : ∀ symbol ∈ front, decide (symbol ≠ mark) = true := fun symbol member =>
    decide_eq_true fun same => without (same ▸ member)
  unfold splitOnce
  rw [if_pos (List.mem_append_right front List.mem_cons_self),
    List.takeWhile_append_of_pos passes, List.dropWhile_append_of_pos passes,
    List.takeWhile_cons_of_neg (by simp), List.dropWhile_cons_of_neg (by simp), List.append_nil,
    List.tail_cons]

/-- The two sides of the first mark make up the sequence. -/
theorem eq_append_of_splitOnce {mark : Symbol} {sequence front rest : List Symbol}
    (split : splitOnce mark sequence = some (front, rest)) :
    sequence = front ++ mark :: rest := by
  unfold splitOnce at split
  split at split
  · next marked =>
    cases split
    have some : sequence.dropWhile (· ≠ mark) ≠ [] := by
      intro none
      have every := List.dropWhile_eq_nil_iff.mp none mark marked
      exact of_decide_eq_true every rfl
    have head : (sequence.dropWhile (· ≠ mark)).head some = mark := by
      have stops := List.head_dropWhile_not (· ≠ mark) some
      simpa using stops
    have whole : sequence.takeWhile (· ≠ mark) ++ sequence.dropWhile (· ≠ mark) = sequence :=
      List.takeWhile_append_dropWhile
    rw [← List.cons_head_tail some, head] at whole
    exact whole.symm
  · cases split

theorem splitOnce_of_notMem {mark : Symbol} {sequence : List Symbol} (without : mark ∉ sequence) :
    splitOnce mark sequence = none := if_neg without

/-! ### Fields -/

variable (blank) (mark : Symbol)

/-- The cleaned fields between the marks. -/
def fields (sequence : List Symbol) : List (List Symbol) :=
  (sequence.splitOn mark).map (trim blank)

variable {blank mark}

theorem notMem_of_mem_fields {sequence field : List Symbol}
    (member : field ∈ fields blank mark sequence) : mark ∉ field := by
  obtain ⟨part, listed, rfl⟩ := List.mem_map.mp member
  exact fun inside => Lines.notMem_of_mem_splitOn listed (mem_of_mem_trim inside)

theorem trim_of_mem_fields {sequence field : List Symbol}
    (member : field ∈ fields blank mark sequence) : trim blank field = field := by
  obtain ⟨part, -, rfl⟩ := List.mem_map.mp member
  exact trim_trim part

omit [DecidableEq Symbol] in
theorem mem_intercalate {separator : List Symbol} {parts : List (List Symbol)} {symbol : Symbol}
    (member : symbol ∈ separator.intercalate parts) :
    symbol ∈ separator ∨ ∃ part ∈ parts, symbol ∈ part := by
  induction parts with
  | nil => exact absurd member (by simp [List.intercalate])
  | cons part rest inductionHypothesis =>
    cases rest with
    | nil =>
      rw [List.intercalate_singleton] at member
      exact .inr ⟨part, List.mem_singleton_self part, member⟩
    | cons next later =>
      rw [List.intercalate_cons_cons, List.mem_append, List.mem_append] at member
      rcases member with (inPart | inSeparator) | inRest
      · exact .inr ⟨part, List.mem_cons_self, inPart⟩
      · exact .inl inSeparator
      · refine (inductionHypothesis inRest).imp_right ?_
        rintro ⟨other, listed, inside⟩
        exact ⟨other, List.mem_cons_of_mem part listed, inside⟩

omit [DecidableEq Symbol] in
/-- What ends parts that are joined is the end of a part. -/
theorem exists_getLast?_intercalate {separator : List Symbol} {parts : List (List Symbol)}
    (some : parts ≠ []) (nonempty : ∀ part ∈ parts, part ≠ []) :
    ∃ part ∈ parts, (separator.intercalate parts).getLast? = part.getLast? := by
  induction parts with
  | nil => exact absurd rfl some
  | cons part rest inductionHypothesis =>
    cases rest with
    | nil => exact ⟨part, List.mem_cons_self, by rw [List.intercalate_singleton]⟩
    | cons next later =>
      obtain ⟨last, listed, same⟩ := inductionHypothesis (List.cons_ne_nil next later)
        fun other member => nonempty other (List.mem_cons_of_mem part member)
      refine ⟨last, List.mem_cons_of_mem part listed, ?_⟩
      have ends : last.getLast?.isSome = true := by
        rw [List.getLast?_isSome]
        exact nonempty last (List.mem_cons_of_mem part listed)
      rw [List.intercalate_cons_cons, List.getLast?_append, same, Option.or_of_isSome ends]

omit [DecidableEq Symbol] in
/-- Joined parts are as long as the parts, each with a separator but the last. -/
theorem length_intercalate {separator : Symbol} {parts : List (List Symbol)}
    (nonempty : parts ≠ []) :
    ([separator].intercalate parts).length + 1 =
      (parts.map fun part => part.length + 1).sum := by
  induction parts with
  | nil => exact absurd rfl nonempty
  | cons part rest inductionHypothesis =>
    cases rest with
    | nil => rw [List.intercalate_singleton, List.map_singleton, List.sum_singleton]
    | cons next later =>
      rw [List.intercalate_cons_cons, List.length_append, List.length_append,
        List.length_singleton, List.map_cons, List.sum_cons,
        ← inductionHypothesis (List.cons_ne_nil _ _)]
      omega

omit [DecidableEq Symbol] in
/-- Short parts make up a text that is not long. -/
theorem length_intercalate_le {separator : Symbol} {parts : List (List Symbol)} (bound : Nat)
    (short : ∀ part ∈ parts, part.length ≤ bound) :
    ([separator].intercalate parts).length ≤ parts.length * (bound + 1) := by
  induction parts with
  | nil => exact Nat.le_of_eq (by simp [List.intercalate])
  | cons part rest inductionHypothesis =>
    have first := short part List.mem_cons_self
    have others := inductionHypothesis fun other member =>
      short other (List.mem_cons_of_mem part member)
    cases rest with
    | nil =>
      rw [List.intercalate_singleton, List.length_singleton]
      omega
    | cons next later =>
      rw [List.intercalate_cons_cons, List.length_append, List.length_append,
        List.length_singleton, List.length_cons, Nat.succ_mul]
      omega

/-- Clean fields that were joined by a mark and a blank come apart again. -/
theorem fields_joined {gap : Symbol} (isBlank : blank gap = true) (other : mark ≠ gap)
    {parts : List (List Symbol)} (nonempty : parts ≠ []) (without : ∀ part ∈ parts, mark ∉ part)
    (clean : ∀ part ∈ parts, trim blank part = part) :
    fields blank mark ([mark, gap].intercalate parts) = parts := by
  -- A blank before the first part does no harm, and every later part has one.
  have general : ∀ (front : List Symbol), (∀ symbol ∈ front, blank symbol = true) →
      mark ∉ front → fields blank mark (front ++ [mark, gap].intercalate parts) = parts := by
    induction parts with
    | nil => exact absurd rfl nonempty
    | cons part rest inductionHypothesis =>
      intro front blanks fresh
      have whole : mark ∉ front ++ part := by
        rw [List.mem_append, not_or]
        exact ⟨fresh, without part List.mem_cons_self⟩
      have first : trim blank (front ++ part) = part := by
        unfold trim
        rw [List.dropWhile_append_of_pos blanks]
        exact clean part List.mem_cons_self
      cases rest with
      | nil =>
        rw [List.intercalate_singleton, fields, List.splitOn_eq_singleton whole,
          List.map_singleton, first]
      | cons next later =>
        have remaining := inductionHypothesis (List.cons_ne_nil next later)
          (fun part member => without part (List.mem_cons_of_mem _ member))
          (fun part member => clean part (List.mem_cons_of_mem _ member)) [gap]
          (by simpa using isBlank) (by simpa using other)
        rw [List.intercalate_cons_cons, ← List.append_assoc, ← List.append_assoc,
          List.append_assoc (front ++ part), List.cons_append, fields,
          List.splitOn_append_cons_self_of_not_mem whole, List.map_cons, first]
        exact congrArg (List.cons part) remaining
  exact general [] (by simp) List.not_mem_nil

end Parts
