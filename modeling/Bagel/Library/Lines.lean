/-
This file develops the division of a sequence into lines: maximal parts that end in a
mark and hold no other. What follows the last mark is not a line yet, and what is
appended later completes it, so the lines of a sequence are the first lines of every
longer one.
-/

import Mathlib.Data.List.DropRight

namespace Lines

variable {Symbol : Type} {mark : Symbol}

/-- One mark, at the end. -/
def IsLine (mark : Symbol) (line : List Symbol) : Prop :=
  ∃ body, line = body ++ [mark] ∧ mark ∉ body

theorem IsLine.ne_nil {line : List Symbol} (isLine : IsLine mark line) : line ≠ [] := by
  obtain ⟨body, rfl, -⟩ := isLine
  exact List.append_ne_nil_of_right_ne_nil _ (List.cons_ne_nil _ _)

theorem IsLine.getLast? {line : List Symbol} (isLine : IsLine mark line) :
    line.getLast? = some mark := by
  obtain ⟨body, rfl, -⟩ := isLine
  exact List.getLast?_concat

/-- What has no mark before a line makes a longer line. -/
theorem IsLine.append {held line : List Symbol} (without : mark ∉ held)
    (isLine : IsLine mark line) : IsLine mark (held ++ line) := by
  obtain ⟨body, rfl, without'⟩ := isLine
  refine ⟨held ++ body, (List.append_assoc _ _ _).symm, ?_⟩
  rw [List.mem_append, not_or]
  exact ⟨without, without'⟩

/-- A sequence is divided at its first mark in one way only. -/
theorem append_mark_inj {first second rest other : List Symbol} (without : mark ∉ first)
    (without' : mark ∉ second) (same : first ++ mark :: rest = second ++ mark :: other) :
    first = second ∧ rest = other := by
  induction first generalizing second with
  | nil =>
    cases second with
    | nil => exact ⟨rfl, (List.cons.inj same).2⟩
    | cons symbol second =>
      exact absurd ((List.cons.inj same).1 ▸ List.mem_cons_self) without'
  | cons symbol first inductionHypothesis =>
    cases second with
    | nil => exact absurd ((List.cons.inj same).1 ▸ List.mem_cons_self) without
    | cons symbol' second =>
      obtain ⟨head, tail⟩ := List.cons.inj same
      obtain ⟨both, rests⟩ := inductionHypothesis (fun member => without (.tail _ member))
        (fun member => without' (.tail _ member)) tail
      exact ⟨by rw [head, both], rests⟩

/-- And at its last mark. -/
theorem mark_append_inj {first second rest other : List Symbol} (without : mark ∉ rest)
    (without' : mark ∉ other) (same : first ++ mark :: rest = second ++ mark :: other) :
    first = second ∧ rest = other := by
  have backwards := congrArg List.reverse same
  rw [List.reverse_append, List.reverse_append, List.reverse_cons, List.reverse_cons,
    List.append_assoc, List.append_assoc, List.singleton_append, List.singleton_append] at backwards
  obtain ⟨rests, firsts⟩ := append_mark_inj (fun member => without (List.mem_reverse.mp member))
    (fun member => without' (List.mem_reverse.mp member)) backwards
  exact ⟨List.reverse_injective firsts, List.reverse_injective rests⟩

variable [DecidableEq Symbol] (mark)

/-- The part up to the first mark, with it, and everything if there is none. -/
def upTo : List Symbol → List Symbol
  | [] => []
  | symbol :: rest => if symbol = mark then [symbol] else symbol :: upTo rest

/-- The lines of a sequence that follows the held beginning of a line. -/
def linesFrom (held : List Symbol) : List Symbol → List (List Symbol)
  | [] => []
  | symbol :: rest =>
    if symbol = mark then (held ++ [symbol]) :: linesFrom [] rest
    else linesFrom (held ++ [symbol]) rest

/-- The lines of a sequence, without what follows the last mark. -/
def lines (sequence : List Symbol) : List (List Symbol) := linesFrom mark [] sequence

variable {mark}

/-! ### The first line -/

theorem upTo_of_notMem {sequence : List Symbol} (without : mark ∉ sequence) :
    upTo mark sequence = sequence := by
  induction sequence with
  | nil => rfl
  | cons symbol rest inductionHypothesis =>
    rw [List.mem_cons, not_or] at without
    rw [upTo, if_neg (Ne.symm without.1), inductionHypothesis without.2]

theorem isLine_upTo {sequence : List Symbol} (marked : mark ∈ sequence) :
    IsLine mark (upTo mark sequence) := by
  induction sequence with
  | nil => exact absurd marked List.not_mem_nil
  | cons symbol rest inductionHypothesis =>
    rw [upTo]
    split
    · next same => exact ⟨[], by rw [same, List.nil_append], List.not_mem_nil⟩
    · next different =>
      have later : mark ∈ rest := (List.mem_cons.mp marked).resolve_left (Ne.symm different)
      obtain ⟨body, ends, without⟩ := inductionHypothesis later
      refine ⟨symbol :: body, by rw [ends, List.cons_append], ?_⟩
      rw [List.mem_cons, not_or]
      exact ⟨Ne.symm different, without⟩

theorem upTo_append_drop (sequence : List Symbol) :
    upTo mark sequence ++ sequence.drop (upTo mark sequence).length = sequence := by
  induction sequence with
  | nil => rfl
  | cons symbol rest inductionHypothesis =>
    rw [upTo]
    split
    · rfl
    · rw [List.length_cons, List.drop_succ_cons, List.cons_append, inductionHypothesis]

theorem isPrefix_upTo (sequence : List Symbol) : upTo mark sequence <+: sequence :=
  ⟨_, upTo_append_drop sequence⟩

theorem upTo_ne_nil {sequence : List Symbol} (nonempty : sequence ≠ []) :
    upTo mark sequence ≠ [] := by
  cases sequence with
  | nil => exact absurd rfl nonempty
  | cons symbol rest =>
    rw [upTo]
    split <;> exact List.cons_ne_nil _ _

theorem upTo_append_of_mem {sequence : List Symbol} (marked : mark ∈ sequence)
    (more : List Symbol) : upTo mark (sequence ++ more) = upTo mark sequence := by
  induction sequence with
  | nil => exact absurd marked List.not_mem_nil
  | cons symbol rest inductionHypothesis =>
    rw [List.cons_append, upTo, upTo]
    by_cases same : symbol = mark
    · rw [if_pos same, if_pos same]
    · rw [if_neg same, if_neg same,
        inductionHypothesis ((List.mem_cons.mp marked).resolve_left (Ne.symm same))]

theorem upTo_append_of_notMem {sequence : List Symbol} (without : mark ∉ sequence)
    (more : List Symbol) : upTo mark (sequence ++ more) = sequence ++ upTo mark more := by
  induction sequence with
  | nil => rfl
  | cons symbol rest inductionHypothesis =>
    rw [List.mem_cons, not_or] at without
    rw [List.cons_append, upTo, if_neg (Ne.symm without.1), inductionHypothesis without.2,
      List.cons_append]

/-! ### All lines -/

theorem linesFrom_of_notMem {sequence : List Symbol} (without : mark ∉ sequence)
    (held : List Symbol) : linesFrom mark held sequence = [] := by
  induction sequence generalizing held with
  | nil => rfl
  | cons symbol rest inductionHypothesis =>
    rw [List.mem_cons, not_or] at without
    rw [linesFrom, if_neg (Ne.symm without.1), inductionHypothesis without.2]

theorem linesFrom_body_append {body : List Symbol} (without : mark ∉ body)
    (held rest : List Symbol) :
    linesFrom mark held (body ++ rest) = linesFrom mark (held ++ body) rest := by
  induction body generalizing held with
  | nil => rw [List.nil_append, List.append_nil]
  | cons symbol body inductionHypothesis =>
    rw [List.mem_cons, not_or] at without
    rw [List.cons_append, linesFrom, if_neg (Ne.symm without.1), inductionHypothesis without.2,
      List.append_assoc, List.singleton_append]

theorem linesFrom_line_append {line : List Symbol} (isLine : IsLine mark line)
    (held rest : List Symbol) :
    linesFrom mark held (line ++ rest) = (held ++ line) :: linesFrom mark [] rest := by
  obtain ⟨body, rfl, without⟩ := isLine
  rw [List.append_assoc, linesFrom_body_append without, List.singleton_append, linesFrom,
    if_pos rfl, List.append_assoc]

/-- Lines in front are the first lines of the whole. -/
theorem lines_flatten_append {parts : List (List Symbol)}
    (areLines : ∀ part ∈ parts, IsLine mark part) (rest : List Symbol) :
    lines mark (parts.flatten ++ rest) = parts ++ lines mark rest := by
  induction parts with
  | nil => rfl
  | cons part parts inductionHypothesis =>
    have others := inductionHypothesis fun other member =>
      areLines other (List.mem_cons_of_mem _ member)
    rw [List.flatten_cons, List.append_assoc, lines,
      linesFrom_line_append (areLines part List.mem_cons_self), List.nil_append,
      List.cons_append]
    exact congrArg (part :: ·) others

theorem lines_of_notMem {sequence : List Symbol} (without : mark ∉ sequence) :
    lines mark sequence = [] :=
  linesFrom_of_notMem without []

/-! ### Parts between marks -/

/-- No part of a sequence that was divided at a mark holds the mark. -/
theorem notMem_of_mem_splitOn {sequence part : List Symbol}
    (member : part ∈ sequence.splitOn mark) : mark ∉ part := by
  induction sequence generalizing part with
  | nil =>
    rw [List.splitOn_nil, List.mem_singleton] at member
    rw [member]
    exact List.not_mem_nil
  | cons symbol rest inductionHypothesis =>
    rw [List.splitOn_cons_eq_if_modifyHead] at member
    split at member
    · rcases List.mem_cons.mp member with rfl | later
      · exact List.not_mem_nil
      · exact inductionHypothesis later
    · next other =>
      obtain ⟨first, parts, split⟩ :=
        List.exists_cons_of_ne_nil (List.splitOn_ne_nil mark rest)
      rw [split, List.modifyHead_cons] at member
      rcases List.mem_cons.mp member with rfl | later
      · have without := inductionHypothesis (split ▸ List.mem_cons_self)
        rw [List.mem_cons, not_or]
        exact ⟨fun same => other (by rw [same, beq_self_eq_true]), without⟩
      · exact inductionHypothesis (split ▸ List.mem_cons_of_mem _ later)

omit [DecidableEq Symbol] in
theorem infix_intercalate {separator part : List Symbol} {parts : List (List Symbol)}
    (member : part ∈ parts) : part <:+: separator.intercalate parts := by
  induction parts with
  | nil => exact absurd member List.not_mem_nil
  | cons first rest inductionHypothesis =>
    rcases List.eq_nil_or_concat' rest with rfl | ⟨others, last, rfl⟩
    · have whole : separator.intercalate [first] = part := by
        rw [List.intercalate_singleton, List.mem_singleton.mp member]
      exact whole ▸ List.infix_rfl
    · rw [List.intercalate_cons_of_ne_nil (by simp)]
      rcases List.mem_cons.mp member with rfl | later
      · exact ⟨[], _, by rw [List.nil_append, List.append_assoc]⟩
      · exact (inductionHypothesis later).trans (List.suffix_append _ _).isInfix

theorem infix_of_mem_splitOn {sequence part : List Symbol}
    (member : part ∈ sequence.splitOn mark) : part <:+: sequence := by
  have whole : [mark].intercalate (sequence.splitOn mark) = sequence :=
    List.intercalate_splitOn mark
  rw [← whole]
  exact infix_intercalate member

/-- A part holds nothing but symbols of the sequence. -/
theorem subset_of_mem_splitOn {sequence part : List Symbol}
    (member : part ∈ sequence.splitOn mark) : part ⊆ sequence :=
  (infix_of_mem_splitOn member).subset

omit [DecidableEq Symbol] in
theorem intercalate_append {separator : List Symbol} {front back : List (List Symbol)}
    (inFront : front ≠ []) (behind : back ≠ []) :
    separator.intercalate (front ++ back) =
      separator.intercalate front ++ separator ++ separator.intercalate back := by
  induction front with
  | nil => exact absurd rfl inFront
  | cons part rest inductionHypothesis =>
    rcases List.eq_nil_or_concat' rest with rfl | ⟨others, last, rfl⟩
    · rw [List.singleton_append, List.intercalate_cons_of_ne_nil behind,
        List.intercalate_singleton]
    · have more : others ++ [last] ≠ [] := List.append_ne_nil_of_right_ne_nil _ (by simp)
      rw [List.cons_append, List.intercalate_cons_of_ne_nil (by simp),
        inductionHypothesis more, List.intercalate_cons_of_ne_nil more]
      simp only [List.append_assoc]

/-- What follows a mark ends a sequence exactly when its parts are the last ones, and not all. -/
theorem isSuffix_iff_splitOn {sequence ending : List Symbol} :
    (mark :: ending) <:+ sequence ↔
      ∃ front, front ≠ [] ∧ sequence.splitOn mark = front ++ ending.splitOn mark := by
  constructor
  · rintro ⟨start, rfl⟩
    exact ⟨start.splitOn mark, List.splitOn_ne_nil mark start,
      List.splitOn_append_cons_self start ending⟩
  · rintro ⟨front, some, parts⟩
    have whole : [mark].intercalate (sequence.splitOn mark) = sequence :=
      List.intercalate_splitOn mark
    rw [parts, intercalate_append some (List.splitOn_ne_nil mark ending),
      List.intercalate_splitOn] at whole
    exact ⟨[mark].intercalate front, by rw [← whole]; simp⟩

end Lines
