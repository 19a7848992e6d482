/-
This file develops rings of counters. A ring has one slot for each of the last instants, the slot
of an instant being its remainder, and a slot is cleared when time reaches a new instant that
falls into it. Counters stop at a cap.

A ring shows a history when the slot of every instant of the window holds how often that instant
occurs. Clearing the slots that time has reached, and counting the current instant, keep a ring
showing its history, and the sum over a span of ages is then the number of events in the span.
-/

import Mathlib.Data.List.Basic
import Mathlib.Data.Nat.ModEq
import Mathlib.Order.Basic

namespace Ring

/-- The slot of an instant. -/
def slot (size : Nat) [NeZero size] (time : Nat) : Fin size := Fin.ofNat size time

variable {size : Nat} [NeZero size]

/-- Two instants that are closer than the size of the ring have different slots. -/
theorem slot_ne {time other : Nat} (order : other < time) (near : time < other + size) :
    slot size time ≠ slot size other := by
  intro same
  have remainders : time % size = other % size := congrArg Fin.val same
  have divides : size ∣ time - other :=
    (Nat.modEq_iff_dvd' order.le).mp remainders.symm
  exact absurd (Nat.le_of_dvd (by omega) divides) (by omega)

/-- A ring goes round after its size. -/
theorem slot_add_size (time : Nat) : slot size (time + size) = slot size time :=
  Fin.ext (Nat.add_mod_right time size)

/-! ### Clearing slots -/

/-- The ring with the slots of some instants cleared, one after the other. -/
def clear (times : List Nat) (ring : Fin size → Nat) : Fin size → Nat :=
  times.foldl (fun ring time => Function.update ring (slot size time) 0) ring

theorem clear_apply (times : List Nat) (ring : Fin size → Nat) (index : Fin size) :
    clear times ring index = if ∃ time ∈ times, slot size time = index then 0 else ring index := by
  induction times generalizing ring with
  | nil => exact (if_neg fun ⟨_, absent, _⟩ => nomatch absent).symm
  | cons time rest inductionHypothesis =>
    rw [clear, List.foldl_cons, ← clear, inductionHypothesis]
    by_cases first : slot size time = index
    · rw [if_pos (show ∃ other ∈ time :: rest, slot size other = index from
        ⟨time, List.mem_cons_self, first⟩), first, Function.update_self, ite_self]
    · rw [Function.update_of_ne (Ne.symm first)]
      simp only [List.mem_cons, exists_eq_or_imp, first, false_or]

/-! ### Showing a history -/

/-- The ring shows the history of the instants up to the last: the slot of each of them holds how
often it occurs, up to the cap. -/
def Shows (cap : Nat) (history : List Nat) (last : Nat) (ring : Fin size → Nat) : Prop :=
  ∀ age < size, age ≤ last → ring (slot size (last - age)) = min (history.count (last - age)) cap

/-- An empty ring shows a history that is too old for it. -/
theorem shows_of_old {cap : Nat} {history : List Nat} {last : Nat}
    (old : ∀ time ∈ history, time + size ≤ last) :
    Shows cap history last fun _ : Fin size => 0 := by
  intro age young reaches
  have absent : last - age ∉ history := fun member => absurd (old _ member) (by omega)
  rw [List.count_eq_zero_of_not_mem absent, Nat.zero_min]

/-- When time goes on, the slots that it reaches are cleared. -/
theorem Shows.advance {cap : Nat} {history : List Nat} {last now : Nat} {ring : Fin size → Nat}
    (shown : Shows cap history last ring) (before : ∀ time ∈ history, time ≤ last)
    (order : last ≤ now) :
    Shows cap history now
      (clear ((List.range (min (now - last) size)).map fun offset => now - offset) ring) := by
  intro age young reaches
  rw [clear_apply]
  by_cases reached : age < now - last
  · have cleared : ∃ time ∈ (List.range (min (now - last) size)).map fun offset => now - offset,
        slot size time = slot size (now - age) :=
      ⟨now - age, List.mem_map.mpr ⟨age, List.mem_range.mpr (by omega), rfl⟩, rfl⟩
    have absent : now - age ∉ history := fun member => absurd (before _ member) (by omega)
    rw [if_pos cleared, List.count_eq_zero_of_not_mem absent, Nat.zero_min]
  · have kept : ¬ ∃ time ∈ (List.range (min (now - last) size)).map fun offset => now - offset,
        slot size time = slot size (now - age) := by
      rintro ⟨time, listed, same⟩
      obtain ⟨offset, few, rfl⟩ := List.mem_map.mp listed
      have few := List.mem_range.mp few
      exact slot_ne (by omega) (by omega) same
    have same : now - age = last - (age - (now - last)) := by omega
    rw [if_neg kept, same]
    exact shown _ (by omega) (by omega)

/-- Counting the current instant. -/
theorem Shows.count {cap : Nat} {history : List Nat} {now : Nat} {ring : Fin size → Nat}
    (shown : Shows cap history now ring) :
    Shows cap (history ++ [now]) now
      (Function.update ring (slot size now) (min (ring (slot size now) + 1) cap)) := by
  have current := shown 0 (Nat.pos_of_ne_zero (NeZero.ne size)) (Nat.zero_le now)
  rw [Nat.sub_zero] at current
  intro age young reaches
  rw [List.count_append, List.count_singleton]
  by_cases same : age = 0
  · subst same
    rw [Nat.sub_zero, Function.update_self, current, beq_self_eq_true, if_pos rfl]
    omega
  · have different : slot size (now - age) ≠ slot size now := (slot_ne (by omega) (by omega)).symm
    have other : (now == now - age) = false := beq_false_of_ne (by omega)
    rw [Function.update_of_ne different, shown age young reaches, other,
      if_neg Bool.false_ne_true, Nat.add_zero]

/-! ### Sums -/

/-- How many events of a history are in the span that ends now. -/
def recent (span now : Nat) (history : List Nat) : Nat :=
  history.countP fun time => decide (now < time + span) && decide (time ≤ now)

/-- A sum that stops at a cap. -/
def cappedSum (cap : Nat) (values : List Nat) : Nat :=
  values.foldl (fun total value => min (total + value) cap) 0

theorem foldl_capped (cap start : Nat) (values : List Nat) (small : start ≤ cap) :
    values.foldl (fun total value => min (total + value) cap) start =
      min (start + values.sum) cap := by
  induction values generalizing start with
  | nil => simpa using small
  | cons value rest inductionHypothesis =>
    rw [List.foldl_cons, inductionHypothesis _ (Nat.min_le_right _ _), List.sum_cons]
    omega

theorem cappedSum_eq (cap : Nat) (values : List Nat) :
    cappedSum cap values = min values.sum cap := by
  rw [cappedSum, foldl_capped cap 0 values (Nat.zero_le cap), Nat.zero_add]

/-- Capping the values makes no difference to a capped sum. -/
theorem min_sum_map_min (cap : Nat) (values : List Nat) :
    min (values.map fun value => min value cap).sum cap = min values.sum cap := by
  induction values with
  | nil => rfl
  | cons value rest inductionHypothesis =>
    rw [List.map_cons, List.sum_cons, List.sum_cons]
    omega

theorem recent_succ (span now : Nat) (history : List Nat) (reaches : span ≤ now) :
    recent (span + 1) now history = history.count (now - span) + recent span now history := by
  induction history with
  | nil => rfl
  | cons time rest inductionHypothesis =>
    have each :
        (if (decide (now < time + (span + 1)) && decide (time ≤ now)) = true then 1 else 0) =
          (if (time == now - span) = true then 1 else 0) +
          if (decide (now < time + span) && decide (time ≤ now)) = true then 1 else 0 := by
      simp only [Bool.and_eq_true, decide_eq_true_eq, beq_iff_eq]
      split <;> split <;> split <;> omega
    rw [recent, recent] at inductionHypothesis
    rw [recent, recent, List.countP_cons, inductionHypothesis, List.count_cons, List.countP_cons,
      each]
    omega

/-- A span that goes back to the start holds no more than a shorter one that does. -/
theorem recent_succ_of_lt {span now : Nat} (history : List Nat) (start : now < span) :
    recent (span + 1) now history = recent span now history := by
  refine List.countP_congr fun time _ => ?_
  simp only [Bool.and_eq_true, decide_eq_true_eq]
  omega

theorem recent_one (now : Nat) (history : List Nat) :
    recent 1 now history = history.count now := by
  refine List.countP_congr fun time _ => ?_
  simp only [Bool.and_eq_true, decide_eq_true_eq, beq_iff_eq]
  omega

/-- There is nothing recent in a history that is too old. -/
theorem recent_of_old {span now : Nat} {history : List Nat}
    (old : ∀ time ∈ history, time + span ≤ now) : recent span now history = 0 := by
  refine List.countP_eq_zero.mpr fun time listed => ?_
  have passed := old time listed
  simp only [Bool.and_eq_true, decide_eq_true_eq]
  omega

/-- The events of a span are those of its ages. -/
theorem sum_count (span now : Nat) (history : List Nat) :
    ((List.range (min span (now + 1))).map fun age => history.count (now - age)).sum =
      recent span now history := by
  induction span with
  | zero =>
    rw [Nat.zero_min, List.range_zero, List.map_nil, List.sum_nil, recent, eq_comm,
      List.countP_eq_zero]
    intro time _
    simp only [Bool.and_eq_true, decide_eq_true_eq]
    omega
  | succ span inductionHypothesis =>
    rcases Nat.lt_or_ge now span with start | reaches
    · have same : min (span + 1) (now + 1) = min span (now + 1) := by omega
      rw [same, inductionHypothesis, recent_succ_of_lt history start]
    · have one : min (span + 1) (now + 1) = span + 1 := by omega
      have fewer : min span (now + 1) = span := by omega
      rw [fewer] at inductionHypothesis
      rw [one, List.range_succ, List.map_append, List.sum_append, inductionHypothesis,
        recent_succ span now history reaches, List.map_singleton, List.sum_singleton,
        Nat.add_comm]

/-- The sum over the ages that a ring still shows is the number of events in the span. -/
theorem Shows.cappedSum_eq_recent {cap : Nat} {history : List Nat} {last now span : Nat}
    {ring : Fin size → Nat} (shown : Shows cap history last ring)
    (before : ∀ time ∈ history, time ≤ last) (order : last ≤ now) (within : span ≤ size) :
    cappedSum cap ((List.range' (now - last) (min span (now + 1) - (now - last))).map fun age =>
      ring (slot size (now - age))) = min (recent span now history) cap := by
  have values : (List.range' (now - last) (min span (now + 1) - (now - last))).map (fun age =>
        ring (slot size (now - age))) =
      ((List.range' (now - last) (min span (now + 1) - (now - last))).map fun age =>
        history.count (now - age)).map fun value => min value cap := by
    rw [List.map_map]
    refine List.map_congr_left fun age listed => ?_
    rw [List.mem_range'_1] at listed
    have same : now - age = last - (age - (now - last)) := by omega
    rw [Function.comp_apply, same]
    exact shown _ (by omega) (by omega)
  have newer : ∀ age ∈ List.range (min (now - last) (min span (now + 1))),
      history.count (now - age) = 0 := by
    intro age listed
    have few := List.mem_range.mp listed
    exact List.count_eq_zero_of_not_mem fun member => absurd (before _ member) (by omega)
  have nothing : ((List.range (min (now - last) (min span (now + 1)))).map fun age =>
      history.count (now - age)).sum = 0 := by
    rw [List.map_congr_left newer]
    simp
  have parts : List.range (min span (now + 1)) =
      List.range (min (now - last) (min span (now + 1))) ++
        List.range' (now - last) (min span (now + 1) - (now - last)) := by
    rw [List.range_eq_range', List.range_eq_range']
    rcases Nat.le_total (now - last) (min span (now + 1)) with fits | beyond
    · rw [Nat.min_eq_left fits]
      have joined : List.range' 0 (now - last) ++
          List.range' (0 + (now - last)) (min span (now + 1) - (now - last)) =
            List.range' 0 (now - last + (min span (now + 1) - (now - last))) :=
        List.range'_append_1
      rw [Nat.zero_add, Nat.add_sub_cancel' fits] at joined
      exact joined.symm
    · rw [Nat.min_eq_right beyond, Nat.sub_eq_zero_of_le beyond, List.range'_zero,
        List.append_nil]
  rw [values, cappedSum_eq, min_sum_map_min, ← sum_count, parts, List.map_append, List.sum_append,
    nothing, Nat.zero_add]

end Ring
