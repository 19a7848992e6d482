/-
This file proves what the attempt window catches: whenever enough distinct attempts
of one policy and network fall within the find time, and the last of them to arrive
is also the last of them by its own time, they are answered and consumed.

The window of an offense ends at the offense's own time. An attempt that arrives
after another one although it carries an earlier time does not look ahead, so a
burst whose last arrival is not its latest attempt can stay unanswered.
-/

import Bagel.StoreCalls

namespace Bagel

namespace Store

/-- The unconsumed rows of a policy and network, in order of arrival. -/
def openAttempts (store : Store) (policy : String) (network : IpNetwork) : List OffenseRow :=
  store.offenses.filter fun row =>
    row.policy == policy && row.network == network && !row.consumed

/-- Enough unconsumed attempts with distinct or absent keys within one span of the find
time. `latest` is the last of them to arrive. -/
structure Burst (store : Store) (policy : String) (network : IpNetwork)
    (maxAttempts findtimeSecs : Nat) (earlier : List OffenseRow) (latest : OffenseRow) : Prop where
  selected : (earlier ++ [latest]).Sublist (store.openAttempts policy network)
  distinct : Table.KeysDistinct OffenseRow.attemptKey (earlier ++ [latest])
  enough : maxAttempts ≤ (earlier ++ [latest]).length
  within : ∀ first ∈ earlier ++ [latest], ∀ second ∈ earlier ++ [latest],
    first.observedAt ≤ second.observedAt + findtimeSecs

/-- No burst of the policy ends with its latest attempt. -/
def WindowsAnswered (policy : String) (maxAttempts findtimeSecs : Nat) (store : Store) : Prop :=
  ∀ network earlier latest, store.Burst policy network maxAttempts findtimeSecs earlier latest →
    ∃ row ∈ earlier, latest.observedAt < row.observedAt

theorem Burst.of_sublist {store next : Store} {policy : String} {network : IpNetwork}
    {maxAttempts findtimeSecs : Nat} {earlier : List OffenseRow} {latest : OffenseRow}
    (fewer : (next.openAttempts policy network).Sublist (store.openAttempts policy network))
    (burst : next.Burst policy network maxAttempts findtimeSecs earlier latest) :
    store.Burst policy network maxAttempts findtimeSecs earlier latest :=
  ⟨burst.selected.trans fewer, burst.distinct, burst.enough, burst.within⟩

/-- Removing open attempts leaves no new burst. -/
theorem WindowsAnswered.of_sublist {store next : Store} {policy : String}
    {maxAttempts findtimeSecs : Nat}
    (fewer : ∀ network, (next.openAttempts policy network).Sublist
      (store.openAttempts policy network))
    (answered : store.WindowsAnswered policy maxAttempts findtimeSecs) :
    next.WindowsAnswered policy maxAttempts findtimeSecs :=
  fun network earlier latest burst =>
    answered network earlier latest (burst.of_sublist (fewer network))

/-! ### What a step leaves open -/

section Step

variable (store : Store) (input : EventInput) (offense : OffenseInput) (policy : String)
  (network : IpNetwork)

theorem openAttempts_record :
    (store.record input offense).openAttempts policy network =
      store.openAttempts policy network ++
        if offense.policy = policy ∧ offense.network = network then [store.rowOf input offense]
        else [] := by
  rw [openAttempts, record, List.filter_append, ← openAttempts]
  congr 1
  by_cases same : offense.policy = policy ∧ offense.network = network
  · rw [if_pos same]
    exact List.filter_cons_of_pos (by simp [rowOf, same])
  · rw [if_neg same]
    refine List.filter_cons_of_neg ?_
    simpa [rowOf] using same

/-- An offense lies in its own window. -/
theorem selects_rowOf : (input.windowOf offense).selects (store.rowOf input offense) = true := by
  cases grouped : offense.groupKey with
  | none => simp [OffenseWindow.selects, EventInput.windowOf, rowOf, grouped]
  | some key => simp [OffenseWindow.selects, EventInput.windowOf, rowOf, grouped]

/-- Consuming rows of the recorded offense's event or window leaves open at most what was
open before. -/
theorem openAttempts_consume {hit : OffenseRow → Bool}
    (chosen : hit (store.rowOf input offense) = true) :
    ((Table.update hit consume (store.offenses ++ [store.rowOf input offense])).filter fun row =>
      row.policy == policy && row.network == network && !row.consumed).Sublist
      (store.openAttempts policy network) := by
  rw [Table.filter_update_of_dropped fun row => by simp [consume], List.filter_append,
    List.filter_cons_of_neg (by simp [chosen]), List.filter_nil, List.append_nil]
  refine List.monotone_filter_right _ fun row kept => ?_
  exact (Bool.and_eq_true_iff.mp kept).1

end Step

/-- A step leaves no new attempt open, except that of an offense that its window counts. -/
theorem OffenseStep.openAttempts_sublist {store next : Store} {input : EventInput}
    {offense : OffenseInput} {lease : Option Lease}
    (step : OffenseStep store input offense next lease) (policy : String) (network : IpNetwork) :
    (next.openAttempts policy network).Sublist (store.openAttempts policy network) ∨
      (store.record input offense).countAttempts (input.windowOf offense) < offense.maxAttempts ∧
        next = store.record input offense := by
  cases step with
  | absorbed active =>
    exact Or.inl (openAttempts_consume store input offense policy network (by simp [rowOf]))
  | counted inactive few => exact Or.inr ⟨few, rfl⟩
  | banned inactive enough fits =>
    exact Or.inl (openAttempts_consume store input offense policy network
      (selects_rowOf store input offense))

/-! ### The invariant -/

/-- A burst that ends with the offense just recorded lies in the offense's window. -/
theorem Burst.length_le_countAttempts {store : Store} {input : EventInput} {offense : OffenseInput}
    {maxAttempts : Nat} {earlier : List OffenseRow}
    (burst : (store.record input offense).Burst offense.policy offense.network maxAttempts
      offense.findtimeSecs earlier (store.rowOf input offense))
    (ungrouped : offense.groupKey = none)
    (last : ∀ row ∈ earlier, row.observedAt ≤ input.timeOf offense) :
    (earlier ++ [store.rowOf input offense]).length ≤
      (store.record input offense).countAttempts (input.windowOf offense) := by
  have inside : ∀ row ∈ earlier ++ [store.rowOf input offense],
      (input.windowOf offense).selects row = true := by
    intro row member
    have chosen := List.mem_filter.mp (burst.selected.subset member)
    have near := burst.within (store.rowOf input offense) (by simp) row member
    have early : row.observedAt ≤ input.timeOf offense := by
      rcases List.mem_append.mp member with old | new
      · exact last row old
      · rw [List.mem_singleton.mp new]
        exact Nat.le_refl _
    have near : input.timeOf offense ≤ row.observedAt + offense.findtimeSecs := near
    simpa [OffenseWindow.selects, EventInput.windowOf, ungrouped, early, near] using chosen.2
  have selected : (earlier ++ [store.rowOf input offense]).Sublist
      ((store.record input offense).offenses.filter (input.windowOf offense).selects) := by
    rw [← List.filter_eq_self.mpr inside]
    exact (burst.selected.trans List.filter_sublist).filter _
  have counted := Table.KeysDistinct.length_le OffenseRow.attemptKey burst.distinct selected
  simpa [countAttempts, EventInput.windowOf, ungrouped] using counted

theorem OffenseStep.windowsAnswered {policy : String} {maxAttempts findtimeSecs : Nat}
    {store next : Store} {input : EventInput} {offense : OffenseInput} {lease : Option Lease}
    (fixed : offense.policy = policy → offense.maxAttempts = maxAttempts ∧
      offense.findtimeSecs = findtimeSecs ∧ offense.groupKey = none)
    (step : OffenseStep store input offense next lease)
    (answered : store.WindowsAnswered policy maxAttempts findtimeSecs) :
    next.WindowsAnswered policy maxAttempts findtimeSecs := by
  intro network earlier latest burst
  rcases step.openAttempts_sublist policy network with fewer | ⟨few, rfl⟩
  · exact answered network earlier latest (burst.of_sublist fewer)
  · have grown := openAttempts_record store input offense policy network
    by_cases same : offense.policy = policy ∧ offense.network = network
    · obtain ⟨rfl, rfl⟩ := same
      obtain ⟨rfl, rfl, ungrouped⟩ := fixed rfl
      rw [if_pos ⟨rfl, rfl⟩] at grown
      -- Either the burst was open before, or the new row is its last.
      obtain ⟨front, back, split, old, new⟩ := List.sublist_append_iff.mp (grown ▸ burst.selected)
      rcases List.sublist_singleton.mp new with rfl | rfl
      · rw [List.append_nil] at split
        exact answered _ earlier latest ⟨split ▸ old, burst.distinct, burst.enough, burst.within⟩
      · obtain ⟨rfl, same⟩ := List.append_inj' split rfl
        obtain rfl := List.singleton_inj.mp same
        by_contra absent
        push Not at absent
        have counted := burst.length_le_countAttempts ungrouped absent
        exact absurd (burst.enough.trans counted) (Nat.not_le.mpr few)
    · rw [if_neg same, List.append_nil] at grown
      exact answered network earlier latest (burst.of_sublist (grown ▸ List.Sublist.refl _))

end Store

/-- After every run in which a policy keeps its limits and groups nothing, any burst of
unconsumed attempts holds an attempt later than the last one to arrive. -/
theorem burst_outlasts_last_arrival (policy : String) (maxAttempts findtimeSecs : Nat)
    (calls : List StoreCall)
    (fixed : ∀ call ∈ calls, ∀ input ∈ call.inputs, ∀ offense ∈ input.offenses,
      offense.policy = policy → offense.maxAttempts = maxAttempts ∧
        offense.findtimeSecs = findtimeSecs ∧ offense.groupKey = none)
    (network : IpNetwork) (earlier : List OffenseRow) (latest : OffenseRow)
    (burst : (StoreCall.run calls).Burst policy network maxAttempts findtimeSecs earlier latest) :
    ∃ row ∈ earlier, latest.observedAt < row.observedAt := by
  have answered : (StoreCall.run calls).WindowsAnswered policy maxAttempts findtimeSecs := by
    refine Transaction.foldl_preserves calls ?_ fun call member store => ?_
    · intro network earlier latest burst
      have empty := burst.selected
      simp [Store.empty, Store.openAttempts] at empty
    · refine StoreCall.execute_preserves_offenses ?_ ?_ ?_ call ?_
      · exact fun store _ _ => Store.WindowsAnswered.of_sublist fun _ => List.Sublist.refl _
      · exact fun store _ => Store.WindowsAnswered.of_sublist fun _ => List.Sublist.refl _
      · exact fun store before => Store.WindowsAnswered.of_sublist fun _ =>
          List.filter_sublist.filter _
      · intro input brought offense present store next lease _ _ step
        exact step.windowsAnswered (fixed call member input brought offense present)
  exact answered network earlier latest burst

/-- Two failed logins five seconds apart, the later one first. -/
def swappedLogins : List StoreCall :=
  [.processEvent (failedLogin "first" 0xC0000201#32 100),
    .processEvent (failedLogin "second" 0xC0000201#32 95)]

/-- Both logins stay open although two attempts within ten seconds are to be banned. -/
theorem burst_swappedLogins :
    ∃ earlier latest, (StoreCall.run swappedLogins).Burst "ssh" (hostNetwork (.v4 0xC0000201#32))
      2 10 [earlier] latest ∧ latest.observedAt = 95 ∧ earlier.observedAt = 100 := by
  let earlier : OffenseRow :=
    ⟨0, "sshd", "first", "ssh", hostNetwork (.v4 0xC0000201#32), 100, none, false⟩
  let latest : OffenseRow :=
    ⟨1, "sshd", "second", "ssh", hostNetwork (.v4 0xC0000201#32), 95, none, false⟩
  have openRows : (StoreCall.run swappedLogins).openAttempts "ssh"
      (hostNetwork (.v4 0xC0000201#32)) = [earlier, latest] := by decide
  refine ⟨earlier, latest, ⟨?_, ?_, ?_, ?_⟩, rfl, rfl⟩
  · rw [openRows]
    exact List.Sublist.refl _
  · exact List.pairwise_cons.mpr ⟨fun _ _ => Or.inl rfl, List.pairwise_singleton _ _⟩
  · decide
  · decide

theorem burst_outlasts_last_arrival_of_swapped_logins :
    ∃ earlier latest, (StoreCall.run swappedLogins).Burst "ssh" (hostNetwork (.v4 0xC0000201#32))
      2 10 earlier latest ∧ ∃ row ∈ earlier, latest.observedAt < row.observedAt := by
  obtain ⟨earlier, latest, burst, -, -⟩ := burst_swappedLogins
  refine ⟨[earlier], latest, burst, ?_⟩
  exact burst_outlasts_last_arrival "ssh" 2 10 swappedLogins (by decide) _ _ _ burst

/-- An attempt that arrives late escapes the window: two logins of different records within
the find time stay unconsumed, and no lease was ever granted. -/
theorem late_arrival_escapes_window :
    (∀ call ∈ swappedLogins, ∀ input ∈ call.inputs, ∀ offense ∈ input.offenses,
      offense.policy = "ssh" → offense.maxAttempts = 2 ∧ offense.findtimeSecs = 10 ∧
        offense.groupKey = none) ∧
    (swappedLogins.flatMap StoreCall.inputs).Pairwise (fun first second =>
      first.eventId ≠ second.eventId) ∧
    (∃ earlier latest, (StoreCall.run swappedLogins).Burst "ssh"
      (hostNetwork (.v4 0xC0000201#32)) 2 10 earlier latest) ∧
    (StoreCall.run swappedLogins).leases = [] ∧ (StoreCall.run swappedLogins).granted = [] := by
  obtain ⟨earlier, latest, burst, -, -⟩ := burst_swappedLogins
  exact ⟨by decide, by decide, ⟨[earlier], latest, burst⟩, by decide, by decide⟩

end Bagel
