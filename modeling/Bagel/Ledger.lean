/-
This file proves that bans are paid for: every automatic lease can be given as many
offense rows as its policy asks for, rows of its own network and window, so that no
row pays for two leases.

The payment of a lease is taken from the rows that its window counts. They are
unconsumed before and consumed after, which is why no later lease can count them
again. The tables are pruned, so payments refer to the history of inserted rows.
-/

import Bagel.Leases

namespace Bagel

namespace Store

/-! ### The rows of the table and of the history -/

/-- Every row has its own serial number, and the unconsumed rows of the table are rows of
the history. -/
structure RowsKnown (store : Store) : Prop where
  numbered : ∀ row ∈ store.inserted, row.serial < store.inserted.length
  tabled : ∀ row ∈ store.offenses, row.serial < store.inserted.length
  nodup : (store.offenses.map OffenseRow.serial).Nodup
  known : ∀ row ∈ store.offenses, row.consumed = false → row ∈ store.inserted

theorem RowsKnown.empty : Store.empty.RowsKnown :=
  ⟨by simp [Store.empty], by simp [Store.empty], by simp [Store.empty], by simp [Store.empty]⟩

theorem RowsKnown.rowOf_notMem {store : Store} (rows : store.RowsKnown) (input : EventInput)
    (offense : OffenseInput) : store.rowOf input offense ∉ store.inserted :=
  fun member => Nat.lt_irrefl _ (rows.numbered _ member)

theorem RowsKnown.record {store : Store} (rows : store.RowsKnown) (input : EventInput)
    (offense : OffenseInput) : (store.record input offense).RowsKnown where
  numbered := by
    intro row member
    rw [Store.record, List.length_append, List.length_singleton]
    rcases List.mem_append.mp member with old | new
    · exact Nat.lt_succ_of_lt (rows.numbered row old)
    · rw [List.mem_singleton.mp new]
      exact Nat.lt_succ_self _
  tabled := by
    intro row member
    rw [Store.record, List.length_append, List.length_singleton]
    rcases List.mem_append.mp member with old | new
    · exact Nat.lt_succ_of_lt (rows.tabled row old)
    · rw [List.mem_singleton.mp new]
      exact Nat.lt_succ_self _
  nodup := by
    rw [Store.record, List.map_append]
    refine List.nodup_append.mpr ⟨rows.nodup, List.nodup_singleton _, ?_⟩
    intro serial old other new same
    obtain ⟨row, member, rfl⟩ := List.mem_map.mp old
    obtain rfl := List.mem_singleton.mp new
    exact Nat.lt_irrefl _ (same ▸ rows.tabled row member)
  known := by
    intro row member unconsumed
    rcases List.mem_append.mp member with old | new
    · exact List.mem_append_left _ (rows.known row old unconsumed)
    · exact List.mem_append_right _ new

/-- Consuming rows touches nothing but their flag. -/
theorem mem_of_mem_consume {hit : OffenseRow → Bool} {rows : List OffenseRow} {row : OffenseRow}
    (member : row ∈ Table.update hit consume rows) (unconsumed : row.consumed = false) :
    row ∈ rows ∧ hit row = false := by
  obtain ⟨old, present, rfl⟩ := Table.mem_update.mp member
  split at unconsumed
  · exact absurd unconsumed (by simp [consume])
  · next spared =>
    rw [if_neg spared]
    exact ⟨present, Bool.eq_false_of_not_eq_true spared⟩

theorem map_serial_consume (hit : OffenseRow → Bool) (rows : List OffenseRow) :
    (Table.update hit consume rows).map OffenseRow.serial = rows.map OffenseRow.serial := by
  rw [Table.update, List.map_map]
  refine List.map_congr_left fun row _ => ?_
  rw [Function.comp_apply]
  split <;> rfl

theorem RowsKnown.consume {store : Store} (rows : store.RowsKnown) (hit : OffenseRow → Bool) :
    { store with offenses := Table.update hit Store.consume store.offenses }.RowsKnown where
  numbered := rows.numbered
  tabled := by
    intro row member
    have listed : row.serial ∈ (Table.update hit Store.consume store.offenses).map
        OffenseRow.serial := List.mem_map_of_mem member
    rw [map_serial_consume] at listed
    obtain ⟨old, present, same⟩ := List.mem_map.mp listed
    rw [← same]
    exact rows.tabled old present
  nodup := by
    rw [map_serial_consume]
    exact rows.nodup
  known := fun row member unconsumed =>
    rows.known row (mem_of_mem_consume member unconsumed).1 unconsumed

theorem RowsKnown.withoutOffenses {store : Store} (rows : store.RowsKnown) (before : Nat) :
    (store.withoutOffenses before).RowsKnown where
  numbered := rows.numbered
  tabled := fun row member => rows.tabled row (Table.mem_delete.mp member).1
  nodup := rows.nodup.sublist (List.filter_sublist.map _)
  known := fun row member => rows.known row (Table.mem_delete.mp member).1

/-! ### Payments -/

/-- The automatic leases ever granted under a policy. -/
def grantsOf (store : Store) (policy : String) : List Grant :=
  store.granted.filter fun grant => grant.lease.policy == policy

/-- The rows of a payment pay for a lease. -/
structure Pays (inserted : List OffenseRow) (maxAttempts : Nat) (grant : Grant)
    (payment : Finset OffenseRow) : Prop where
  size : payment.card = maxAttempts
  history : ∀ row ∈ payment, row ∈ inserted
  sameBan : ∀ row ∈ payment, row.policy = grant.lease.policy ∧ row.network = grant.lease.network
  inWindow : ∀ row ∈ payment, grant.lease.createdAt - grant.trigger.findtimeSecs ≤ row.observedAt ∧
    row.observedAt ≤ grant.lease.createdAt
  distinct : grant.trigger.groupKey = none → ∀ first ∈ payment, ∀ second ∈ payment,
    first ≠ second → first.attemptKey = none ∨ first.attemptKey ≠ second.attemptKey
  grouped : ∀ key, grant.trigger.groupKey = some key → ∀ row ∈ payment, row.attemptKey = some key

theorem Pays.mono {inserted more : List OffenseRow} {maxAttempts : Nat} {grant : Grant}
    {payment : Finset OffenseRow} (pays : Pays inserted maxAttempts grant payment) :
    Pays (inserted ++ more) maxAttempts grant payment :=
  { pays with history := fun row member => List.mem_append_left _ (pays.history row member) }

/-- The rows that a window counts. -/
def countedRows (store : Store) (window : OffenseWindow) : List OffenseRow :=
  let rows := store.offenses.filter window.selects
  if window.groupKey.isSome then rows else Table.representatives OffenseRow.attemptKey rows

theorem length_countedRows (store : Store) (window : OffenseWindow) :
    (store.countedRows window).length = store.countAttempts window := by
  unfold countedRows countAttempts
  split
  · rfl
  · exact Table.length_representatives _ _

theorem countedRows_sublist (store : Store) (window : OffenseWindow) :
    (store.countedRows window).Sublist (store.offenses.filter window.selects) := by
  unfold countedRows
  split
  · exact List.Sublist.refl _
  · exact Table.representatives_sublist _ _

/-- What the lease of an offense is paid with: the first rows that its window counts. -/
def payment (store : Store) (window : OffenseWindow) (maxAttempts : Nat) : Finset OffenseRow :=
  ((store.countedRows window).take maxAttempts).toFinset

theorem mem_payment {store : Store} {window : OffenseWindow} {maxAttempts : Nat} {row : OffenseRow}
    (member : row ∈ store.payment window maxAttempts) :
    row ∈ store.offenses ∧ window.selects row = true := by
  have taken := List.mem_toFinset.mp member
  exact List.mem_filter.mp ((countedRows_sublist store window).subset (List.mem_of_mem_take taken))

/-- The rows that fill the window of an offense pay for its lease. -/
theorem pays_payment {store : Store} (rows : store.RowsKnown) (input : EventInput)
    (offense : OffenseInput) (lease : Lease) (samePolicy : lease.policy = offense.policy)
    (sameNetwork : lease.network = offense.network)
    (sameTime : lease.createdAt = input.timeOf offense)
    (enough : offense.maxAttempts ≤ store.countAttempts (input.windowOf offense)) :
    Pays store.inserted offense.maxAttempts ⟨lease, offense⟩
      (store.payment (input.windowOf offense) offense.maxAttempts) where
  size := by
    have nodup : (store.countedRows (input.windowOf offense)).Nodup :=
      (rows.nodup.of_map _).sublist
        ((countedRows_sublist store _).trans List.filter_sublist)
    rw [payment, List.toFinset_card_of_nodup (nodup.sublist (List.take_sublist _ _)),
      List.length_take, length_countedRows, Nat.min_eq_left enough]
  history := by
    intro row member
    obtain ⟨present, selected⟩ := mem_payment member
    refine rows.known row present ?_
    simp only [OffenseWindow.selects, Bool.and_eq_true, Bool.not_eq_true'] at selected
    exact selected.1.1.1.2
  sameBan := by
    intro row member
    have selected := (mem_payment member).2
    simp only [OffenseWindow.selects, EventInput.windowOf, Bool.and_eq_true, beq_iff_eq] at selected
    rw [samePolicy, sameNetwork]
    exact selected.1.1.1.1
  inWindow := by
    intro row member
    have selected := (mem_payment member).2
    simp only [OffenseWindow.selects, EventInput.windowOf, Bool.and_eq_true] at selected
    rw [sameTime]
    exact ⟨of_decide_eq_true selected.1.1.2, of_decide_eq_true selected.1.2⟩
  distinct := by
    intro ungrouped first firstMember second secondMember different
    have counted : store.countedRows (input.windowOf offense) =
        Table.representatives OffenseRow.attemptKey
          (store.offenses.filter (input.windowOf offense).selects) := by
      have ungrouped : offense.groupKey = none := ungrouped
      simp [countedRows, EventInput.windowOf, ungrouped]
    rw [payment, counted, List.mem_toFinset] at firstMember secondMember
    exact (Table.representatives_keysDistinct _ _).of_ne _ (List.mem_of_mem_take firstMember)
      (List.mem_of_mem_take secondMember) different
  grouped := by
    intro key grouped row member
    have selected := (mem_payment member).2
    have grouped : offense.groupKey = some key := grouped
    simp only [OffenseWindow.selects, EventInput.windowOf, grouped, Bool.and_eq_true,
      Option.all_some, beq_iff_eq] at selected
    exact selected.2

/-! ### The ledger -/

/-- Payments for all leases of a policy. An unconsumed row has paid for nothing yet. -/
structure Ledger (store : Store) (policy : String) (maxAttempts : Nat)
    (payments : List (Finset OffenseRow)) : Prop where
  rows : store.RowsKnown
  paid : List.Forall₂ (Pays store.inserted maxAttempts) (store.grantsOf policy) payments
  disjoint : payments.Pairwise Disjoint
  unspent : ∀ row ∈ store.offenses, row.consumed = false → ∀ payment ∈ payments, row ∉ payment

/-- The leases of a policy can all be paid for. -/
def Balanced (policy : String) (maxAttempts : Nat) (store : Store) : Prop :=
  ∃ payments, store.Ledger policy maxAttempts payments

section Ledger

variable {store : Store} {policy : String} {maxAttempts : Nat} {payments : List (Finset OffenseRow)}

/-- The ledger reads the offenses and the history alone. -/
theorem Ledger.congr {other : Store} (ledger : store.Ledger policy maxAttempts payments)
    (sameOffenses : other.offenses = store.offenses)
    (sameInserted : other.inserted = store.inserted)
    (sameGrants : other.grantsOf policy = store.grantsOf policy) :
    other.Ledger policy maxAttempts payments := by
  refine ⟨⟨?_, ?_, ?_, ?_⟩, ?_, ledger.disjoint, ?_⟩
  · rw [sameInserted]
    exact ledger.rows.numbered
  · rw [sameOffenses, sameInserted]
    exact ledger.rows.tabled
  · rw [sameOffenses]
    exact ledger.rows.nodup
  · rw [sameOffenses, sameInserted]
    exact ledger.rows.known
  · rw [sameInserted, sameGrants]
    exact ledger.paid
  · rw [sameOffenses]
    exact ledger.unspent

theorem Ledger.subset_inserted (ledger : store.Ledger policy maxAttempts payments)
    {payment : Finset OffenseRow} (member : payment ∈ payments) :
    ∃ grant ∈ store.grantsOf policy, Pays store.inserted maxAttempts grant payment := by
  obtain ⟨index, bound, rfl⟩ := List.getElem_of_mem member
  have sameLength := ledger.paid.length_eq
  exact ⟨_, List.getElem_mem (sameLength ▸ bound), ledger.paid.get _ _⟩

theorem Ledger.record (ledger : store.Ledger policy maxAttempts payments) (input : EventInput)
    (offense : OffenseInput) : (store.record input offense).Ledger policy maxAttempts payments where
  rows := ledger.rows.record input offense
  paid := ledger.paid.imp fun _ _ pays => pays.mono
  disjoint := ledger.disjoint
  unspent := by
    intro row member unconsumed payment included
    rcases List.mem_append.mp member with old | new
    · exact ledger.unspent row old unconsumed payment included
    · -- The new row is in no payment, since payments are taken from the old history.
      intro spent
      obtain ⟨grant, -, pays⟩ := ledger.subset_inserted included
      rw [List.mem_singleton.mp new] at spent
      exact ledger.rows.rowOf_notMem input offense (pays.history _ spent)

theorem Ledger.consume (ledger : store.Ledger policy maxAttempts payments)
    (hit : OffenseRow → Bool) :
    { store with offenses := Table.update hit Store.consume store.offenses }.Ledger policy
      maxAttempts payments where
  rows := ledger.rows.consume hit
  paid := ledger.paid
  disjoint := ledger.disjoint
  unspent := fun row member unconsumed =>
    ledger.unspent row (mem_of_mem_consume member unconsumed).1 unconsumed

theorem Ledger.withoutOffenses (ledger : store.Ledger policy maxAttempts payments) (before : Nat) :
    (store.withoutOffenses before).Ledger policy maxAttempts payments where
  rows := ledger.rows.withoutOffenses before
  paid := ledger.paid
  disjoint := ledger.disjoint
  unspent := fun row member => ledger.unspent row (Table.mem_delete.mp member).1

/-- A ban of another policy leaves the ledger alone. -/
theorem Ledger.ban_other (ledger : store.Ledger policy maxAttempts payments) (input : EventInput)
    (offense : OffenseInput) (other : offense.policy ≠ policy) :
    (store.ban input offense).Ledger policy maxAttempts payments := by
  refine ((ledger.record input offense).consume (input.windowOf offense).selects).congr rfl rfl ?_
  rw [grantsOf, ban, List.filter_append, List.filter_cons_of_neg (by simp [leaseOf, other]),
    List.filter_nil, List.append_nil]
  rfl

/-- A ban of the policy adds the payment of its lease. -/
theorem Ledger.ban_same (ledger : store.Ledger policy maxAttempts payments) (input : EventInput)
    (offense : OffenseInput) (same : offense.policy = policy)
    (fixed : offense.maxAttempts = maxAttempts)
    (enough : offense.maxAttempts ≤
      (store.record input offense).countAttempts (input.windowOf offense)) :
    (store.ban input offense).Ledger policy maxAttempts (payments ++
      [(store.record input offense).payment (input.windowOf offense) maxAttempts]) := by
  have recorded := ledger.record input offense
  have consumed := recorded.consume (input.windowOf offense).selects
  have grants : (store.ban input offense).grantsOf policy =
      store.grantsOf policy ++ [⟨store.leaseOf input offense, offense⟩] := by
    rw [grantsOf, ban, List.filter_append, List.filter_cons_of_pos (by simp [leaseOf, same]),
      List.filter_nil, ← grantsOf]
  have pays := pays_payment recorded.rows input offense (store.leaseOf input offense) rfl rfl rfl
    enough
  rw [fixed] at pays
  refine ⟨⟨consumed.rows.numbered, consumed.rows.tabled, consumed.rows.nodup,
    consumed.rows.known⟩, ?_, ?_, ?_⟩
  · rw [grants]
    exact List.rel_append consumed.paid (.cons pays .nil)
  · refine List.pairwise_append.mpr ⟨ledger.disjoint, List.pairwise_singleton _ _, ?_⟩
    intro old included new single
    rw [List.mem_singleton.mp single, Finset.disjoint_left]
    intro row spent again
    -- A row that the window counts is unconsumed, so no earlier lease was paid with it.
    obtain ⟨present, selected⟩ := mem_payment again
    refine recorded.unspent row present ?_ old included spent
    simp only [OffenseWindow.selects, Bool.and_eq_true, Bool.not_eq_true'] at selected
    exact selected.1.1.1.2
  · intro row member unconsumed payment included
    rcases List.mem_append.mp included with old | new
    · exact consumed.unspent row member unconsumed payment old
    · intro spent
      rw [List.mem_singleton.mp new] at spent
      have spared := (mem_of_mem_consume member unconsumed).2
      rw [(mem_payment spent).2] at spared
      exact Bool.noConfusion spared

theorem OffenseStep.balanced {next : Store} {input : EventInput} {offense : OffenseInput}
    {lease : Option Lease} (step : OffenseStep store input offense next lease)
    (fixed : offense.policy = policy → offense.maxAttempts = maxAttempts)
    (balanced : store.Balanced policy maxAttempts) : next.Balanced policy maxAttempts := by
  obtain ⟨payments, ledger⟩ := balanced
  cases step with
  | absorbed active => exact ⟨payments, (ledger.record input offense).consume _⟩
  | counted inactive few => exact ⟨payments, ledger.record input offense⟩
  | banned inactive enough fits =>
    by_cases same : offense.policy = policy
    · exact ⟨_, ledger.ban_same input offense same (fixed same) enough⟩
    · exact ⟨payments, ledger.ban_other input offense same⟩

end Ledger

/-- Disjoint payments cannot exceed the rows they are taken from. -/
theorem Ledger.length_mul_le {store : Store} {policy : String} {maxAttempts : Nat}
    {payments : List (Finset OffenseRow)} (ledger : store.Ledger policy maxAttempts payments) :
    (store.grantsOf policy).length * maxAttempts ≤
      (store.inserted.filter fun row => row.policy == policy).length := by
  have bounded : payments.length * maxAttempts ≤
      (store.inserted.filter fun row => row.policy == policy).toFinset.card := by
    refine Table.length_mul_le_card ledger.disjoint (fun payment member => ?_)
      fun payment member row spent => ?_
    · obtain ⟨grant, -, pays⟩ := ledger.subset_inserted member
      exact pays.size
    · obtain ⟨grant, granted, pays⟩ := ledger.subset_inserted member
      have samePolicy : grant.lease.policy = policy := by
        simpa using (List.mem_filter.mp granted).2
      rw [List.mem_toFinset, List.mem_filter]
      exact ⟨pays.history row spent, by simp [(pays.sameBan row spent).1, samePolicy]⟩
  rw [ledger.paid.length_eq]
  exact bounded.trans (List.toFinset_card_le _)

end Store

/-- In every run in which a policy keeps its limit, its books balance. -/
theorem balanced_run {policy : String} {maxAttempts : Nat} {calls : List StoreCall}
    (fixed : ∀ call ∈ calls, ∀ input ∈ call.inputs, ∀ offense ∈ input.offenses,
      offense.policy = policy → offense.maxAttempts = maxAttempts) :
    (StoreCall.run calls).Balanced policy maxAttempts := by
  refine Transaction.foldl_preserves calls ?_ fun call member store => ?_
  · exact ⟨[], .empty, .nil, .nil, by simp [Store.empty]⟩
  · refine StoreCall.execute_preserves_offenses ?_ ?_ ?_ call ?_
    · rintro store events checkpoints ⟨payments, ledger⟩
      exact ⟨payments, ledger.congr rfl rfl rfl⟩
    · rintro store leases ⟨payments, ledger⟩
      exact ⟨payments, ledger.congr rfl rfl rfl⟩
    · rintro store before ⟨payments, ledger⟩
      exact ⟨payments, ledger.withoutOffenses before⟩
    · intro input brought offense present store next lease _ _ step
      exact step.balanced (fixed call member input brought offense present)

/-- Every automatic lease that a store holds was granted to an offense and paid for. -/
theorem exists_payment_of_lease {policy : String} {maxAttempts : Nat} {calls : List StoreCall}
    (fixed : ∀ call ∈ calls, ∀ input ∈ call.inputs, ∀ offense ∈ input.offenses,
      offense.policy = policy → offense.maxAttempts = maxAttempts)
    {row : LeaseRow} (member : row ∈ (StoreCall.run calls).leases) (automatic : row.manual = false)
    (own : row.policy = policy) :
    ∃ grant payment, LeaseRow.Continues ⟨grant.lease, none, none⟩ row ∧
      Store.Pays (StoreCall.run calls).inserted maxAttempts grant payment := by
  obtain ⟨payments, ledger⟩ := balanced_run fixed
  obtain ⟨grant, granted, since⟩ := exists_grant_of_lease calls member automatic
  have listed : grant ∈ (StoreCall.run calls).grantsOf policy :=
    List.mem_filter.mpr ⟨granted, beq_iff_eq.mpr (since.policy.symm.trans own)⟩
  obtain ⟨index, bound, found⟩ := List.getElem_of_mem listed
  have enough : index < payments.length := ledger.paid.length_eq ▸ bound
  have pays := (List.forall₂_iff_get.mp ledger.paid).2 index bound enough
  rw [List.get_eq_getElem, found] at pays
  exact ⟨grant, _, since, pays⟩

/-- In every run in which a policy keeps its limit, its leases can be given disjoint sets of
inserted offense rows that pay for them, so there are never more leases than the rows of
the policy can pay for. -/
theorem bans_are_paid_for (policy : String) (maxAttempts : Nat) (calls : List StoreCall)
    (fixed : ∀ call ∈ calls, ∀ input ∈ call.inputs, ∀ offense ∈ input.offenses,
      offense.policy = policy → offense.maxAttempts = maxAttempts) :
    (∃ payments : List (Finset OffenseRow),
      List.Forall₂ (Store.Pays (StoreCall.run calls).inserted maxAttempts)
        ((StoreCall.run calls).grantsOf policy) payments ∧
      payments.Pairwise Disjoint) ∧
    ((StoreCall.run calls).grantsOf policy).length * maxAttempts ≤
      ((StoreCall.run calls).inserted.filter fun row => row.policy == policy).length := by
  obtain ⟨payments, ledger⟩ := balanced_run fixed
  exact ⟨⟨payments, ledger.paid, ledger.disjoint⟩, ledger.length_mul_le⟩

/-- Two failed logins pay for one ban, and the third meets the lease. -/
theorem bans_are_paid_for_after_three_logins :
    let calls : List StoreCall := [.processEvents [failedLogin "first" 0xC0000201#32 100,
      failedLogin "second" 0xC0000201#32 105, failedLogin "third" 0xC0000201#32 106]]
    ((StoreCall.run calls).grantsOf "ssh").length = 1 ∧
      (∃ payments : List (Finset OffenseRow),
        List.Forall₂ (Store.Pays (StoreCall.run calls).inserted 2)
          ((StoreCall.run calls).grantsOf "ssh") payments ∧ payments.Pairwise Disjoint) ∧
      ((StoreCall.run calls).grantsOf "ssh").length * 2 ≤
        ((StoreCall.run calls).inserted.filter fun row => row.policy == "ssh").length := by
  refine ⟨by decide, ?_⟩
  exact bans_are_paid_for "ssh" 2 _ (by decide)

end Bagel
