/-
This file follows the rows of the lease table through the calls of the store. Rows keep
the order of their identifiers, which is the order that `active_leases` reads them in.
A lease keeps its terms as long as it is in the table: calls end leases, mark them, or
add new ones under identifiers that were never used by a row that is still there.
-/

import Bagel.StoreCalls

namespace Bagel

/-! ### Identifiers -/

namespace Store

theorem id_lt_nextLeaseId {store : Store} {row : LeaseRow} (member : row ∈ store.leases) :
    row.id < store.nextLeaseId := by
  have bound (ids : List Nat) (start id : Nat) (listed : id ∈ ids ∨ id ≤ start) :
      id ≤ ids.foldl max start := by
    induction ids generalizing start with
    | nil => exact listed.resolve_left List.not_mem_nil
    | cons first rest inductionHypothesis =>
      refine inductionHypothesis (max start first) ?_
      rcases listed with member | small
      · rcases List.mem_cons.mp member with rfl | later
        · exact .inr (Nat.le_max_right _ _)
        · exact .inl later
      · exact .inr (small.trans (Nat.le_max_left _ _))
  exact Nat.lt_succ_of_le (bound _ 0 row.id (.inl (List.mem_map_of_mem member)))

def leaseIds (store : Store) : List Nat :=
  store.leases.map fun row => row.id

/-- An update of leases keeps their identifiers. -/
theorem leaseIds_update {store : Store} {hit : LeaseRow → Bool} {change : LeaseRow → LeaseRow}
    (same : ∀ row, hit row = true → (change row).id = row.id) :
    ({ store with leases := Table.update hit change store.leases } : Store).leaseIds =
      store.leaseIds := by
  refine (List.map_map ..).trans (List.map_congr_left fun row _ => ?_)
  show (if hit row then change row else row).id = row.id
  split
  · next chosen => exact same row chosen
  · rfl

theorem nextLeaseId_congr {store next : Store} (same : next.leaseIds = store.leaseIds) :
    next.nextLeaseId = store.nextLeaseId :=
  congrArg (fun ids => ids.foldl max 0 + 1) same

theorem leaseIds_append (store : Store) (lease : Lease) :
    ({ store with leases := store.leases ++ [⟨lease, none, none⟩] } : Store).leaseIds =
      store.leaseIds ++ [lease.id] :=
  List.map_append

theorem nextLeaseId_append (store : Store) (lease : Lease) (fresh : lease.id = store.nextLeaseId) :
    ({ store with leases := store.leases ++ [⟨lease, none, none⟩] } : Store).nextLeaseId =
      store.nextLeaseId + 1 := by
  refine (congrArg (fun ids => ids.foldl max 0 + 1) (leaseIds_append store lease)).trans ?_
  show (store.leaseIds ++ [lease.id]).foldl max 0 + 1 = _
  rw [List.foldl_append, List.foldl_cons, List.foldl_nil, fresh]
  exact congrArg (· + 1) (Nat.max_eq_right (Nat.le_succ _))

/-- The rows are in the order of their identifiers. -/
def IdsAscend (store : Store) : Prop :=
  store.leaseIds.Pairwise (· < ·)

theorem IdsAscend.append {store : Store} (ascend : store.IdsAscend) {lease : Lease}
    (fresh : lease.id = store.nextLeaseId) :
    ({ store with leases := store.leases ++ [⟨lease, none, none⟩] } : Store).IdsAscend := by
  rw [IdsAscend, leaseIds_append]
  refine List.pairwise_append.mpr ⟨ascend, List.pairwise_singleton _ _, ?_⟩
  intro old member new single
  obtain ⟨row, present, rfl⟩ := List.mem_map.mp member
  rw [List.mem_singleton.mp single, fresh]
  exact id_lt_nextLeaseId present

/-- Two rows under one identifier are the same row. -/
theorem IdsAscend.eq_of_id {store : Store} (ascend : store.IdsAscend) {first second : LeaseRow}
    (firstMember : first ∈ store.leases) (secondMember : second ∈ store.leases)
    (same : first.id = second.id) : first = second :=
  List.inj_on_of_nodup_map (ascend.imp Nat.ne_of_lt) firstMember secondMember same

end Store

/-! ### Terms of a lease -/

/-- A row without what reconciliation has noted about its lease. -/
def LeaseRow.reset (row : LeaseRow) : LeaseRow :=
  { row with applyState := .pending, lastError := none }

def LeaseRow.bare (row : LeaseRow) : Lease :=
  row.reset.toLease

theorem LeaseRow.id_eq_of_bare {first second : LeaseRow} (same : first.bare = second.bare) :
    first.id = second.id := by
  show first.bare.id = second.bare.id
  rw [same]

/-- A row whose lease has the same terms and that stands if this one does is in force whenever
this one is. -/
theorem LeaseRow.active_of_bare {old new : LeaseRow} (same : old.bare = new.bare)
    (stands : new.standing = true → old.standing = true) {now : Nat}
    (active : new.active now = true) : old.active now = true := by
  have expiry : old.expiresAt = new.expiresAt := by
    show old.bare.expiresAt = new.bare.expiresAt
    rw [same]
  rw [LeaseRow.active, Bool.and_eq_true] at active ⊢
  refine ⟨stands active.1, ?_⟩
  rw [LeaseRow.unexpired, expiry]
  exact active.2

namespace Store

/-- What requests do to the lease table: a row has the terms of an old one and does not stand
unless that did, or it is new and pending. -/
structure Extends (store next : Store) : Prop where
  ids : store.nextLeaseId ≤ next.nextLeaseId
  ascend : store.IdsAscend → next.IdsAscend
  rows : ∀ row ∈ next.leases,
    (∃ old ∈ store.leases, old.bare = row.bare ∧ (row.standing = true → old.standing = true) ∧
      row.applyState = old.applyState) ∨
    (store.nextLeaseId ≤ row.id ∧ row.applyState = .pending)

namespace Extends

theorem refl (store : Store) : store.Extends store :=
  ⟨Nat.le_refl _, id, fun row member => .inl ⟨row, member, rfl, id, rfl⟩⟩

theorem trans {first second third : Store} (earlier : first.Extends second)
    (later : second.Extends third) : first.Extends third := by
  refine ⟨earlier.ids.trans later.ids, fun ascend => later.ascend (earlier.ascend ascend), ?_⟩
  intro row member
  rcases later.rows row member with ⟨middle, present, same, stands, marked⟩ | ⟨fresh, pending⟩
  · rcases earlier.rows middle present with ⟨old, known, alike, stood, noted⟩ | ⟨fresh, pending⟩
    · exact .inl ⟨old, known, alike.trans same, fun now => stood (stands now), marked.trans noted⟩
    · exact .inr ⟨LeaseRow.id_eq_of_bare same ▸ fresh, marked.trans pending⟩
  · exact .inr ⟨earlier.ids.trans fresh, pending⟩

/-- Only the lease table matters. -/
theorem congr {store next other : Store} (grown : store.Extends next)
    (same : other.leases = next.leases) : store.Extends other := by
  have ids : other.leaseIds = next.leaseIds := by
    rw [leaseIds, same, leaseIds]
  refine ⟨grown.ids.trans_eq (nextLeaseId_congr ids).symm, fun ascend => ?_, ?_⟩
  · rw [IdsAscend, ids]
    exact grown.ascend ascend
  · rw [same]
    exact grown.rows

/-- Revoking leases. -/
theorem revoke (store : Store) (hit : LeaseRow → Bool) (time : Nat) :
    store.Extends { store with
      leases := Table.update hit (fun row => { row with revokedAt := some time })
        store.leases } := by
  have ids : Store.leaseIds { store with
      leases := Table.update hit (fun row => { row with revokedAt := some time }) store.leases } =
      store.leaseIds := leaseIds_update fun _ _ => rfl
  refine ⟨Nat.le_of_eq (nextLeaseId_congr ids).symm, fun ascend => ?_, fun row member => .inl ?_⟩
  · rw [IdsAscend, ids]
    exact ascend
  · obtain ⟨old, present, rfl⟩ := Table.mem_update.mp member
    refine ⟨old, present, ?_⟩
    split
    · exact ⟨rfl, fun stands => Bool.noConfusion stands, rfl⟩
    · exact ⟨rfl, id, rfl⟩

/-- Adding a lease. -/
theorem append (store : Store) {lease : Lease} (fresh : lease.id = store.nextLeaseId)
    (pending : lease.applyState = .pending) :
    store.Extends { store with leases := store.leases ++ [⟨lease, none, none⟩] } := by
  refine ⟨?_, fun ascend => ascend.append fresh, fun row member => ?_⟩
  · rw [nextLeaseId_append store lease fresh]
    exact Nat.le_succ _
  · rcases List.mem_append.mp member with old | new
    · exact .inl ⟨row, old, rfl, id, rfl⟩
    · rw [List.mem_singleton.mp new]
      exact .inr ⟨Nat.le_of_eq fresh.symm, pending⟩

theorem manualBlock {store next : Store} {network : IpNetwork} {action : Action} {now : Nat}
    {durationSecs : Option Nat} {lease : Lease}
    (blocked : store.manualBlock network action now durationSecs = .ok (next, lease)) :
    store.Extends next := by
  obtain ⟨-, terms, rfl⟩ := manualBlock_ok blocked
  have revoked : store.Extends (store.withoutManual network now) := revoke store _ now
  exact revoked.trans (append _ (by rw [terms]) (by rw [terms]))

theorem manualUnblock {store next : Store} {network : IpNetwork} {now count : Nat}
    (unblocked : store.manualUnblock network now = .ok (next, count)) : store.Extends next := by
  rw [(manualUnblock_ok unblocked).2]
  exact revoke store _ now

theorem offense {store next : Store} {input : EventInput} {offense : OffenseInput}
    {lease : Option Lease} (step : OffenseStep store input offense next lease) :
    store.Extends next := by
  cases step with
  | absorbed active => exact (refl store).congr rfl
  | counted inactive few => exact (refl store).congr rfl
  | banned inactive enough fits =>
    have grown := @append store (store.leaseOf input offense) rfl rfl
    exact grown.congr rfl

theorem events {store next : Store} {inputs : List EventInput} {outcomes : List EventOutcome}
    (processed : store.processEvents inputs = .ok (next, outcomes)) : store.Extends next := by
  refine processEvents_preserves ?_ ?_ (refl store) processed
  · exact fun _ _ _ grown => grown.congr rfl
  · exact fun _ _ _ _ _ _ _ _ _ step grown => grown.trans (offense step)

theorem event {store next : Store} {input : EventInput} {outcome : EventOutcome}
    (processed : store.processEvent input = .ok (next, outcome)) : store.Extends next := by
  refine (applyEvent_eq_ok_iff.mp processed).2.preserves ?_ ?_ (refl store)
  · exact fun _ _ _ grown => grown.congr rfl
  · exact fun _ _ _ _ _ _ _ step grown => grown.trans (offense step)

end Extends

/-! ### Calls that grant nothing -/

theorem OffenseStep.leases_eq {store next : Store} {input : EventInput} {offense : OffenseInput}
    (step : OffenseStep store input offense next none) : next.leases = store.leases := by
  cases step <;> rfl

theorem leases_eq_of_applyOffenses {input : EventInput} {offenses : List OffenseInput}
    {store next : Store} (applied : store.applyOffenses input offenses = .ok (next, [])) :
    next.leases = store.leases := by
  induction offenses generalizing store with
  | nil =>
    obtain ⟨rfl, -⟩ := Prod.mk.inj (Except.ok.inj applied)
    rfl
  | cons offense rest inductionHypothesis =>
    simp only [applyOffenses, Transaction.bind_eq_ok_iff, Prod.exists] at applied
    obtain ⟨middle, lease, first, last, leases, later, same⟩ := applied
    obtain ⟨rfl, empty⟩ := Prod.mk.inj (Except.ok.inj same)
    obtain ⟨noLease, rfl⟩ := List.append_eq_nil_iff.mp empty
    obtain rfl : lease = none := Option.toList_eq_nil_iff.mp noLease
    obtain ⟨-, -, step⟩ := applyOffense_eq_ok_iff.mp first
    exact (inductionHypothesis later).trans step.leases_eq

/-- An event that grants no lease leaves the table as it is. -/
theorem EventStep.leases_eq {store next : Store} {input : EventInput} {outcome : EventOutcome}
    (step : EventStep store input next outcome) (ungranted : outcome.leases = []) :
    next.leases = store.leases := by
  cases step with
  | duplicate seen => rfl
  | recorded unseen applied =>
    obtain rfl := ungranted
    have same := leases_eq_of_applyOffenses applied
    exact same

/-- So does a batch that grants none. -/
theorem leases_eq_of_processEvents {inputs : List EventInput} {store next : Store}
    {outcomes : List EventOutcome} (processed : store.processEvents inputs = .ok (next, outcomes))
    (ungranted : ∀ outcome ∈ outcomes, outcome.leases = []) : next.leases = store.leases := by
  induction inputs generalizing store outcomes with
  | nil =>
    obtain ⟨rfl, -⟩ := Prod.mk.inj (Except.ok.inj processed)
    rfl
  | cons input rest inductionHypothesis =>
    obtain ⟨middle, outcome, others, later, rfl, -, first⟩ :=
      processEvents_cons_eq_ok_iff.mp processed
    refine (inductionHypothesis later fun other member =>
      ungranted other (List.mem_cons_of_mem _ member)).trans ?_
    rcases first with ⟨-, rfl, -⟩ | ⟨-, step⟩
    · rfl
    · exact step.leases_eq (ungranted outcome List.mem_cons_self)

end Store

/-! ### Notes of reconciliation -/

namespace Store

/-- What reconciliation does to the lease table: nothing but its own notes change. -/
def Relabels (store next : Store) : Prop :=
  next.leases.map LeaseRow.reset = store.leases.map LeaseRow.reset

/-- The leases in force, without the notes of reconciliation. -/
def view (store : Store) (now : Nat) : List Lease :=
  (store.leases.filter fun row => row.active now).map LeaseRow.bare

theorem Relabels.view_eq {store next : Store} (relabels : store.Relabels next) (now : Nat) :
    next.view now = store.view now := by
  have reading (store : Store) : store.view now =
      ((store.leases.map LeaseRow.reset).filter fun row => row.active now).map
        LeaseRow.toLease := by
    rw [List.filter_map, List.map_map]
    rfl
  rw [reading, reading, relabels]

theorem Relabels.leaseIds_eq {store next : Store} (relabels : store.Relabels next) :
    next.leaseIds = store.leaseIds := by
  have reading (store : Store) :
      store.leaseIds = (store.leases.map LeaseRow.reset).map fun row => row.id := by
    rw [List.map_map]
    rfl
  rw [reading, reading, relabels]

/-- Every row is an old one with other notes. -/
theorem Relabels.exists_old {store next : Store} (relabels : store.Relabels next) {row : LeaseRow}
    (member : row ∈ next.leases) : ∃ old ∈ store.leases, old.reset = row.reset := by
  have listed := List.mem_map_of_mem (f := LeaseRow.reset) member
  rw [relabels] at listed
  exact List.mem_map.mp listed

theorem relabels_update {store : Store} {hit : LeaseRow → Bool} {change : LeaseRow → LeaseRow}
    (same : ∀ row, (change row).reset = row.reset) :
    store.Relabels { store with leases := Table.update hit change store.leases } := by
  refine (List.map_map ..).trans (List.map_congr_left fun row _ => ?_)
  show (if hit row then change row else row).reset = row.reset
  split
  · exact same row
  · rfl

theorem relabels_beginReconcile {store next : Store} {now count : Nat}
    (begun : store.beginReconcile now = .ok (next, count)) : store.Relabels next := by
  rw [(beginReconcile_ok begun).2]
  exact relabels_update fun _ => rfl

/-- After `begin_reconcile` nothing is noted about a lease in force. -/
theorem reset_eq_of_beginReconcile {store next : Store} {now count : Nat}
    (begun : store.beginReconcile now = .ok (next, count)) {row : LeaseRow}
    (member : row ∈ next.leases) (active : row.active now = true) : row.reset = row := by
  rw [(beginReconcile_ok begun).2] at member
  obtain ⟨old, -, rfl⟩ := Table.mem_update.mp member
  split at active
  · next chosen =>
    rw [if_pos chosen]
    rfl
  · next spared => exact absurd active spared

/-- What `active_leases` reads right after `begin_reconcile`. -/
theorem activeLeases_of_beginReconcile {store next : Store} {now count : Nat} {leases : List Lease}
    (begun : store.beginReconcile now = .ok (next, count))
    (read : next.activeLeases now = .ok leases) : leases = store.view now := by
  rw [← (relabels_beginReconcile begun).view_eq now]
  obtain ⟨_, conversion, same⟩ := Transaction.bind_eq_ok_iff.mp read
  obtain ⟨-, rfl⟩ := sqlTime_eq_ok_iff.mp conversion
  obtain rfl := Except.ok.inj same
  refine List.map_congr_left fun row member => ?_
  obtain ⟨present, active⟩ := List.mem_filter.mp member
  rw [LeaseRow.bare, reset_eq_of_beginReconcile begun present active]

theorem relabels_markApplyResults {results : List (Nat × ApplyOutcome)} {store next : Store}
    (marked : store.markApplyResults results = .ok (next, ())) : store.Relabels next := by
  induction results generalizing store with
  | nil =>
    obtain ⟨rfl, -⟩ := Prod.mk.inj (Except.ok.inj marked)
    exact Eq.refl _
  | cons result rest inductionHypothesis =>
    refine (inductionHypothesis (markApplyResults_cons_ok marked)).trans (relabels_update ?_)
    intro row
    cases result.2 <;> rfl

/-- A lease is applied after `mark_apply_results` only if it was before or is marked so. -/
theorem applied_of_markApplyResults {results : List (Nat × ApplyOutcome)} {store next : Store}
    (marked : store.markApplyResults results = .ok (next, ())) {row : LeaseRow}
    (member : row ∈ next.leases) (applied : row.applyState = .applied) :
    (∃ old ∈ store.leases, old.reset = row.reset ∧ old.applyState = .applied) ∨
      (row.id, .applied) ∈ results := by
  induction results generalizing store with
  | nil =>
    obtain ⟨rfl, -⟩ := Prod.mk.inj (Except.ok.inj marked)
    exact .inl ⟨row, member, rfl, applied⟩
  | cons result rest inductionHypothesis =>
    rcases inductionHypothesis (markApplyResults_cons_ok marked) with
      ⟨middle, present, same, was⟩ | listed
    · obtain ⟨old, known, rfl⟩ := Table.mem_update.mp present
      split at was
      · next chosen =>
        have named : row.id = result.1 := by
          rw [if_pos chosen] at same
          have marked : (markApplyResult old result.2).id = row.id :=
            congrArg (fun row => row.toLease.id) same
          rw [← marked, ← beq_iff_eq.mp chosen]
          cases result.2 <;> rfl
        have outcome : result.2 = .applied := by
          cases kind : result.2 with
          | applied => rfl
          | observed => exact nomatch kind ▸ was
          | failed error => exact nomatch kind ▸ was
        refine .inr (List.mem_cons.mpr (.inl ?_))
        rw [named, ← outcome]
      · next spared =>
        rw [if_neg spared] at same
        exact .inl ⟨old, known, same, was⟩
    · exact .inr (List.mem_cons_of_mem _ listed)

end Store

/-- In every reachable store the rows are in the order of their identifiers, as `active_leases`
asks for them. -/
theorem run_idsAscend (calls : List StoreCall) : (StoreCall.run calls).IdsAscend := by
  refine Transaction.foldl_preserves calls List.Pairwise.nil fun call _ store => ?_
  refine StoreCall.execute_preserves (fun _ _ _ => id) (fun _ _ => id) ?_ ?_ ?_ call ?_
  · intro store hit change continues ascend
    rw [Store.IdsAscend, Store.leaseIds_update fun row chosen => (continues row chosen).id]
    exact ascend
  · exact fun store hit ascend => ascend.sublist (List.filter_sublist.map _)
  · exact fun _ _ _ _ _ _ _ blocked => (Store.Extends.manualBlock blocked).ascend
  · exact fun _ _ _ _ _ _ _ _ _ step => (Store.Extends.offense step).ascend

end Bagel
