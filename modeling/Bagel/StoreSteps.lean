/-
This file says once what each operation of the store can do.

An offense takes one of three steps: a lease in force absorbs it, its window counts
it, or the window is full and it is answered with a ban. The steps are stated with
everything they change and every condition they depend on, and `applyOffense` is
shown to take exactly these steps; no later file unfolds it. Events and batches are
sequences of such steps, so a property that the steps preserve is a property of
events and of batches.
-/

import Bagel.Store

namespace Bagel

/-! ### Times -/

theorem sqlTime_eq_ok_iff {value bound : Nat} :
    sqlTime value = .ok bound ↔ value ≤ sqlMax ∧ bound = value := by
  unfold sqlTime
  split
  · next fits => simp [fits, eq_comm]
  · next exceeds => simp [exceeds]

theorem sqlTimeOption_eq_ok_iff {value bound : Option Nat} :
    sqlTimeOption value = .ok bound ↔
      (∀ time, value = some time → time ≤ sqlMax) ∧ bound = value := by
  cases value with
  | none => simp [sqlTimeOption, eq_comm]
  | some time =>
    rw [sqlTimeOption, Transaction.bind_eq_ok_iff]
    constructor
    · rintro ⟨converted, conversion, same⟩
      obtain ⟨fits, rfl⟩ := sqlTime_eq_ok_iff.mp conversion
      exact ⟨fun other same => Option.some.inj same ▸ fits, (Except.ok.inj same).symm⟩
    · rintro ⟨fits, rfl⟩
      exact ⟨time, sqlTime_eq_ok_iff.mpr ⟨fits time rfl, rfl⟩, rfl⟩

/-! ### The steps of an offense -/

/-- When an offense happened: at its own time if the detector read one, else at the time
of its record. -/
def EventInput.timeOf (input : EventInput) (offense : OffenseInput) : Nat :=
  offense.observedAt.getD input.observedAt

def EventInput.windowOf (input : EventInput) (offense : OffenseInput) : OffenseWindow :=
  ⟨offense.policy, offense.network, input.timeOf offense - offense.findtimeSecs,
    input.timeOf offense, offense.groupKey⟩

/-- What an offense row is about: a record, a policy and the network it accuses. -/
def OffenseRow.subject (row : OffenseRow) : String × String × String × IpNetwork :=
  (row.source, row.eventId, row.policy, row.network)

namespace Store

/-- A lease of this policy and network is in force. -/
def leaseActive (store : Store) (policy : String) (network : IpNetwork) (now : Nat) : Bool :=
  store.leases.any fun row => row.policy == policy && row.network == network && row.active now

/-- The row that records an offense. -/
def rowOf (store : Store) (input : EventInput) (offense : OffenseInput) : OffenseRow :=
  ⟨store.inserted.length, input.source, input.eventId, offense.policy, offense.network,
    input.timeOf offense, offense.groupKey <|> offense.attemptKey, false⟩

def record (store : Store) (input : EventInput) (offense : OffenseInput) : Store :=
  { store with
    offenses := store.offenses ++ [store.rowOf input offense]
    inserted := store.inserted ++ [store.rowOf input offense] }

/-- The leases that an offense's ban escalates on. -/
def priorBans (store : Store) (input : EventInput) (offense : OffenseInput) : Nat :=
  store.leases.countP fun row =>
    row.network == offense.network && (offense.ban.overall || row.policy == offense.policy) &&
      !row.manual && decide (input.timeOf offense - offense.historyRetentionSecs ≤ row.createdAt)

/-- The lease that answers an offense. -/
def leaseOf (store : Store) (input : EventInput) (offense : OffenseInput) : Lease :=
  ⟨store.nextLeaseId, offense.network, offense.policy, offense.action, input.timeOf offense,
    (banDuration offense.ban (store.priorBans input offense) offense.draw).map fun duration =>
      min (saturatingAdd (input.timeOf offense) duration) sqlMax,
    store.priorBans input offense, false, .pending, none⟩

/-- The store after an offense was recorded and answered with a ban. -/
def ban (store : Store) (input : EventInput) (offense : OffenseInput) : Store :=
  { store with
    offenses := Table.update (input.windowOf offense).selects consume
      (store.offenses ++ [store.rowOf input offense])
    leases := store.leases ++ [⟨store.leaseOf input offense, none, none⟩]
    inserted := store.inserted ++ [store.rowOf input offense]
    granted := store.granted ++ [⟨store.leaseOf input offense, offense⟩] }

/-- No offense of this event and policy has a row yet. -/
def KeyFree (store : Store) (input : EventInput) (offense : OffenseInput) : Prop :=
  ∀ row ∈ store.offenses,
    ¬ (row.source = input.source ∧ row.eventId = input.eventId ∧ row.policy = offense.policy)

/-- What an offense does to the store, and the lease it brings about. -/
inductive OffenseStep (store : Store) (input : EventInput) (offense : OffenseInput) :
    Store → Option Lease → Prop where
  | absorbed
      (active : store.leaseActive offense.policy offense.network (input.timeOf offense) = true) :
      OffenseStep store input offense
        ((store.record input offense).consumeEvent input.source input.eventId offense.policy) none
  | counted
      (inactive : store.leaseActive offense.policy offense.network (input.timeOf offense) = false)
      (few : (store.record input offense).countAttempts (input.windowOf offense) <
        offense.maxAttempts) :
      OffenseStep store input offense (store.record input offense) none
  | banned
      (inactive : store.leaseActive offense.policy offense.network (input.timeOf offense) = false)
      (enough : offense.maxAttempts ≤
        (store.record input offense).countAttempts (input.windowOf offense))
      (fits : store.priorBans input offense ≤ sqlMax) :
      OffenseStep store input offense (store.ban input offense)
        (some (store.leaseOf input offense))

theorem insertOffense_eq_ok_iff {store next : Store} {input : EventInput} {offense : OffenseInput} :
    store.insertOffense input.source input.eventId offense.policy offense.network
        (input.timeOf offense) (offense.groupKey <|> offense.attemptKey) = .ok next ↔
      store.KeyFree input offense ∧ next = store.record input offense := by
  unfold insertOffense
  split
  · next used =>
    simp only [reduceCtorEq, false_iff, not_and]
    intro free
    obtain ⟨row, member, same⟩ := List.any_eq_true.mp used
    simp only [Bool.and_eq_true, beq_iff_eq] at same
    exact absurd ⟨same.1.1, same.1.2, same.2⟩ (free row member)
  · next unused =>
    rw [Except.ok.injEq]
    refine ⟨fun same => ⟨fun row member same => unused ?_, same.symm⟩, fun found => found.2.symm⟩
    exact List.any_eq_true.mpr ⟨row, member, by simp [same.1, same.2.1, same.2.2]⟩

theorem insertLease_eq_ok_iff {store next : Store} {network : IpNetwork} {policy : String}
    {action : Action} {createdAt : Nat} {expiresAt : Option Nat} {count : Nat} {manual : Bool}
    {lease : Lease} :
    store.insertLease network policy action createdAt expiresAt count manual = .ok (next, lease) ↔
      createdAt ≤ sqlMax ∧ (∀ time, expiresAt = some time → time ≤ sqlMax) ∧ count ≤ sqlMax ∧
        lease = ⟨store.nextLeaseId, network, policy, action, createdAt, expiresAt, count, manual,
          .pending, none⟩ ∧
        next = { store with leases := store.leases ++ [⟨lease, none, none⟩] } := by
  simp only [insertLease, Transaction.bind_eq_ok_iff, sqlTime_eq_ok_iff, sqlTimeOption_eq_ok_iff]
  constructor
  · rintro ⟨_, ⟨createdFits, rfl⟩, _, ⟨expiryFits, rfl⟩, _, ⟨countFits, rfl⟩, same⟩
    obtain ⟨rfl, rfl⟩ := Prod.mk.inj (Except.ok.inj same)
    exact ⟨createdFits, expiryFits, countFits, rfl, rfl⟩
  · rintro ⟨createdFits, expiryFits, countFits, rfl, rfl⟩
    exact ⟨_, ⟨createdFits, rfl⟩, _, ⟨expiryFits, rfl⟩, _, ⟨countFits, rfl⟩, rfl⟩

/-- Applying an offense takes exactly one of the three steps, and fails when its time is out
of range or its event already has an offense of the policy. -/
theorem applyOffense_eq_ok_iff {store next : Store} {input : EventInput} {offense : OffenseInput}
    {lease : Option Lease} :
    store.applyOffense input offense = .ok (next, lease) ↔
      input.timeOf offense ≤ sqlMax ∧ store.KeyFree input offense ∧
        OffenseStep store input offense next lease := by
  unfold applyOffense
  rw [← EventInput.timeOf]
  simp only [Transaction.bind_eq_ok_iff, sqlTime_eq_ok_iff, hasActiveLease, escalationCount]
  constructor
  · rintro ⟨_, ⟨fits, rfl⟩, recorded, insertion, _, ⟨_, ⟨-, rfl⟩, same⟩, rest⟩
    obtain ⟨free, rfl⟩ := insertOffense_eq_ok_iff.mp insertion
    obtain rfl := Except.ok.inj same
    refine ⟨fits, free, ?_⟩
    split at rest
    · next active =>
      obtain ⟨rfl, rfl⟩ := Prod.mk.inj (Except.ok.inj rest)
      exact .absorbed active
    · next inactive =>
      have inactive := Bool.eq_false_of_not_eq_true inactive
      obtain ⟨_, window, rest⟩ := Transaction.bind_eq_ok_iff.mp rest
      obtain ⟨-, rfl⟩ := sqlTime_eq_ok_iff.mp window
      split at rest
      · next few =>
        obtain ⟨rfl, rfl⟩ := Prod.mk.inj (Except.ok.inj rest)
        exact .counted inactive few
      · next enough =>
        simp only [Transaction.bind_eq_ok_iff, sqlTime_eq_ok_iff, Prod.exists,
          insertLease_eq_ok_iff] at rest
        obtain ⟨_, ⟨_, ⟨-, rfl⟩, same⟩, _, _, ⟨-, -, countFits, rfl, rfl⟩, rest⟩ := rest
        obtain rfl := Except.ok.inj same
        obtain ⟨rfl, rfl⟩ := Prod.mk.inj (Except.ok.inj rest)
        exact .banned inactive (Nat.le_of_not_lt enough) countFits
  · rintro ⟨fits, free, step⟩
    have insertion := insertOffense_eq_ok_iff.mpr ⟨free, rfl⟩
    have windowFits : sqlTime (input.timeOf offense - offense.findtimeSecs) = .ok _ :=
      sqlTime_eq_ok_iff.mpr ⟨(Nat.sub_le _ _).trans fits, rfl⟩
    refine ⟨_, ⟨fits, rfl⟩, _, insertion, _, ⟨_, ⟨fits, rfl⟩, rfl⟩, ?_⟩
    cases step with
    | absorbed active => exact (if_pos active).trans rfl
    | counted inactive few =>
      refine (if_neg (Bool.eq_false_iff.mp inactive)).trans ?_
      exact Transaction.bind_eq_ok_iff.mpr ⟨_, windowFits, if_pos few⟩
    | banned inactive enough countFits =>
      refine (if_neg (Bool.eq_false_iff.mp inactive)).trans ?_
      refine Transaction.bind_eq_ok_iff.mpr ⟨_, windowFits, ?_⟩
      refine (if_neg (Nat.not_lt.mpr enough)).trans ?_
      simp only [Transaction.bind_eq_ok_iff, sqlTime_eq_ok_iff, Prod.exists,
        insertLease_eq_ok_iff]
      refine ⟨_, ⟨_, ⟨(Nat.sub_le _ _).trans fits, rfl⟩, rfl⟩, _, _,
        ⟨fits, fun time expires => ?_, countFits, rfl, rfl⟩, rfl⟩
      obtain ⟨duration, -, rfl⟩ := Option.map_eq_some_iff.mp expires
      exact Nat.min_le_right _ _

/-- What a step does to the offenses: it adds the row of the offense and consumes rows. A
property of rows that consumption does not affect holds of all rows if it does of the new
one. -/
theorem OffenseStep.forall_offenses {store next : Store} {input : EventInput}
    {offense : OffenseInput} {lease : Option Lease}
    (step : OffenseStep store input offense next lease) {holds : OffenseRow → Prop}
    (consumed : ∀ row, holds row → holds (consume row))
    (new : holds (store.rowOf input offense)) (old : ∀ row ∈ store.offenses, holds row) :
    ∀ row ∈ next.offenses, holds row := by
  have recorded : ∀ row ∈ (store.record input offense).offenses, holds row := by
    intro row member
    rcases List.mem_append.mp member with before | added
    · exact old row before
    · rw [List.mem_singleton.mp added]
      exact new
  have updated (hit : OffenseRow → Bool) :
      ∀ row ∈ Table.update hit consume (store.record input offense).offenses, holds row := by
    intro row member
    obtain ⟨before, present, rfl⟩ := Table.mem_update.mp member
    split
    · exact consumed before (recorded before present)
    · exact recorded before present
  cases step with
  | absorbed active => exact updated _
  | counted inactive few => exact recorded
  | banned inactive enough fits => exact updated _

theorem OffenseStep.events_eq {store next : Store} {input : EventInput} {offense : OffenseInput}
    {lease : Option Lease} (step : OffenseStep store input offense next lease) :
    next.events = store.events := by
  cases step <;> rfl

theorem OffenseStep.checkpoints_eq {store next : Store} {input : EventInput}
    {offense : OffenseInput} {lease : Option Lease}
    (step : OffenseStep store input offense next lease) :
    next.checkpoints = store.checkpoints := by
  cases step <;> rfl

theorem OffenseStep.inserted_eq {store next : Store} {input : EventInput} {offense : OffenseInput}
    {lease : Option Lease} (step : OffenseStep store input offense next lease) :
    next.inserted = store.inserted ++ [store.rowOf input offense] := by
  cases step <;> rfl

/-- What the offenses of an event leave behind: one row each in the history, and the progress
of the sources as it was. -/
theorem applyOffenses_ok {input : EventInput} {offenses : List OffenseInput} {store next : Store}
    {leases : List Lease} (applied : store.applyOffenses input offenses = .ok (next, leases)) :
    next.events = store.events ∧ next.checkpoints = store.checkpoints ∧
      ∃ rows, next.inserted = store.inserted ++ rows ∧
        rows.map OffenseRow.subject = offenses.map fun offense =>
          (input.source, input.eventId, offense.policy, offense.network) := by
  induction offenses generalizing store leases with
  | nil =>
    obtain ⟨rfl, -⟩ := Prod.mk.inj (Except.ok.inj applied)
    exact ⟨rfl, rfl, [], (List.append_nil _).symm, rfl⟩
  | cons offense rest inductionHypothesis =>
    simp only [applyOffenses, Transaction.bind_eq_ok_iff, Prod.exists] at applied
    obtain ⟨middle, lease, first, last, others, later, same⟩ := applied
    obtain ⟨rfl, -⟩ := Prod.mk.inj (Except.ok.inj same)
    obtain ⟨-, -, step⟩ := applyOffense_eq_ok_iff.mp first
    obtain ⟨sameEvents, sameCheckpoints, rows, grown, subjects⟩ := inductionHypothesis later
    refine ⟨sameEvents.trans step.events_eq, sameCheckpoints.trans step.checkpoints_eq,
      store.rowOf input offense :: rows, ?_, ?_⟩
    · rw [grown, step.inserted_eq, List.append_assoc, List.singleton_append]
    · rw [List.map_cons, List.map_cons, subjects]
      rfl

/-- The key of an offense row: no two rows of the table share one. -/
def rowKey (row : OffenseRow) : String × String × String :=
  (row.source, row.eventId, row.policy)

theorem OffenseStep.map_rowKey {store next : Store} {input : EventInput} {offense : OffenseInput}
    {lease : Option Lease} (step : OffenseStep store input offense next lease) :
    next.offenses.map rowKey =
      store.offenses.map rowKey ++ [(input.source, input.eventId, offense.policy)] := by
  have consumed (hit : OffenseRow → Bool) :
      (Table.update hit consume (store.record input offense).offenses).map rowKey =
        (store.record input offense).offenses.map rowKey := by
    rw [Table.update, List.map_map]
    refine List.map_congr_left fun row _ => ?_
    rw [Function.comp_apply]
    split <;> rfl
  have recorded : (store.record input offense).offenses.map rowKey =
      store.offenses.map rowKey ++ [(input.source, input.eventId, offense.policy)] :=
    List.map_append
  cases step with
  | absorbed active => exact (consumed _).trans recorded
  | counted inactive few => exact recorded
  | banned inactive enough fits => exact (consumed _).trans recorded

theorem keyFree_iff {store : Store} {input : EventInput} {offense : OffenseInput} :
    store.KeyFree input offense ↔
      (input.source, input.eventId, offense.policy) ∉ store.offenses.map rowKey := by
  simp only [KeyFree, rowKey, List.mem_map, Prod.mk.injEq, not_exists, not_and]

/-- An event that is applied has at most one offense for each policy. -/
theorem nodup_policies {input : EventInput} {offenses : List OffenseInput} {store next : Store}
    {leases : List Lease} (applied : store.applyOffenses input offenses = .ok (next, leases)) :
    (∀ offense ∈ offenses, store.KeyFree input offense) ∧
      (offenses.map OffenseInput.policy).Nodup := by
  induction offenses generalizing store next leases with
  | nil => exact ⟨by simp, List.nodup_nil⟩
  | cons offense rest inductionHypothesis =>
    simp only [applyOffenses, Transaction.bind_eq_ok_iff, Prod.exists] at applied
    obtain ⟨middle, lease, first, last, others, later, -⟩ := applied
    obtain ⟨-, free, step⟩ := applyOffense_eq_ok_iff.mp first
    obtain ⟨freeRest, nodup⟩ := inductionHypothesis later
    refine ⟨fun other member => ?_, ?_⟩
    · rcases List.mem_cons.mp member with rfl | included
      · exact free
      · have absent := keyFree_iff.mp (freeRest other included)
        rw [step.map_rowKey] at absent
        exact keyFree_iff.mpr fun old => absent (List.mem_append_left _ old)
    · refine List.nodup_cons.mpr ⟨fun repeated => ?_, nodup⟩
      obtain ⟨other, included, same⟩ := List.mem_map.mp repeated
      have absent := keyFree_iff.mp (freeRest other included)
      rw [step.map_rowKey, same] at absent
      exact absent (List.mem_append_right _ (List.mem_singleton_self _))

/-- So its rows in the history are of different policies. -/
theorem pairwise_policies {input : EventInput} {offenses : List OffenseInput} {store next : Store}
    {leases : List Lease} {rows : List OffenseRow}
    (applied : store.applyOffenses input offenses = .ok (next, leases))
    (subjects : rows.map OffenseRow.subject = offenses.map fun offense =>
      (input.source, input.eventId, offense.policy, offense.network)) :
    rows.Pairwise fun first second => first.policy ≠ second.policy := by
  have policies : rows.map OffenseRow.policy = offenses.map OffenseInput.policy := by
    have projected := congrArg (List.map fun subject => subject.2.2.1) subjects
    rw [List.map_map, List.map_map] at projected
    exact projected
  have distinct := (nodup_policies applied).2
  rw [← policies] at distinct
  exact List.pairwise_map.mp distinct

/-! ### Events -/

/-- The record of this input already has an event row. -/
def seen (store : Store) (input : EventInput) : Bool :=
  store.events.any fun row => row.source == input.source && row.eventId == input.eventId

def noteEvent (store : Store) (input : EventInput) : Store :=
  { store with events := store.events ++ [⟨input.source, input.eventId, input.observedAt⟩] }

/-- The store after the checkpoint of an input was written. -/
def setCheckpoint (store : Store) (input : EventInput) : Store :=
  let row : CheckpointRow := ⟨input.source, input.eventId, input.checkpoint, input.observedAt⟩
  let hit (old : CheckpointRow) : Bool := old.source == input.source
  { store with
    checkpoints :=
      if store.checkpoints.any hit then Table.update hit (fun _ => row) store.checkpoints
      else store.checkpoints ++ [row] }

/-- Writing a checkpoint replaces that of its source and leaves the others alone. -/
theorem mem_setCheckpoint {store : Store} {input : EventInput} {row : CheckpointRow}
    (member : row ∈ (store.setCheckpoint input).checkpoints) :
    row = ⟨input.source, input.eventId, input.checkpoint, input.observedAt⟩ ∨
      row ∈ store.checkpoints ∧ row.source ≠ input.source := by
  simp only [setCheckpoint] at member
  split at member
  · obtain ⟨old, present, rfl⟩ := Table.mem_update.mp member
    split
    · exact Or.inl rfl
    · next other => exact Or.inr ⟨present, by simpa using other⟩
  · next absent =>
    rcases List.mem_append.mp member with old | new
    · refine Or.inr ⟨old, fun same => absent ?_⟩
      exact List.any_eq_true.mpr ⟨row, old, by simp [same]⟩
    · exact Or.inl (List.mem_singleton.mp new)

theorem checkpoint_setCheckpoint (store : Store) (input : EventInput) :
    (store.setCheckpoint input).checkpoint input.source = some input.checkpoint := by
  have present : ∃ row ∈ (store.setCheckpoint input).checkpoints, row.source = input.source := by
    simp only [setCheckpoint]
    split
    · next known =>
      obtain ⟨old, member, same⟩ := List.any_eq_true.mp known
      exact ⟨_, Table.mem_update.mpr ⟨old, member, if_pos same⟩, rfl⟩
    · exact ⟨_, List.mem_append_right _ (List.mem_singleton_self _), rfl⟩
  obtain ⟨other, member, same⟩ := present
  cases found : (store.setCheckpoint input).checkpoints.find? fun row =>
      row.source == input.source with
  | none => exact absurd (by simp [same]) (List.find?_eq_none.mp found other member)
  | some row =>
    have own : row.source = input.source := by simpa using List.find?_some found
    rcases mem_setCheckpoint (List.mem_of_find?_eq_some found) with rfl | old
    · rw [checkpoint, found, Option.map_some]
    · exact absurd own old.2

theorem upsertCheckpoint_eq_ok_iff {store next : Store} {input : EventInput} :
    store.upsertCheckpoint input.source input.eventId input.checkpoint input.observedAt =
        .ok next ↔
      input.observedAt ≤ sqlMax ∧ next = store.setCheckpoint input := by
  simp only [upsertCheckpoint, setCheckpoint, Transaction.bind_eq_ok_iff, sqlTime_eq_ok_iff]
  constructor
  · rintro ⟨_, ⟨fits, rfl⟩, written⟩
    refine ⟨fits, ?_⟩
    split at written
    · next known => rw [if_pos known, ← Except.ok.inj written]
    · next unknown => rw [if_neg unknown, ← Except.ok.inj written]
  · rintro ⟨fits, rfl⟩
    refine ⟨_, ⟨fits, rfl⟩, ?_⟩
    split <;> rfl

/-- What an event does to the store. -/
inductive EventStep (store : Store) (input : EventInput) : Store → EventOutcome → Prop where
  | duplicate (seen : store.seen input = true) : EventStep store input store ⟨true, []⟩
  | recorded {middle : Store} {leases : List Lease} (unseen : store.seen input = false)
      (applied : (store.noteEvent input).applyOffenses input input.offenses =
        .ok (middle, leases)) :
      EventStep store input (middle.setCheckpoint input) ⟨false, leases⟩

theorem applyEvent_eq_ok_iff {store next : Store} {input : EventInput} {outcome : EventOutcome} :
    store.applyEvent input = .ok (next, outcome) ↔
      input.observedAt ≤ sqlMax ∧ EventStep store input next outcome := by
  simp only [applyEvent, insertEvent, Transaction.bind_eq_ok_iff, sqlTime_eq_ok_iff]
  constructor
  · rintro ⟨_, ⟨fits, rfl⟩, applied⟩
    refine ⟨fits, ?_⟩
    by_cases seen : store.seen input = true
    · simp only [if_pos (show (store.events.any _) = true from seen)] at applied
      obtain ⟨rfl, rfl⟩ := Prod.mk.inj (Except.ok.inj applied)
      exact .duplicate seen
    · simp only [if_neg (show ¬ (store.events.any _) = true from seen), one_ne_zero, if_false,
        Transaction.bind_eq_ok_iff, upsertCheckpoint_eq_ok_iff] at applied
      obtain ⟨⟨middle, leases⟩, loop, _, ⟨-, rfl⟩, same⟩ := applied
      obtain ⟨rfl, rfl⟩ := Prod.mk.inj (Except.ok.inj same)
      exact .recorded (Bool.eq_false_of_not_eq_true seen) loop
  · rintro ⟨fits, step⟩
    refine ⟨_, ⟨fits, rfl⟩, ?_⟩
    cases step with
    | duplicate seen =>
      simp only [if_pos (show (store.events.any _) = true from seen)]
      rfl
    | recorded unseen applied =>
      simp only [if_neg (show ¬ (store.events.any _) = true from Bool.eq_false_iff.mp unseen),
        one_ne_zero, if_false, Transaction.bind_eq_ok_iff, upsertCheckpoint_eq_ok_iff]
      exact ⟨_, applied, _, ⟨fits, rfl⟩, rfl⟩

theorem processEvents_cons_eq_ok_iff {store next : Store} {input : EventInput}
    {rest : List EventInput} {outcomes : List EventOutcome} :
    store.processEvents (input :: rest) = .ok (next, outcomes) ↔
      ∃ middle outcome others, middle.processEvents rest = .ok (next, others) ∧
        outcomes = outcome :: others ∧ input.observedAt ≤ sqlMax ∧
        ((input.offenses = [] ∧ middle = store.setCheckpoint input ∧ outcome = ⟨false, []⟩) ∨
          (input.offenses ≠ [] ∧ EventStep store input middle outcome)) := by
  rw [processEvents]
  by_cases unmatched : input.offenses = []
  · simp only [unmatched, List.isEmpty_nil, if_true, Transaction.bind_eq_ok_iff,
      upsertCheckpoint_eq_ok_iff, Prod.exists]
    constructor
    · rintro ⟨_, ⟨fits, rfl⟩, last, others, later, same⟩
      obtain ⟨rfl, rfl⟩ := Prod.mk.inj (Except.ok.inj same)
      exact ⟨_, _, _, later, rfl, fits, Or.inl ⟨trivial, rfl, rfl⟩⟩
    · rintro ⟨_, _, others, later, rfl, fits, ⟨-, rfl, rfl⟩ | ⟨matched, -⟩⟩
      · exact ⟨_, ⟨fits, rfl⟩, _, _, later, rfl⟩
      · exact absurd rfl matched
  · have matched : input.offenses.isEmpty = false := by simpa using unmatched
    simp only [matched, Bool.false_eq_true, if_false, Transaction.bind_eq_ok_iff,
      applyEvent_eq_ok_iff, Prod.exists]
    constructor
    · rintro ⟨_, _, ⟨fits, step⟩, last, others, later, same⟩
      obtain ⟨rfl, rfl⟩ := Prod.mk.inj (Except.ok.inj same)
      exact ⟨_, _, _, later, rfl, fits, Or.inr ⟨unmatched, step⟩⟩
    · rintro ⟨_, _, others, later, rfl, fits, ⟨empty, -⟩ | ⟨-, step⟩⟩
      · exact absurd empty unmatched
      · exact ⟨_, _, ⟨fits, step⟩, _, _, later, rfl⟩

/-! ### Invariants of events -/

section Preservation

variable {holds : Store → Prop}

/-- What every offense of an event preserves, the event preserves. -/
theorem applyOffenses_preserves {input : EventInput} {offenses : List OffenseInput}
    (preserved : ∀ offense ∈ offenses, ∀ store next lease, input.timeOf offense ≤ sqlMax →
      store.KeyFree input offense → OffenseStep store input offense next lease →
      holds store → holds next)
    {store next : Store} {leases : List Lease} (before : holds store)
    (applied : store.applyOffenses input offenses = .ok (next, leases)) : holds next := by
  induction offenses generalizing store leases with
  | nil =>
    obtain ⟨rfl, -⟩ := Prod.mk.inj (Except.ok.inj applied)
    exact before
  | cons offense rest inductionHypothesis =>
    simp only [applyOffenses, Transaction.bind_eq_ok_iff, Prod.exists] at applied
    obtain ⟨middle, lease, first, last, others, later, same⟩ := applied
    obtain ⟨rfl, -⟩ := Prod.mk.inj (Except.ok.inj same)
    obtain ⟨fits, free, step⟩ := applyOffense_eq_ok_iff.mp first
    refine inductionHypothesis (fun offense member => ?_) ?_ later
    · exact preserved offense (List.mem_cons_of_mem _ member)
    · exact preserved offense List.mem_cons_self store middle lease fits free step before

/-- A property that says nothing about events and checkpoints. -/
def IgnoresProgress (holds : Store → Prop) : Prop :=
  ∀ (store : Store) events checkpoints, holds store → holds { store with events, checkpoints }

/-- A property that says nothing about leases. -/
def IgnoresLeases (holds : Store → Prop) : Prop :=
  ∀ (store : Store) leases, holds store → holds { store with leases }

theorem EventStep.preserves (ignores : IgnoresProgress holds) {input : EventInput}
    (preserved : ∀ offense ∈ input.offenses, ∀ store next lease, input.timeOf offense ≤ sqlMax →
      store.KeyFree input offense → OffenseStep store input offense next lease →
      holds store → holds next)
    {store next : Store} {outcome : EventOutcome} (step : EventStep store input next outcome)
    (before : holds store) : holds next := by
  cases step with
  | duplicate seen => exact before
  | recorded unseen applied =>
    have noted : holds (store.noteEvent input) := ignores store _ _ before
    exact ignores _ _ _ (applyOffenses_preserves preserved noted applied)

theorem processEvents_preserves (ignores : IgnoresProgress holds) {inputs : List EventInput}
    (preserved : ∀ input ∈ inputs, ∀ offense ∈ input.offenses, ∀ store next lease,
      input.timeOf offense ≤ sqlMax → store.KeyFree input offense →
      OffenseStep store input offense next lease → holds store → holds next)
    {store next : Store} {outcomes : List EventOutcome} (before : holds store)
    (processed : store.processEvents inputs = .ok (next, outcomes)) : holds next := by
  induction inputs generalizing store outcomes with
  | nil =>
    obtain ⟨rfl, -⟩ := Prod.mk.inj (Except.ok.inj processed)
    exact before
  | cons input rest inductionHypothesis =>
    obtain ⟨middle, outcome, others, later, -, -, first⟩ :=
      processEvents_cons_eq_ok_iff.mp processed
    refine inductionHypothesis (fun input member => ?_) ?_ later
    · exact preserved input (List.mem_cons_of_mem _ member)
    · rcases first with ⟨-, rfl, -⟩ | ⟨-, step⟩
      · exact ignores store _ _ before
      · exact step.preserves ignores (preserved input List.mem_cons_self) before

end Preservation

/-! ### Maintenance and manual bans -/

theorem expire_ok {store next : Store} {now count : Nat}
    (expired : store.expire now = .ok (next, count)) :
    now ≤ sqlMax ∧ next = { store with
      leases := Table.update (fun row => row.due now)
        (fun row => { row with expiredAt := some now }) store.leases } := by
  obtain ⟨_, conversion, same⟩ := Transaction.bind_eq_ok_iff.mp expired
  obtain ⟨fits, rfl⟩ := sqlTime_eq_ok_iff.mp conversion
  exact ⟨fits, (Prod.mk.inj (Except.ok.inj same)).1.symm⟩

/-- The store without the offenses before a time and without the events they orphan. -/
def withoutOffenses (store : Store) (before : Nat) : Store :=
  let offenses := Table.delete (fun row => decide (row.observedAt < before)) store.offenses
  { store with
    offenses
    events := Table.delete
      (fun event => !offenses.any fun row =>
        row.source == event.source && row.eventId == event.eventId)
      store.events }

theorem pruneOffenses_ok {store next : Store} {before count : Nat}
    (pruned : store.pruneOffenses before = .ok (next, count)) :
    before ≤ sqlMax ∧ next = store.withoutOffenses before := by
  obtain ⟨_, conversion, same⟩ := Transaction.bind_eq_ok_iff.mp pruned
  obtain ⟨fits, rfl⟩ := sqlTime_eq_ok_iff.mp conversion
  exact ⟨fits, (Prod.mk.inj (Except.ok.inj same)).1.symm⟩

theorem pruneLeases_ok {store next : Store} {before now count : Nat}
    (pruned : store.pruneLeases before now = .ok (next, count)) :
    now ≤ sqlMax ∧ next = { store with
      leases := Table.delete (fun row => row.prunable before now) store.leases } := by
  obtain ⟨_, conversion, rest⟩ := Transaction.bind_eq_ok_iff.mp pruned
  obtain ⟨-, rfl⟩ := sqlTime_eq_ok_iff.mp conversion
  obtain ⟨_, conversion, same⟩ := Transaction.bind_eq_ok_iff.mp rest
  obtain ⟨fits, rfl⟩ := sqlTime_eq_ok_iff.mp conversion
  exact ⟨fits, (Prod.mk.inj (Except.ok.inj same)).1.symm⟩

/-- The store after the standing manual leases of a network were revoked. -/
def withoutManual (store : Store) (network : IpNetwork) (now : Nat) : Store :=
  { store with
    leases := Table.update (fun row => row.manual && row.network == network && row.standing)
      (fun row => { row with revokedAt := some now }) store.leases }

theorem manualBlock_ok {store next : Store} {network : IpNetwork} {action : Action} {now : Nat}
    {durationSecs : Option Nat} {lease : Lease}
    (blocked : store.manualBlock network action now durationSecs = .ok (next, lease)) :
    now ≤ sqlMax ∧ lease = ⟨(store.withoutManual network now).nextLeaseId, network, manualPolicy,
        action, now, durationSecs.map fun duration => saturatingAdd now duration, 0, true,
        .pending, none⟩ ∧
      next = { store.withoutManual network now with
        leases := (store.withoutManual network now).leases ++ [⟨lease, none, none⟩] } := by
  obtain ⟨_, conversion, inserted⟩ := Transaction.bind_eq_ok_iff.mp blocked
  obtain ⟨fits, rfl⟩ := sqlTime_eq_ok_iff.mp conversion
  obtain ⟨-, -, -, granted, appended⟩ := insertLease_eq_ok_iff.mp inserted
  exact ⟨fits, granted, appended⟩

theorem manualUnblock_ok {store next : Store} {network : IpNetwork} {now count : Nat}
    (unblocked : store.manualUnblock network now = .ok (next, count)) :
    now ≤ sqlMax ∧ next = { store with
      leases := Table.update (fun row => row.network == network && row.active now)
        (fun row => { row with revokedAt := some now }) store.leases } := by
  obtain ⟨_, conversion, same⟩ := Transaction.bind_eq_ok_iff.mp unblocked
  obtain ⟨fits, rfl⟩ := sqlTime_eq_ok_iff.mp conversion
  exact ⟨fits, (Prod.mk.inj (Except.ok.inj same)).1.symm⟩

theorem beginReconcile_ok {store next : Store} {now count : Nat}
    (begun : store.beginReconcile now = .ok (next, count)) :
    now ≤ sqlMax ∧ next = { store with
      leases := Table.update (fun row => row.active now)
        (fun row => { row with applyState := .pending, lastError := none }) store.leases } := by
  obtain ⟨_, conversion, same⟩ := Transaction.bind_eq_ok_iff.mp begun
  obtain ⟨fits, rfl⟩ := sqlTime_eq_ok_iff.mp conversion
  exact ⟨fits, (Prod.mk.inj (Except.ok.inj same)).1.symm⟩

theorem markApplyResults_cons_ok {store next : Store} {leaseId : Nat} {outcome : ApplyOutcome}
    {rest : List (Nat × ApplyOutcome)}
    (marked : store.markApplyResults ((leaseId, outcome) :: rest) = .ok (next, ())) :
    { store with
      leases := Table.update (fun row => row.id == leaseId) (fun row => markApplyResult row outcome)
        store.leases }.markApplyResults rest = .ok (next, ()) := by
  rw [markApplyResults] at marked
  split at marked
  · exact marked
  · exact nomatch marked

end Store

end Bagel
