/-
This file says what a run of the store is: a sequence of calls, each one transaction,
on a new database. Its rules reduce an invariant of whole runs to what the steps of
offenses and the few ways of changing leases preserve.
-/

import Bagel.StoreSteps

namespace Bagel

/-! ### Changes of a lease -/

namespace LeaseRow

/-- One row is another one that may have been ended or marked in between. -/
structure Continues (old new : LeaseRow) : Prop where
  id : new.id = old.id
  policy : new.policy = old.policy
  network : new.network = old.network
  manual : new.manual = old.manual
  createdAt : new.createdAt = old.createdAt
  expiresAt : new.expiresAt = old.expiresAt
  standing : new.standing = true → old.standing = true

theorem Continues.refl (row : LeaseRow) : Continues row row :=
  ⟨rfl, rfl, rfl, rfl, rfl, rfl, fun stands => stands⟩

theorem Continues.trans {first second third : LeaseRow} (earlier : Continues first second)
    (later : Continues second third) : Continues first third :=
  ⟨later.id.trans earlier.id, later.policy.trans earlier.policy,
    later.network.trans earlier.network, later.manual.trans earlier.manual,
    later.createdAt.trans earlier.createdAt, later.expiresAt.trans earlier.expiresAt,
    fun stands => earlier.standing (later.standing stands)⟩

/-- Ending a lease continues it. -/
theorem continues_ended (row : LeaseRow) (revokedAt expiredAt : Option Nat)
    (ended : (revokedAt.isSome || expiredAt.isSome) = true) :
    Continues row { row with revokedAt, expiredAt } := by
  refine ⟨rfl, rfl, rfl, rfl, rfl, rfl, fun stands => ?_⟩
  cases revokedAt with
  | some time => exact Bool.noConfusion stands
  | none =>
    cases expiredAt with
    | some time => exact Bool.noConfusion stands
    | none => exact Bool.noConfusion ended

theorem continues_mark (row : LeaseRow) (outcome : ApplyOutcome) :
    Continues row (Store.markApplyResult row outcome) := by
  cases outcome <;> exact ⟨rfl, rfl, rfl, rfl, rfl, rfl, fun stands => stands⟩

end LeaseRow

/-! ### Runs -/

/-- A call of the store, each of which is one transaction. -/
inductive StoreCall where
  | processEvent (input : EventInput)
  | processEvents (inputs : List EventInput)
  | expire (now : Nat)
  | pruneOffenses (before : Nat)
  | pruneLeases (before now : Nat)
  | manualBlock (network : IpNetwork) (action : Action) (now : Nat) (durationSecs : Option Nat)
  | manualUnblock (network : IpNetwork) (now : Nat)
  | beginReconcile (now : Nat)
  | markApplyResults (results : List (Nat × ApplyOutcome))

namespace StoreCall

/-- The store after a call. A call that fails leaves it as it was. -/
def execute (store : Store) : StoreCall → Store
  | processEvent input => Transaction.commit (Store.processEvent · input) store
  | processEvents inputs => Transaction.commit (Store.processEvents · inputs) store
  | expire now => Transaction.commit (Store.expire · now) store
  | pruneOffenses before => Transaction.commit (Store.pruneOffenses · before) store
  | pruneLeases before now => Transaction.commit (Store.pruneLeases · before now) store
  | manualBlock network action now durationSecs =>
    Transaction.commit (Store.manualBlock · network action now durationSecs) store
  | manualUnblock network now => Transaction.commit (Store.manualUnblock · network now) store
  | beginReconcile now => Transaction.commit (Store.beginReconcile · now) store
  | markApplyResults results => Transaction.commit (Store.markApplyResults · results) store

/-- The store after a sequence of calls on a new database. -/
def run (calls : List StoreCall) : Store :=
  calls.foldl execute Store.empty

/-- The events that a call brings to the store. -/
def inputs : StoreCall → List EventInput
  | processEvent input => [input]
  | processEvents inputs => inputs
  | _ => []

section Preservation

variable {holds : Store → Prop} {store : Store}

/-- What every offense preserves, a call that processes one event preserves. -/
theorem execute_processEvent_preserves (ignores : Store.IgnoresProgress holds) (input : EventInput)
    (preserved : ∀ offense ∈ input.offenses, ∀ store next lease, input.timeOf offense ≤ sqlMax →
      store.KeyFree input offense → Store.OffenseStep store input offense next lease →
      holds store → holds next)
    (before : holds store) : holds ((processEvent input).execute store) := by
  rw [execute]
  refine Transaction.commit_preserves before fun next outcome processed => ?_
  exact (Store.applyEvent_eq_ok_iff.mp processed).2.preserves ignores preserved before

/-- What every offense preserves, a call that processes a batch preserves. -/
theorem execute_processEvents_preserves (ignores : Store.IgnoresProgress holds)
    (inputs : List EventInput)
    (preserved : ∀ input ∈ inputs, ∀ offense ∈ input.offenses, ∀ store next lease,
      input.timeOf offense ≤ sqlMax → store.KeyFree input offense →
      Store.OffenseStep store input offense next lease → holds store → holds next)
    (before : holds store) : holds ((processEvents inputs).execute store) := by
  rw [execute]
  refine Transaction.commit_preserves before fun next outcomes processed => ?_
  exact Store.processEvents_preserves ignores preserved before processed

/-- What marking one lease preserves, marking a list of them preserves. -/
theorem markApplyResults_preserves {results : List (Nat × ApplyOutcome)} {next : Store}
    (changed : ∀ (store : Store) hit change, (∀ row, hit row = true → row.Continues (change row)) →
      holds store → holds { store with leases := Table.update hit change store.leases })
    (before : holds store) (marked : store.markApplyResults results = .ok (next, ())) :
    holds next := by
  induction results generalizing store with
  | nil =>
    obtain ⟨rfl, -⟩ := Prod.mk.inj (Except.ok.inj marked)
    exact before
  | cons result rest inductionHypothesis =>
    refine inductionHypothesis ?_ (Store.markApplyResults_cons_ok marked)
    exact changed store _ _ (fun row _ => row.continues_mark result.2) before

/-- The invariant rule of a call without events: it prunes offenses, or it ends, marks,
removes or grants leases. -/
theorem execute_upkeep_preserves {call : StoreCall}
    (pruned : ∀ before, call = .pruneOffenses before → ∀ store, holds store →
      holds (Store.withoutOffenses store before))
    (changed : ∀ (store : Store) hit change, (∀ row, hit row = true → row.Continues (change row)) →
      holds store → holds { store with leases := Table.update hit change store.leases })
    (removed : ∀ (store : Store) hit, holds store →
      holds { store with leases := Table.delete hit store.leases })
    (blocked : ∀ store next network action now durationSecs lease,
      Store.manualBlock store network action now durationSecs = .ok (next, lease) →
      holds store → holds next)
    (eventless : call.inputs = []) (before : holds store) : holds (call.execute store) := by
  cases call with
  | processEvent input => exact nomatch eventless
  | processEvents inputs =>
    obtain rfl : inputs = [] := eventless
    exact before
  | expire now =>
    rw [execute]
    refine Transaction.commit_preserves before fun next count expired => ?_
    rw [(Store.expire_ok expired).2]
    exact changed store _ _ (fun row _ => row.continues_ended _ _ (by simp)) before
  | pruneOffenses bound =>
    rw [execute]
    refine Transaction.commit_preserves before fun next count deleted => ?_
    rw [(Store.pruneOffenses_ok deleted).2]
    exact pruned bound rfl store before
  | pruneLeases bound now =>
    rw [execute]
    refine Transaction.commit_preserves before fun next count deleted => ?_
    rw [(Store.pruneLeases_ok deleted).2]
    exact removed store _ before
  | manualBlock network action now durationSecs =>
    rw [execute]
    exact Transaction.commit_preserves before fun next lease done =>
      blocked store next network action now durationSecs lease done before
  | manualUnblock network now =>
    rw [execute]
    refine Transaction.commit_preserves before fun next count unblocked => ?_
    rw [(Store.manualUnblock_ok unblocked).2]
    exact changed store _ _ (fun row _ => row.continues_ended _ _ (by simp)) before
  | beginReconcile now =>
    rw [execute]
    refine Transaction.commit_preserves before fun next count begun => ?_
    rw [(Store.beginReconcile_ok begun).2]
    refine changed store _ _ (fun row _ => ?_) before
    exact ⟨rfl, rfl, rfl, rfl, rfl, rfl, fun stands => stands⟩
  | markApplyResults results =>
    rw [execute]
    exact Transaction.commit_preserves before fun next answer marked =>
      markApplyResults_preserves changed before marked

/-- The invariant rule of a call: offenses are recorded, or the call has no events. -/
theorem execute_preserves
    (ignoresProgress : Store.IgnoresProgress holds)
    (pruned : ∀ store before, holds store → holds (Store.withoutOffenses store before))
    (changed : ∀ (store : Store) hit change, (∀ row, hit row = true → row.Continues (change row)) →
      holds store → holds { store with leases := Table.update hit change store.leases })
    (removed : ∀ (store : Store) hit, holds store →
      holds { store with leases := Table.delete hit store.leases })
    (blocked : ∀ store next network action now durationSecs lease,
      Store.manualBlock store network action now durationSecs = .ok (next, lease) →
      holds store → holds next)
    (call : StoreCall)
    (preserved : ∀ input ∈ call.inputs, ∀ offense ∈ input.offenses, ∀ store next lease,
      input.timeOf offense ≤ sqlMax → store.KeyFree input offense →
      Store.OffenseStep store input offense next lease → holds store → holds next)
    (before : holds store) : holds (call.execute store) := by
  cases call with
  | processEvent input =>
    exact execute_processEvent_preserves ignoresProgress input
      (preserved input (List.mem_singleton_self input)) before
  | processEvents inputs =>
    exact execute_processEvents_preserves ignoresProgress inputs preserved before
  | _ =>
    exact execute_upkeep_preserves (fun bound _ store => pruned store bound) changed removed blocked
      rfl before

/-- The invariant rule for properties of the offenses alone: what offenses and pruning
preserve, every call preserves. -/
theorem execute_preserves_offenses (ignoresProgress : Store.IgnoresProgress holds)
    (ignoresLeases : Store.IgnoresLeases holds)
    (pruned : ∀ store before, holds store → holds (Store.withoutOffenses store before))
    (call : StoreCall)
    (preserved : ∀ input ∈ call.inputs, ∀ offense ∈ input.offenses, ∀ store next lease,
      input.timeOf offense ≤ sqlMax → store.KeyFree input offense →
      Store.OffenseStep store input offense next lease → holds store → holds next)
    (before : holds store) : holds (call.execute store) := by
  refine execute_preserves ignoresProgress pruned ?_ ?_ ?_ call preserved before
  · exact fun store hit change _ => ignoresLeases store _
  · exact fun store hit => ignoresLeases store _
  · intro store next network action now durationSecs lease blocked
    rw [(Store.manualBlock_ok blocked).2.2]
    exact ignoresLeases store _

end Preservation

end StoreCall

/-! ### A sample policy -/

/-- A failed login as the policy `ssh` sees it: two of them within ten seconds are banned for
a minute. -/
def sshOffense (address : BitVec 32) (time : Nat) : OffenseInput where
  policy := "ssh"
  network := hostNetwork (.v4 address)
  maxAttempts := 2
  findtimeSecs := 10
  historyRetentionSecs := 86400
  ban := ⟨some 60, 1, [], 0, 3600, false⟩
  action := .dropAll
  observedAt := some time
  attemptKey := none
  groupKey := none
  draw := 0

/-- A record of the journal source `sshd` with one failed login. -/
def failedLogin (eventId : String) (address : BitVec 32) (time : Nat) : EventInput :=
  ⟨"sshd", eventId, .journal eventId (time * 1000000), time, [sshOffense address time]⟩

end Bagel
