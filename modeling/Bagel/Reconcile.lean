/-
This file models `reconcile` of `defense_maintenance.rs` and the tasks that end in one.

A reconcile works in three steps, and other tasks may run between any two of them: it
resets and reads the active leases under the store lock, it pipes the ruleset rendered
from them into `nft`, and it marks the leases it has read. Manual bans, the batches of
the run loop and listener offenses change the store in one step of their own and then
reconcile.

The system keeps two things for its history only: the leases that each reconcile has
read, in the order of reading, and which of these the installed ruleset was rendered
from. The addresses of the local interfaces do not change during a run, and `nft`
succeeds.
-/

import Bagel.Defense
import Bagel.StoreCalls
import Mathlib.Logic.Relation

namespace Bagel

/-! ### What a reconcile computes -/

/-- The configuration of `Firewall`. -/
structure Firewall where
  table : String
  priority : Int
  required : Bool

/-- `Firewall::reconcile`: the ruleset it has `nft` install, which is none unless enforcement is
required. -/
def Firewall.reconcile (firewall : Firewall) (memberships : List Membership) :
    Except Error (Option Ruleset) :=
  if !firewall.required then .ok none
  else do
    let ruleset ← renderRuleset firewall.table firewall.priority memberships
    return some ruleset

/-- The memberships of the leases to enforce, and the identifiers of the leases that are left
out because their network is protected or shared. -/
structure Plan where
  memberships : List Membership
  protectedIds : List Nat
  sparedIds : List Nat

/-- What the tasks of a run have in common. -/
structure Host where
  defense : Defense
  firewall : Firewall
  localAddresses : List IpAddr

namespace Host

def isProtected (host : Host) (network : IpNetwork) : Except Error Bool :=
  host.defense.isProtected (.ok host.localAddresses) network

/-- The loop over the active leases. -/
def plan (host : Host) : List Lease → Except Error Plan
  | [] => .ok ⟨[], [], []⟩
  | lease :: rest => do
    if ← host.isProtected lease.network then
      let plan ← host.plan rest
      return { plan with protectedIds := lease.id :: plan.protectedIds }
    else if host.defense.isNoBlockNetwork lease.network then
      let plan ← host.plan rest
      return { plan with sparedIds := lease.id :: plan.sparedIds }
    else
      let membership ← host.defense.membership lease
      let plan ← host.plan rest
      return { plan with memberships := membership.toList ++ plan.memberships }

def outcome (host : Host) (plan : Plan) (result : Except Error (Option Ruleset)) (lease : Lease) :
    ApplyOutcome :=
  match result with
  | .error error => .failed error.text
  | .ok _ =>
    if !host.firewall.required || lease.action == .observe ||
        plan.protectedIds.contains lease.id || plan.sparedIds.contains lease.id then .observed
    else .applied

/-- The results that are passed to `mark_apply_results`. -/
def outcomes (host : Host) (plan : Plan) (result : Except Error (Option Ruleset))
    (leases : List Lease) : List (Nat × ApplyOutcome) :=
  leases.map fun lease => (lease.id, host.outcome plan result lease)

/-- The ruleset of the leases of a store that are active, unprotected and not spared. -/
def wanted (host : Host) (store : Store) (now : Nat) : Except Error Ruleset := do
  let leases ← store.activeLeases now
  let plan ← host.plan leases
  renderRuleset host.firewall.table host.firewall.priority plan.memberships

/-- A lease is in a ruleset: the ruleset is rendered from memberships that include the lease's
own. -/
def Enforces (host : Host) (ruleset : Ruleset) (lease : Lease) : Prop :=
  ∃ memberships,
    renderRuleset host.firewall.table host.firewall.priority memberships = .ok ruleset ∧
      ∃ membership ∈ memberships, host.defense.membership lease = .ok (some membership)

end Host

/-! ### Requests -/

/-- What a task is asked for. The run loop hands over the events of a batch, a listener one
event, and the timer and the administrator ask for a reconcile alone. -/
inductive Request where
  | manualBlock (network : IpNetwork) (durationSecs : Option Nat)
  | unblock (network : IpNetwork)
  | processRecords (events : List EventInput)
  | recordListener (event : EventInput)
  | reconcile

/-- The step of a request on the store, and whether a reconcile follows. -/
def Request.perform (host : Host) (now : Nat) (store : Store) :
    Request → Except Error (Store × Bool)
  | manualBlock network durationSecs =>
    if durationSecs = some 0 then .error (.config "manual ban duration must be non-zero")
    else do
      if ← host.isProtected network then
        .error (.config ("refusing to block protected network " ++ network.text))
      else if host.defense.isNoBlockNetwork network then
        .error (.config ("refusing to block shared network " ++ network.text))
      else
        let (store, _) ← store.manualBlock network .dropAll now durationSecs
        return (store, true)
  | unblock network => do
    let (store, _) ← store.manualUnblock network now
    return (store, true)
  | processRecords events => do
    let (store, outcomes) ← store.processEvents events
    return (store, outcomes.any fun outcome => !outcome.leases.isEmpty)
  | recordListener event => do
    let (store, outcome) ← store.processEvent event
    return (store, !outcome.leases.isEmpty)
  | reconcile => .ok (store, true)

/-! ### The system -/

/-- Where a task stands: nothing is left to do, a reconcile is to come, its leases were read, or
the firewall has answered. -/
inductive Phase where
  | idle
  | owing
  | holding (ticket : Nat) (leases : List Lease)
  | settled (results : List (Nat × ApplyOutcome))

structure System (Task : Type) where
  store : Store
  installed : Option Ruleset
  /-- Which snapshot the installed ruleset was rendered from. -/
  latest : Option Nat
  /-- The leases each reconcile has read, oldest first. -/
  snapshots : List (List Lease)
  phases : Task → Phase

/-- The span of time that the clock of a run stays in. It lies within the range of SQLite, so no
step fails because of its time. -/
structure Period where
  opening : Nat
  closing : Nat
  inRange : closing ≤ sqlMax

namespace Period

def Contains (period : Period) (now : Nat) : Prop :=
  period.opening ≤ now ∧ now ≤ period.closing

/-- No lease expires within the period. -/
def Steady (period : Period) (store : Store) : Prop :=
  ∀ row ∈ store.leases, ∀ expiry ∈ row.expiresAt,
    expiry ≤ period.opening ∨ period.closing < expiry

instance (period : Period) (now : Nat) : Decidable (period.Contains now) :=
  inferInstanceAs (Decidable (_ ∧ _))

instance (period : Period) (store : Store) : Decidable (period.Steady store) :=
  inferInstanceAs (Decidable (∀ row ∈ store.leases, ∀ expiry ∈ row.expiresAt, _ ∨ _))

end Period

namespace System

variable {Task : Type} [DecidableEq Task]

/-- The system when the runtime starts: whatever is in the database and in `nft`, and one task
that is about to reconcile. -/
def started (startup : Task) (store : Store) (installed : Option Ruleset) : System Task where
  store := store
  installed := installed
  latest := none
  snapshots := []
  phases := Function.update (fun _ => .idle) startup .owing

/-- One step of one task, if a ruleset is installed only where `allowed` says so for the
snapshot installed last and the one to be installed. A request that fails, and a step of the
store that fails, change nothing. -/
inductive Step (host : Host) (period : Period) (allowed : Option Nat → Nat → Prop)
    (system : System Task) : System Task → Prop where
  /-- The step of a request on the store. -/
  | performed (task : Task) (request : Request) (now : Nat) (store : Store) (follows : Bool)
      (idle : system.phases task = .idle) (within : period.Contains now)
      (performs : request.perform host now system.store = .ok (store, follows))
      (steady : period.Steady store) :
      Step host period allowed system { system with
        store
        phases := Function.update system.phases task (if follows then .owing else .idle) }
  /-- The first step of a reconcile: `begin_reconcile` and `active_leases`. -/
  | began (task : Task) (now : Nat) (store : Store) (count : Nat) (leases : List Lease)
      (owing : system.phases task = .owing) (within : period.Contains now)
      (begun : system.store.beginReconcile now = .ok (store, count))
      (read : store.activeLeases now = .ok leases) :
      Step host period allowed system { system with
        store
        snapshots := system.snapshots ++ [leases]
        phases := Function.update system.phases task (.holding system.snapshots.length leases) }
  /-- The second step: the ruleset replaces the installed one. -/
  | installed (task : Task) (ticket : Nat) (leases : List Lease) (plan : Plan) (ruleset : Ruleset)
      (holding : system.phases task = .holding ticket leases)
      (planned : host.plan leases = .ok plan)
      (answer : host.firewall.reconcile plan.memberships = .ok (some ruleset))
      (inOrder : allowed system.latest ticket) :
      Step host period allowed system { system with
        installed := some ruleset
        latest := some ticket
        phases := Function.update system.phases task
          (.settled (host.outcomes plan (.ok (some ruleset)) leases)) }
  /-- The second step, when the ruleset does not render or enforcement is not required. -/
  | kept (task : Task) (ticket : Nat) (leases : List Lease) (plan : Plan)
      (result : Except Error (Option Ruleset))
      (holding : system.phases task = .holding ticket leases)
      (planned : host.plan leases = .ok plan)
      (answer : host.firewall.reconcile plan.memberships = result)
      (nothing : ∀ ruleset, result ≠ .ok (some ruleset)) :
      Step host period allowed system { system with
        phases := Function.update system.phases task
          (.settled (host.outcomes plan result leases)) }
  /-- The second step, when a lease has no membership because of an error. -/
  | aborted (task : Task) (ticket : Nat) (leases : List Lease) (error : Error)
      (holding : system.phases task = .holding ticket leases)
      (planned : host.plan leases = .error error) :
      Step host period allowed system { system with
        phases := Function.update system.phases task .idle }
  /-- The third step: `mark_apply_results`. -/
  | marked (task : Task) (results : List (Nat × ApplyOutcome))
      (settled : system.phases task = .settled results) :
      Step host period allowed system { system with
        store := (StoreCall.markApplyResults results).execute system.store
        phases := Function.update system.phases task .idle }

end System

/-- No snapshot is installed after one that was taken later. -/
def InOrder (latest : Option Nat) (ticket : Nat) : Prop :=
  ∀ earlier ∈ latest, earlier ≤ ticket

instance (latest : Option Nat) (ticket : Nat) : Decidable (InOrder latest ticket) :=
  inferInstanceAs (Decidable (∀ earlier ∈ latest, earlier ≤ ticket))

end Bagel
