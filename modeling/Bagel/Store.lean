/-
This file models `store.rs`: the durable tables of source progress, seen events,
offenses and leases, and the operations on them.

A table is the list of its rows, oldest first, and a statement is the update or
the query it says. Times are natural numbers, as the runtime's `u64`; a statement
that binds one fails when it exceeds the signed range of SQLite. A network column
holds the text of an `IpNetwork`, which determines it, so rows carry the network.

The store also keeps a history that is no table and that no statement reads: every
offense row ever inserted and every lease ever granted to an offense. Properties of
whole runs are stated over it, since the tables themselves are pruned. An offense
row carries its position in that history as its serial number.
-/

import Bagel.Policy
import Bagel.Source
import Bagel.Library.Table
import Bagel.Library.Transaction

namespace Bagel

/-! ### Rows -/

/-- The largest value of a signed SQLite integer. -/
def sqlMax : Nat := 2 ^ 63 - 1

def manualPolicy : String := "__manual__"

structure CheckpointRow where
  source : String
  eventId : String
  data : Checkpoint
  updatedAt : Nat
  deriving DecidableEq

structure EventRow where
  source : String
  eventId : String
  observedAt : Nat
  deriving DecidableEq

structure OffenseRow where
  serial : Nat
  source : String
  eventId : String
  policy : String
  network : IpNetwork
  observedAt : Nat
  attemptKey : Option String
  consumed : Bool
  deriving DecidableEq

inductive ApplyState where
  | pending
  | applied
  | observed
  | failed
  deriving DecidableEq

structure Lease where
  id : Nat
  network : IpNetwork
  policy : String
  action : Action
  createdAt : Nat
  expiresAt : Option Nat
  escalationCount : Nat
  manual : Bool
  applyState : ApplyState
  lastError : Option String
  deriving DecidableEq

/-- A row of the lease table: a lease and what ended it. -/
structure LeaseRow extends Lease where
  revokedAt : Option Nat
  expiredAt : Option Nat
  deriving DecidableEq

/-- One match of a policy. `draw` is what the random generator yields if the offense comes
to a ban with jitter. -/
structure OffenseInput where
  policy : String
  network : IpNetwork
  maxAttempts : Nat
  findtimeSecs : Nat
  historyRetentionSecs : Nat
  ban : BanSchedule
  action : Action
  observedAt : Option Nat
  attemptKey : Option String
  groupKey : Option String
  draw : Nat
  deriving DecidableEq

structure EventInput where
  source : String
  eventId : String
  checkpoint : Checkpoint
  observedAt : Nat
  offenses : List OffenseInput
  deriving DecidableEq

structure EventOutcome where
  duplicate : Bool
  leases : List Lease
  deriving DecidableEq

inductive ApplyOutcome where
  | applied
  | observed
  | failed (error : String)
  deriving DecidableEq

/-- A lease together with the offense that it answers. -/
structure Grant where
  lease : Lease
  trigger : OffenseInput
  deriving DecidableEq

structure Store where
  checkpoints : List CheckpointRow
  events : List EventRow
  offenses : List OffenseRow
  leases : List LeaseRow
  inserted : List OffenseRow
  granted : List Grant
  deriving DecidableEq

/-- The database that `create_schema` sets up. -/
def Store.empty : Store := ⟨[], [], [], [], [], []⟩

/-! ### Times -/

def sqlTime (value : Nat) : Except Error Nat :=
  if value ≤ sqlMax then .ok value
  else .error (.config ("timestamp " ++ toString value ++ " exceeds SQLite range"))

def sqlTimeOption : Option Nat → Except Error (Option Nat)
  | none => .ok none
  | some value => do
    let bound ← sqlTime value
    return some bound

namespace Store

/-! ### Queries -/

def checkpoint (store : Store) (source : String) : Option Checkpoint :=
  (store.checkpoints.find? fun row => row.source == source).map CheckpointRow.data

end Store

namespace LeaseRow

/-- Neither revoked nor flagged as expired. -/
def standing (row : LeaseRow) : Bool :=
  row.revokedAt.isNone && row.expiredAt.isNone

/-- `expires_at IS NULL OR expires_at > now`. -/
def unexpired (row : LeaseRow) (now : Nat) : Bool :=
  row.expiresAt.all fun expiry => decide (now < expiry)

/-- The condition under which a lease is in force. -/
def active (row : LeaseRow) (now : Nat) : Bool :=
  row.standing && row.unexpired now

/-- The condition under which `expire` flags a lease. -/
def due (row : LeaseRow) (now : Nat) : Bool :=
  row.standing && row.expiresAt.any fun expiry => decide (expiry ≤ now)

/-- The condition under which `prune_leases` removes a lease. -/
def prunable (row : LeaseRow) (before now : Nat) : Bool :=
  decide (row.createdAt < before) &&
    (!row.standing || row.expiresAt.any fun expiry => decide (expiry ≤ now))

end LeaseRow

/-- The parameters of `offense_window!`. -/
structure OffenseWindow where
  policy : String
  network : IpNetwork
  start : Nat
  stop : Nat
  groupKey : Option String

/-- The condition of `offense_window!`. -/
def OffenseWindow.selects (window : OffenseWindow) (row : OffenseRow) : Bool :=
  row.policy == window.policy && row.network == window.network && !row.consumed &&
    decide (window.start ≤ row.observedAt) && decide (row.observedAt ≤ window.stop) &&
    window.groupKey.all fun key => row.attemptKey == some key

namespace Store

def hasActiveLease (store : Store) (policy : String) (network : IpNetwork) (now : Nat) :
    Except Error Bool := do
  let now ← sqlTime now
  return store.leases.any fun row =>
    row.policy == policy && row.network == network && row.active now

def escalationCount (store : Store) (policy : String) (network : IpNetwork) (overall : Bool)
    (historyStart : Nat) : Except Error Nat := do
  let historyStart ← sqlTime historyStart
  return store.leases.countP fun row =>
    row.network == network && (overall || row.policy == policy) && !row.manual &&
      decide (historyStart ≤ row.createdAt)

/-- `COUNT_GROUPED_ATTEMPTS` for an offense with a group key, `COUNT_DISTINCT_ATTEMPTS` for
one without. -/
def countAttempts (store : Store) (window : OffenseWindow) : Nat :=
  let rows := store.offenses.filter window.selects
  if window.groupKey.isSome then rows.length
  else Table.countDistinct OffenseRow.attemptKey rows

def activeLeases (store : Store) (now : Nat) : Except Error (List Lease) := do
  let now ← sqlTime now
  return (store.leases.filter fun row => row.active now).map LeaseRow.toLease

/-! ### Insertions and updates -/

/-- `INSERT OR IGNORE INTO events`, with the number of rows it inserted. -/
def insertEvent (store : Store) (source eventId : String) (observedAt : Nat) : Store × Nat :=
  if store.events.any fun row => row.source == source && row.eventId == eventId then (store, 0)
  else ({ store with events := store.events ++ [⟨source, eventId, observedAt⟩] }, 1)

/-- `INSERT INTO offenses`, which fails on a second row of one event and policy. -/
def insertOffense (store : Store) (source eventId policy : String) (network : IpNetwork)
    (observedAt : Nat) (attemptKey : Option String) : Except Error Store :=
  if store.offenses.any fun row =>
      row.source == source && row.eventId == eventId && row.policy == policy then
    .error (.io ("UNIQUE constraint failed: offenses.source, offenses.event_id, " ++
      "offenses.policy"))
  else
    let row : OffenseRow :=
      ⟨store.inserted.length, source, eventId, policy, network, observedAt, attemptKey, false⟩
    .ok { store with offenses := store.offenses ++ [row], inserted := store.inserted ++ [row] }

def consume (row : OffenseRow) : OffenseRow :=
  { row with consumed := true }

/-- The update of an offense that meets an active lease. -/
def consumeEvent (store : Store) (source eventId policy : String) : Store :=
  let hit (row : OffenseRow) : Bool :=
    row.source == source && row.eventId == eventId && row.policy == policy
  { store with offenses := Table.update hit consume store.offenses }

/-- `CONSUME_ATTEMPTS`. -/
def consumeAttempts (store : Store) (window : OffenseWindow) : Store :=
  { store with offenses := Table.update window.selects consume store.offenses }

/-- The identifier SQLite gives a new lease: one more than the largest in the table. -/
def nextLeaseId (store : Store) : Nat :=
  (store.leases.map fun row => row.id).foldl max 0 + 1

/-- `insert_lease`, which leaves the new lease pending. -/
def insertLease (store : Store) (network : IpNetwork) (policy : String) (action : Action)
    (createdAt : Nat) (expiresAt : Option Nat) (escalationCount : Nat) (manual : Bool) :
    Except Error (Store × Lease) := do
  let createdAt ← sqlTime createdAt
  let expiresAt ← sqlTimeOption expiresAt
  let escalationCount ← sqlTime escalationCount
  let lease : Lease := ⟨store.nextLeaseId, network, policy, action, createdAt, expiresAt,
    escalationCount, manual, .pending, none⟩
  return ({ store with leases := store.leases ++ [⟨lease, none, none⟩] }, lease)

def upsertCheckpoint (store : Store) (source eventId : String) (checkpoint : Checkpoint)
    (observedAt : Nat) : Except Error Store := do
  let updatedAt ← sqlTime observedAt
  let row : CheckpointRow := ⟨source, eventId, checkpoint, updatedAt⟩
  let hit (old : CheckpointRow) : Bool := old.source == source
  if store.checkpoints.any hit then
    return { store with checkpoints := Table.update hit (fun _ => row) store.checkpoints }
  else return { store with checkpoints := store.checkpoints ++ [row] }

/-! ### Events -/

/-- One round of the loop over the offenses of an event: the offense is recorded, then
absorbed by an active lease, or counted in its window, or answered with a ban that consumes
the window. -/
def applyOffense (store : Store) (input : EventInput) (offense : OffenseInput) :
    Except Error (Store × Option Lease) := do
  let observedAt := offense.observedAt.getD input.observedAt
  let offenseObservedAt ← sqlTime observedAt
  let store ← store.insertOffense input.source input.eventId offense.policy offense.network
    offenseObservedAt (offense.groupKey <|> offense.attemptKey)
  if ← store.hasActiveLease offense.policy offense.network observedAt then
    return (store.consumeEvent input.source input.eventId offense.policy, none)
  let windowStart ← sqlTime (observedAt - offense.findtimeSecs)
  let window : OffenseWindow :=
    ⟨offense.policy, offense.network, windowStart, offenseObservedAt, offense.groupKey⟩
  if store.countAttempts window < offense.maxAttempts then
    return (store, none)
  let escalationCount ← store.escalationCount offense.policy offense.network offense.ban.overall
    (observedAt - offense.historyRetentionSecs)
  let expiresAt := (banDuration offense.ban escalationCount offense.draw).map fun duration =>
    min (saturatingAdd observedAt duration) sqlMax
  let (store, lease) ← store.insertLease offense.network offense.policy offense.action observedAt
    expiresAt escalationCount false
  let store := store.consumeAttempts window
  return ({ store with granted := store.granted ++ [⟨lease, offense⟩] }, some lease)

/-- The loop over the offenses of an event. -/
def applyOffenses (store : Store) (input : EventInput) :
    List OffenseInput → Except Error (Store × List Lease)
  | [] => .ok (store, [])
  | offense :: rest => do
    let (store, lease) ← store.applyOffense input offense
    let (store, leases) ← store.applyOffenses input rest
    return (store, lease.toList ++ leases)

def applyEvent (store : Store) (input : EventInput) : Except Error (Store × EventOutcome) := do
  let observedAt ← sqlTime input.observedAt
  let (store, inserted) := store.insertEvent input.source input.eventId observedAt
  if inserted = 0 then
    return (store, ⟨true, []⟩)
  let (store, leases) ← store.applyOffenses input input.offenses
  let store ← store.upsertCheckpoint input.source input.eventId input.checkpoint input.observedAt
  return (store, ⟨false, leases⟩)

/-- Persist a record and all policy matches. The caller runs it as one transaction. -/
def processEvent (store : Store) (input : EventInput) : Except Error (Store × EventOutcome) :=
  store.applyEvent input

/-- Apply several events in order. The caller runs it as one transaction, so one failing
event rolls the whole batch back. -/
def processEvents (store : Store) : List EventInput → Except Error (Store × List EventOutcome)
  | [] => .ok (store, [])
  | input :: rest => do
    if input.offenses.isEmpty then
      let store ← store.upsertCheckpoint input.source input.eventId input.checkpoint
        input.observedAt
      let (store, outcomes) ← store.processEvents rest
      return (store, ⟨false, []⟩ :: outcomes)
    else
      let (store, outcome) ← store.applyEvent input
      let (store, outcomes) ← store.processEvents rest
      return (store, outcome :: outcomes)

/-! ### Maintenance -/

def expire (store : Store) (now : Nat) : Except Error (Store × Nat) := do
  let now ← sqlTime now
  let hit (row : LeaseRow) : Bool := row.due now
  let flag (row : LeaseRow) : LeaseRow := { row with expiredAt := some now }
  return ({ store with leases := Table.update hit flag store.leases }, store.leases.countP hit)

/-- Bound rolling-window history without touching durable lease history. -/
def pruneOffenses (store : Store) (before : Nat) : Except Error (Store × Nat) := do
  let before ← sqlTime before
  let old (row : OffenseRow) : Bool := decide (row.observedAt < before)
  let offenses := Table.delete old store.offenses
  let orphaned (event : EventRow) : Bool :=
    !offenses.any fun row => row.source == event.source && row.eventId == event.eventId
  return ({ store with offenses, events := Table.delete orphaned store.events },
    store.offenses.countP old)

/-- Remove inactive lease history after its escalation-retention window. -/
def pruneLeases (store : Store) (before now : Nat) : Except Error (Store × Nat) := do
  let before ← sqlTime before
  let now ← sqlTime now
  let hit (row : LeaseRow) : Bool := row.prunable before now
  return ({ store with leases := Table.delete hit store.leases }, store.leases.countP hit)

/-! ### Manual bans -/

def manualBlock (store : Store) (network : IpNetwork) (action : Action) (now : Nat)
    (durationSecs : Option Nat) : Except Error (Store × Lease) := do
  let revokedAt ← sqlTime now
  let hit (row : LeaseRow) : Bool := row.manual && row.network == network && row.standing
  let revoke (row : LeaseRow) : LeaseRow := { row with revokedAt := some revokedAt }
  let store : Store := { store with leases := Table.update hit revoke store.leases }
  let expiresAt := durationSecs.map fun duration => saturatingAdd now duration
  store.insertLease network manualPolicy action now expiresAt 0 true

def manualUnblock (store : Store) (network : IpNetwork) (now : Nat) :
    Except Error (Store × Nat) := do
  let now ← sqlTime now
  let hit (row : LeaseRow) : Bool := row.network == network && row.active now
  let revoke (row : LeaseRow) : LeaseRow := { row with revokedAt := some now }
  return ({ store with leases := Table.update hit revoke store.leases }, store.leases.countP hit)

/-! ### Reconciliation -/

/-- Mark the desired set as not yet verified before an nftables reconcile. -/
def beginReconcile (store : Store) (now : Nat) : Except Error (Store × Nat) := do
  let now ← sqlTime now
  let hit (row : LeaseRow) : Bool := row.active now
  let reset (row : LeaseRow) : LeaseRow := { row with applyState := .pending, lastError := none }
  return ({ store with leases := Table.update hit reset store.leases }, store.leases.countP hit)

def markApplyResult (row : LeaseRow) : ApplyOutcome → LeaseRow
  | .applied => { row with applyState := .applied, lastError := none }
  | .observed => { row with applyState := .observed, lastError := none }
  | .failed error => { row with applyState := .failed, lastError := some error }

/-- Persist one reconciliation outcome for every desired lease. -/
def markApplyResults (store : Store) : List (Nat × ApplyOutcome) → Except Error (Store × Unit)
  | [] => .ok (store, ())
  | (leaseId, outcome) :: rest =>
    let hit (row : LeaseRow) : Bool := row.id == leaseId
    let mark (row : LeaseRow) : LeaseRow := markApplyResult row outcome
    if store.leases.any hit then
      markApplyResults { store with leases := Table.update hit mark store.leases } rest
    else .error (.config ("unknown defense lease " ++ toString leaseId))

end Store

end Bagel
