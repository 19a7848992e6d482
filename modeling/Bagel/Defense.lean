/-
This file models the pure part of `defense.rs`: which detections are accepted as
offenses, which records a batch hands to the store, and the firewall membership that a
lease stands for.

The addresses of the local interfaces and the random draws of ban jitter come from the
surroundings of a record. A detection asks for them at most once per policy, so they
are given by policy name. Between batches the loop keeps the memory of its detectors
and, per source, a count of the records that nothing matched: one in 128 of these is
handed to the store for its checkpoint alone.
-/

import Bagel.Detector
import Bagel.Store

namespace Bagel

structure CompiledPolicy where
  source : String
  detector : CompiledDetector
  ignored : List IpNetwork
  maxAttempts : Nat
  findtimeSecs : Nat
  ban : BanSchedule
  action : Action

/-- The configuration of the defense loop, as far as it decides about records and leases. -/
structure Defense where
  /-- Ordered by name. -/
  policies : List (String × CompiledPolicy)
  protectedNetworks : List IpNetwork
  noBlock : List IpNetwork
  historyRetentionSecs : Nat
  /-- The sources of kind listener or web. -/
  inProcessSources : List String
  /-- The listeners with their addresses. -/
  listeners : List (String × String)
  /-- The port of a socket address, or why it does not parse. -/
  socketPort : String → Except String UInt16
  parsers : Parsers

/-- What the loop remembers between records. -/
structure Memory where
  contexts : String → Context
  sequences : String → Nat

structure Surroundings where
  localAddresses : String → Except Error (List IpAddr)
  draw : String → Nat

namespace Defense

/-! ### Protected and shared networks -/

/-- The local addresses are asked for only when no configured network decides. -/
def isProtected (defense : Defense) (localAddresses : Except Error (List IpAddr))
    (network : IpNetwork) : Except Error Bool :=
  if defense.protectedNetworks.any fun protectedNetwork => networksOverlap protectedNetwork network
  then .ok true
  else do
    let addresses ← localAddresses
    return (addresses.map hostNetwork).any fun home => networksOverlap home network

def isNoBlockNetwork (defense : Defense) (network : IpNetwork) : Bool :=
  defense.noBlock.any fun shared => networksOverlap shared network

def enforcementAction (defense : Defense) (network : IpNetwork) (action : Action) : Action :=
  if defense.isNoBlockNetwork network && action.blockParts.isSome then .observe else action

/-! ### Records -/

/-- `Defense::open`: nothing remembered but the sequence numbers of in-process sources. -/
def openMemory (defense : Defense) (store : Store) : Memory where
  contexts _ := ([] : List (String × ContextEntry))
  sequences source :=
    if defense.inProcessSources.contains source then
      match store.checkpoint source with
      | some (.listener sequence) => sequence
      | _ => 0
    else 0

def offenseInput (defense : Defense) (name : String) (policy : CompiledPolicy)
    (detection : Detection) (draw : Nat) : OffenseInput where
  policy := name
  network := detection.network
  maxAttempts := policy.maxAttempts
  findtimeSecs := policy.findtimeSecs
  historyRetentionSecs := defense.historyRetentionSecs
  ban := policy.ban
  action := defense.enforcementAction detection.network policy.action
  observedAt := some detection.observedAt
  attemptKey := detection.attemptKey
  groupKey := detection.groupKey
  draw := draw

/-- The offense of a detection, unless its network is protected or ignored. -/
def acceptDetection (defense : Defense) (surroundings : Surroundings) (name : String)
    (policy : CompiledPolicy) (detection : Detection) : Except Error (Option OffenseInput) := do
  if ← defense.isProtected (surroundings.localAddresses name) detection.network then
    return none
  if policy.ignored.any fun ignored => networksOverlap ignored detection.network then
    return none
  return some (defense.offenseInput name policy detection (surroundings.draw name))

/-- The loop over the policies of a record's source. -/
def matchPolicies (defense : Defense) (record : SourceRecord) (surroundings : Surroundings)
    (memory : Memory) : List (String × CompiledPolicy) → Except Error (Memory × List OffenseInput)
  | [] => .ok (memory, [])
  | (name, policy) :: rest =>
    if policy.source != record.source then defense.matchPolicies record surroundings memory rest
    else
      let (context, detection) := policy.detector.detect defense.parsers (memory.contexts name)
        record.payload record.observedAt record.correlation
      let memory := { memory with contexts := Function.update memory.contexts name context }
      match detection with
      | none => defense.matchPolicies record surroundings memory rest
      | some detection => do
        let offense ← defense.acceptDetection surroundings name policy detection
        let (memory, offenses) ← defense.matchPolicies record surroundings memory rest
        return (memory, offense.toList ++ offenses)

/-- The offenses of a record. An oversized record is not looked at. -/
def detectOffenses (defense : Defense) (memory : Memory) (record : SourceRecord)
    (surroundings : Surroundings) : Except Error (Memory × List OffenseInput) :=
  if record.oversized then .ok (memory, [])
  else defense.matchPolicies record surroundings memory defense.policies

/-- A record, the offenses detection produced for it, and the event handed to the store. -/
structure Handled where
  record : SourceRecord
  offenses : List OffenseInput
  event : Option EventInput

def eventOf (record : SourceRecord) (offenses : List OffenseInput) : EventInput :=
  ⟨record.source, record.id, record.checkpoint, record.observedAt, offenses⟩

/-- One round of the loop over the records of a batch. -/
def handleRecord (defense : Defense) (memory : Memory) (record : SourceRecord)
    (surroundings : Surroundings) : Except Error (Memory × Handled) := do
  let (memory, offenses) ← defense.detectOffenses memory record surroundings
  if offenses.isEmpty && !record.oversized then
    let sequence := saturatingAdd (memory.sequences record.source) 1
    let memory :=
      { memory with sequences := Function.update memory.sequences record.source sequence }
    if sequence % 128 ≠ 0 then
      return (memory, ⟨record, offenses, none⟩)
    return (memory, ⟨record, offenses, some (eventOf record offenses)⟩)
  return (memory, ⟨record, offenses, some (eventOf record offenses)⟩)

def handleRecords (defense : Defense) (memory : Memory) :
    List (SourceRecord × Surroundings) → Except Error (Memory × List Handled)
  | [] => .ok (memory, [])
  | (record, surroundings) :: rest => do
    let (memory, handled) ← defense.handleRecord memory record surroundings
    let (memory, others) ← defense.handleRecords memory rest
    return (memory, handled :: others)

/-- The events of a batch. -/
def pending (handled : List Handled) : List EventInput :=
  handled.filterMap Handled.event

/-- `process_records` up to the end of its transaction. -/
def processRecords (defense : Defense) (memory : Memory) (store : Store)
    (records : List (SourceRecord × Surroundings)) :
    Except Error (Memory × Store × List EventOutcome) := do
  let (memory, handled) ← defense.handleRecords memory records
  if (pending handled).isEmpty then
    return (memory, store, [])
  let (store, outcomes) ← store.processEvents (pending handled)
  return (memory, store, outcomes)

/-! ### Memberships -/

def protocolOf : TransportProtocol → Protocol
  | .tcp => .tcp
  | .udp => .udp

def verdictOf : BlockVerdict → Verdict
  | .drop => .drop
  | .reject => .reject

/-- The port that a redirect of a listener leads to. -/
def listenerPort (defense : Defense) (listener : String) : Except Error UInt16 :=
  match defense.listeners.find? fun candidate => candidate.1 == listener with
  | none => .error (.config ("unknown redirect listener " ++ listener))
  | some candidate =>
    match defense.socketPort candidate.2 with
    | .error message => .error (.config message)
    | .ok port => .ok port

/-- The firewall membership of a lease. An observed lease has none. -/
def membership (defense : Defense) (lease : Lease) : Except Error (Option Membership) :=
  match lease.action.blockParts with
  | some (verdict, .all) => .ok (some ⟨lease.network, Scope.allPorts (verdictOf verdict)⟩)
  | some (verdict, .protocol protocol) =>
    .ok (some ⟨lease.network, Scope.ofProtocol (protocolOf protocol) (verdictOf verdict)⟩)
  | some (verdict, .ports protocol ports) => do
    let scope ← Scope.new (protocolOf protocol) ports (verdictOf verdict)
    return some ⟨lease.network, scope⟩
  | none =>
    match lease.action with
    | .tarpitRedirect protocol ports listener => do
      let port ← defense.listenerPort listener
      let scope ← Scope.new (protocolOf protocol) ports (.redirect port)
      return some ⟨lease.network, scope⟩
    | _ => .ok none

end Defense

end Bagel
