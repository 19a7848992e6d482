/-
This file models the parts of a policy that the store and the firewall read: the
action a ban has and the schedule its length follows.
-/

import Bagel.Firewall

namespace Bagel

inductive TransportProtocol where
  | tcp
  | udp
  deriving DecidableEq

/-- Network effect produced by a policy ban. -/
inductive Action where
  | observe
  | drop (protocol : TransportProtocol) (ports : List UInt16)
  | dropProtocol (protocol : TransportProtocol)
  | dropAll
  | reject (protocol : TransportProtocol) (ports : List UInt16)
  | rejectProtocol (protocol : TransportProtocol)
  | rejectAll
  | tarpitRedirect (protocol : TransportProtocol) (ports : List UInt16) (listener : String)
  deriving DecidableEq

inductive BlockVerdict where
  | drop
  | reject
  deriving DecidableEq

/-- How much traffic a blocking action covers. -/
inductive BlockTarget where
  | ports (protocol : TransportProtocol) (ports : List UInt16)
  | protocol (protocol : TransportProtocol)
  | all
  deriving DecidableEq

/-- What a firewall rule needs, or nothing for the actions that block nothing. -/
def Action.blockParts : Action → Option (BlockVerdict × BlockTarget)
  | observe => none
  | tarpitRedirect _ _ _ => none
  | drop protocol ports => some (.drop, .ports protocol ports)
  | dropProtocol protocol => some (.drop, .protocol protocol)
  | dropAll => some (.drop, .all)
  | reject protocol ports => some (.reject, .ports protocol ports)
  | rejectProtocol protocol => some (.reject, .protocol protocol)
  | rejectAll => some (.reject, .all)

structure BanSchedule where
  /-- An absent duration makes a permanent ban. -/
  durationSecs : Option Nat
  factor : Nat
  multipliers : List Nat
  jitterSecs : Nat
  maxDurationSecs : Nat
  overall : Bool
  deriving DecidableEq

/-! ### Ban durations -/

/-- The largest `u64`. -/
def u64Max : Nat := 2 ^ 64 - 1

def saturatingAdd (first second : Nat) : Nat :=
  min (first + second) u64Max

def saturatingMul (first second : Nat) : Nat :=
  min (first * second) u64Max

/-- `2_u64.saturating_pow(exponent)`. -/
def saturatingTwoPow (exponent : Nat) : Nat :=
  if exponent < 64 then 2 ^ exponent else u64Max

/-- `random_range(0..=bound)`, as the value that a random draw falls on. -/
def randomUpTo (bound draw : Nat) : Nat :=
  draw % (bound + 1)

/-- `ban_duration` of `store.rs`. The random draw of the jitter is an argument. -/
def banDuration (schedule : BanSchedule) (count draw : Nat) : Option Nat :=
  schedule.durationSecs.map fun base =>
    let scaled := saturatingMul base schedule.factor
    let duration :=
      match schedule.multipliers[min count (schedule.multipliers.length - 1)]? with
      | none => saturatingMul scaled (saturatingTwoPow (min count (2 ^ 32 - 1)))
      | some multiplier => saturatingMul scaled multiplier
    let jitter := if schedule.jitterSecs = 0 then 0 else randomUpTo schedule.jitterSecs draw
    min (saturatingAdd duration jitter) schedule.maxDurationSecs

end Bagel
