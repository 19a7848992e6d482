/-
This file proves that the firewall leaves protected, shared and local addresses alone.

Whatever the store holds, a lease reaches the ruleset only through the plan of a
reconcile, and the plan takes up no lease whose network shares an address with a
protected network, a shared one or an address of the host. The overlap test is exact,
so no packet from such an address is covered by a membership of the plan, and no rule
that is rendered from the plan matches it.
-/

import Bagel.Enforcement

namespace Bagel

/-! ### What a plan takes up -/

/-- The membership of a lease is about the network of the lease. -/
theorem Defense.membership_network {defense : Defense} {lease : Lease} {membership : Membership}
    (built : defense.membership lease = .ok (some membership)) :
    membership.network = lease.network := by
  rw [Defense.membership] at built
  cases kind : lease.action with
  | observe =>
    simp only [kind, Action.blockParts] at built
    cases built
  | drop protocol ports | reject protocol ports =>
    simp only [kind, Action.blockParts, Transaction.bind_eq_ok_iff] at built
    obtain ⟨scope, -, same⟩ := built
    obtain rfl := Option.some.inj (Except.ok.inj same)
    rfl
  | tarpitRedirect protocol ports listener =>
    simp only [kind, Action.blockParts, Transaction.bind_eq_ok_iff] at built
    obtain ⟨port, -, scope, -, same⟩ := built
    obtain rfl := Option.some.inj (Except.ok.inj same)
    rfl
  | dropProtocol | dropAll | rejectProtocol | rejectAll =>
    simp only [kind, Action.blockParts] at built
    obtain rfl := Option.some.inj (Except.ok.inj built)
    rfl

namespace Host

variable {host : Host}

/-- Every membership of a plan comes from a lease whose network is neither protected nor
shared. -/
theorem exists_lease_of_mem_plan {leases : List Lease} {plan : Plan}
    (planned : host.plan leases = .ok plan) {membership : Membership}
    (member : membership ∈ plan.memberships) :
    ∃ lease ∈ leases, host.isProtected lease.network = .ok false ∧
      host.defense.isNoBlockNetwork lease.network = false ∧
      host.defense.membership lease = .ok (some membership) := by
  induction leases generalizing plan with
  | nil =>
    obtain rfl := Except.ok.inj planned
    exact nomatch member
  | cons first rest inductionHypothesis =>
    obtain ⟨others, later, cases⟩ := plan_cons planned
    have weaken (inOthers : membership ∈ others.memberships) :
        ∃ lease ∈ first :: rest, host.isProtected lease.network = .ok false ∧
          host.defense.isNoBlockNetwork lease.network = false ∧
          host.defense.membership lease = .ok (some membership) := by
      obtain ⟨lease, inRest, found⟩ := inductionHypothesis later inOthers
      exact ⟨lease, List.mem_cons_of_mem _ inRest, found⟩
    rcases cases with ⟨-, rfl⟩ | ⟨-, -, rfl⟩ | ⟨unprotected, unshared, found, built, rfl⟩
    · exact weaken member
    · exact weaken member
    · rcases List.mem_append.mp member with own | inOthers
      · obtain rfl := Option.mem_toList.mp own
        exact ⟨first, List.mem_cons_self, unprotected, unshared, built⟩
      · exact weaken inOthers

/-! ### Spared addresses -/

/-- An address of a protected network, of a shared one, or of the host itself. -/
def Spares (host : Host) (address : IpAddr) : Prop :=
  (∃ network ∈ host.defense.protectedNetworks, network.contains address = true) ∨
    (∃ network ∈ host.defense.noBlock, network.contains address = true) ∨
    ∃ home ∈ host.localAddresses, (hostNetwork home).contains address = true

instance (host : Host) (address : IpAddr) : Decidable (host.Spares address) :=
  inferInstanceAs (Decidable (_ ∨ _ ∨ _))

/-- A network that holds a spared address is left out of every plan. -/
theorem left_out_of_spared {address : IpAddr} (spared : host.Spares address) {network : IpNetwork}
    (inside : network.contains address = true) :
    host.isProtected network = .ok true ∨ host.defense.isNoBlockNetwork network = true := by
  have meets {list : List IpNetwork} (holds : ∃ other ∈ list, other.contains address = true) :
      (list.any fun other => networksOverlap other network) = true := by
    obtain ⟨other, member, contains⟩ := holds
    exact List.any_eq_true.mpr ⟨other, member, networksOverlap_of_contains contains inside⟩
  rcases spared with guarded | shared | home
  · left
    rw [isProtected, Defense.isProtected, if_pos (meets guarded)]
  · right
    exact meets shared
  · left
    rw [isProtected, Defense.isProtected]
    split
    · rfl
    · have homes : ∃ other ∈ host.localAddresses.map hostNetwork,
          other.contains address = true := by
        obtain ⟨address', member, contains⟩ := home
        exact ⟨hostNetwork address', List.mem_map_of_mem member, contains⟩
      show Except.ok _ = Except.ok true
      rw [meets homes]

/-- No membership of a plan covers a packet from a spared address. -/
theorem not_covers_of_spared {leases : List Lease} {plan : Plan}
    (planned : host.plan leases = .ok plan) {packet : Packet} (spared : host.Spares packet.source)
    {membership : Membership} (member : membership ∈ plan.memberships) :
    membership.covers packet = false := by
  obtain ⟨lease, -, unprotected, unshared, built⟩ := exists_lease_of_mem_plan planned member
  rw [← Defense.membership_network built] at unprotected unshared
  rw [Bool.eq_false_iff]
  intro covers
  rw [Membership.covers_eq, Bool.and_eq_true] at covers
  rcases left_out_of_spared spared covers.1 with guarded | shared
  · exact nomatch guarded.symm.trans unprotected
  · exact nomatch shared.symm.trans unshared

end Host

/-! ### The ruleset of a reconcile -/

/-- A rule of a rendered ruleset that matches a packet comes from a membership that covers it. -/
theorem exists_covers_of_fires {table : String} {priority : Int} {memberships : List Membership}
    {ruleset : Ruleset} (renders : renderRuleset table priority memberships = .ok ruleset)
    {packet : Packet} {rule : Rule} (member : rule ∈ ruleset.input ++ ruleset.prerouting)
    (fires : rule.fires ruleset.sets packet = true) :
    ∃ membership ∈ memberships, membership.covers packet = true := by
  obtain ⟨_, -, renders⟩ := Transaction.bind_eq_ok_iff.mp renders
  obtain ⟨normalized, normalizes, same⟩ := Transaction.bind_eq_ok_iff.mp renders
  obtain rfl := Except.ok.inj same
  obtain ⟨verdict, covered⟩ := coveredBy_of_fires table priority normalized packet member fires
  obtain ⟨membership, given, -, covers⟩ := coveredBy_of_normalized normalizes covered
  exact ⟨membership, given, covers⟩

/-- `reconcile` of `defense_maintenance.rs` from the reading of the leases up to the ruleset that
`nft` is given. -/
def Host.reconcile (host : Host) (store : Store) (now : Nat) : Except Error (Option Ruleset) := do
  let (store, _) ← store.beginReconcile now
  let leases ← store.activeLeases now
  let plan ← host.plan leases
  host.firewall.reconcile plan.memberships

theorem Host.reconcile_eq_some {host : Host} {store : Store} {now : Nat} {ruleset : Ruleset}
    (installs : host.reconcile store now = .ok (some ruleset)) :
    ∃ leases plan, host.plan leases = .ok plan ∧
      renderRuleset host.firewall.table host.firewall.priority plan.memberships = .ok ruleset := by
  obtain ⟨⟨next, count⟩, -, installs⟩ := Transaction.bind_eq_ok_iff.mp installs
  obtain ⟨leases, -, installs⟩ := Transaction.bind_eq_ok_iff.mp installs
  obtain ⟨plan, planned, answer⟩ := Transaction.bind_eq_ok_iff.mp installs
  exact ⟨leases, plan, planned, (reconcile_eq_some_iff.mp answer).2⟩

/-- Whatever the store holds, no rule of the ruleset that a reconcile installs matches a packet
from a protected network, from a shared one or from an address of the host. -/
theorem reconcile_spares (host : Host) (store : Store) (now : Nat) (ruleset : Ruleset)
    (installs : host.reconcile store now = .ok (some ruleset)) (packet : Packet)
    (spared : host.Spares packet.source) :
    ∀ rule ∈ ruleset.input ++ ruleset.prerouting, rule.fires ruleset.sets packet = false := by
  intro rule member
  obtain ⟨leases, plan, planned, renders⟩ := Host.reconcile_eq_some installs
  rw [Bool.eq_false_iff]
  intro fires
  obtain ⟨membership, listed, covers⟩ := exists_covers_of_fires renders member fires
  rw [Host.not_covers_of_spared planned spared listed] at covers
  exact nomatch covers

/-- A host that protects `192.0.2.128/25`. -/
def guardedHost : Host :=
  { bareHost with
    defense := { bareHost.defense with protectedNetworks := [ipv4Network 0xC0000280#32 25] } }

/-- A ban of `192.0.2.77/24`, written with host bits and wider than what is protected, and one
of `198.51.100.0/24`. -/
def earlierBans : Store :=
  StoreCall.run [.manualBlock (ipv4Network 0xC000024D#32 24) .dropAll 100 none,
    .manualBlock (ipv4Network 0xC6336400#32 24) .dropAll 110 none]

theorem reconcile_spares_protected_half :
    ∃ ruleset, guardedHost.reconcile earlierBans 150 = .ok (some ruleset) ∧
      guardedHost.Spares (.v4 0xC0000281#32) ∧
      (∀ rule ∈ ruleset.input ++ ruleset.prerouting,
        rule.fires ruleset.sets ⟨.v4 0xC0000281#32, .tcp, 22⟩ = false) ∧
      ∃ rule ∈ ruleset.input, rule.fires ruleset.sets ⟨.v4 0xC6336401#32, .tcp, 22⟩ = true := by
  refine ⟨_, rfl, by decide, ?_, by decide⟩
  exact reconcile_spares guardedHost earlierBans 150 _ rfl ⟨.v4 0xC0000281#32, .tcp, 22⟩ (by decide)

end Bagel
