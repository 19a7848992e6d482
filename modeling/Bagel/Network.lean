/-
This file models the addresses and networks the runtime works with: `IpAddr` of
the standard library and `IpNetwork` of the `ipnetwork` crate, with the two
operations the runtime uses on them, `contains` and the overlap test of
`firewall.rs`. A network keeps the address it was written with, host bits
included, because the store and the ruleset keep its text.
-/

import Bagel.Library.Cidr

namespace Bagel

inductive IpAddr where
  | v4 (address : BitVec 32)
  | v6 (address : BitVec 128)
  deriving DecidableEq

inductive IpNetwork where
  | v4 (block : Cidr.Block 32)
  | v6 (block : Cidr.Block 128)
  deriving DecidableEq

namespace IpNetwork

/-- `IpNetwork::contains`: an address of the other family is never inside. -/
def contains : IpNetwork → IpAddr → Bool
  | v4 block, .v4 address => block.contains address
  | v6 block, .v6 address => block.contains address
  | _, _ => false

/-- `IpNetwork::ip`: the address the network is written with. -/
def ip : IpNetwork → IpAddr
  | v4 block => .v4 block.address
  | v6 block => .v6 block.address

def isIpv4 : IpNetwork → Bool
  | v4 _ => true
  | v6 _ => false

/-- `IpNetwork::prefix`. -/
def prefixLength : IpNetwork → Nat
  | v4 block => block.length
  | v6 block => block.length

theorem contains_v4_iff {block : Cidr.Block 32} {address : IpAddr} :
    (v4 block).contains address = true ↔
      ∃ point, address = .v4 point ∧ block.contains point = true := by
  cases address <;> simp [contains]

theorem contains_v6_iff {block : Cidr.Block 128} {address : IpAddr} :
    (v6 block).contains address = true ↔
      ∃ point, address = .v6 point ∧ block.contains point = true := by
  cases address <;> simp [contains]

end IpNetwork

/-! ### Display -/

/-- The four bytes of an IPv4 address in decimal. -/
def dottedQuad (address : BitVec 32) : String :=
  ".".intercalate ([24, 16, 8, 0].map fun start => toString (address.extractLsb' start 8).toNat)

/-- The eight 16-bit segments of an IPv6 address. -/
def segments (address : BitVec 128) : List Nat :=
  [112, 96, 80, 64, 48, 32, 16, 0].map fun start => (address.extractLsb' start 16).toNat

/-- The first longest run of zero segments, as its start and its length. `position` counts
the segments already seen, `current` is the run that ends there and `longest` the best one
so far. -/
def longestZeroRun (position : Nat) (current longest : Nat × Nat) : List Nat → Nat × Nat
  | [] => longest
  | segment :: rest =>
    if segment = 0 then
      let current := if current.2 = 0 then (position, 1) else (current.1, current.2 + 1)
      longestZeroRun (position + 1) current (if longest.2 < current.2 then current else longest)
        rest
    else longestZeroRun (position + 1) (0, 0) longest rest

def hexSegments (values : List Nat) : String :=
  ":".intercalate (values.map fun value => String.ofList (Nat.toDigits 16 value))

/-- `Ipv6Addr` as the standard library prints it: an IPv4-mapped address keeps its dotted
quad, and the first longest run of two or more zero segments is left out. -/
def colonHex (address : BitVec 128) : String :=
  if address.extractLsb' 32 96 = 0xffff#96 then
    "::ffff:" ++ dottedQuad (address.extractLsb' 0 32)
  else
    let values := segments address
    let run := longestZeroRun 0 (0, 0) (0, 0) values
    if 1 < run.2 then
      hexSegments (values.take run.1) ++ "::" ++ hexSegments (values.drop (run.1 + run.2))
    else hexSegments values

/-- The text of a network, as `IpNetwork` prints it. -/
def IpNetwork.text : IpNetwork → String
  | v4 block => dottedQuad block.address ++ "/" ++ toString block.length
  | v6 block => colonHex block.address ++ "/" ++ toString block.length

/-! ### The overlap test -/

/-- `networks_overlap` of `firewall.rs`. -/
def networksOverlap (left right : IpNetwork) : Bool :=
  if left.isIpv4 != right.isIpv4 then false
  else left.contains right.ip || right.contains left.ip

/-- `host_network` of `defense.rs`: the network of one address. -/
def hostNetwork : IpAddr → IpNetwork
  | .v4 address => .v4 (Cidr.Block.single address)
  | .v6 address => .v6 (Cidr.Block.single address)

/-- Two networks overlap exactly when some address belongs to both. -/
theorem networksOverlap_eq_true_iff (left right : IpNetwork) :
    networksOverlap left right = true ↔
      ∃ address, left.contains address = true ∧ right.contains address = true := by
  cases left with
  | v4 leftBlock =>
    cases right with
    | v4 rightBlock =>
      simp only [networksOverlap, IpNetwork.isIpv4, IpNetwork.ip, IpNetwork.contains,
        bne_self_eq_false, Bool.false_eq_true, if_false, Bool.or_eq_true,
        Cidr.Block.contains_address_or_iff]
      constructor
      · rintro ⟨point, inLeft, inRight⟩
        exact ⟨.v4 point, inLeft, inRight⟩
      · rintro ⟨address, inLeft, inRight⟩
        obtain ⟨point, rfl, inLeft⟩ := IpNetwork.contains_v4_iff.mp inLeft
        exact ⟨point, inLeft, inRight⟩
    | v6 rightBlock =>
      simp only [networksOverlap, IpNetwork.isIpv4, IpNetwork.contains_v4_iff,
        IpNetwork.contains_v6_iff]
      simp
  | v6 leftBlock =>
    cases right with
    | v4 rightBlock =>
      simp only [networksOverlap, IpNetwork.isIpv4, IpNetwork.contains_v4_iff,
        IpNetwork.contains_v6_iff]
      simp
    | v6 rightBlock =>
      simp only [networksOverlap, IpNetwork.isIpv4, IpNetwork.ip, IpNetwork.contains,
        bne_self_eq_false, Bool.false_eq_true, if_false, Bool.or_eq_true,
        Cidr.Block.contains_address_or_iff]
      constructor
      · rintro ⟨point, inLeft, inRight⟩
        exact ⟨.v6 point, inLeft, inRight⟩
      · rintro ⟨address, inLeft, inRight⟩
        obtain ⟨point, rfl, inLeft⟩ := IpNetwork.contains_v6_iff.mp inLeft
        exact ⟨point, inLeft, inRight⟩

theorem networksOverlap_of_contains {left right : IpNetwork} {address : IpAddr}
    (inLeft : left.contains address = true) (inRight : right.contains address = true) :
    networksOverlap left right = true :=
  (networksOverlap_eq_true_iff left right).mpr ⟨address, inLeft, inRight⟩

theorem networksOverlap_comm (left right : IpNetwork) :
    networksOverlap left right = networksOverlap right left := by
  rw [Bool.eq_iff_iff, networksOverlap_eq_true_iff, networksOverlap_eq_true_iff]
  exact exists_congr fun _ => and_comm

/-- The overlap test is exact and symmetric: of any two networks, with host bits or without,
looking at the two addresses that they are written with decides whether they share one. -/
theorem networksOverlap_exact (left right : IpNetwork) :
    (networksOverlap left right = true ↔
      ∃ address, left.contains address = true ∧ right.contains address = true) ∧
    networksOverlap left right = networksOverlap right left :=
  ⟨networksOverlap_eq_true_iff left right, networksOverlap_comm left right⟩

/-- Of two overlapping networks, the one with the shorter prefix contains the other. -/
theorem contains_of_overlap {outer inner : IpNetwork}
    (overlap : networksOverlap outer inner = true)
    (shorter : outer.prefixLength ≤ inner.prefixLength) {address : IpAddr}
    (member : inner.contains address = true) : outer.contains address = true := by
  obtain ⟨shared, inOuter, inInner⟩ := (networksOverlap_eq_true_iff outer inner).mp overlap
  cases outer with
  | v4 outerBlock =>
    obtain ⟨point, rfl, inOuter⟩ := IpNetwork.contains_v4_iff.mp inOuter
    cases inner with
    | v4 innerBlock =>
      obtain ⟨other, rfl, member⟩ := IpNetwork.contains_v4_iff.mp member
      exact Cidr.Block.contains_of_length_le shorter inOuter inInner member
    | v6 innerBlock => simp [IpNetwork.contains] at inInner
  | v6 outerBlock =>
    obtain ⟨point, rfl, inOuter⟩ := IpNetwork.contains_v6_iff.mp inOuter
    cases inner with
    | v4 innerBlock => simp [IpNetwork.contains] at inInner
    | v6 innerBlock =>
      obtain ⟨other, rfl, member⟩ := IpNetwork.contains_v6_iff.mp member
      exact Cidr.Block.contains_of_length_le shorter inOuter inInner member

/-- What overlaps a network overlaps every network around it. -/
theorem networksOverlap_of_inner {outer inner other : IpNetwork}
    (overlap : networksOverlap outer inner = true)
    (shorter : outer.prefixLength ≤ inner.prefixLength)
    (meets : networksOverlap other inner = true) : networksOverlap other outer = true := by
  obtain ⟨address, inOther, inInner⟩ := (networksOverlap_eq_true_iff other inner).mp meets
  exact networksOverlap_of_contains inOther (contains_of_overlap overlap shorter inInner)

end Bagel
