/-
This file settles what the source network of an IPv4 client is when its address reaches the
server in one of two forms: as it is, or within IPv6 where the listener takes both families.

No place turns the second form into the first. The network of the second form is the /64 that
all such addresses share, so that it tells no two clients apart and is never the network of the
first form. A list of proxies knows the two forms by different networks.
-/

import Bagel.Bindings

namespace Bagel

/-- The forms in which a socket reports the address of an IPv4 client. -/
inductive PeerForm where
  | plain
  | mapped
  deriving DecidableEq

/-- `Ipv4Addr::to_ipv6_mapped` -/
def toIpv6Mapped (address : BitVec 32) : BitVec 128 := 0xffff#96 ++ address

/-- The address of a peer as the socket reports it. -/
def PeerForm.peer : PeerForm → BitVec 32 → IpAddr
  | plain, address => .v4 address
  | mapped, address => .v6 (toIpv6Mapped address)

/-- A request of a client, with its peer as `serve_stream` passes it on where no header of the
PROXY protocol was read. -/
def InboundRequest.ofClient (request : InboundRequest) (form : PeerForm) (address : BitVec 32) :
    InboundRequest :=
  { request with peer := form.peer address, connection := some ⟨none⟩ }

/-- A client that connects directly, without the header that a proxy would write. -/
def InboundRequest.Direct (request : InboundRequest) (policy : ClientIpPolicy) : Prop :=
  ∀ name, policy.header = some name → valuesOf request.headers name = []

/-- The address that is resolved for a client is that of its peer. -/
theorem clientIp_ofClient {request : InboundRequest} {policy : ClientIpPolicy}
    (direct : request.Direct policy) (form : PeerForm) (address : BitVec 32) :
    (request.ofClient form address).clientIp policy request.headers = form.peer address := by
  cases named : policy.header with
  | none =>
    unfold InboundRequest.clientIp
    rw [named]
    exact policy.resolve_none _
  | some name => exact InboundRequest.clientIp_of_no_values rfl named (direct name named)

/-- The network of a client as its requests show it. -/
def sourceNetwork (request : InboundRequest) (policy : ClientIpPolicy) (form : PeerForm)
    (address : BitVec 32) : SourceNetwork :=
  .fromIp ((request.ofClient form address).clientIp policy request.headers)

/-- Two clients are told apart in both forms, and each of them is one client in both. -/
structure SeparatesClients (request : InboundRequest) (policy : ClientIpPolicy)
    (trusted : TrustedProxies) (address other : BitVec 32) : Prop where
  apart : ∀ form, sourceNetwork request policy form address ≠
    sourceNetwork request policy form other
  together : ∀ client ∈ [address, other],
    sourceNetwork request policy .plain client = sourceNetwork request policy .mapped client
  contained : ∀ client ∈ [address, other],
    trusted.contains (PeerForm.plain.peer client) = trusted.contains (PeerForm.mapped.peer client)

/-! ### The network of a form -/

/-- All mapped addresses are in one /64. -/
theorem fromIp_mapped (address : BitVec 32) :
    SourceNetwork.fromIp (PeerForm.mapped.peer address) = .v6 0#64 := by
  show SourceNetwork.v6 ((toIpv6Mapped address).extractLsb' 64 64) = _
  have bounded := address.isLt
  have value : (toIpv6Mapped address).toNat = 0xffff * 2 ^ 32 + address.toNat := by
    rw [toIpv6Mapped, BitVec.toNat_append, ← Nat.shiftLeft_add_eq_or_of_lt bounded,
      Nat.shiftLeft_eq]
    rfl
  refine congrArg SourceNetwork.v6 (BitVec.eq_of_toNat_eq ?_)
  rw [BitVec.extractLsb'_toNat, Nat.shiftRight_eq_div_pow, value, BitVec.toNat_ofNat]
  omega

/-- A list knows a plain address by its IPv4 networks. -/
theorem contains_plain_iff (trusted : TrustedProxies) (address : BitVec 32) :
    trusted.contains (PeerForm.plain.peer address) = true ↔
      ∃ block, .v4 block ∈ trusted.networks ∧ block.contains address = true := by
  rw [TrustedProxies.contains, List.any_eq_true]
  constructor
  · rintro ⟨network, listed, inside⟩
    cases network with
    | v4 block => exact ⟨block, listed, inside⟩
    | v6 block => cases inside
  · rintro ⟨block, listed, inside⟩
    exact ⟨.v4 block, listed, inside⟩

/-- A list knows a mapped address by its IPv6 networks. -/
theorem contains_mapped_iff (trusted : TrustedProxies) (address : BitVec 32) :
    trusted.contains (PeerForm.mapped.peer address) = true ↔
      ∃ block, .v6 block ∈ trusted.networks ∧ block.contains (toIpv6Mapped address) = true := by
  rw [TrustedProxies.contains, List.any_eq_true]
  constructor
  · rintro ⟨network, listed, inside⟩
    cases network with
    | v4 block => cases inside
    | v6 block => exact ⟨block, listed, inside⟩
  · rintro ⟨block, listed, inside⟩
    exact ⟨.v6 block, listed, inside⟩

section

variable {request : InboundRequest} {policy : ClientIpPolicy} (direct : request.Direct policy)
include direct

theorem sourceNetwork_eq (form : PeerForm) (address : BitVec 32) :
    sourceNetwork request policy form address = .fromIp (form.peer address) := by
  rw [sourceNetwork, clientIp_ofClient direct]

theorem sourceNetwork_mapped (address : BitVec 32) :
    sourceNetwork request policy .mapped address = .v6 0#64 := by
  rw [sourceNetwork_eq direct, fromIp_mapped]

theorem sourceNetwork_plain (address : BitVec 32) :
    sourceNetwork request policy .plain address = .v4 (address.extractLsb' 8 24) :=
  sourceNetwork_eq direct .plain address

/-- Clients that come in the plain form are told apart. Those that come in the mapped form are
all one client, and none of them is the client that it is in the plain form. So there are no two
clients for which everything is as it should be. -/
theorem sourceNetworks_of_forms (trusted : TrustedProxies) {address other : BitVec 32}
    (different : address.extractLsb' 8 24 ≠ other.extractLsb' 8 24) :
    ¬ SeparatesClients request policy trusted address other ∧
      sourceNetwork request policy .plain address ≠ sourceNetwork request policy .plain other ∧
      (∀ first second, sourceNetwork request policy .mapped first =
        sourceNetwork request policy .mapped second) ∧
      (∀ client, sourceNetwork request policy .plain client ≠
        sourceNetwork request policy .mapped client) ∧
      (∀ client, trusted.contains (PeerForm.plain.peer client) =
          trusted.contains (PeerForm.mapped.peer client) ↔
        ((∃ block, .v4 block ∈ trusted.networks ∧ block.contains client = true) ↔
          ∃ block, .v6 block ∈ trusted.networks ∧
            block.contains (toIpv6Mapped client) = true)) := by
  have shared (first second : BitVec 32) : sourceNetwork request policy .mapped first =
      sourceNetwork request policy .mapped second := by
    rw [sourceNetwork_mapped direct, sourceNetwork_mapped direct]
  refine ⟨fun separates => separates.apart .mapped (shared address other), ?_, shared, ?_, ?_⟩
  · rw [sourceNetwork_plain direct, sourceNetwork_plain direct]
    exact fun same => different (SourceNetwork.v4.inj same)
  · intro client
    rw [sourceNetwork_plain direct, sourceNetwork_mapped direct]
    nofun
  · intro client
    rw [Bool.eq_iff_iff, contains_plain_iff, contains_mapped_iff]

end

namespace SampleForms

def request : InboundRequest where
  authority := some "example.com"
  headers := Multimap.empty
  peer := .v4 0#32
  connection := none
  stack := none

def policy : ClientIpPolicy := ⟨none, none⟩

theorem eight_le : 8 ≤ 32 := by decide

def trusted : TrustedProxies := ⟨[.v4 ⟨0x0a000000#32, 8, eight_le⟩]⟩

theorem direct : request.Direct policy := nofun

/-- Two clients of different networks have one key, and a listed proxy is not known. -/
theorem forms_of_two_clients :
    sourceNetwork request policy .mapped 0xcb007107#32 =
        sourceNetwork request policy .mapped 0x0a000001#32 ∧
      sourceNetwork request policy .plain 0x0a000001#32 ≠
        sourceNetwork request policy .mapped 0x0a000001#32 := by
  have different : (0xcb007107#32).extractLsb' 8 24 ≠ (0x0a000001#32).extractLsb' 8 24 := by
    decide
  obtain ⟨-, -, shared, apart, -⟩ := sourceNetworks_of_forms direct trusted different
  exact ⟨shared _ _, apart _⟩

/-- Neither the clients are told apart nor is the proxy known in its other form. -/
theorem not_separated :
    (0xcb007107#32).extractLsb' 8 24 ≠ (0x0a000001#32).extractLsb' 8 24 ∧
      ¬ SeparatesClients request policy trusted 0xcb007107#32 0x0a000001#32 ∧
      trusted.contains (PeerForm.plain.peer 0x0a000001#32) = true ∧
      trusted.contains (PeerForm.mapped.peer 0x0a000001#32) = false := by
  refine ⟨by decide, fun separates => separates.apart .mapped ?_, by decide, by decide⟩
  rw [sourceNetwork_mapped direct, sourceNetwork_mapped direct]

end SampleForms

end Bagel
