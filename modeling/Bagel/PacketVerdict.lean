/-
This file gives a rendered ruleset its meaning: what becomes of a packet that
arrives. The prerouting chain sees a packet first and its redirect rewrites the
destination port; the input chain then sees the rewritten packet, accepts what
comes from one of the host's own addresses, and otherwise applies its first
matching rule.

The rules are read through the sets they name. The main result of the file says
that the detour through the grouped scopes and the numbered sets loses nothing:
some rule of a kind matches a packet exactly when some membership of that kind
covers it.
-/

import Bagel.Firewall

namespace Bagel

structure Packet where
  source : IpAddr
  protocol : Protocol
  port : UInt16
  deriving DecidableEq

/-- A membership covers a packet of its network, its protocol and one of its ports. An
absent protocol and an empty port list restrict nothing. -/
def Membership.covers (membership : Membership) (packet : Packet) : Bool :=
  membership.network.contains packet.source &&
    (membership.scope.protocol.isNone || membership.scope.protocol == some packet.protocol) &&
    (membership.scope.ports.isEmpty || membership.scope.ports.contains packet.port)

/-! ### The meaning of a ruleset -/

/-- What the predicate that `port_predicate` prints tests. -/
def Scope.admits (scope : Scope) (packet : Packet) : Bool :=
  match scope.protocol with
  | none => true
  | some protocol =>
    packet.protocol == protocol && (scope.ports.isEmpty || scope.ports.contains packet.port)

def IpAddr.family : IpAddr → Family
  | v4 _ => .v4
  | v6 _ => .v6

/-- A rule matches a packet of its family whose source lies in the set it names. -/
def Rule.fires (sets : List Families) (rule : Rule) (packet : Packet) : Bool :=
  packet.source.family == rule.family &&
    (sets[rule.index]?.any fun families =>
      (families.elements rule.family).any fun network => network.contains packet.source) &&
    rule.scope.admits packet

inductive PacketVerdict where
  | accepted
  | dropped
  | rejected
  | redirected (target : UInt16)
  deriving DecidableEq

namespace Ruleset

/-- The input chain, with its policy to accept. -/
def inputVerdict (ruleset : Ruleset) (isLocal : IpAddr → Bool) (packet : Packet) :
    PacketVerdict :=
  if isLocal packet.source then .accepted
  else
    match ruleset.input.find? (fun rule => rule.fires ruleset.sets packet) with
    | some rule =>
      match rule.scope.verdict with
      | .drop => .dropped
      | .reject => .rejected
      | .redirect _ => .accepted
    | none => .accepted

/-- The prerouting chain: the port of the first matching redirect. -/
def redirectTarget (ruleset : Ruleset) (packet : Packet) : Option UInt16 :=
  match ruleset.prerouting.find? (fun rule => rule.fires ruleset.sets packet) with
  | some rule =>
    match rule.scope.verdict with
    | .redirect target => some target
    | _ => none
  | none => none

/-- Both chains in the order a packet meets them. -/
def verdict (ruleset : Ruleset) (isLocal : IpAddr → Bool) (packet : Packet) : PacketVerdict :=
  match ruleset.redirectTarget packet with
  | none => ruleset.inputVerdict isLocal packet
  | some target =>
    match ruleset.inputVerdict isLocal { packet with port := target } with
    | .accepted => .redirected target
    | refused => refused

end Ruleset

theorem Verdict.isRedirect_iff {verdict : Verdict} :
    verdict.isRedirect = true ↔ ∃ target, verdict = .redirect target := by
  cases verdict <;> simp [isRedirect]

/-! ### The orders agree with equality -/

instance : Std.LawfulEqOrd Protocol where
  compare_self := Nat.compare_eq_eq.mpr rfl
  eq_of_compare {first second} same := by
    have same : first.ctorIdx = second.ctorIdx := Std.LawfulEqOrd.eq_of_compare same
    cases first <;> cases second <;> first | rfl | exact absurd same (by decide)

instance : Std.LawfulEqOrd Verdict where
  compare_self := Nat.compare_eq_eq.mpr rfl
  eq_of_compare {first second} same := by
    have same : first.rank = second.rank := Std.LawfulEqOrd.eq_of_compare same
    cases first <;> cases second <;> simp only [Verdict.rank] at same <;>
      first | rfl | omega | exact congrArg _ (UInt16.toNat_inj.mp (by omega))

instance : Std.LawfulEqOrd Scope where
  compare_self := by
    intro scope
    show ((compare scope.protocol scope.protocol).then (compare scope.ports scope.ports)).then
      (compare scope.verdict scope.verdict) = .eq
    simp [Std.ReflOrd.compare_self]
  eq_of_compare {first second} same := by
    replace same : ((compare first.protocol second.protocol).then
      (compare first.ports second.ports)).then (compare first.verdict second.verdict) = .eq := same
    rw [Ordering.then_eq_eq, Ordering.then_eq_eq] at same
    obtain ⟨⟨protocol, ports⟩, verdict⟩ := same
    cases first
    cases second
    simp only [Scope.mk.injEq]
    exact ⟨Std.LawfulEqOrd.eq_of_compare protocol, Std.LawfulEqOrd.eq_of_compare ports,
      Std.LawfulEqOrd.eq_of_compare verdict⟩

theorem blockOrder_eq {width : Nat} {first second : Cidr.Block width}
    (same : (compare first.address.toNat second.address.toNat).then
      (compare first.length second.length) = .eq) : first = second := by
  rw [Ordering.then_eq_eq] at same
  obtain ⟨address, length⟩ := same
  cases first
  cases second
  simp only [Cidr.Block.mk.injEq]
  exact ⟨BitVec.eq_of_toNat_eq (Std.LawfulEqOrd.eq_of_compare address),
    Std.LawfulEqOrd.eq_of_compare length⟩

instance : Std.LawfulEqOrd IpNetwork where
  compare_self := by
    intro network
    cases network with
    | v4 block =>
      show (compare block.address.toNat block.address.toNat).then
        (compare block.length block.length) = .eq
      simp [Std.ReflOrd.compare_self]
    | v6 block =>
      show (compare block.address.toNat block.address.toNat).then
        (compare block.length block.length) = .eq
      simp [Std.ReflOrd.compare_self]
  eq_of_compare {first second} same := by
    cases first with
    | v4 firstBlock =>
      cases second with
      | v4 secondBlock => exact congrArg _ (blockOrder_eq same)
      | v6 secondBlock => exact absurd same (by simp [compare])
    | v6 firstBlock =>
      cases second with
      | v4 secondBlock => exact absurd same (by simp [compare])
      | v6 secondBlock => exact congrArg _ (blockOrder_eq same)

/-! ### Reading the rules through the sets -/

def IpNetwork.family : IpNetwork → Family
  | v4 _ => .v4
  | v6 _ => .v6

theorem IpNetwork.family_eq_of_contains {network : IpNetwork} {address : IpAddr}
    (member : network.contains address = true) : network.family = address.family := by
  cases network with
  | v4 block =>
    obtain ⟨point, rfl, _⟩ := IpNetwork.contains_v4_iff.mp member
    rfl
  | v6 block =>
    obtain ⟨point, rfl, _⟩ := IpNetwork.contains_v6_iff.mp member
    rfl

theorem Families.mem_elements_insert (inserted network : IpNetwork) (families : Families)
    (family : Family) :
    network ∈ (families.insert inserted).elements family ↔
      (network = inserted ∧ family = inserted.family) ∨ network ∈ families.elements family := by
  cases inserted <;> cases family <;>
    simp [Families.insert, Families.elements, IpNetwork.isIpv4, IpNetwork.family,
      Sorted.mem_insert]

/-- The grouped map holds a network under a scope exactly when a membership pairs them. -/
theorem exists_mem_groupScopes (memberships : List Membership) (scope : Scope)
    (network : IpNetwork) (family : Family) :
    (∃ entry ∈ groupScopes memberships,
        entry.1 = scope ∧ network ∈ entry.2.elements family) ↔
      ∃ membership ∈ memberships,
        membership.scope = scope ∧ membership.network = network ∧ network.family = family := by
  -- the loop starts from an empty map, so the statement is generalised over the map built so far
  have loop (grouped : List (Scope × Families)) :
      (∃ entry ∈ memberships.foldl (fun grouped membership =>
          Sorted.alter membership.scope ⟨[], []⟩ (Families.insert membership.network) grouped)
          grouped, entry.1 = scope ∧ network ∈ entry.2.elements family) ↔
        (∃ entry ∈ grouped, entry.1 = scope ∧ network ∈ entry.2.elements family) ∨
          ∃ membership ∈ memberships,
            membership.scope = scope ∧ membership.network = network ∧ network.family = family := by
    induction memberships generalizing grouped with
    | nil => simp
    | cons membership rest inductionHypothesis =>
      rw [List.foldl_cons, inductionHypothesis,
        Sorted.exists_mem_alter (fun families => network ∈ families.elements family)
          (network = membership.network ∧ family = membership.network.family)
          (fun families => Families.mem_elements_insert membership.network network families family)
          (by cases family <;> simp [Families.elements])]
      simp only [List.mem_cons, exists_eq_or_imp]
      constructor
      · rintro ((⟨same, rfl, rfl⟩ | member) | member)
        · exact Or.inr (Or.inl ⟨same, rfl, rfl⟩)
        · exact Or.inl member
        · exact Or.inr (Or.inr member)
      · rintro (member | ⟨same, rfl, rfl⟩ | member)
        · exact Or.inl (Or.inr member)
        · exact Or.inl (Or.inl ⟨same, rfl, rfl⟩)
        · exact Or.inr member
  rw [groupScopes, loop]
  simp

/-- A scope's predicate is its protocol and its ports, since a scope without a protocol has
no ports. -/
theorem Scope.admits_eq (scope : Scope) (packet : Packet) :
    scope.admits packet =
      ((scope.protocol.isNone || scope.protocol == some packet.protocol) &&
        (scope.ports.isEmpty || scope.ports.contains packet.port)) := by
  cases absent : scope.protocol with
  | none =>
    have unrestricted : scope.admits packet = true := by rw [Scope.admits, absent]
    rw [unrestricted, scope.unscoped absent]
    rfl
  | some protocol =>
    simp only [Scope.admits, absent, Option.isNone_some, Bool.false_or]
    have flipped : (packet.protocol == protocol) = (some protocol == some packet.protocol) := by
      rw [Bool.eq_iff_iff, beq_iff_eq, beq_iff_eq, Option.some_inj, eq_comm]
    rw [flipped]

theorem Membership.covers_eq (membership : Membership) (packet : Packet) :
    membership.covers packet =
      (membership.network.contains packet.source && membership.scope.admits packet) := by
  rw [Membership.covers, Scope.admits_eq, Bool.and_assoc]

/-- A rule of a wanted kind that matches a packet is the rule of a grouped scope whose set
holds the packet's source. -/
theorem exists_rulesWhere_fires (grouped : List (Scope × Families)) (wanted : Verdict → Bool)
    (packet : Packet) (also : Scope → Prop) :
    (∃ rule ∈ rulesWhere grouped wanted,
        rule.fires (grouped.map Prod.snd) packet = true ∧ also rule.scope) ↔
      ∃ entry ∈ grouped, wanted entry.1.verdict = true ∧ also entry.1 ∧
        entry.1.admits packet = true ∧
        ∃ network ∈ entry.2.elements packet.source.family,
          network.contains packet.source = true := by
  constructor
  · rintro ⟨rule, member, fires, holds⟩
    obtain ⟨⟨entry, index⟩, kept, ruleOf⟩ := List.mem_flatMap.mp member
    obtain ⟨placed, wants⟩ := List.mem_filter.mp kept
    have place : grouped[index]? = some entry := List.mk_mem_zipIdx_iff_getElem?.mp placed
    have shape : rule.index = index ∧ rule.scope = entry.1 := by
      rcases List.mem_cons.mp ruleOf with rfl | last
      · exact ⟨rfl, rfl⟩
      · rw [List.mem_singleton.mp last]
        exact ⟨rfl, rfl⟩
    simp only [Rule.fires, Bool.and_eq_true, beq_iff_eq, shape.1, List.getElem?_map, place,
      Option.map_some, Option.any_some, List.any_eq_true] at fires
    obtain ⟨⟨family, network, inSet, contains⟩, admits⟩ := fires
    rw [← family] at inSet
    rw [shape.2] at admits holds
    exact ⟨entry, List.mem_of_getElem? place, wants, holds, admits, network, inSet, contains⟩
  · rintro ⟨entry, member, wants, holds, admits, network, inSet, contains⟩
    obtain ⟨index, place⟩ := List.mem_iff_getElem?.mp member
    refine ⟨⟨index, packet.source.family, entry.1⟩, List.mem_flatMap.mpr ⟨(entry, index), ?_, ?_⟩,
      ?_, holds⟩
    · exact List.mem_filter.mpr ⟨List.mk_mem_zipIdx_iff_getElem?.mpr place, wants⟩
    · cases packet.source.family <;> simp [scopeRules]
    · simp only [Rule.fires, List.getElem?_map, place, Option.map_some, Option.any_some,
        beq_self_eq_true, Bool.true_and, Bool.and_eq_true, List.any_eq_true]
      exact ⟨⟨network, inSet, contains⟩, admits⟩

/-- Some rule of a kind matches a packet exactly when some membership of that kind covers
it. -/
theorem exists_rule_fires_iff (memberships : List Membership) (wanted : Verdict → Bool)
    (packet : Packet) (also : Scope → Prop) :
    (∃ rule ∈ rulesWhere (groupScopes memberships) wanted,
        rule.fires ((groupScopes memberships).map Prod.snd) packet = true ∧ also rule.scope) ↔
      ∃ membership ∈ memberships, wanted membership.scope.verdict = true ∧
        also membership.scope ∧ membership.covers packet = true := by
  rw [exists_rulesWhere_fires]
  constructor
  · rintro ⟨entry, member, wants, holds, admits, network, inSet, contains⟩
    obtain ⟨membership, given, scope, same, _⟩ :=
      (exists_mem_groupScopes memberships entry.1 network _).mp ⟨entry, member, rfl, inSet⟩
    refine ⟨membership, given, by rwa [scope], by rwa [scope], ?_⟩
    rw [Membership.covers_eq, scope, same, contains, admits]
    rfl
  · rintro ⟨membership, given, wants, holds, covers⟩
    rw [Membership.covers_eq, Bool.and_eq_true] at covers
    obtain ⟨entry, member, scope, inSet⟩ :=
      (exists_mem_groupScopes memberships membership.scope membership.network _).mpr
        ⟨membership, given, rfl, rfl, IpNetwork.family_eq_of_contains covers.1⟩
    exact ⟨entry, member, by rwa [scope], by rwa [scope], by rw [scope]; exact covers.2,
      membership.network, inSet, covers.1⟩

end Bagel
