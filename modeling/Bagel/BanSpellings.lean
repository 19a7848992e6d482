/-
This file settles what the spelling of a network does to its bans.

A network column holds a text, and the statements compare texts. A network of one address has
one text, so that its bans are about the address. A larger network can be written with any of
its addresses in front, and then neither an unblock nor the windows and leases of an offense
find the rows of another spelling.
-/

import Bagel.AddressTexts
import Bagel.Enforceability
import Bagel.Maintenance

namespace Bagel

/-! ### Spellings -/

namespace IpNetwork

/-- Two networks with the same addresses. -/
def SameAddresses (left right : IpNetwork) : Prop :=
  ∀ address, left.contains address = right.contains address

/-- A network of one address. -/
def IsHost : IpNetwork → Prop
  | v4 block => block.length = 32
  | v6 block => block.length = 128

theorem slash_notMem {address : IpAddr} : '/' ∉ address.text.toList := by
  intro member
  rcases isAddressCharacter_text member with slash | slash | ⟨digit, small, same⟩
  · exact absurd slash (by decide)
  · exact absurd slash (by decide)
  · have never : ∀ digit : Fin 16, '/' ≠ digit.val.digitChar := by decide
    exact never ⟨digit, small⟩ same

/-- Rows that are compared by the text of their networks are compared by the networks. -/
theorem text_injective : Function.Injective text := by
  have parts (network : IpNetwork) : network.text.toList =
      network.ip.text.toList ++ '/' :: (toString network.prefixLength).toList := by
    have mark : "/".toList = ['/'] := rfl
    cases network with
    | v4 block =>
      rw [text, String.toList_append, String.toList_append, mark, List.append_assoc]
      rfl
    | v6 block =>
      rw [text, String.toList_append, String.toList_append, mark, List.append_assoc]
      rfl
  intro left right same
  have characters := congrArg String.toList same
  rw [parts, parts] at characters
  obtain ⟨addresses, lengths⟩ := Lines.append_mark_inj slash_notMem slash_notMem characters
  have address := IpAddr.text_injective (String.toList_inj.mp addresses)
  have length := Decimal.toString_inj (String.toList_inj.mp lengths)
  cases left with
  | v4 block =>
    cases right with
    | v4 block' =>
      obtain ⟨first, bits, fits⟩ := block
      obtain ⟨second, bits', fits'⟩ := block'
      cases address
      cases length
      rfl
    | v6 block' => cases address
  | v6 block =>
    cases right with
    | v4 block' => cases address
    | v6 block' =>
      obtain ⟨first, bits, fits⟩ := block
      obtain ⟨second, bits', fits'⟩ := block'
      cases address
      cases length
      rfl

/-- A network of one address has one spelling. -/
theorem eq_of_isHost {left right : IpNetwork} (host : left.IsHost)
    (same : left.SameAddresses right) : left = right := by
  cases left with
  | v4 block =>
    cases right with
    | v4 block' =>
      exact congrArg v4 (Cidr.Block.eq_of_single host fun point => same (.v4 point))
    | v6 block' =>
      have own := same (.v4 block.address)
      rw [contains, block.contains_address] at own
      cases own
  | v6 block =>
    cases right with
    | v4 block' =>
      have own := same (.v6 block.address)
      rw [contains, block.contains_address] at own
      cases own
    | v6 block' =>
      exact congrArg v6 (Cidr.Block.eq_of_single host fun point => same (.v6 point))

/-- A larger network has another one. -/
theorem exists_respelling {network : IpNetwork} (several : ¬ network.IsHost) :
    ∃ other, other ≠ network ∧ other.SameAddresses network := by
  cases network with
  | v4 block =>
    obtain ⟨other, different, alike⟩ :=
      block.exists_respelling (Nat.lt_of_le_of_ne block.length_le several)
    refine ⟨v4 other, fun same => different (congrArg Cidr.Block.address (v4.inj same)), ?_⟩
    intro address
    cases address with
    | v4 point => exact alike point
    | v6 point => rfl
  | v6 block =>
    obtain ⟨other, different, alike⟩ :=
      block.exists_respelling (Nat.lt_of_le_of_ne block.length_le several)
    refine ⟨v6 other, fun same => different (congrArg Cidr.Block.address (v6.inj same)), ?_⟩
    intro address
    cases address with
    | v4 point => rfl
    | v6 point => exact alike point

end IpNetwork

/-! ### What bans should not depend on -/

namespace Store

/-- A block of one spelling is ended by an unblock of the other: then no lease for these
addresses is in force any more. -/
def UnblockEnds (store : Store) (network other : IpNetwork) : Prop :=
  ∀ (action : Action) (time later : Nat) (durationSecs : Option Nat), time ≤ later →
    ∀ blocked lease, store.manualBlock network action time durationSecs = .ok (blocked, lease) →
      ∀ unblocked count, blocked.manualUnblock other later = .ok (unblocked, count) →
        ∀ row ∈ unblocked.leases, row.network.SameAddresses network →
          ∀ now, later ≤ now → row.active now = false

/-- An offense of either spelling meets the same leases, the same attempts and the same
history. -/
structure OffensesAlike (store : Store) (network other : IpNetwork) : Prop where
  absorbed : ∀ policy now,
    store.hasActiveLease policy network now = store.hasActiveLease policy other now
  counted : ∀ window : OffenseWindow,
    store.countAttempts { window with network } =
      store.countAttempts { window with network := other }
  escalated : ∀ policy overall historyStart,
    store.escalationCount policy network overall historyStart =
      store.escalationCount policy other overall historyStart

/-! ### Networks of one address -/

/-- With one spelling nothing is left to tell apart. -/
theorem unblockEnds_of_isHost {network other : IpNetwork} (host : network.IsHost)
    (same : network.SameAddresses other) (store : Store) : store.UnblockEnds network other := by
  intro action time later durationSecs order blocked lease _ unblocked count ended row member
    alike now reaches
  obtain ⟨-, rfl⟩ := manualUnblock_ok ended
  obtain ⟨before, -, rfl⟩ := Table.mem_update.mp member
  have spelled : before.network = other := by
    have kept : before.network.SameAddresses network := by
      split at alike
      · exact alike
      · exact alike
    rw [← IpNetwork.eq_of_isHost host fun address => (kept address).symm]
    exact IpNetwork.eq_of_isHost host same
  split
  · exact Bool.and_eq_false_iff.mpr (.inl rfl)
  · next missed =>
    have inactive : before.active later = false := by
      rw [spelled, beq_self_eq_true, Bool.true_and] at missed
      exact Bool.eq_false_of_not_eq_true missed
    by_contra active
    rw [active_of_le reaches (Bool.eq_true_of_not_eq_false active)] at inactive
    cases inactive

/-! ### Larger networks -/

/-- A block leaves the leases of other spellings as they are. -/
theorem mem_of_manualBlock {store blocked : Store} {network : IpNetwork} {action : Action}
    {now : Nat} {durationSecs : Option Nat} {lease : Lease}
    (succeeds : store.manualBlock network action now durationSecs = .ok (blocked, lease))
    {row : LeaseRow} (member : row ∈ store.leases) (different : row.network ≠ network) :
    row ∈ blocked.leases := by
  obtain ⟨-, -, rfl⟩ := manualBlock_ok succeeds
  refine List.mem_append_left _ (Table.mem_update.mpr ⟨row, member, if_neg ?_⟩)
  rw [beq_false_of_ne different, Bool.and_false]
  exact Bool.false_ne_true

theorem mem_of_manualUnblock {store unblocked : Store} {network : IpNetwork} {now count : Nat}
    (succeeds : store.manualUnblock network now = .ok (unblocked, count)) {row : LeaseRow}
    (member : row ∈ store.leases) (different : row.network ≠ network) :
    row ∈ unblocked.leases := by
  obtain ⟨-, rfl⟩ := manualUnblock_ok succeeds
  refine Table.mem_update.mpr ⟨row, member, if_neg ?_⟩
  rw [beq_false_of_ne different]
  exact Bool.false_ne_true

/-- A lease without an end. -/
def endless (store : Store) (network : IpNetwork) : Lease :=
  ⟨(store.withoutManual network 0).nextLeaseId, network, manualPolicy, .dropAll, 0, none, 0, true,
    .pending, none⟩

/-- A block that goes through. -/
theorem manualBlock_endless (store : Store) (network : IpNetwork) :
    store.manualBlock network .dropAll 0 none = .ok ({ store.withoutManual network 0 with
      leases := (store.withoutManual network 0).leases ++ [⟨store.endless network, none, none⟩] },
        store.endless network) := by
  have fits : sqlTime 0 = .ok 0 := rfl
  refine Transaction.bind_eq_ok_iff.mpr ⟨0, fits, ?_⟩
  exact insertLease_eq_ok_iff.mpr ⟨Nat.zero_le _, nofun, Nat.zero_le _, rfl, rfl⟩

theorem exists_manualUnblock (store : Store) (network : IpNetwork) :
    ∃ unblocked count, store.manualUnblock network 0 = .ok (unblocked, count) := by
  have fits : sqlTime 0 = .ok 0 := rfl
  rw [manualUnblock, fits]
  exact ⟨_, _, rfl⟩

/-- A lease of another spelling outlives the unblock. -/
theorem not_unblockEnds {store : Store} {network other : IpNetwork} {row : LeaseRow}
    (listed : row ∈ ({ store.withoutManual network 0 with
      leases := (store.withoutManual network 0).leases ++
        [⟨store.endless network, none, none⟩] } : Store).leases)
    (alike : row.network.SameAddresses network) (different : row.network ≠ other)
    (active : row.active 0 = true) : ¬ store.UnblockEnds network other := by
  intro ends
  obtain ⟨unblocked, count, ended⟩ := exists_manualUnblock { store.withoutManual network 0 with
    leases := (store.withoutManual network 0).leases ++
      [⟨store.endless network, none, none⟩] } other
  have inactive := ends .dropAll 0 0 none (Nat.le_refl 0) _ _ (manualBlock_endless store network)
    _ _ ended row (mem_of_manualUnblock ended listed different) alike 0 (Nat.le_refl 0)
  rw [active] at inactive
  cases inactive

/-- A network with several spellings is not unblocked in some reachable store. -/
theorem exists_not_unblockEnds {network other : IpNetwork} (several : ¬ network.IsHost) :
    ∃ calls, ¬ (StoreCall.run calls).UnblockEnds network other := by
  by_cases spelled : network = other
  · -- A third spelling was blocked before.
    subst spelled
    obtain ⟨third, different, alike⟩ := IpNetwork.exists_respelling several
    refine ⟨[.manualBlock third .dropAll 0 none], ?_⟩
    have blocked : Transaction.commit (Store.manualBlock · third .dropAll 0 none) Store.empty = _ :=
      Transaction.commit_ok (manualBlock_endless Store.empty third)
    have present : (⟨Store.empty.endless third, none, none⟩ : LeaseRow) ∈
        (StoreCall.run [.manualBlock third .dropAll 0 none]).leases := by
      show _ ∈ (Transaction.commit (Store.manualBlock · third .dropAll 0 none) Store.empty).leases
      rw [blocked]
      exact List.mem_append_right _ List.mem_cons_self
    exact not_unblockEnds (mem_of_manualBlock (manualBlock_endless _ network) present different)
      alike different rfl
  · refine ⟨[], not_unblockEnds (List.mem_append_right _ List.mem_cons_self) ?_ spelled rfl⟩
    exact fun address => rfl

/-- A store in which an offense of one network was banned. -/
def banOf (network : IpNetwork) : EventInput :=
  ⟨"sshd", "1", .journal "1" 0, 0, [{ sshOffense 0#32 0 with network, maxAttempts := 1 }]⟩

theorem exists_ban (network : IpNetwork) :
    ∃ row, (StoreCall.run [.processEvent (banOf network)]).leases = [row] ∧
      row.policy = "ssh" ∧ row.network = network ∧ row.active 0 = true := by
  let offense : OffenseInput := { sshOffense 0#32 0 with network, maxAttempts := 1 }
  let store := Store.empty.noteEvent (banOf network)
  have selected : ((banOf network).windowOf offense).selects
      (store.rowOf (banOf network) offense) = true := by
    show ("ssh" == "ssh" && network == network && !false && decide (0 - 10 ≤ 0) &&
      decide (0 ≤ 0) && _) = true
    rw [beq_self_eq_true network]
    rfl
  have enough : offense.maxAttempts ≤
      (store.record (banOf network) offense).countAttempts ((banOf network).windowOf offense) := by
    have rows : (store.record (banOf network) offense).offenses.filter
        ((banOf network).windowOf offense).selects = [store.rowOf (banOf network) offense] :=
      List.filter_cons_of_pos selected
    rw [countAttempts, rows]
    exact Nat.le_refl 1
  have step : OffenseStep store (banOf network) offense (store.ban (banOf network) offense)
      (some (store.leaseOf (banOf network) offense)) :=
    .banned rfl enough (Nat.zero_le _)
  have keyFree : store.KeyFree (banOf network) offense :=
    fun _ listed => absurd listed List.not_mem_nil
  have banned : store.applyOffense (banOf network) offense = .ok _ :=
    applyOffense_eq_ok_iff.mpr ⟨Nat.zero_le _, keyFree, step⟩
  have applied : store.applyOffenses (banOf network) [offense] =
      .ok (store.ban (banOf network) offense, [store.leaseOf (banOf network) offense]) := by
    rw [applyOffenses, banned]
    rfl
  have processed : Store.empty.processEvent (banOf network) = .ok _ :=
    applyEvent_eq_ok_iff.mpr ⟨Nat.zero_le _, .recorded rfl applied⟩
  have ran : Transaction.commit (Store.processEvent · (banOf network)) Store.empty = _ :=
    Transaction.commit_ok processed
  have prior : store.priorBans (banOf network) offense = 0 := rfl
  have active : LeaseRow.active ⟨store.leaseOf (banOf network) offense, none, none⟩ 0 = true := by
    rw [leaseOf, prior]
    rfl
  refine ⟨⟨store.leaseOf (banOf network) offense, none, none⟩, ?_, rfl, rfl, active⟩
  show (Transaction.commit (Store.processEvent · (banOf network)) Store.empty).leases = _
  rw [ran]
  rfl

/-- Offenses of two spellings meet the same rows of every reachable store only if the spellings
are one. -/
theorem eq_of_offensesAlike {network other : IpNetwork}
    (alike : ∀ calls, (StoreCall.run calls).OffensesAlike network other) : network = other := by
  obtain ⟨row, leases, policy, spelled, active⟩ := exists_ban network
  have met := (alike [.processEvent (banOf network)]).absorbed "ssh" 0
  have fits : sqlTime 0 = .ok 0 := rfl
  rw [hasActiveLease, hasActiveLease, fits, leases] at met
  have met := Except.ok.inj met
  rw [List.any_cons, List.any_cons, policy, spelled, active, beq_self_eq_true, beq_self_eq_true]
    at met
  by_contra different
  rw [beq_false_of_ne different] at met
  cases met

end Store

/-- A text without a slash is that of one address. -/
theorem isHost_of_address {crates : Crates} {raw : String} {network : IpNetwork}
    (parsed : parseNetwork crates raw = .ok network)
    (address : raw.toList.contains '/' = false) : network.IsHost := by
  rw [parseNetwork, address, if_neg Bool.false_ne_true] at parsed
  split at parsed
  · next address read =>
    rw [← Except.ok.inj parsed]
    cases address with
    | v4 address => exact rfl
    | v6 address => exact rfl
  · cases parsed

/-- For two texts of networks with the same addresses, a block of one is ended by an unblock of
the other and offenses of both are treated alike in every reachable store exactly if the network
is one address, as the text of an address is. Without the blocks, exactly if the texts are
spellings of one network value. -/
theorem bansBySet_iff {crates : Crates} {raw raw' : String} {network network' : IpNetwork}
    (parsed : parseNetwork crates raw = .ok network)
    (parsed' : parseNetwork crates raw' = .ok network')
    (same : network.SameAddresses network') :
    ((∀ calls, (StoreCall.run calls).UnblockEnds network network' ∧
        (StoreCall.run calls).OffensesAlike network network') ↔ network.IsHost) ∧
      (network.IsHost → ∀ store : Store,
        store.UnblockEnds network network' ∧ store.OffensesAlike network network') ∧
      ((∀ calls, (StoreCall.run calls).OffensesAlike network network') ↔ network = network') ∧
      (raw.toList.contains '/' = false ∨ raw'.toList.contains '/' = false → network.IsHost) := by
  have alike (store : Store) (spelled : network = network') :
      store.OffensesAlike network network' := by
    subst spelled
    exact ⟨fun _ _ => rfl, fun _ => rfl, fun _ _ _ => rfl⟩
  have every (host : network.IsHost) (store : Store) :
      store.UnblockEnds network network' ∧ store.OffensesAlike network network' :=
    ⟨Store.unblockEnds_of_isHost host same store, alike store (IpNetwork.eq_of_isHost host same)⟩
  refine ⟨⟨fun holds => ?_, fun host calls => every host _⟩, every,
    ⟨Store.eq_of_offensesAlike, fun spelled calls => alike _ spelled⟩, ?_⟩
  · by_contra several
    obtain ⟨calls, outlives⟩ := Store.exists_not_unblockEnds several
    exact outlives (holds calls).1
  · rintro (address | address)
    · exact isHost_of_address parsed address
    · have host := isHost_of_address parsed' address
      rwa [← IpNetwork.eq_of_isHost host fun point => (same point).symm]

namespace SampleSpellings

/-- The parsers of the crates, as far as they matter here. -/
def crates : Crates where
  regex _ := .ok []
  ipNetwork raw :=
    match Parts.splitOnce '/' raw.toList with
    | some (address, length) =>
      match parseIpv4 address, Parser.whole (Parser.number 10 3 256 true) length with
      | some address, some length =>
        if fits : length ≤ 32 then .ok (.v4 ⟨address, length, fits⟩) else .error "invalid prefix"
      | _, _ => .error "invalid address"
    | none => .error "invalid address"
  ipAddr raw := (parseIp raw.toList).elim (.error "invalid IP address syntax") .ok
  socketAddr _ := .error "invalid socket address syntax"

theorem eight_le : 8 ≤ 32 := by decide

def wide : IpNetwork := .v4 ⟨0x0a000000#32, 8, eight_le⟩

def wide' : IpNetwork := .v4 ⟨0x0a000007#32, 8, eight_le⟩

/-- An address and the address with its full prefix. -/
theorem bans_of_address :
    (StoreCall.run [.manualBlock wide .dropAll 0 none]).UnblockEnds
      (hostNetwork (.v4 0xcb007107#32)) (hostNetwork (.v4 0xcb007107#32)) := by
  have parsed : parseNetwork crates "203.0.113.7" = .ok (hostNetwork (.v4 0xcb007107#32)) := by
    decide
  have parsed' : parseNetwork crates "203.0.113.7/32" = .ok (hostNetwork (.v4 0xcb007107#32)) := by
    decide
  obtain ⟨-, every, -, host⟩ := bansBySet_iff parsed parsed' fun _ => rfl
  exact (every (host (.inl (by decide))) _).1

/-- A block of one spelling and an unblock of another one leave the network blocked, and an
offense does not meet the lease. -/
theorem block_outlives_unblock :
    parseNetwork crates "10.0.0.7/8" = .ok wide' ∧ parseNetwork crates "10.0.0.0/8" = .ok wide ∧
      wide'.SameAddresses wide ∧
      ((StoreCall.run [.manualBlock wide' .dropAll 0 none,
          .manualUnblock wide 0]).leases.any fun row => row.active 0) = true ∧
      (StoreCall.run [.manualBlock wide' .dropAll 0 none]).hasActiveLease manualPolicy wide' 0 =
        .ok true ∧
      (StoreCall.run [.manualBlock wide' .dropAll 0 none]).hasActiveLease manualPolicy wide 0 =
        .ok false := by
  refine ⟨by decide, by decide, fun address => ?_, by decide, by decide, by decide⟩
  cases address with
  | v4 point => rfl
  | v6 point => rfl

end SampleSpellings

end Bagel
