/-
This file proves that no two bans overlap: in every reachable store, two automatic
leases of one policy and network that still stand cover disjoint spans of time, and a
network has at most one manual lease that stands.

Times may go back between calls, so the leases of a network need not be ordered by
their creation. What the table keeps instead is an order of arrival: a lease is
granted only when every standing lease of its policy and network has run out by the
time the new one starts.
-/

import Bagel.StoreCalls
import Mathlib.Data.Set.Lattice
import Mathlib.Order.CompletePartialOrder

namespace Bagel

namespace LeaseRow

/-- The times from the creation of a lease up to its expiry, or for ever. -/
def span (row : LeaseRow) : Set Nat :=
  { time | row.createdAt ≤ time ∧ ∀ expiry, row.expiresAt = some expiry → time < expiry }

/-- Two automatic leases that ban the same network by the same policy. -/
def SameBan (first second : LeaseRow) : Prop :=
  first.manual = false ∧ second.manual = false ∧ first.policy = second.policy ∧
    first.network = second.network

/-- Two manual leases of one network. -/
def SameManual (first second : LeaseRow) : Prop :=
  first.manual = true ∧ second.manual = true ∧ first.network = second.network

/-- An earlier and a later row of the lease table do not overlap while both stand: the
earlier ban has run out when the later one starts, and manual bans are of different
networks. -/
def Apart (earlier later : LeaseRow) : Prop :=
  earlier.standing = true → later.standing = true →
    (SameBan earlier later → ∃ expiry, earlier.expiresAt = some expiry ∧
      expiry ≤ later.createdAt) ∧
    ¬ SameManual earlier later

theorem Apart.continues {earlier later newEarlier newLater : LeaseRow}
    (apart : Apart earlier later) (first : Continues earlier newEarlier)
    (second : Continues later newLater) : Apart newEarlier newLater := by
  intro firstStands secondStands
  have before := apart (first.standing firstStands) (second.standing secondStands)
  simp only [SameBan, SameManual, first.manual, second.manual, first.policy, second.policy,
    first.network, second.network, first.expiresAt, second.createdAt]
  exact before

theorem Apart.disjoint_span {earlier later : LeaseRow} (apart : Apart earlier later)
    (earlierStands : earlier.standing = true) (laterStands : later.standing = true)
    (same : SameBan earlier later) : Disjoint earlier.span later.span := by
  obtain ⟨expiry, expires, passed⟩ := (apart earlierStands laterStands).1 same
  rw [Set.disjoint_left]
  intro time during again
  have early : time < expiry := during.2 expiry expires
  have late : later.createdAt ≤ time := again.1
  omega

end LeaseRow

namespace Store

/-- The standing leases of a store do not overlap. -/
def LeasesApart (store : Store) : Prop :=
  store.leases.Pairwise LeaseRow.Apart

/-- Ending or marking leases keeps the others apart. -/
theorem leasesApart_update {store : Store} {hit : LeaseRow → Bool} {change : LeaseRow → LeaseRow}
    (continues : ∀ row, hit row = true → row.Continues (change row)) (apart : store.LeasesApart) :
    (Table.update hit change store.leases).Pairwise LeaseRow.Apart := by
  have kept (row : LeaseRow) : row.Continues (if hit row then change row else row) := by
    split
    · next chosen => exact continues row chosen
    · exact .refl row
  exact List.pairwise_map.mpr (apart.imp fun related => related.continues (kept _) (kept _))

/-- An offense answered with a ban met no lease in force, so every standing lease of its
policy and network had run out. -/
theorem OffenseStep.leasesApart {store next : Store} {input : EventInput} {offense : OffenseInput}
    {lease : Option Lease} (step : OffenseStep store input offense next lease)
    (apart : store.LeasesApart) : next.LeasesApart := by
  cases step with
  | absorbed active => exact apart
  | counted inactive few => exact apart
  | banned inactive enough fits =>
    refine List.pairwise_append.mpr ⟨apart, List.pairwise_singleton _ _, ?_⟩
    intro row member new single
    obtain rfl := List.mem_singleton.mp single
    intro stands _
    refine ⟨fun same => ?_, fun manual => Bool.false_ne_true manual.2.1⟩
    have lapsed : row.active (input.timeOf offense) = false := by
      have absent := List.any_eq_false.mp inactive row member
      have samePolicy : row.policy = offense.policy := same.2.2.1
      have sameNetwork : row.network = offense.network := same.2.2.2
      simpa [samePolicy, sameNetwork] using absent
    rw [LeaseRow.active, stands, Bool.true_and, LeaseRow.unexpired] at lapsed
    cases expires : row.expiresAt with
    | none => exact absurd lapsed (by simp [expires])
    | some expiry =>
      rw [expires] at lapsed
      have passed : expiry ≤ input.timeOf offense := by simpa using lapsed
      exact ⟨expiry, rfl, passed⟩

/-- A manual ban revokes the standing manual leases of its network first. -/
theorem leasesApart_manualBlock {store next : Store} {network : IpNetwork} {action : Action}
    {now : Nat} {durationSecs : Option Nat} {lease : Lease}
    (blocked : store.manualBlock network action now durationSecs = .ok (next, lease))
    (apart : store.LeasesApart) : next.LeasesApart := by
  obtain ⟨-, granted, rfl⟩ := manualBlock_ok blocked
  refine List.pairwise_append.mpr ⟨?_, List.pairwise_singleton _ _, ?_⟩
  · exact leasesApart_update (fun row _ => row.continues_ended _ _ (by simp)) apart
  · intro row member new single
    obtain rfl := List.mem_singleton.mp single
    obtain ⟨old, -, rfl⟩ := Table.mem_update.mp member
    intro stands _
    refine ⟨fun same => absurd same.2.1 (by simp [granted]), fun same => ?_⟩
    -- A standing manual lease of the network would just have been revoked.
    split at stands
    · exact absurd stands (by simp [LeaseRow.standing])
    · next spared =>
      rw [if_neg spared] at same
      refine spared ?_
      have sameNetwork : old.network = network := by
        have := same.2.2
        rw [this, granted]
      simp [same.1, sameNetwork, stands]

/-- Every automatic lease was granted to an offense. -/
def LeasesGranted (store : Store) : Prop :=
  ∀ row ∈ store.leases, row.manual = false →
    ∃ grant ∈ store.granted, LeaseRow.Continues ⟨grant.lease, none, none⟩ row

theorem leasesGranted_update {store : Store} {hit : LeaseRow → Bool}
    {change : LeaseRow → LeaseRow}
    (continues : ∀ row, hit row = true → row.Continues (change row))
    (granted : store.LeasesGranted) :
    { store with leases := Table.update hit change store.leases }.LeasesGranted := by
  intro row member automatic
  obtain ⟨old, present, rfl⟩ := Table.mem_update.mp member
  split at automatic
  · next chosen =>
    have kept := continues old chosen
    obtain ⟨grant, included, since⟩ := granted old present (kept.manual.symm.trans automatic)
    exact ⟨grant, included, by rw [if_pos chosen]; exact since.trans kept⟩
  · next spared =>
    rw [if_neg spared]
    exact granted old present automatic

theorem leasesGranted_manualBlock {store next : Store} {network : IpNetwork} {action : Action}
    {now : Nat} {durationSecs : Option Nat} {lease : Lease}
    (blocked : store.manualBlock network action now durationSecs = .ok (next, lease))
    (granted : store.LeasesGranted) : next.LeasesGranted := by
  obtain ⟨-, terms, rfl⟩ := manualBlock_ok blocked
  intro row member automatic
  rcases List.mem_append.mp member with old | new
  · exact leasesGranted_update (fun row _ => row.continues_ended _ _ (by simp)) granted row old
      automatic
  · obtain rfl := List.mem_singleton.mp new
    exact absurd automatic (by simp [terms])

theorem OffenseStep.leasesGranted {store next : Store} {input : EventInput}
    {offense : OffenseInput} {lease : Option Lease}
    (step : OffenseStep store input offense next lease)
    (granted : store.LeasesGranted) : next.LeasesGranted := by
  cases step with
  | absorbed active => exact granted
  | counted inactive few => exact granted
  | banned inactive enough fits =>
    intro row member automatic
    rcases List.mem_append.mp member with old | new
    · obtain ⟨grant, included, since⟩ := granted row old automatic
      exact ⟨grant, List.mem_append_left _ included, since⟩
    · obtain rfl := List.mem_singleton.mp new
      exact ⟨_, List.mem_append_right _ (List.mem_singleton_self _), .refl _⟩

end Store

/-- In every reachable store, standing automatic leases of one policy and network cover
disjoint spans of time, and no network has two standing manual leases. -/
theorem no_double_ban (calls : List StoreCall) :
    (StoreCall.run calls).leases.Pairwise fun first second =>
      first.standing = true → second.standing = true →
        (LeaseRow.SameBan first second → Disjoint first.span second.span) ∧
        ¬ LeaseRow.SameManual first second := by
  have apart : (StoreCall.run calls).LeasesApart := by
    refine Transaction.foldl_preserves calls List.Pairwise.nil fun call _ store => ?_
    refine StoreCall.execute_preserves (fun _ _ _ => id) (fun _ _ => id) ?_ ?_ ?_ call ?_
    · exact fun store hit change continues => Store.leasesApart_update continues
    · exact fun store hit apart => apart.filter _
    · exact fun _ _ _ _ _ _ _ blocked => Store.leasesApart_manualBlock blocked
    · exact fun _ _ _ _ _ _ _ _ _ step => step.leasesApart
  refine apart.imp fun related firstStands secondStands => ?_
  exact ⟨related.disjoint_span firstStands secondStands, (related firstStands secondStands).2⟩

/-- Every automatic lease of a reachable store answers an offense: it is in the history of
grants, on the terms it was granted on. -/
theorem exists_grant_of_lease (calls : List StoreCall) {row : LeaseRow}
    (member : row ∈ (StoreCall.run calls).leases) (automatic : row.manual = false) :
    ∃ grant ∈ (StoreCall.run calls).granted, LeaseRow.Continues ⟨grant.lease, none, none⟩ row := by
  have granted : (StoreCall.run calls).LeasesGranted := by
    refine Transaction.foldl_preserves calls (by simp [Store.LeasesGranted, Store.empty])
      fun call _ store => ?_
    refine StoreCall.execute_preserves (fun _ _ _ => id) (fun _ _ => id) ?_ ?_ ?_ call ?_
    · exact fun store hit change continues => Store.leasesGranted_update continues
    · exact fun store hit granted row member => granted row (Table.mem_delete.mp member).1
    · exact fun _ _ _ _ _ _ _ blocked => Store.leasesGranted_manualBlock blocked
    · exact fun _ _ _ _ _ _ _ _ _ step => step.leasesGranted
  exact granted row member automatic

end Bagel
