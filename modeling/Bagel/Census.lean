/-
This file proves that the ratios of the fingerprint census are ratios. The census counts the
networks that present a claim, and those that present it with a fingerprint, over the current
generation and the one before. Every set and map stops growing at a cap, so a network may be
counted for the pair and not for the claim.

What each generation keeps is that the networks of a pair are among those of the claim, or that
the claim has reached its cap. Either way a pair has no more networks than its claim, and the
sums over the two generations inherit it.
-/

import Bagel.Challenge
import Bagel.Library.Machine
import Bagel.Visits

namespace Bagel

/-- `GENERATION`, four hours in nanoseconds. -/
def generationTime : Nat := 14400000000000

/-- `CLAIM_CAP` -/
def claimCap : Nat := 4096

/-- `NETWORK_CAP` -/
def networkCap : Nat := 4096

/-- `PAIR_CAP` -/
def pairCap : Nat := 64

structure CensusSnapshot where
  claimNetworks : Nat
  pairNetworks : Nat
  deriving DecidableEq

/-- Networks presenting the pairing per thousand presenting the claim. -/
def CensusSnapshot.pairPermille (snapshot : CensusSnapshot) : Nat :=
  if snapshot.claimNetworks = 0 then 0
  else
    let permille := snapshot.pairNetworks * 1000 / snapshot.claimNetworks
    if permille ≤ u32Max then permille else u32Max

theorem CensusSnapshot.pairPermille_le {snapshot : CensusSnapshot}
    (within : snapshot.pairNetworks ≤ snapshot.claimNetworks) : snapshot.pairPermille ≤ 1000 := by
  have permille : snapshot.pairNetworks * 1000 / snapshot.claimNetworks ≤ 1000 :=
    Nat.div_le_of_le_mul (Nat.mul_le_mul_right 1000 within)
  unfold pairPermille
  split
  · exact Nat.zero_le _
  · dsimp only
    rw [if_pos (permille.trans (by decide))]
    exact permille

/-! ### Sets of networks -/

/-- A set of networks takes no more of them than the cap. -/
def remember (networks : Finset SourceNetwork) (network : SourceNetwork) : Finset SourceNetwork :=
  if networks.card < networkCap then insert network networks else networks

section Remember

variable {networks : Finset SourceNetwork} {network : SourceNetwork}

theorem subset_remember : networks ⊆ remember networks network := by
  unfold remember
  split
  · exact Finset.subset_insert _ _
  · exact Finset.Subset.refl _

theorem card_remember_le (bounded : networks.card ≤ networkCap) :
    (remember networks network).card ≤ networkCap := by
  unfold remember
  split
  · next room => exact (Finset.card_insert_le _ _).trans room
  · exact bounded

theorem remember_nonempty : 1 ≤ (remember networks network).card := by
  unfold remember
  split
  · exact Finset.card_pos.mpr (Finset.insert_nonempty _ _)
  · next full => exact (show 1 ≤ networkCap by decide).trans (Nat.le_of_not_lt full)

/-- A set that has not reached the cap has taken the last network. -/
theorem mem_remember (room : (remember networks network).card ≠ networkCap)
    (bounded : networks.card ≤ networkCap) : network ∈ remember networks network := by
  unfold remember at room ⊢
  split
  · exact Finset.mem_insert_self _ _
  · next full =>
    rw [if_neg full] at room
    exact absurd (Nat.le_antisymm bounded (Nat.le_of_not_lt full)) room

theorem remember_subset {larger : Finset SourceNetwork} (within : networks ⊆ larger)
    (member : network ∈ larger) : remember networks network ⊆ larger := by
  unfold remember
  split
  · exact Finset.insert_subset member within
  · exact within

end Remember

/-! ### Claims -/

structure ClaimEntry where
  networks : Finset SourceNetwork
  pairs : AList fun _ : String => Finset SourceNetwork

namespace ClaimEntry

/-- `ClaimEntry::default` -/
def empty : ClaimEntry := ⟨∅, ∅⟩

def pairLen (entry : ClaimEntry) (fingerprint : String) : Nat :=
  (entry.pairs.lookup fingerprint).elim 0 Finset.card

/-- Networks that are counted for a pair are counted for the claim, as long as there is room. -/
structure Sound (entry : ClaimEntry) : Prop where
  bounded : entry.networks.card ≤ networkCap
  counted : ∀ fingerprint pair, entry.pairs.lookup fingerprint = some pair →
    pair.card ≤ networkCap ∧ (pair ⊆ entry.networks ∨ entry.networks.card = networkCap)

theorem sound_empty : empty.Sound where
  bounded := Nat.zero_le _
  counted := fun _ _ found => nomatch found

theorem Sound.pairLen_le {entry : ClaimEntry} (sound : entry.Sound) (fingerprint : String) :
    entry.pairLen fingerprint ≤ entry.networks.card := by
  unfold pairLen
  cases found : entry.pairs.lookup fingerprint with
  | none => exact Nat.zero_le _
  | some pair =>
    obtain ⟨small, within | full⟩ := sound.counted fingerprint pair found
    · exact Finset.card_le_card within
    · exact small.trans full.ge

/-- A network is counted for the claim. -/
def addNetwork (entry : ClaimEntry) (network : SourceNetwork) : ClaimEntry :=
  { entry with networks := remember entry.networks network }

/-- A network is counted for a pair. -/
def addPair (entry : ClaimEntry) (fingerprint : String) (network : SourceNetwork) : ClaimEntry :=
  { entry with
    pairs := entry.pairs.insert fingerprint
      (remember ((entry.pairs.lookup fingerprint).getD ∅) network) }

variable {entry : ClaimEntry} {fingerprint : String} {network : SourceNetwork}

theorem Sound.addNetwork (sound : entry.Sound) : (entry.addNetwork network).Sound where
  bounded := card_remember_le sound.bounded
  counted := by
    intro fingerprint pair found
    obtain ⟨small, within | full⟩ := sound.counted fingerprint pair found
    · exact ⟨small, Or.inl (within.trans subset_remember)⟩
    · refine ⟨small, Or.inr (Nat.le_antisymm (card_remember_le sound.bounded) ?_)⟩
      exact full.ge.trans (Finset.card_le_card subset_remember)

/-- A pair takes a network that its claim has taken, or the claim has reached its cap. -/
theorem Sound.addPair (sound : entry.Sound)
    (taken : network ∈ entry.networks ∨ entry.networks.card = networkCap) :
    (entry.addPair fingerprint network).Sound where
  bounded := sound.bounded
  counted := by
    intro other pair found
    by_cases same : other = fingerprint
    · rw [same, ClaimEntry.addPair, AList.lookup_insert] at found
      cases found
      have before : ((entry.pairs.lookup fingerprint).getD ∅).card ≤ networkCap ∧
          ((entry.pairs.lookup fingerprint).getD ∅ ⊆ entry.networks ∨
            entry.networks.card = networkCap) := by
        cases held : entry.pairs.lookup fingerprint with
        | none => exact ⟨Nat.zero_le _, Or.inl (Finset.empty_subset _)⟩
        | some pair => exact sound.counted fingerprint pair held
      refine ⟨card_remember_le before.1, ?_⟩
      rcases before.2, taken with ⟨within | full, member | full⟩
      · exact Or.inl (remember_subset within member)
      all_goals exact Or.inr full
    · rw [ClaimEntry.addPair, AList.lookup_insert_ne same] at found
      exact sound.counted other pair found

theorem pairLen_addPair : 1 ≤ (entry.addPair fingerprint network).pairLen fingerprint := by
  unfold pairLen addPair
  rw [AList.lookup_insert]
  exact remember_nonempty

end ClaimEntry

/-- The counts over two generations, of which the newer has a network for the pair. -/
theorem ClaimEntry.Sound.both {entry : ClaimEntry} {older : Option ClaimEntry}
    {fingerprint : String} (sound : entry.Sound) (olderSound : ∀ old, older = some old → old.Sound)
    (present : 1 ≤ entry.pairLen fingerprint) :
    1 ≤ entry.pairLen fingerprint + older.elim 0 (fun old => old.pairLen fingerprint) ∧
      entry.pairLen fingerprint + older.elim 0 (fun old => old.pairLen fingerprint) ≤
        entry.networks.card + older.elim 0 (fun old => old.networks.card) ∧
      entry.networks.card + older.elim 0 (fun old => old.networks.card) ≤ 8192 := by
  have newer := sound.pairLen_le fingerprint
  have bounded : entry.networks.card ≤ 4096 := sound.bounded
  cases older with
  | none =>
    simp only [Option.elim_none, Nat.add_zero]
    omega
  | some old =>
    have before := (olderSound old rfl).pairLen_le fingerprint
    have olderBounded : old.networks.card ≤ 4096 := (olderSound old rfl).bounded
    simp only [Option.elim_some]
    omega

/-! ### Generations -/

structure Generations where
  rotated : Nat
  current : AList fun _ : String => ClaimEntry
  previous : AList fun _ : String => ClaimEntry

/-- One call of the census, with the time that it reads from the clock. -/
structure Observation where
  claim : String
  fingerprint : String
  network : SourceNetwork
  now : Nat

/-- `u32::try_from` that saturates -/
def saturated (count : Nat) : Nat := if count ≤ u32Max then count else u32Max

namespace Generations

/-- A new census. -/
def start (now : Nat) : Generations := ⟨now, ∅, ∅⟩

def rotate (generations : Generations) (now : Nat) : Generations :=
  let elapsed := now - generations.rotated
  if generationTime * 2 ≤ elapsed then ⟨now, ∅, ∅⟩
  else if generationTime ≤ elapsed then ⟨now, ∅, generations.current⟩
  else generations

def observe (generations : Generations) (observation : Observation) :
    Option CensusSnapshot × Generations :=
  let generations := generations.rotate observation.now
  let current := generations.current
  if observation.claim ∉ current ∧ claimCap ≤ current.entries.length then (none, generations)
  else
    let entry := ((current.lookup observation.claim).getD .empty).addNetwork observation.network
    if observation.fingerprint ∉ entry.pairs ∧ pairCap ≤ entry.pairs.entries.length then
      (none, { generations with current := current.insert observation.claim entry })
    else
      let entry := entry.addPair observation.fingerprint observation.network
      let older := generations.previous.lookup observation.claim
      let claimNetworks := entry.networks.card + older.elim 0 fun old => old.networks.card
      let pairNetworks := entry.pairLen observation.fingerprint +
        older.elim 0 fun old => old.pairLen observation.fingerprint
      (some ⟨saturated claimNetworks, saturated pairNetworks⟩,
        { generations with current := current.insert observation.claim entry })

/-- Every claim of both generations is sound. -/
structure Sound (generations : Generations) : Prop where
  current : ∀ claim entry, generations.current.lookup claim = some entry → entry.Sound
  previous : ∀ claim entry, generations.previous.lookup claim = some entry → entry.Sound

theorem sound_empty (now : Nat) : (start now).Sound where
  current := fun _ _ found => nomatch found
  previous := fun _ _ found => nomatch found

theorem Sound.rotate {generations : Generations} (sound : generations.Sound) (now : Nat) :
    (generations.rotate now).Sound := by
  unfold Generations.rotate
  dsimp only
  split
  · exact sound_empty now
  · split
    · exact ⟨(fun _ _ found => nomatch found), sound.current⟩
    · exact sound

theorem Sound.insert {generations : Generations} (sound : generations.Sound) (claim : String)
    {entry : ClaimEntry} (fresh : entry.Sound) :
    ({ generations with
      current := generations.current.insert claim entry } : Generations).Sound where
  current := by
    intro other found inserted
    by_cases same : other = claim
    · rw [same, AList.lookup_insert] at inserted
      cases inserted
      exact fresh
    · rw [AList.lookup_insert_ne same] at inserted
      exact sound.current other found inserted
  previous := sound.previous

/-- The entry that a call updates. -/
theorem Sound.entry {generations : Generations} (sound : generations.Sound) (claim : String)
    (network : SourceNetwork) :
    (((generations.current.lookup claim).getD .empty).addNetwork network).Sound := by
  refine ClaimEntry.Sound.addNetwork ?_
  cases found : generations.current.lookup claim with
  | none => exact ClaimEntry.sound_empty
  | some entry => exact sound.current claim entry found

/-- The network that was counted for a claim is one of it, unless the claim has reached its cap. -/
theorem Sound.taken {generations : Generations} (sound : generations.Sound) (claim : String)
    (network : SourceNetwork) :
    let entry := ((generations.current.lookup claim).getD .empty).addNetwork network
    network ∈ entry.networks ∨ entry.networks.card = networkCap := by
  have bounded : ((generations.current.lookup claim).getD .empty).networks.card ≤ networkCap := by
    cases found : generations.current.lookup claim with
    | none => exact ClaimEntry.sound_empty.bounded
    | some entry => exact (sound.current claim entry found).bounded
  by_cases full : (remember ((generations.current.lookup claim).getD .empty).networks
      network).card = networkCap
  · exact Or.inr full
  · exact Or.inl (mem_remember full bounded)

/-- What one call preserves. -/
theorem Sound.observe {generations : Generations} (sound : generations.Sound)
    (observation : Observation) : (generations.observe observation).2.Sound := by
  have rotated := sound.rotate observation.now
  have entry := rotated.entry observation.claim observation.network
  have taken := rotated.taken observation.claim observation.network
  unfold Generations.observe
  dsimp only
  split
  · exact rotated
  · split
    · exact rotated.insert observation.claim entry
    · exact rotated.insert observation.claim (entry.addPair taken)

theorem saturated_of_le {count : Nat} (small : count ≤ 8192) : saturated count = count :=
  if_pos (small.trans (by decide))

/-- What a call returns in a sound state. -/
theorem Sound.snapshot {generations : Generations} (sound : generations.Sound)
    {observation : Observation} {snapshot : CensusSnapshot}
    (returned : (generations.observe observation).1 = some snapshot) :
    1 ≤ snapshot.pairNetworks ∧ snapshot.pairNetworks ≤ snapshot.claimNetworks ∧
      snapshot.claimNetworks ≤ 8192 := by
  have rotated := sound.rotate observation.now
  have entry := rotated.entry observation.claim observation.network
  have taken := rotated.taken observation.claim observation.network
  unfold Generations.observe at returned
  dsimp only at returned
  split at returned
  · cases returned
  · split at returned
    · cases returned
    · obtain ⟨present, within, few⟩ := (entry.addPair taken).both
        (rotated.previous observation.claim) ClaimEntry.pairLen_addPair
      cases returned
      dsimp only
      rw [saturated_of_le few, saturated_of_le (within.trans few)]
      exact ⟨present, within, few⟩

/-- The census after some calls. -/
def run (now : Nat) (observations : List Observation) : Generations :=
  observations.foldl (fun generations observation => (generations.observe observation).2)
    (start now)

theorem sound_run (now : Nat) (observations : List Observation) : (run now observations).Sound :=
  (Machine.along_of_forall (fun _ _ => trivial) _ observations).preserves Sound (sound_empty now)
    fun _ observation sound _ => sound.observe observation

/-- In every state that calls lead to, a snapshot has at least one network for the pair, no more
than for the claim, and the claim no more than both generations hold. -/
theorem snapshot_is_ratio (now : Nat) (observations : List Observation)
    (observation : Observation) (snapshot : CensusSnapshot)
    (returned : ((run now observations).observe observation).1 = some snapshot) :
    1 ≤ snapshot.pairNetworks ∧ snapshot.pairNetworks ≤ snapshot.claimNetworks ∧
      snapshot.claimNetworks ≤ 8192 ∧ snapshot.pairPermille ≤ 1000 := by
  obtain ⟨present, within, few⟩ := (sound_run now observations).snapshot returned
  exact ⟨present, within, few, CensusSnapshot.pairPermille_le within⟩

end Generations

namespace SampleCensus

def first : Observation := ⟨"Chrome/126", "t13d1516h2", .v4 0x0a0000, 0⟩

def second : Observation := ⟨"Chrome/126", "t13d1517h2", .v4 0x0a0001, 14400000000000⟩

/-- One network in the generation before, and another one now with another fingerprint. -/
theorem second_is_ratio :
    ((Generations.run 0 [first]).observe second).1 = some ⟨2, 1⟩ ∧
      (⟨2, 1⟩ : CensusSnapshot).pairPermille ≤ 1000 :=
  ⟨by decide, (Generations.snapshot_is_ratio 0 [first] second ⟨2, 1⟩ (by decide)).2.2.2⟩

end SampleCensus

end Bagel
