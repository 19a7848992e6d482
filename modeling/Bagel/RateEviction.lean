/-
This file proves when a rate tracker spares the keys that it still counts. A record of a key that
is new to a full shard drops the keys whose last record is sixty ticks old, and then the key that
was used least recently, also when the first step has already made room.

A run therefore never loses a key that was recorded within the last sixty ticks exactly when a
new key never meets a full shard that holds such a key. The tracker never holds more keys than
its shards have room for.
-/

import Bagel.Rates
import Mathlib.Algebra.Order.BigOperators.Group.Finset

namespace Bagel

namespace RateTracker

/-! ### Room in a shard -/

section Shards

variable {shardCapacity : Nat} {shard : Shard} {key other : RateKey} {tick : UInt64}

theorem length_insert {entries : AList fun _ : RateKey => Entry} {entry : Entry} :
    (entries.insert key entry).entries.length =
      if key ∈ entries then entries.entries.length else entries.entries.length + 1 := by
  split
  · next held =>
    have keys : (entries.insert key entry).keys.length = (key :: entries.keys.erase key).length :=
      congrArg List.length (AList.keys_insert entries)
    have some : 0 < entries.keys.length := List.length_pos_of_mem held
    rw [List.length_cons, List.length_erase_of_mem held, Nat.sub_add_cancel some] at keys
    simpa only [AList.keys, List.keys, List.length_map] using keys
  · next missing => rw [AList.insert_of_notMem missing, List.length_cons]

/-- An eviction drops the old entries, and one of the others if there are any. -/
theorem evict_cases (entries : AList fun _ : RateKey => Entry) (tick : UInt64) :
    (∃ victim ∈ retain entries tick,
        evict entries tick = (retain entries tick).erase victim) ∨
      ((retain entries tick).entries = [] ∧ evict entries tick = retain entries tick) := by
  unfold evict oldest
  dsimp only
  cases first : (retain entries tick).entries.argmin fun entry => entry.2.lastUsed with
  | none => exact Or.inr ⟨List.argmin_eq_none.mp first, rfl⟩
  | some entry =>
    have listed : entry ∈ (retain entries tick).entries := List.argmin_mem first
    exact Or.inl ⟨entry.1, List.mem_keys_of_mem listed, rfl⟩

/-- An eviction makes room in a shard that is not overfull. -/
theorem length_evict_lt {entries : AList fun _ : RateKey => Entry}
    (bounded : entries.entries.length ≤ shardCapacity) (positive : 0 < shardCapacity) :
    (evict entries tick).entries.length < shardCapacity := by
  have fewer : (retain entries tick).entries.length ≤ entries.entries.length :=
    List.length_filter_le _ _
  rcases evict_cases entries tick with ⟨victim, held, erased⟩ | ⟨nothing, same⟩
  · have keys := congrArg List.length (AList.keys_erase victim (retain entries tick))
    have some : 0 < (retain entries tick).keys.length := List.length_pos_of_mem held
    rw [List.length_erase_of_mem held, ← erased] at keys
    simp only [AList.keys, List.keys, List.length_map] at keys some
    omega
  · rw [same, nothing]
    exact positive

/-- What one record preserves of the size of a shard. -/
theorem Shard.length_recordAt_le (bounded : shard.entries.entries.length ≤ shardCapacity)
    (positive : 0 < shardCapacity) :
    (shard.recordAt shardCapacity key tick).2.entries.entries.length ≤ shardCapacity := by
  have size : (shard.recordAt shardCapacity key tick).2.entries.entries.length = _ :=
    length_insert
  rw [size]
  unfold Shard.room
  split
  · next full =>
    have smaller : (evict shard.entries tick).entries.length < shardCapacity :=
      length_evict_lt bounded positive
    split <;> omega
  · next room =>
    split
    · exact bounded
    · next missing => exact Nat.lt_of_not_le fun full => room ⟨missing, full⟩

theorem add_window_gt_iff {last : UInt64} (fits : last.toNat + 60 < 2 ^ 64) :
    last + 60 > tick ↔ tick.toNat < last.toNat + 60 := by
  have sum : (last + 60).toNat = last.toNat + 60 :=
    (UInt64.toNat_add last 60).trans (Nat.mod_eq_of_lt fits)
  rw [gt_iff_lt, UInt64.lt_iff_toNat_lt, sum]

/-- An eviction from entries that are not all old takes one that is not old. -/
theorem exists_victim {entries : AList fun _ : RateKey => Entry}
    (live : ∃ entry ∈ entries.entries, entry.2.lastTick + 60 > tick) :
    ∃ victim entry, entries.lookup victim = some entry ∧ entry.lastTick + 60 > tick ∧
      (evict entries tick).lookup victim = none := by
  rcases evict_cases entries tick with ⟨victim, held, erased⟩ | ⟨nothing, -⟩
  · obtain ⟨entry, found⟩ := Option.isSome_iff_exists.mp (AList.lookup_isSome.mpr held)
    obtain ⟨before, young⟩ := mem_retain.mp found
    exact ⟨victim, entry, before, young, by rw [erased, AList.lookup_erase]⟩
  · obtain ⟨entry, listed, young⟩ := live
    have kept : entry ∈ (retain entries tick).entries :=
      List.mem_filter.mpr ⟨listed, decide_eq_true young⟩
    rw [nothing] at kept
    exact absurd kept List.not_mem_nil

end Shards

section Calls

variable (shardIndex : RateKey → Fin 64)

/-- A new key finds room in its shard, or nothing in it that is still counted. -/
def Spacious (tracker : RateTracker) : RateCall → Prop
  | .record host network tick =>
    let shard := tracker.shards (shardIndex ⟨host, network⟩)
    ⟨host, network⟩ ∈ shard.entries ∨ shard.entries.entries.length < tracker.shardCapacity ∨
      ∀ entry ∈ shard.entries.entries, entry.2.lastTick.toNat + 60 ≤ tick.toNat
  | .peek .. => True

instance (tracker : RateTracker) (call : RateCall) : Decidable (tracker.Spacious shardIndex call) :=
  match call with
  | .record .. => inferInstanceAs (Decidable (_ ∨ _ ∨ _))
  | .peek .. => isTrue trivial

/-- What a run should guarantee: it loses no key that was recorded within the last sixty ticks,
what it returns is exact, and it never holds more keys than it has room for. -/
structure SparesRecent (capacity : Nat) (calls : List RateCall) : Prop where
  spares : ∀ earlier call, earlier ++ [call] <+: calls → ∀ key,
    (run shardIndex capacity earlier).Evicts shardIndex key call →
      ∀ time ∈ RateCall.recordTicks key earlier, time + 60 ≤ call.tick.toNat
  snapshots : ∀ earlier call, earlier ++ [call] <+: calls →
    ((run shardIndex capacity earlier).perform shardIndex call).1 =
      RateSnapshot.ofRecords (RateCall.recordTicks call.key (earlier ++ [call])) call.tick.toNat
  bounded : ∀ earlier, earlier <+: calls →
    (run shardIndex capacity earlier).len ≤ 64 * (new capacity).shardCapacity

/-- In any sixty consecutive ticks at most as many keys of a shard are recorded as it has room
for. -/
def Sparse (capacity : Nat) (calls : List RateCall) : Prop :=
  ∀ index start, ((calls.filter fun call => call.isRecord ∧ shardIndex call.key = index ∧
    start ≤ call.tick.toNat ∧ call.tick.toNat < start + 60).map RateCall.key).toFinset.card ≤
      (new capacity).shardCapacity

/-- The entries of a run are in the shards of their keys, and know the last records of them. -/
def Placed (tracker : RateTracker) (calls : List RateCall) : Prop :=
  ∀ index key entry, (tracker.shards index).entries.lookup key = some entry →
    shardIndex key = index ∧ Latest entry.lastTick (RateCall.recordTicks key calls)

variable {shardIndex} {tracker : RateTracker} {calls : List RateCall} {call : RateCall}
  {key : RateKey}

/-- What one call preserves of the places of the entries. -/
theorem placed_act (placed : tracker.Placed shardIndex calls)
    (reached : ∀ earlier ∈ calls, earlier.tick.toNat ≤ call.tick.toNat) :
    (tracker.act shardIndex call).Placed shardIndex (calls ++ [call]) := by
  intro index key entry found
  rw [RateCall.recordTicks_concat]
  cases call with
  | peek host network tick =>
    rw [if_neg fun own => Bool.false_ne_true own.1]
    exact placed index key entry found
  | record host network tick =>
    by_cases here : index = shardIndex ⟨host, network⟩
    · rw [here, shard_act_self] at found
      by_cases own : (RateCall.record host network tick).key = key
      · subst own
        have before : ∀ time ∈ RateCall.recordTicks ⟨host, network⟩ calls, time ≤ tick.toNat :=
          RateCall.recordTicks_le reached
        have last : entry.lastTick = tick := Shard.lastTick_recordAt (fun earlier held =>
          UInt64.le_iff_toNat_le.mpr (before _ (placed _ _ _ held).2.1)) found
        rw [if_pos ⟨rfl, rfl⟩, last]
        refine ⟨here.symm, List.mem_append_right _ List.mem_cons_self, fun time listed => ?_⟩
        rcases List.mem_append.mp listed with earlier | now
        · exact before time earlier
        · exact (List.mem_singleton.mp now).le
      · have other : key ≠ ⟨host, network⟩ := Ne.symm own
        rw [Shard.lookup_recordAt_of_ne other] at found
        rw [if_neg fun both => own both.2, here]
        exact placed _ _ _ (Shard.lookup_of_room found)
    · rw [shard_act_of_ne here] at found
      have kept := placed index key entry found
      have other : (RateCall.record host network tick).key ≠ key := by
        rintro rfl
        exact here kept.1.symm
      rw [if_neg fun both => other both.2]
      exact kept

/-- A call pushes a key out only when it is the record of a new key of the same shard, which is
full. -/
theorem full_of_evicts {host : String} {network : SourceNetwork} {tick : UInt64}
    (evicts : tracker.Evicts shardIndex key (.record host network tick)) :
    shardIndex key = shardIndex ⟨host, network⟩ ∧
      ⟨host, network⟩ ∉ (tracker.shards (shardIndex ⟨host, network⟩)).entries ∧
      tracker.shardCapacity ≤
        (tracker.shards (shardIndex ⟨host, network⟩)).entries.entries.length := by
  obtain ⟨held, gone⟩ := evicts
  have own : (RateCall.record host network tick).key ≠ key := fun same =>
    not_evicts_own same ⟨held, gone⟩
  have other : key ≠ ⟨host, network⟩ := own.symm
  unfold Holds at held gone
  by_cases here : shardIndex key = shardIndex ⟨host, network⟩
  · refine ⟨here, ?_⟩
    rw [here] at held gone
    by_contra room
    refine gone ?_
    rw [shard_act_self, ← AList.lookup_isSome, Shard.lookup_recordAt_of_ne other, Shard.room,
      if_neg room]
    exact AList.lookup_isSome.mpr held
  · rw [shard_act_of_ne here] at gone
    exact absurd held gone

/-- One call loses only keys whose records are old exactly when its key finds room. -/
theorem spacious_iff (placed : tracker.Placed shardIndex calls)
    (reached : ∀ earlier ∈ calls, earlier.tick.toNat ≤ call.tick.toNat)
    (low : ∀ other ∈ calls, other.Low) :
    tracker.Spacious shardIndex call ↔ ∀ key, tracker.Evicts shardIndex key call →
      ∀ time ∈ RateCall.recordTicks key calls, time + 60 ≤ call.tick.toNat := by
  cases call with
  | peek host network tick => exact iff_of_true trivial fun key evicts => absurd evicts.1 evicts.2
  | record host network tick =>
    constructor
    · intro spacious key evicts time listed
      obtain ⟨here, missing, full⟩ := full_of_evicts evicts
      rcases spacious with held | room | old
      · exact absurd held missing
      · exact absurd room (Nat.not_lt.mpr full)
      · obtain ⟨entry, found⟩ := Option.isSome_iff_exists.mp (AList.lookup_isSome.mpr evicts.1)
        have latest := (placed _ _ _ found).2.2 time listed
        rw [here] at found
        have passed := old _ (AList.mem_lookup_iff.mp found)
        exact (Nat.add_le_add_right latest 60).trans passed
    · intro spares
      by_contra crowded
      obtain ⟨missing, rest⟩ := not_or.mp crowded
      obtain ⟨full, young⟩ := not_or.mp rest
      have fits : ∀ victim entry,
          (tracker.shards (shardIndex ⟨host, network⟩)).entries.lookup victim = some entry →
            entry.lastTick.toNat + 60 < 2 ^ 64 := by
        intro victim entry found
        obtain ⟨other, member, record, -, same⟩ :=
          RateCall.exists_of_mem_recordTicks (placed _ _ _ found).2.1
        rw [← same]
        exact low other member record
      have live : ∃ entry ∈ (tracker.shards (shardIndex ⟨host, network⟩)).entries.entries,
          entry.2.lastTick + 60 > tick := by
        by_contra none
        refine young fun entry listed => ?_
        have small := fits entry.1 entry.2 (AList.mem_lookup_iff.mpr listed)
        have late := fun high => none ⟨entry, listed, (add_window_gt_iff small).mpr high⟩
        exact Nat.not_lt.mp late
      obtain ⟨victim, entry, found, high, gone⟩ := exists_victim live
      have here : shardIndex victim = shardIndex ⟨host, network⟩ := (placed _ _ _ found).1
      have different : victim ≠ ⟨host, network⟩ := by
        rintro rfl
        exact missing (AList.lookup_isSome.mp (by rw [found, Option.isSome_some]))
      have evicts : tracker.Evicts shardIndex victim (.record host network tick) := by
        unfold Evicts Holds
        rw [here]
        refine ⟨AList.lookup_isSome.mp (by rw [found, Option.isSome_some]), ?_⟩
        rw [shard_act_self, ← AList.lookup_eq_none, Shard.lookup_recordAt_of_ne different,
          Shard.room, if_pos ⟨missing, Nat.not_lt.mp full⟩]
        exact gone
      have passed := spares victim evicts _ (placed _ _ _ found).2.1
      exact absurd ((add_window_gt_iff (fits _ _ found)).mp high) (Nat.not_lt.mpr passed)

/-! ### Runs -/

theorem placed_run (capacity : Nat) (ordered : RateCall.Ordered calls) :
    (run shardIndex capacity calls).Placed shardIndex calls := by
  induction calls using List.reverseRecOn with
  | nil =>
    intro index key entry found
    exact nomatch found
  | append_singleton calls call inductionHypothesis =>
    rw [run_concat]
    exact placed_act (inductionHypothesis (List.pairwise_append.mp ordered).1) ordered.reached

theorem shardCapacity_run (capacity : Nat) (calls : List RateCall) :
    (run shardIndex capacity calls).shardCapacity = (new capacity).shardCapacity := by
  induction calls using List.reverseRecOn with
  | nil => rfl
  | append_singleton calls call inductionHypothesis =>
    rw [run_concat, ← inductionHypothesis]
    cases call <;> rfl

/-- No shard is ever overfull. -/
theorem length_run_le (capacity : Nat) (calls : List RateCall) (index : Fin 64) :
    ((run shardIndex capacity calls).shards index).entries.entries.length ≤
      (new capacity).shardCapacity := by
  induction calls using List.reverseRecOn with
  | nil => exact Nat.zero_le _
  | append_singleton calls call inductionHypothesis =>
    rw [run_concat]
    cases call with
    | peek host network tick => exact inductionHypothesis
    | record host network tick =>
      by_cases here : index = shardIndex ⟨host, network⟩
      · rw [here] at inductionHypothesis ⊢
        rw [shard_act_self, shardCapacity_run]
        exact Shard.length_recordAt_le inductionHypothesis
          (Nat.lt_of_lt_of_le Nat.zero_lt_one (Nat.le_max_right _ _))
      · rw [shard_act_of_ne here]
        exact inductionHypothesis

theorem len_run_le (capacity : Nat) (calls : List RateCall) :
    (run shardIndex capacity calls).len ≤ 64 * (new capacity).shardCapacity := by
  have each := Finset.sum_le_card_nsmul Finset.univ
    (fun index => ((run shardIndex capacity calls).shards index).entries.entries.length)
    (new capacity).shardCapacity fun index _ => length_run_le capacity calls index
  rw [Finset.card_univ, Fintype.card_fin, smul_eq_mul] at each
  exact each

/-- A run spares the recent keys exactly when every new key finds room in its shard, or nothing
in it that is still counted. -/
theorem spacious_iff_sparesRecent (shardIndex : RateKey → Fin 64) (capacity : Nat)
    (calls : List RateCall) (ordered : RateCall.Ordered calls)
    (low : ∀ call ∈ calls, call.Low) :
    Machine.Along (act shardIndex) (Spacious shardIndex) (new capacity) calls ↔
      SparesRecent shardIndex capacity calls := by
  have part : ∀ earlier call, earlier ++ [call] <+: calls →
      RateCall.Ordered (earlier ++ [call]) ∧ ∀ other ∈ earlier ++ [call], other.Low :=
    fun earlier call inside =>
      ⟨ordered.sublist inside.sublist, fun other member => low other (inside.subset member)⟩
  have step : ∀ earlier call, earlier ++ [call] <+: calls →
      ((run shardIndex capacity earlier).Spacious shardIndex call ↔
        ∀ key, (run shardIndex capacity earlier).Evicts shardIndex key call →
          ∀ time ∈ RateCall.recordTicks key earlier, time + 60 ≤ call.tick.toNat) := by
    intro earlier call inside
    obtain ⟨inOrder, small⟩ := part earlier call inside
    exact spacious_iff (placed_run capacity (List.pairwise_append.mp inOrder).1) inOrder.reached
      fun other member => small other (List.mem_append_left _ member)
  rw [Machine.along_iff_forall_prefix]
  constructor
  · intro always
    have spares : ∀ earlier call, earlier ++ [call] <+: calls → ∀ key,
        (run shardIndex capacity earlier).Evicts shardIndex key call →
          ∀ time ∈ RateCall.recordTicks key earlier, time + 60 ≤ call.tick.toNat :=
      fun earlier call inside => (step earlier call inside).mp (always earlier call inside)
    refine ⟨spares, fun earlier call inside => ?_, fun earlier _ => len_run_le capacity earlier⟩
    obtain ⟨inOrder, small⟩ := part earlier call inside
    have follows := follows_run (List.pairwise_append.mp inOrder).1
      (fun other member => small other (List.mem_append_left _ member))
      (fun before other within => spares before other
        (within.trans ((List.prefix_append _ _).trans inside)) call.key) inOrder.reached
    exact perform_eq follows le_rfl (RateCall.recordTicks_le inOrder.reached) small
  · intro spares earlier call inside
    exact (step earlier call inside).mpr (spares.spares earlier call inside)

end Calls

end RateTracker

namespace SampleRates

open RateTracker

/-- One key, much later enough others to fill its shard. -/
def earlier : List RateCall :=
  [record 0 4 0, record 6 4 59, record 0 10 59, record 3 20 59, record 3 24 59, record 2 27 59,
    record 11 30 59, record 10 34 59, record 14 41 59, record 2 42 59, record 9 46 59,
    record 0 47 59, record 0 49 59, record 6 54 59, record 15 63 59, record 0 65 59]

/-- A minute later all of them are old, and make room for a new key. -/
theorem stale_keys_spared :
    (run (fun _ => 9) 1024 earlier).Evicts (fun _ => 9) (record 6 4 59).key (record 2 65 119) ∧
      SparesRecent (fun _ => 9) 1024 (earlier ++ [record 2 65 119]) := by
  refine ⟨?_, (spacious_iff_sparesRecent (fun _ => 9) 1024 (earlier ++ [record 2 65 119])
    (by decide) (by decide)).mp (by decide +kernel)⟩
  unfold Evicts Holds
  decide +kernel

/-- One tick after the others the first key is dropped, because it is old, and the second one too,
although there is room. -/
theorem recent_key_lost :
    ¬ ∀ calls, (∀ call ∈ calls, call.isRecord = true) → RateCall.Ordered calls →
      Sparse (fun _ => 9) 1024 calls → SparesRecent (fun _ => 9) 1024 calls := by
  intro always
  have sparse : Sparse (fun _ => 9) 1024 (earlier ++ [record 2 65 60]) := by
    intro index start
    refine (List.toFinset_card_le _).trans ?_
    rw [List.length_map]
    -- the first and the last record are sixty ticks apart
    rcases Nat.eq_zero_or_pos start with first | later
    · refine le_trans (List.Sublist.length_le (List.monotone_filter_right _ fun call chosen => ?_))
        (show ((earlier ++ [record 2 65 60]).filter fun call => call.tick < 60).length ≤ 16 by
          decide)
      have before := (of_decide_eq_true chosen).2.2.2
      rw [first, Nat.zero_add] at before
      exact decide_eq_true (UInt64.lt_iff_toNat_lt.mpr before)
    · refine le_trans (List.Sublist.length_le (List.monotone_filter_right _ fun call chosen => ?_))
        (show ((earlier ++ [record 2 65 60]).filter fun call => 0 < call.tick).length ≤ 16 by
          decide)
      have after := later.trans_le (of_decide_eq_true chosen).2.2.1
      exact decide_eq_true (UInt64.lt_iff_toNat_lt.mpr after)
  have spares := (always _ (by decide) (by decide) sparse).spares earlier (record 2 65 60)
    (List.prefix_refl _) (record 6 4 59).key ?_
  · exact absurd (spares 59 (by decide)) (by decide)
  · unfold Evicts Holds
    decide +kernel

end SampleRates

end Bagel
