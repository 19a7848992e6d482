/-
This file proves that the counts of a rate tracker are those of its records. A tracker keeps a
ring of sixty counters for each key, and a key that is new to a full shard may push others out.

As long as a key was not pushed out, a record and a look return how often the key was recorded in
the last tick, the last ten and the last sixty, and a look changes nothing. The arithmetic of
ticks wraps around, as it does in a release build: this holds for records up to sixty ticks
before the largest, and not at the largest.
-/

import Bagel.Challenge
import Bagel.Library.Machine
import Bagel.Library.Ring
import Bagel.Visits
import Mathlib.Algebra.BigOperators.Fin
import Mathlib.Data.List.MinMax

namespace Bagel

/-- The counts over the last one, ten and sixty ticks. -/
structure RateSnapshot where
  last1 : Nat
  last10 : Nat
  last60 : Nat
  deriving DecidableEq

/-- How often a key was recorded in the spans that end at a tick, as far as the counters go. -/
def RateSnapshot.ofRecords (records : List Nat) (now : Nat) : RateSnapshot where
  last1 := min (Ring.recent 1 now records) u32Max
  last10 := min (Ring.recent 10 now records) u32Max
  last60 := min (Ring.recent 60 now records) u32Max

structure RateKey where
  host : String
  network : SourceNetwork
  deriving DecidableEq

namespace RateTracker

/-! ### Entries -/

/-- The counters of a key. A counter stops at the largest value that it can hold. -/
structure Entry where
  buckets : Fin 60 → Nat
  lastTick : UInt64
  lastUsed : Nat

namespace Entry

/-- The counter that a tick falls into. -/
def bucket (entry : Entry) (tick : UInt64) : Nat := entry.buckets (Ring.slot 60 tick.toNat)

/-- The closure `sum` of `record_at` and `peek_at`, which start at different offsets. -/
def sum (entry : Entry) (tick : UInt64) (start span : Nat) : Nat :=
  Ring.cappedSum u32Max
    ((List.range' start (min span (tick + 1).toNat - start)).map fun offset =>
      entry.bucket (tick + 60 - UInt64.ofNat offset))

/-- The counters of the ticks that have passed are cleared. -/
def advance (entry : Entry) (tick : UInt64) : Entry :=
  if tick > entry.lastTick then
    let stale := min (tick - entry.lastTick).toNat 60
    { entry with
      buckets := Ring.clear
        ((List.range stale).map fun offset => (tick - UInt64.ofNat offset).toNat) entry.buckets
      lastTick := tick }
  else entry

def increment (entry : Entry) (tick : UInt64) : Entry :=
  { entry with
    buckets := Function.update entry.buckets (Ring.slot 60 tick.toNat)
      (min (entry.bucket tick + 1) u32Max) }

end Entry

/-! ### Counting -/

/-- The last tick of a nonempty list of records. -/
def Latest (tick : UInt64) (records : List Nat) : Prop :=
  tick.toNat ∈ records ∧ ∀ time ∈ records, time ≤ tick.toNat

/-- An entry has counted these records. -/
structure Entry.Counted (entry : Entry) (records : List Nat) : Prop where
  latest : Latest entry.lastTick records
  shown : Ring.Shows u32Max records entry.lastTick.toNat entry.buckets

namespace Entry

/-- While a tick and its window fit into a word, a sum reads the counters of its ages. -/
theorem sum_eq {entry : Entry} {tick : UInt64} {span : Nat}
    (order : entry.lastTick.toNat ≤ tick.toNat) (low : entry.lastTick.toNat + 60 < 2 ^ 64)
    (within : span ≤ 60) :
    entry.sum tick (tick.toNat - entry.lastTick.toNat) span =
      Ring.cappedSum u32Max ((List.range' (tick.toNat - entry.lastTick.toNat)
        (min span (tick.toNat + 1) - (tick.toNat - entry.lastTick.toNat))).map fun age =>
          entry.buckets (Ring.slot 60 (tick.toNat - age))) := by
  have small := tick.toNat_lt
  have next : (tick + 1).toNat = (tick.toNat + 1) % 2 ^ 64 := UInt64.toNat_add tick 1
  have ages : min span (tick + 1).toNat - (tick.toNat - entry.lastTick.toNat) =
      min span (tick.toNat + 1) - (tick.toNat - entry.lastTick.toNat) := by
    rcases Nat.lt_or_ge (tick.toNat + 1) (2 ^ 64) with fits | full
    · rw [next, Nat.mod_eq_of_lt fits]
    · omega
  rw [sum, ages]
  refine congrArg (Ring.cappedSum u32Max) (List.map_congr_left fun age listed => ?_)
  rw [List.mem_range'_1] at listed
  have age_toNat : (UInt64.ofNat age).toNat = age :=
    UInt64.toNat_ofNat_of_lt' (show age < 2 ^ 64 by omega)
  have read : (tick + 60 - UInt64.ofNat age).toNat = tick.toNat - age + 60 := by
    rw [UInt64.toNat_sub, UInt64.toNat_add, age_toNat]
    have sixty : (60 : UInt64).toNat = 60 := rfl
    omega
  rw [bucket, read, Ring.slot_add_size]

theorem lastTick_advance {entry : Entry} {tick : UInt64} (order : entry.lastTick ≤ tick) :
    (entry.advance tick).lastTick = tick := by
  unfold advance
  split
  · rfl
  · exact UInt64.le_antisymm order (UInt64.not_lt.mp ‹_›)

/-- An entry that has counted older records shows them at a later tick. -/
theorem Counted.advance {entry : Entry} {records : List Nat} {tick : UInt64}
    (counted : entry.Counted records) (order : entry.lastTick ≤ tick) :
    Ring.Shows u32Max records tick.toNat (entry.advance tick).buckets := by
  have shown := counted.shown.advance counted.latest.2 (UInt64.le_iff_toNat_le.mp order)
  unfold Entry.advance
  split
  · have gap : (tick - entry.lastTick).toNat = tick.toNat - entry.lastTick.toNat :=
      UInt64.toNat_sub_of_le _ _ order
    have times : (List.range (min (tick - entry.lastTick).toNat 60)).map
          (fun offset => (tick - UInt64.ofNat offset).toNat) =
        (List.range (min (tick.toNat - entry.lastTick.toNat) 60)).map fun offset =>
          tick.toNat - offset := by
      rw [gap]
      refine List.map_congr_left fun offset listed => ?_
      have few := List.mem_range.mp listed
      have small := tick.toNat_lt
      have offset_toNat : (UInt64.ofNat offset).toNat = offset :=
        UInt64.toNat_ofNat_of_lt' (show offset < 2 ^ 64 by omega)
      rw [UInt64.toNat_sub, offset_toNat]
      omega
    dsimp only
    rw [times]
    exact shown
  · have same : entry.lastTick = tick := UInt64.le_antisymm order (UInt64.not_lt.mp ‹_›)
    rw [← same]
    exact counted.shown

/-- An entry that shows its records at a tick counts one more of them. -/
theorem counted_increment {entry : Entry} {records : List Nat} {tick : UInt64}
    (last : entry.lastTick = tick) (before : ∀ time ∈ records, time ≤ tick.toNat)
    (shown : Ring.Shows u32Max records tick.toNat entry.buckets) :
    (entry.increment tick).Counted (records ++ [tick.toNat]) where
  latest := by
    rw [Entry.increment, last]
    refine ⟨List.mem_append_right _ List.mem_cons_self, fun time listed => ?_⟩
    rcases List.mem_append.mp listed with earlier | now
    · exact before time earlier
    · exact (List.mem_singleton.mp now).le
  shown := by
    rw [Entry.increment, last]
    exact shown.count

/-- The sums of an entry are how often its key was recorded. -/
theorem Counted.sum_eq_recent {entry : Entry} {records : List Nat} {tick : UInt64} {span : Nat}
    (counted : entry.Counted records) (order : entry.lastTick.toNat ≤ tick.toNat)
    (low : entry.lastTick.toNat + 60 < 2 ^ 64) (within : span ≤ 60) :
    entry.sum tick (tick.toNat - entry.lastTick.toNat) span =
      min (Ring.recent span tick.toNat records) u32Max := by
  rw [sum_eq order low within]
  exact counted.shown.cappedSum_eq_recent counted.latest.2 order within

theorem Counted.bucket_eq_recent {entry : Entry} {records : List Nat}
    (counted : entry.Counted records) :
    entry.bucket entry.lastTick =
      min (Ring.recent 1 entry.lastTick.toNat records) u32Max := by
  have now := counted.shown 0 (by decide) (Nat.zero_le _)
  rw [Nat.sub_zero, ← Ring.recent_one] at now
  exact now

end Entry

/-! ### Shards -/

structure Shard where
  entries : AList fun _ : RateKey => Entry
  used : Nat

/-- The `retain` of an eviction. -/
def retain (entries : AList fun _ : RateKey => Entry) (tick : UInt64) :
    AList fun _ : RateKey => Entry :=
  ⟨entries.entries.filter fun entry => entry.2.lastTick + 60 > tick,
    List.NodupKeys.sublist List.filter_sublist entries.nodupKeys⟩

/-- The key that was used least recently. Each use has a number of its own, so that the order of
the map does not matter. -/
def oldest (entries : AList fun _ : RateKey => Entry) : Option RateKey :=
  (entries.entries.argmin fun entry => entry.2.lastUsed).map fun entry => entry.1

def evict (entries : AList fun _ : RateKey => Entry) (tick : UInt64) :
    AList fun _ : RateKey => Entry :=
  let entries := retain entries tick
  match oldest entries with
  | some key => entries.erase key
  | none => entries

namespace Shard

variable (shardCapacity : Nat) (shard : Shard) (key : RateKey) (tick : UInt64)

/-- The entries among which a record looks for its own. -/
def room : AList fun _ : RateKey => Entry :=
  if key ∉ shard.entries ∧ shardCapacity ≤ shard.entries.entries.length then
    evict shard.entries tick
  else shard.entries

def recordAt : RateSnapshot × Shard :=
  let used := shard.used + 1
  let entries := shard.room shardCapacity key tick
  let entry := (entries.lookup key).getD ⟨fun _ => 0, tick, used⟩
  let entry := { entry with lastUsed := used }
  let entry := (entry.advance tick).increment tick
  (⟨entry.bucket tick, entry.sum tick 0 10, entry.sum tick 0 60⟩,
    ⟨entries.insert key entry, used⟩)

def peekAt : RateSnapshot :=
  match shard.entries.lookup key with
  | none => ⟨0, 0, 0⟩
  | some entry =>
    let stale := tick.toNat - entry.lastTick.toNat
    ⟨if stale = 0 then entry.bucket tick else 0, entry.sum tick stale 10, entry.sum tick stale 60⟩

end Shard

/-! ### One key of a shard -/

/-- The entry of a key has counted its records; when there is none, they are all too old to be
counted at this tick. -/
def Follows (entry : Option Entry) (records : List Nat) (now : Nat) : Prop :=
  match entry with
  | some entry => entry.Counted records
  | none => ∀ time ∈ records, time + 60 ≤ now

theorem Follows.mono {entry : Option Entry} {records : List Nat} {now later : Nat}
    (follows : Follows entry records now) (order : now ≤ later) : Follows entry records later := by
  cases entry with
  | none => exact fun time listed => (follows time listed).trans order
  | some entry => exact follows

theorem snapshot_of_old {records : List Nat} {now : Nat}
    (old : ∀ time ∈ records, time + 60 ≤ now) :
    RateSnapshot.ofRecords records now = ⟨0, 0, 0⟩ := by
  have nothing : ∀ span ≤ 60, Ring.recent span now records = 0 := fun span within =>
    Ring.recent_of_old fun time listed => by
      have passed := old time listed
      omega
  rw [RateSnapshot.ofRecords, nothing 1 (by decide), nothing 10 (by decide),
    nothing 60 (by decide)]
  rfl

theorem mem_retain {entries : AList fun _ : RateKey => Entry} {tick : UInt64} {key : RateKey}
    {entry : Entry} : (retain entries tick).lookup key = some entry ↔
      entries.lookup key = some entry ∧ entry.lastTick + 60 > tick := by
  rw [← Option.mem_def, ← Option.mem_def, AList.mem_lookup_iff, AList.mem_lookup_iff, retain,
    List.mem_filter, decide_eq_true_iff]

/-- An eviction only takes entries away. -/
theorem lookup_of_evict {entries : AList fun _ : RateKey => Entry} {tick : UInt64}
    {key : RateKey} {entry : Entry} (left : (evict entries tick).lookup key = some entry) :
    entries.lookup key = some entry := by
  unfold evict at left
  dsimp only at left
  split at left
  · next victim _ =>
    have other : key ≠ victim := by
      rintro rfl
      rw [AList.lookup_erase] at left
      cases left
    rw [AList.lookup_erase_ne other] at left
    exact (mem_retain.mp left).1
  · exact (mem_retain.mp left).1

namespace Shard

variable {shardCapacity : Nat} {shard : Shard} {key other : RateKey} {tick : UInt64}

theorem lookup_of_room {entry : Entry}
    (left : (shard.room shardCapacity key tick).lookup other = some entry) :
    shard.entries.lookup other = some entry := by
  unfold room at left
  split at left
  · exact lookup_of_evict left
  · exact left

/-- A record finds the entry of its key if there is one. -/
theorem lookup_room_self :
    (shard.room shardCapacity key tick).lookup key = shard.entries.lookup key := by
  unfold room
  split
  · next full =>
    have missing := AList.lookup_eq_none.mpr full.1
    rw [missing]
    refine Option.eq_none_iff_forall_ne_some.mpr fun entry left => ?_
    rw [lookup_of_evict left] at missing
    cases missing
  · rfl

theorem lookup_recordAt_of_ne (different : other ≠ key) :
    (shard.recordAt shardCapacity key tick).2.entries.lookup other =
      (shard.room shardCapacity key tick).lookup other :=
  AList.lookup_insert_ne different

/-- A record leaves an entry whose last tick is its own. -/
theorem lastTick_recordAt {entry : Entry}
    (earlier : ∀ entry, shard.entries.lookup key = some entry → entry.lastTick ≤ tick)
    (after : (shard.recordAt shardCapacity key tick).2.entries.lookup key = some entry) :
    entry.lastTick = tick := by
  have inserted : (shard.recordAt shardCapacity key tick).2.entries.lookup key = some
      (Entry.increment (Entry.advance { ((shard.room shardCapacity key tick).lookup key).getD
        ⟨fun _ => 0, tick, shard.used + 1⟩ with lastUsed := shard.used + 1 } tick) tick) :=
    AList.lookup_insert _
  rw [inserted, lookup_room_self] at after
  cases after
  refine Entry.lastTick_advance ?_
  cases found : shard.entries.lookup key with
  | none => exact UInt64.le_refl tick
  | some entry => exact earlier entry found

/-- A record leaves an entry that has counted it, and returns what that entry has counted. -/
theorem recordAt_counted (shardCapacity : Nat) {records : List Nat} {now : Nat}
    (follows : Follows (shard.entries.lookup key) records now) (order : now ≤ tick.toNat)
    (before : ∀ time ∈ records, time ≤ now) (low : tick.toNat + 60 < 2 ^ 64) :
    (∃ entry, (shard.recordAt shardCapacity key tick).2.entries.lookup key = some entry ∧
      entry.Counted (records ++ [tick.toNat])) ∧
    (shard.recordAt shardCapacity key tick).1 =
      RateSnapshot.ofRecords (records ++ [tick.toNat]) tick.toNat := by
  have older : ∀ time ∈ records, time ≤ tick.toNat := fun time listed =>
    (before time listed).trans order
  obtain ⟨entry, taken, last, counted⟩ : ∃ entry : Entry,
      shard.recordAt shardCapacity key tick =
        (⟨entry.bucket tick, entry.sum tick 0 10, entry.sum tick 0 60⟩,
          ⟨(shard.room shardCapacity key tick).insert key entry, shard.used + 1⟩) ∧
      entry.lastTick = tick ∧ entry.Counted (records ++ [tick.toNat]) := by
    refine ⟨_, rfl, ?_⟩
    rw [lookup_room_self]
    cases found : shard.entries.lookup key with
    | none =>
      rw [found] at follows
      have fresh : (⟨fun _ => 0, tick, shard.used + 1⟩ : Entry).advance tick =
          ⟨fun _ => 0, tick, shard.used + 1⟩ := if_neg (UInt64.lt_irrefl tick)
      have shown : Ring.Shows u32Max records tick.toNat fun _ : Fin 60 => 0 :=
        Ring.shows_of_old fun time listed => (follows time listed).trans order
      rw [Option.getD_none, fresh]
      exact ⟨rfl, Entry.counted_increment rfl older shown⟩
    | some entry =>
      rw [found] at follows
      have counted : ({ entry with lastUsed := shard.used + 1 } : Entry).Counted records :=
        ⟨follows.latest, follows.shown⟩
      have reached : entry.lastTick ≤ tick := UInt64.le_iff_toNat_le.mpr
        (older _ counted.latest.1)
      have last : (({ entry with lastUsed := shard.used + 1 } : Entry).advance tick).lastTick =
          tick := Entry.lastTick_advance reached
      rw [Option.getD_some]
      exact ⟨last, Entry.counted_increment last older (counted.advance reached)⟩
  subst last
  refine ⟨⟨entry, ?_, counted⟩, ?_⟩
  · rw [taken]
    exact AList.lookup_insert _
  · have ten := counted.sum_eq_recent le_rfl low (show 10 ≤ 60 by decide)
    have sixty := counted.sum_eq_recent le_rfl low (le_refl 60)
    rw [Nat.sub_self] at ten sixty
    rw [taken, counted.bucket_eq_recent, ten, sixty]
    rfl

/-- A look returns what the entry has counted. -/
theorem peekAt_eq {records : List Nat} {now : Nat}
    (follows : Follows (shard.entries.lookup key) records now) (order : now ≤ tick.toNat)
    (before : ∀ time ∈ records, time ≤ now)
    (low : ∀ time ∈ records, time + 60 < 2 ^ 64) :
    shard.peekAt key tick = RateSnapshot.ofRecords records tick.toNat := by
  unfold peekAt
  cases found : shard.entries.lookup key with
  | none =>
    rw [found] at follows
    exact (snapshot_of_old fun time listed => (follows time listed).trans order).symm
  | some entry =>
    rw [found] at follows
    have counted : entry.Counted records := follows
    have reached := (before _ counted.latest.1).trans order
    have small := low _ counted.latest.1
    dsimp only
    rw [counted.sum_eq_recent reached small (by decide),
      counted.sum_eq_recent reached small (by decide), RateSnapshot.ofRecords]
    congr 1
    split
    · next current =>
      have same : tick = entry.lastTick := UInt64.toNat_inj.mp (by omega)
      rw [same]
      exact counted.bucket_eq_recent
    · next passed =>
      have nothing : Ring.recent 1 tick.toNat records = 0 := by
        refine Ring.recent_of_old fun time listed => ?_
        have latest := counted.latest.2 time listed
        omega
      rw [nothing, Nat.zero_min]

end Shard

end RateTracker

/-! ### The tracker -/

/-- A tracker has `SHARD_COUNT` shards. -/
structure RateTracker where
  shards : Fin 64 → RateTracker.Shard
  shardCapacity : Nat

/-- A call of the tracker, with the tick that it reads from the clock. -/
inductive RateCall where
  | record (host : String) (network : SourceNetwork) (tick : UInt64)
  | peek (host : String) (network : SourceNetwork) (tick : UInt64)

namespace RateCall

def key : RateCall → RateKey
  | record host network _ | peek host network _ => ⟨host, network⟩

def tick : RateCall → UInt64
  | record _ _ tick | peek _ _ tick => tick

def isRecord : RateCall → Bool
  | record .. => true
  | peek .. => false

/-- There is room for a window above the tick of a record. -/
def Low (call : RateCall) : Prop := call.isRecord = true → call.tick.toNat + 60 < 2 ^ 64

instance (call : RateCall) : Decidable call.Low := inferInstanceAs (Decidable (_ → _))

/-- The clock does not go back from one call to the next. -/
def Ordered (calls : List RateCall) : Prop :=
  calls.Pairwise fun earlier later => earlier.tick ≤ later.tick

instance (calls : List RateCall) : Decidable (Ordered calls) :=
  inferInstanceAs (Decidable (calls.Pairwise _))

/-- The ticks at which a key was recorded. -/
def recordTicks (key : RateKey) (calls : List RateCall) : List Nat :=
  (calls.filter fun call => call.isRecord && decide (call.key = key)).map fun call =>
    call.tick.toNat

theorem recordTicks_concat (key : RateKey) (calls : List RateCall) (call : RateCall) :
    recordTicks key (calls ++ [call]) =
      if call.isRecord = true ∧ call.key = key then recordTicks key calls ++ [call.tick.toNat]
      else recordTicks key calls := by
  rw [recordTicks, List.filter_append, List.map_append, ← recordTicks, List.filter_singleton]
  by_cases own : call.isRecord = true ∧ call.key = key
  · rw [if_pos own, own.1, decide_eq_true own.2, Bool.and_self, cond_true]
    rfl
  · have other : (call.isRecord && decide (call.key = key)) = false := by
      rw [Bool.eq_false_iff, ne_eq, Bool.and_eq_true, decide_eq_true_iff]
      exact own
    rw [if_neg own, other, cond_false, List.map_nil, List.append_nil]

theorem exists_of_mem_recordTicks {key : RateKey} {calls : List RateCall} {time : Nat}
    (listed : time ∈ recordTicks key calls) :
    ∃ call ∈ calls, call.isRecord = true ∧ call.key = key ∧ call.tick.toNat = time := by
  obtain ⟨call, chosen, rfl⟩ := List.mem_map.mp listed
  obtain ⟨member, both⟩ := List.mem_filter.mp chosen
  rw [Bool.and_eq_true, decide_eq_true_iff] at both
  exact ⟨call, member, both.1, both.2, rfl⟩

theorem recordTicks_le {key : RateKey} {calls : List RateCall} {now : Nat}
    (reached : ∀ call ∈ calls, call.tick.toNat ≤ now) :
    ∀ time ∈ recordTicks key calls, time ≤ now := by
  intro time listed
  obtain ⟨call, member, -, -, rfl⟩ := exists_of_mem_recordTicks listed
  exact reached call member

/-- The last call of a run is not before the others. -/
theorem Ordered.reached {calls : List RateCall} {call : RateCall}
    (ordered : Ordered (calls ++ [call])) :
    ∀ earlier ∈ calls, earlier.tick.toNat ≤ call.tick.toNat := fun earlier member =>
  UInt64.le_iff_toNat_le.mp
    ((List.pairwise_append.mp ordered).2.2 earlier member call List.mem_cons_self)

end RateCall

namespace RateTracker

/-- An empty tracker. The capacity is spread over the shards. -/
def new (capacity : Nat) : RateTracker where
  shards := fun _ => ⟨∅, 0⟩
  shardCapacity := max ((capacity + 63) / 64) 1

def len (tracker : RateTracker) : Nat :=
  ∑ index, (tracker.shards index).entries.entries.length

section Calls

/- The hasher of the standard library chooses the shard of a key. -/
variable (shardIndex : RateKey → Fin 64)

def peekAt (tracker : RateTracker) (host : String) (network : SourceNetwork) (tick : UInt64) :
    RateSnapshot :=
  let key := ⟨host, network⟩
  (tracker.shards (shardIndex key)).peekAt key tick

def recordAt (tracker : RateTracker) (host : String) (network : SourceNetwork) (tick : UInt64) :
    RateSnapshot × RateTracker :=
  let key := ⟨host, network⟩
  let (snapshot, shard) :=
    (tracker.shards (shardIndex key)).recordAt tracker.shardCapacity key tick
  (snapshot, { tracker with shards := Function.update tracker.shards (shardIndex key) shard })

/-- What a call returns, and the tracker after it. -/
def perform (tracker : RateTracker) : RateCall → RateSnapshot × RateTracker
  | .record host network tick => tracker.recordAt shardIndex host network tick
  | .peek host network tick => (tracker.peekAt shardIndex host network tick, tracker)

def act (tracker : RateTracker) (call : RateCall) : RateTracker :=
  (tracker.perform shardIndex call).2

/-- The tracker has an entry for a key. -/
def Holds (tracker : RateTracker) (key : RateKey) : Prop :=
  key ∈ (tracker.shards (shardIndex key)).entries

/-- A call pushes a key out. -/
def Evicts (key : RateKey) (tracker : RateTracker) (call : RateCall) : Prop :=
  tracker.Holds shardIndex key ∧ ¬ (tracker.act shardIndex call).Holds shardIndex key

/-! ### Runs -/

/-- The tracker after some calls. -/
def run (capacity : Nat) (calls : List RateCall) : RateTracker :=
  calls.foldl (act shardIndex) (new capacity)

variable {shardIndex} {tracker : RateTracker} {calls : List RateCall} {call : RateCall}
  {key : RateKey}

variable (shardIndex tracker) in
theorem shard_act_self (host : String) (network : SourceNetwork) (tick : UInt64) :
    (tracker.act shardIndex (.record host network tick)).shards (shardIndex ⟨host, network⟩) =
      ((tracker.shards (shardIndex ⟨host, network⟩)).recordAt tracker.shardCapacity
        ⟨host, network⟩ tick).2 :=
  Function.update_self ..

theorem shard_act_of_ne {host : String} {network : SourceNetwork} {tick : UInt64}
    {index : Fin 64} (different : index ≠ shardIndex ⟨host, network⟩) :
    (tracker.act shardIndex (.record host network tick)).shards index = tracker.shards index :=
  Function.update_of_ne different ..

variable (shardIndex tracker) in
/-- A record of another key leaves the entry of a key alone, or pushes it out. -/
theorem lookup_act_of_ne (different : call.isRecord = true → call.key ≠ key) :
    ((tracker.act shardIndex call).shards (shardIndex key)).entries.lookup key =
        (tracker.shards (shardIndex key)).entries.lookup key ∨
      (tracker.Evicts shardIndex key call ∧
        ((tracker.act shardIndex call).shards (shardIndex key)).entries.lookup key = none) := by
  cases call with
  | peek host network tick => exact Or.inl rfl
  | record host network tick =>
    have other : key ≠ ⟨host, network⟩ := (different rfl).symm
    by_cases same : shardIndex key = shardIndex ⟨host, network⟩
    · have after : ((tracker.act shardIndex (.record host network tick)).shards
          (shardIndex key)).entries.lookup key =
          ((tracker.shards (shardIndex key)).room tracker.shardCapacity ⟨host, network⟩
            tick).lookup key := by
        rw [same, shard_act_self]
        exact Shard.lookup_recordAt_of_ne other
      cases left : ((tracker.shards (shardIndex key)).room tracker.shardCapacity ⟨host, network⟩
          tick).lookup key with
      | some entry =>
        left
        rw [after, left, Shard.lookup_of_room left]
      | none =>
        rw [left] at after
        cases found : (tracker.shards (shardIndex key)).entries.lookup key with
        | none => exact Or.inl after
        | some entry =>
          refine Or.inr ⟨⟨?_, ?_⟩, after⟩
          · exact AList.lookup_isSome.mp (by rw [found, Option.isSome_some])
          · exact AList.lookup_eq_none.mp after
    · left
      rw [shard_act_of_ne same]

/-- A call does not push out its own key. -/
theorem not_evicts_own (same : call.key = key) : ¬ tracker.Evicts shardIndex key call := by
  rintro ⟨held, gone⟩
  subst same
  cases call with
  | peek host network tick => exact gone held
  | record host network tick =>
    have member : RateKey.mk host network ∈
        ((tracker.shards (shardIndex ⟨host, network⟩)).recordAt tracker.shardCapacity
          ⟨host, network⟩ tick).2.entries := AList.mem_insert _ |>.mpr (Or.inl rfl)
    rw [← shard_act_self] at member
    exact gone member

/-- What one call preserves. -/
theorem follows_act {now : Nat}
    (follows : Follows ((tracker.shards (shardIndex key)).entries.lookup key)
      (RateCall.recordTicks key calls) now)
    (order : now ≤ call.tick.toNat)
    (before : ∀ time ∈ RateCall.recordTicks key calls, time ≤ now)
    (low : call.Low)
    (kept : tracker.Evicts shardIndex key call →
      ∀ time ∈ RateCall.recordTicks key calls, time + 60 ≤ call.tick.toNat) :
    Follows (((tracker.act shardIndex call).shards (shardIndex key)).entries.lookup key)
      (RateCall.recordTicks key (calls ++ [call])) call.tick.toNat := by
  by_cases own : call.isRecord = true ∧ call.key = key
  · rw [RateCall.recordTicks_concat, if_pos own]
    cases call with
    | peek host network tick => exact absurd own.1 Bool.false_ne_true
    | record host network tick =>
      cases own.2
      obtain ⟨⟨entry, found, counted⟩, -⟩ :=
        Shard.recordAt_counted tracker.shardCapacity follows order before (low rfl)
      have after : ((tracker.act shardIndex (.record host network tick)).shards
          (shardIndex (RateCall.record host network tick).key)).entries.lookup
            (RateCall.record host network tick).key = some entry := by
        rw [← found]
        exact congrArg (fun shard : Shard => shard.entries.lookup ⟨host, network⟩)
          (shard_act_self shardIndex tracker host network tick)
      rw [after]
      exact counted
  · rw [RateCall.recordTicks_concat, if_neg own]
    have different : call.isRecord = true → call.key ≠ key := fun record same => own ⟨record, same⟩
    rcases lookup_act_of_ne shardIndex tracker different with same | ⟨evicts, gone⟩
    · rw [same]
      exact follows.mono order
    · rw [gone]
      exact kept evicts

theorem run_concat (capacity : Nat) (calls : List RateCall) (call : RateCall) :
    run shardIndex capacity (calls ++ [call]) =
      (run shardIndex capacity calls).act shardIndex call :=
  List.foldl_concat ..

/-- What a run preserves: as long as a key is only pushed out when its records are too old to be
counted, its entry has counted its records. -/
theorem follows_run {capacity : Nat} (ordered : RateCall.Ordered calls)
    (low : ∀ call ∈ calls, call.Low)
    (kept : ∀ earlier call, earlier ++ [call] <+: calls →
      (run shardIndex capacity earlier).Evicts shardIndex key call →
        ∀ time ∈ RateCall.recordTicks key earlier, time + 60 ≤ call.tick.toNat)
    {now : Nat} (reached : ∀ call ∈ calls, call.tick.toNat ≤ now) :
    Follows (((run shardIndex capacity calls).shards (shardIndex key)).entries.lookup key)
      (RateCall.recordTicks key calls) now := by
  induction calls using List.reverseRecOn generalizing now with
  | nil => exact fun time listed => nomatch listed
  | append_singleton calls call inductionHypothesis =>
    have follows := inductionHypothesis (List.pairwise_append.mp ordered).1
      (fun other member => low other (List.mem_append_left _ member))
      (fun earlier other inside => kept earlier other (inside.trans (List.prefix_append _ _)))
      ordered.reached
    have last : call ∈ calls ++ [call] := List.mem_append_right _ List.mem_cons_self
    rw [run_concat]
    exact (follows_act follows le_rfl (RateCall.recordTicks_le ordered.reached) (low call last)
      (kept calls call (List.prefix_refl _))).mono (reached call last)

/-- A look leaves the tracker as it is. -/
theorem run_filter (capacity : Nat) (calls : List RateCall) :
    run shardIndex capacity (calls.filter RateCall.isRecord) = run shardIndex capacity calls := by
  induction calls using List.reverseRecOn with
  | nil => rfl
  | append_singleton calls call inductionHypothesis =>
    rw [List.filter_append, run_concat]
    cases call with
    | record host network tick =>
      rw [← inductionHypothesis, ← run_concat]
      rfl
    | peek host network tick =>
      rw [List.filter_cons_of_neg Bool.false_ne_true, List.filter_nil, List.append_nil]
      exact inductionHypothesis

/-- What a call returns is right when the entry of its key has counted the records. -/
theorem perform_eq {now : Nat}
    (follows : Follows ((tracker.shards (shardIndex call.key)).entries.lookup call.key)
      (RateCall.recordTicks call.key calls) now)
    (order : now ≤ call.tick.toNat)
    (before : ∀ time ∈ RateCall.recordTicks call.key calls, time ≤ now)
    (low : ∀ other ∈ calls ++ [call], other.Low) :
    (tracker.perform shardIndex call).1 =
      RateSnapshot.ofRecords (RateCall.recordTicks call.key (calls ++ [call]))
        call.tick.toNat := by
  rw [RateCall.recordTicks_concat]
  cases call with
  | record host network tick =>
    have fits := low _ (List.mem_append_right _ List.mem_cons_self) rfl
    rw [if_pos ⟨rfl, rfl⟩]
    exact (Shard.recordAt_counted tracker.shardCapacity follows order before fits).2
  | peek host network tick =>
    rw [if_neg fun own => Bool.false_ne_true own.1]
    refine Shard.peekAt_eq follows order before fun time listed => ?_
    obtain ⟨other, member, record, -, rfl⟩ := RateCall.exists_of_mem_recordTicks listed
    exact low other (List.mem_append_left _ member) record

/-- As long as a key was not pushed out, a call returns how often it was recorded, and it would
have returned the same without the looks. -/
theorem snapshot_exact (shardIndex : RateKey → Fin 64) (capacity : Nat) (calls : List RateCall)
    (call : RateCall) (ordered : RateCall.Ordered (calls ++ [call]))
    (low : ∀ other ∈ calls ++ [call], other.Low)
    (kept : Machine.Along (act shardIndex)
      (fun tracker other => ¬ tracker.Evicts shardIndex call.key other) (new capacity) calls) :
    ((run shardIndex capacity calls).perform shardIndex call).1 =
        RateSnapshot.ofRecords (RateCall.recordTicks call.key (calls ++ [call]))
          call.tick.toNat ∧
      ((run shardIndex capacity calls).perform shardIndex call).1 =
        ((run shardIndex capacity (calls.filter RateCall.isRecord)).perform shardIndex call).1 := by
  have never : ∀ earlier other, earlier ++ [other] <+: calls →
      (run shardIndex capacity earlier).Evicts shardIndex call.key other →
        ∀ time ∈ RateCall.recordTicks call.key earlier, time + 60 ≤ other.tick.toNat :=
    fun earlier other inside evicts =>
      absurd evicts (Machine.along_iff_forall_prefix.mp kept earlier other inside)
  have follows := follows_run (List.pairwise_append.mp ordered).1
    (fun other member => low other (List.mem_append_left _ member)) never ordered.reached
  refine ⟨?_, by rw [run_filter]⟩
  exact perform_eq follows le_rfl (RateCall.recordTicks_le ordered.reached) low

end Calls

end RateTracker

namespace SampleRates

def network (second third : BitVec 8) : SourceNetwork := .v4 (10#8 ++ second ++ third)

def record (second third : BitVec 8) (tick : UInt64) : RateCall :=
  .record "example.test" (network second third) tick

def peek (second third : BitVec 8) (tick : UInt64) : RateCall :=
  .peek "example.test" (network second third) tick

open RateTracker

theorem looked_later :
    ((run (fun _ => 9) 1024 [record 0 4 5, record 0 4 7]).perform (fun _ => 9) (peek 0 4 66)).1 =
      ⟨0, 0, 1⟩ :=
  (snapshot_exact (fun _ => 9) 1024 [record 0 4 5, record 0 4 7] (peek 0 4 66) (by decide)
    (by decide) ⟨not_evicts_own rfl, not_evicts_own rfl, Machine.along_nil _⟩).1

/-- At the largest tick a record is not counted in the longer spans. -/
theorem last_tick_not_counted :
    ¬ ∀ calls call, RateCall.Ordered (calls ++ [call]) →
      Machine.Along (act fun _ => 9)
        (fun tracker other => ¬ tracker.Evicts (fun _ => 9) call.key other) (new 1024) calls →
      ((run (fun _ => 9) 1024 calls).perform (fun _ => 9) call).1 =
        RateSnapshot.ofRecords (RateCall.recordTicks call.key (calls ++ [call]))
          call.tick.toNat := by
  intro always
  have wrong := always [] (record 0 4 18446744073709551615) (by decide) (Machine.along_nil _)
  exact absurd wrong (by decide)

end SampleRates

end Bagel
