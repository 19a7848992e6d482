/-
This file proves when the record of a visit counts every call. A call of the tracker reads the
record of its session, changes it, and writes it back, and the map is locked for the read and for
the write but not in between: whatever another call wrote there in the meantime is written over.

What a call read is the record of the calls that had written by then. Its write is therefore
right exactly when the calls that it missed would have changed nothing: each is a beacon that it
had read or that it brings itself, or a request that a full counter no longer counts. As soon as
one missed call would have counted, the record is wrong from that write on.
-/

import Mathlib.Data.List.AList
import Mathlib.Data.List.DropRight

namespace Bagel

/-! ### The map -/

/-- `MAX_ENTRIES` of a `DecayMap`. -/
def decayMaxEntries : Nat := 65536

/-- A map whose entries are forgotten a while after they were written. Instants and durations
are counted in nanoseconds. -/
structure DecayMap (Key Value : Type) where
  entries : AList fun _ : Key => Value × Nat
  ttl : Nat

namespace DecayMap

variable {Key Value : Type} [DecidableEq Key] (map : DecayMap Key Value) (now : Nat)

def get (key : Key) : Option Value :=
  (map.entries.lookup key).bind fun entry => if now - entry.2 > map.ttl then none else some entry.1

/-- The `retain` of a write. -/
def retain : AList fun _ : Key => Value × Nat :=
  ⟨map.entries.entries.filter fun entry => now - entry.2.2 ≤ map.ttl,
    List.NodupKeys.sublist List.filter_sublist map.entries.nodupKeys⟩

def set (key : Key) (value : Value) : DecayMap Key Value :=
  let kept := map.retain now
  if kept.entries.length < decayMaxEntries ∨ key ∈ kept then
    { map with entries := kept.insert key (value, now) }
  else { map with entries := kept }

variable {map now}

theorem ttl_set {key : Key} {value : Value} : (map.set now key value).ttl = map.ttl := by
  unfold set
  dsimp only
  split <;> rfl

theorem lookup_retain {key : Key} {entry : Value × Nat} :
    (map.retain now).lookup key = some entry ↔
      map.entries.lookup key = some entry ∧ now - entry.2 ≤ map.ttl := by
  rw [← Option.mem_def, ← Option.mem_def, AList.mem_lookup_iff, AList.mem_lookup_iff]
  unfold retain
  rw [List.mem_filter, decide_eq_true_iff]

/-- A write below the capacity is what the next read finds. -/
theorem lookup_set_self {key : Key} {value : Value}
    (room : map.entries.entries.length < decayMaxEntries) :
    (map.set now key value).entries.lookup key = some (value, now) := by
  have fits : (map.retain now).entries.length < decayMaxEntries :=
    Nat.lt_of_le_of_lt (List.length_filter_le _ _) room
  unfold set
  dsimp only
  rw [if_pos (Or.inl fits)]
  exact AList.lookup_insert _

/-- A write leaves the other keys alone as long as they are valid. -/
theorem lookup_set_of_ne {key other : Key} {value : Value} {entry : Value × Nat}
    (different : other ≠ key) :
    (map.set now key value).entries.lookup other = some entry ↔
      map.entries.lookup other = some entry ∧ now - entry.2 ≤ map.ttl := by
  rw [← lookup_retain]
  unfold set
  dsimp only
  split
  · rw [AList.lookup_insert_ne different]
  · rfl

theorem get_of_lookup {key : Key} {value : Value} {inserted : Nat}
    (found : map.entries.lookup key = some (value, inserted)) (valid : now ≤ inserted + map.ttl) :
    map.get now key = some value := by
  unfold get
  rw [found, Option.bind_some, if_neg (by omega)]

theorem get_of_lookup_none {key : Key} (missing : map.entries.lookup key = none) :
    map.get now key = none := by
  unfold get
  rw [missing, Option.bind_none]

/-- Who reads later than a write to another key finds what he would have found before. -/
theorem get_set_of_ne {key other : Key} {value : Value} {later : Nat} (different : other ≠ key)
    (after : now ≤ later) : (map.set now key value).get later other = map.get later other := by
  unfold get
  rw [ttl_set]
  cases found : map.entries.lookup other with
  | none =>
    cases left : (map.set now key value).entries.lookup other with
    | none => rfl
    | some entry =>
      have before := ((lookup_set_of_ne different).mp left).1
      rw [found] at before
      cases before
  | some entry =>
    by_cases valid : now - entry.2 ≤ map.ttl
    · rw [(lookup_set_of_ne different).mpr ⟨found, valid⟩]
    · have gone : (map.set now key value).entries.lookup other = none := by
        refine Option.eq_none_iff_forall_ne_some.mpr fun kept left => valid ?_
        obtain ⟨before, stillValid⟩ := (lookup_set_of_ne different).mp left
        cases found.symm.trans before
        exact stillValid
      have expired : later - entry.2 > map.ttl := by omega
      rw [gone, Option.bind_none, Option.bind_some, if_pos expired]

end DecayMap

/-! ### The record of a visit -/

/-- `u32::MAX` -/
def u32Max : Nat := 4294967295

/-- What one session has done with the pages it was served. -/
structure VisitSnapshot where
  documents : Nat
  pages : Nat
  assets : Nat
  rendered : Bool
  greedy : Bool
  deriving DecidableEq

/-- `VisitSnapshot::default` -/
def VisitSnapshot.fresh : VisitSnapshot := ⟨0, 0, 0, false, false⟩

inductive BeaconKind where
  | positive
  | negative
  deriving DecidableEq

/-- A call of the tracker: `record` or `record_beacon`. -/
inductive VisitCall where
  | record (document : Bool)
  | beacon (kind : BeaconKind)
  deriving DecidableEq

namespace VisitCall

/-- What a call makes of the record that it read. -/
def change : VisitCall → VisitSnapshot → VisitSnapshot
  | record true, snapshot =>
    { snapshot with
      documents := min (snapshot.documents + 1) u32Max
      pages := min (snapshot.pages + 1) u32Max }
  | record false, snapshot => { snapshot with assets := min (snapshot.assets + 1) u32Max }
  | beacon .positive, snapshot => { snapshot with rendered := true, documents := 0 }
  | beacon .negative, snapshot => { snapshot with greedy := true }

/-- Calls that a record already tells of, and one more that would change nothing in it: its
counter is full, or its flag is set. -/
def Known (calls : List VisitCall) : VisitCall → Prop
  | record document => u32Max ≤ calls.count (record document)
  | beacon kind => beacon kind ∈ calls

instance (calls : List VisitCall) (call : VisitCall) : Decidable (Known calls call) :=
  match call with
  | record document => inferInstanceAs (Decidable (u32Max ≤ calls.count (record document)))
  | beacon kind => inferInstanceAs (Decidable (beacon kind ∈ calls))

end VisitCall

/-- The record counts the calls: every request up to what the counters hold, and every kind of
beacon. -/
structure VisitSnapshot.Counts (snapshot : VisitSnapshot) (calls : List VisitCall) : Prop where
  pages : snapshot.pages = min (calls.count (.record true)) u32Max
  assets : snapshot.assets = min (calls.count (.record false)) u32Max
  rendered : snapshot.rendered = true ↔ .beacon .positive ∈ calls
  greedy : snapshot.greedy = true ↔ .beacon .negative ∈ calls

/-! ### Calls that were missed -/

section Missed

variable {Item : Type} [DecidableEq Item] {seen missed : List Item} {last item : Item}

theorem count_append_missed (seen missed : List Item) (last item : Item) :
    (seen ++ missed ++ [last]).count item = (seen ++ [last]).count item + missed.count item := by
  simp only [List.count_append]
  omega

/-- A counter does not notice the calls that were missed when there are none or it is full. -/
theorem min_count_append_missed {bound : Nat} :
    min ((seen ++ [last]).count item) bound = min ((seen ++ missed ++ [last]).count item) bound ↔
      (item ∈ missed → bound ≤ (seen ++ [last]).count item) := by
  rw [count_append_missed]
  by_cases member : item ∈ missed
  · have some : 0 < missed.count item := List.count_pos_iff.mpr member
    constructor
    · intro same _
      omega
    · intro full
      have enough := full member
      omega
  · have none : missed.count item = 0 := List.count_eq_zero.mpr member
    rw [none, Nat.add_zero]
    exact iff_of_true rfl fun listed => absurd listed member

theorem mem_append_missed :
    (item ∈ seen ++ [last] ↔ item ∈ seen ++ missed ++ [last]) ↔
      (item ∈ missed → item ∈ seen ++ [last]) := by
  simp only [List.mem_append]
  tauto

end Missed

namespace VisitSnapshot.Counts

variable {snapshot : VisitSnapshot} {calls seen missed : List VisitCall} {call : VisitCall}

theorem fresh : VisitSnapshot.fresh.Counts [] := by
  constructor <;> simp [VisitSnapshot.fresh]

/-- What a call writes counts the calls that it read about and itself. -/
theorem change (counts : snapshot.Counts calls) (call : VisitCall) :
    (call.change snapshot).Counts (calls ++ [call]) := by
  obtain ⟨pages, assets, rendered, greedy⟩ := counts
  rcases call with (_ | _) | (_ | _)
  all_goals
    refine ⟨?_, ?_, ?_, ?_⟩
    all_goals simp [VisitCall.change, List.count_append, pages, assets, rendered, greedy]
  · omega
  · omega

/-- One record counts two lists of calls when the calls that they differ in are known. -/
theorem append_iff (counts : snapshot.Counts (seen ++ [call])) :
    snapshot.Counts (seen ++ missed ++ [call]) ↔
      ∀ other ∈ missed, VisitCall.Known (seen ++ [call]) other := by
  obtain ⟨pages, assets, rendered, greedy⟩ := counts
  constructor
  · rintro ⟨allPages, allAssets, allRendered, allGreedy⟩ other member
    rcases other with (_ | _) | (_ | _)
    · exact min_count_append_missed.mp (assets.symm.trans allAssets) member
    · exact min_count_append_missed.mp (pages.symm.trans allPages) member
    · exact mem_append_missed.mp (rendered.symm.trans allRendered) member
    · exact mem_append_missed.mp (greedy.symm.trans allGreedy) member
  · intro known
    refine ⟨pages.trans ?_, assets.trans ?_, rendered.trans ?_, greedy.trans ?_⟩
    · exact min_count_append_missed.mpr (known (.record true))
    · exact min_count_append_missed.mpr (known (.record false))
    · exact mem_append_missed.mpr (known (.beacon .positive))
    · exact mem_append_missed.mpr (known (.beacon .negative))

end VisitSnapshot.Counts

/-! ### Calls that overlap -/

/-- The two halves of a call. -/
inductive VisitStep where
  | read
  | write
  deriving DecidableEq

/-- One half of the call of a name, at an instant. -/
structure VisitEvent (Id : Type) where
  id : Id
  step : VisitStep
  now : Nat

/-- The session of a call and what it does there. -/
structure VisitTask where
  session : Vector UInt8 32
  call : VisitCall

/-- The map of the tracker, and the record that each call under way has read. -/
structure VisitTracker (Id : Type) where
  records : DecayMap (Vector UInt8 32) VisitSnapshot
  held : Id → Option VisitSnapshot

namespace VisitTracker

variable {Id : Type} [DecidableEq Id] (tasks : Id → VisitTask)

/-- `WINDOW` -/
def window : Nat := 3600 * 1000000000

/-- What a call that reads now finds: `self.records.get(&session).unwrap_or_default()`. -/
def recordOf (tracker : VisitTracker Id) (now : Nat) (session : Vector UInt8 32) : VisitSnapshot :=
  (tracker.records.get now session).getD .fresh

/-- One half of a call of `record` or `record_beacon`. -/
def step (tracker : VisitTracker Id) (event : VisitEvent Id) : VisitTracker Id :=
  let task := tasks event.id
  match event.step with
  | .read =>
    { tracker with
      held := Function.update tracker.held event.id
        (some (tracker.recordOf event.now task.session)) }
  | .write =>
    match tracker.held event.id with
    | none => tracker
    | some snapshot =>
      ⟨tracker.records.set event.now task.session (task.call.change snapshot),
        Function.update tracker.held event.id none⟩

def run (tracker : VisitTracker Id) (schedule : List (VisitEvent Id)) : VisitTracker Id :=
  schedule.foldl (step tasks) tracker

theorem run_concat (tracker : VisitTracker Id) (schedule : List (VisitEvent Id))
    (event : VisitEvent Id) :
    tracker.run tasks (schedule ++ [event]) = (tracker.run tasks schedule).step tasks event := by
  unfold run
  rw [List.foldl_append]
  rfl

variable (session : Vector UInt8 32)

/-- The event writes the record of the session. -/
def Writes (event : VisitEvent Id) : Prop :=
  event.step = .write ∧ (tasks event.id).session = session

instance (event : VisitEvent Id) : Decidable (Writes tasks session event) :=
  inferInstanceAs (Decidable (_ ∧ _))

def writesOf (schedule : List (VisitEvent Id)) : List (VisitEvent Id) :=
  schedule.filter fun event => Writes tasks session event

/-- The calls of the session that have finished, in the order in which they wrote. -/
def finished (schedule : List (VisitEvent Id)) : List VisitCall :=
  (writesOf tasks session schedule).map fun event => (tasks event.id).call

/-- When the record of the session was last written. -/
def lastWrite (schedule : List (VisitEvent Id)) : Option Nat :=
  (writesOf tasks session schedule).getLast?.map VisitEvent.now

/-- The event is not the one at which a call reads. -/
def notRead (id : Id) (event : VisitEvent Id) : Bool := !decide (event.id = id ∧ event.step = .read)

/-- The calls of the session that had finished when a call under way read its record. -/
def seen (id : Id) (schedule : List (VisitEvent Id)) : List VisitCall :=
  finished tasks session (schedule.rdropWhile (notRead id))

/-- The calls of the session that have finished since. -/
def missed (id : Id) (schedule : List (VisitEvent Id)) : List VisitCall :=
  finished tasks session (schedule.rtakeWhile (notRead id))

section Lists

variable {tasks session} {schedule : List (VisitEvent Id)} {event : VisitEvent Id} {id : Id}

theorem seen_append_missed :
    seen tasks session id schedule ++ missed tasks session id schedule =
      finished tasks session schedule := by
  unfold seen missed finished writesOf
  rw [← List.map_append, ← List.filter_append, List.rdropWhile_append_rtakeWhile]

omit [DecidableEq Id] in
theorem writesOf_concat_of_writes (writes : Writes tasks session event) :
    writesOf tasks session (schedule ++ [event]) = writesOf tasks session schedule ++ [event] := by
  unfold writesOf
  rw [List.filter_append, List.filter_singleton, decide_eq_true writes]
  rfl

omit [DecidableEq Id] in
theorem writesOf_concat_of_not (writes : ¬ Writes tasks session event) :
    writesOf tasks session (schedule ++ [event]) = writesOf tasks session schedule := by
  unfold writesOf
  rw [List.filter_append, List.filter_singleton, decide_eq_false writes]
  exact List.append_nil _

omit [DecidableEq Id] in
theorem finished_concat_of_writes (writes : Writes tasks session event) :
    finished tasks session (schedule ++ [event]) =
      finished tasks session schedule ++ [(tasks event.id).call] := by
  unfold finished
  rw [writesOf_concat_of_writes writes, List.map_append]
  rfl

omit [DecidableEq Id] in
theorem finished_concat_of_not (writes : ¬ Writes tasks session event) :
    finished tasks session (schedule ++ [event]) = finished tasks session schedule := by
  unfold finished
  rw [writesOf_concat_of_not writes]

omit [DecidableEq Id] in
theorem finished_subset {earlier later : List (VisitEvent Id)} (before : earlier <+: later) :
    finished tasks session earlier ⊆ finished tasks session later :=
  List.map_subset _ (before.sublist.filter _).subset

theorem seen_concat_read (reads : event.id = id ∧ event.step = .read) :
    seen tasks session id (schedule ++ [event]) = finished tasks session (schedule ++ [event]) := by
  unfold seen
  rw [List.rdropWhile_concat_neg]
  simp [notRead, reads]

theorem seen_concat_of_not (other : ¬ (event.id = id ∧ event.step = .read)) :
    seen tasks session id (schedule ++ [event]) = seen tasks session id schedule := by
  unfold seen
  rw [List.rdropWhile_concat_pos]
  unfold notRead
  rw [decide_eq_false other]
  rfl

end Lists

/-! ### The conditions of a run and its result -/

/-- A run of any calls, each of which reads and then writes, that keeps the record of a session
that is new to the tracker: the map stays below its capacity, and no call of the session comes
later than the window after the last write. -/
structure Overlapping (start : VisitTracker Id) (schedule : List (VisitEvent Id)) : Prop where
  ttl : start.records.ttl = window
  new : start.records.entries.lookup session = none
  idle : ∀ id, start.held id = none
  ordered : schedule.Pairwise fun first second => first.now ≤ second.now
  begun : ∀ earlier event, earlier ++ [event] <+: schedule → event.step = .write →
    (∃ other ∈ earlier, other.id = event.id ∧ other.step = .read) ∧
      ∀ other ∈ earlier, ¬ (other.id = event.id ∧ other.step = .write)
  valid : ∀ earlier event, earlier ++ [event] <+: schedule → (tasks event.id).session = session →
    ∀ written ∈ lastWrite tasks session earlier, event.now ≤ written + window
  room : ∀ earlier, earlier <+: schedule →
    (start.run tasks earlier).records.entries.entries.length < decayMaxEntries

/-- An instant after a part of a run at which the record is still valid. -/
structure Observes (earlier : List (VisitEvent Id)) (now : Nat) : Prop where
  after : ∀ event ∈ earlier, event.now ≤ now
  valid : ∀ written ∈ lastWrite tasks session earlier, now ≤ written + window

/-- After every part of a run the record of the session counts the calls that have finished,
and a flag that it once had it keeps. -/
structure LosesNothing (start : VisitTracker Id) (schedule : List (VisitEvent Id)) : Prop where
  counted : ∀ earlier now, earlier <+: schedule → Observes tasks session earlier now →
    ((start.run tasks earlier).recordOf now session).Counts (finished tasks session earlier)
  kept : ∀ earlier later now since, earlier <+: later → later <+: schedule →
    Observes tasks session earlier now → Observes tasks session later since →
    (((start.run tasks earlier).recordOf now session).rendered = true →
        ((start.run tasks later).recordOf since session).rendered = true) ∧
      (((start.run tasks earlier).recordOf now session).greedy = true →
        ((start.run tasks later).recordOf since session).greedy = true)

/-- Whenever a call of the session writes, the calls that have finished since it read would
change nothing in what it writes. -/
def MissesNothing (schedule : List (VisitEvent Id)) : Prop :=
  ∀ earlier event, earlier ++ [event] <+: schedule → Writes tasks session event →
    ∀ other ∈ missed tasks session event.id earlier,
      VisitCall.Known (seen tasks session event.id earlier ++ [(tasks event.id).call]) other

/-! ### What one half of a call does to the record -/

section Steps

variable {tasks session} {tracker start : VisitTracker Id} {schedule earlier : List (VisitEvent Id)}
  {event : VisitEvent Id} {now : Nat}

theorem ttl_step : (tracker.step tasks event).records.ttl = tracker.records.ttl := by
  unfold step
  dsimp only
  split
  · rfl
  · split
    · rfl
    · exact DecayMap.ttl_set

theorem ttl_run : (start.run tasks schedule).records.ttl = start.records.ttl := by
  induction schedule using List.reverseRecOn with
  | nil => rfl
  | append_singleton earlier event inductionHypothesis =>
    rw [run_concat, ttl_step, inductionHypothesis]

/-- Only a write to the session changes its record. -/
theorem recordOf_step_of_not (other : ¬ Writes tasks session event) (after : event.now ≤ now) :
    (tracker.step tasks event).recordOf now session = tracker.recordOf now session := by
  unfold step
  dsimp only
  split
  · rfl
  · next writes =>
    split
    · rfl
    · have different : session ≠ (tasks event.id).session := fun same =>
        other ⟨writes, same.symm⟩
      unfold recordOf
      rw [DecayMap.get_set_of_ne different after]

/-- A write to the session is what its record is from then on. -/
theorem recordOf_step_of_writes {snapshot : VisitSnapshot} (writes : Writes tasks session event)
    (held : tracker.held event.id = some snapshot)
    (room : tracker.records.entries.entries.length < decayMaxEntries)
    (valid : now ≤ event.now + tracker.records.ttl) :
    (tracker.step tasks event).recordOf now session = (tasks event.id).call.change snapshot := by
  obtain ⟨write, rfl⟩ := writes
  have found : (tracker.records.set event.now (tasks event.id).session
      ((tasks event.id).call.change snapshot)).entries.lookup (tasks event.id).session =
      some ((tasks event.id).call.change snapshot, event.now) := DecayMap.lookup_set_self room
  unfold step recordOf
  simp only [write, held]
  rw [DecayMap.get_of_lookup found (by rwa [DecayMap.ttl_set]), Option.getD_some]

/-- A call that has read and not written yet holds a record. -/
theorem exists_held {id : Id} (reads : ∃ other ∈ earlier, other.id = id ∧ other.step = .read)
    (writes : ∀ other ∈ earlier, ¬ (other.id = id ∧ other.step = .write)) :
    ∃ snapshot, (start.run tasks earlier).held id = some snapshot := by
  induction earlier using List.reverseRecOn with
  | nil =>
    obtain ⟨other, member, -⟩ := reads
    cases member
  | append_singleton earlier event inductionHypothesis =>
    rw [run_concat]
    obtain ⟨begun, unwritten⟩ := List.forall_mem_append.mp writes |>.imp_right
      (· event List.mem_cons_self)
    obtain ⟨name, half, instant⟩ := event
    by_cases same : name = id
    · cases half with
      | read =>
        cases same
        exact ⟨_, Function.update_self _ _ _⟩
      | write => exact absurd ⟨same, rfl⟩ unwritten
    · obtain ⟨snapshot, held⟩ := inductionHypothesis (by simpa [same] using reads) begun
      refine ⟨snapshot, ?_⟩
      unfold step
      dsimp only
      split
      · exact (Function.update_of_ne (Ne.symm same) _ _).trans held
      · split
        · exact held
        · exact (Function.update_of_ne (Ne.symm same) _ _).trans held

end Steps

/-! ### The run -/

section Runs

variable {tasks session} {start : VisitTracker Id} {schedule earlier : List (VisitEvent Id)}
  {event : VisitEvent Id} {now : Nat}

namespace Overlapping

variable (overlapping : Overlapping tasks session start schedule)

include overlapping

theorem ttl_eq : (start.run tasks earlier).records.ttl = window := ttl_run.trans overlapping.ttl

/-- The record is valid at every half of a call of its session. -/
theorem observes (before : earlier ++ [event] <+: schedule)
    (own : (tasks event.id).session = session) : Observes tasks session earlier event.now := by
  refine ⟨fun other member => ?_, overlapping.valid earlier event before own⟩
  have sorted := overlapping.ordered.sublist before.sublist
  exact (List.pairwise_append.mp sorted).2.2 other member event List.mem_cons_self

/-- What a call under way holds counts the calls that it read about, as long as the records were
right. -/
theorem held_counts (before : earlier <+: schedule)
    (counted : ∀ part now, part <+: earlier → Observes tasks session part now →
      ((start.run tasks part).recordOf now session).Counts (finished tasks session part))
    {id : Id} (own : (tasks id).session = session) {snapshot : VisitSnapshot}
    (held : (start.run tasks earlier).held id = some snapshot) :
    snapshot.Counts (seen tasks session id earlier) := by
  induction earlier using List.reverseRecOn with
  | nil => exact absurd (overlapping.idle id) (by rw [show start.held id = _ from held]; simp)
  | append_singleton earlier event inductionHypothesis =>
    have shorter : earlier <+: earlier ++ [event] := List.prefix_append _ _
    have hypothesis := inductionHypothesis (shorter.trans before) fun part now within =>
      counted part now (within.trans shorter)
    rw [run_concat] at held
    by_cases reads : event.id = id ∧ event.step = .read
    · obtain ⟨rfl, read⟩ := reads
      have unwritten : ¬ Writes tasks session event := fun writes => by
        cases read.symm.trans writes.1
      rw [seen_concat_read ⟨rfl, read⟩, finished_concat_of_not unwritten]
      have result : (start.run tasks earlier).recordOf event.now session = snapshot := by
        simpa [step, read, own] using held
      rw [← result]
      exact counted earlier event.now shorter (overlapping.observes before own)
    · rw [seen_concat_of_not reads]
      refine hypothesis ?_
      obtain ⟨name, half, instant⟩ := event
      unfold step at held
      dsimp only at held
      split at held
      · have different : name ≠ id := fun same => reads ⟨same, rfl⟩
        exact (Function.update_of_ne different.symm _ _).symm.trans held
      · split at held
        · exact held
        · have different : id ≠ name := by
            rintro rfl
            simp at held
          exact (Function.update_of_ne different _ _).symm.trans held

/-- A write of the session leaves a record of the calls that it read about and of itself. -/
theorem counts_of_writes (before : earlier ++ [event] <+: schedule)
    (counted : ∀ part now, part <+: earlier → Observes tasks session part now →
      ((start.run tasks part).recordOf now session).Counts (finished tasks session part))
    (writes : Writes tasks session event) (valid : now ≤ event.now + window) :
    ((start.run tasks (earlier ++ [event])).recordOf now session).Counts
      (seen tasks session event.id earlier ++ [(tasks event.id).call]) := by
  have shorter : earlier <+: schedule := (List.prefix_append _ _).trans before
  obtain ⟨reads, unwritten⟩ := overlapping.begun earlier event before writes.1
  obtain ⟨snapshot, held⟩ : ∃ snapshot, (start.run tasks earlier).held event.id = some snapshot :=
    exists_held reads unwritten
  rw [run_concat, recordOf_step_of_writes writes held (overlapping.room earlier shorter)
    (by rwa [overlapping.ttl_eq])]
  exact (overlapping.held_counts shorter counted writes.2 held).change _

/-- After a write the record is right exactly when the calls that it missed are known. -/
theorem counts_finished_iff (before : earlier ++ [event] <+: schedule)
    (counted : ∀ part now, part <+: earlier → Observes tasks session part now →
      ((start.run tasks part).recordOf now session).Counts (finished tasks session part))
    (writes : Writes tasks session event) (valid : now ≤ event.now + window) :
    ((start.run tasks (earlier ++ [event])).recordOf now session).Counts
        (finished tasks session (earlier ++ [event])) ↔
      ∀ other ∈ missed tasks session event.id earlier,
        VisitCall.Known (seen tasks session event.id earlier ++ [(tasks event.id).call]) other := by
  have whole : seen tasks session event.id earlier ++ missed tasks session event.id earlier =
      finished tasks session earlier := seen_append_missed
  rw [finished_concat_of_writes writes, ← whole]
  exact (overlapping.counts_of_writes before counted writes valid).append_iff

/-- With no call missed that would have counted, the record is right after every part. -/
theorem counts_of_missesNothing (nothing : MissesNothing tasks session schedule)
    (before : earlier <+: schedule) {part : List (VisitEvent Id)} (within : part <+: earlier)
    (observes : Observes tasks session part now) :
    ((start.run tasks part).recordOf now session).Counts (finished tasks session part) := by
  induction earlier using List.reverseRecOn generalizing part now with
  | nil =>
    cases List.prefix_nil.mp within
    have fresh : (start.run tasks []).recordOf now session = .fresh := by
      show (start.records.get now session).getD .fresh = .fresh
      rw [DecayMap.get_of_lookup_none overlapping.new]
      rfl
    rw [fresh]
    exact .fresh
  | append_singleton earlier event inductionHypothesis =>
    have shorter : earlier <+: schedule := (List.prefix_append _ _).trans before
    rcases List.prefix_concat_iff.mp within with rfl | inside
    · by_cases writes : Writes tasks session event
      · have written : lastWrite tasks session (earlier ++ [event]) = some event.now := by
          unfold lastWrite
          rw [writesOf_concat_of_writes writes, List.getLast?_concat]
          rfl
        refine (overlapping.counts_finished_iff before ?_ writes
          (observes.valid _ written)).mpr (nothing earlier event before writes)
        exact fun part now within => inductionHypothesis shorter within
      · have after : event.now ≤ now :=
          observes.after event (List.mem_append_right _ List.mem_cons_self)
        rw [run_concat, recordOf_step_of_not writes after, finished_concat_of_not writes]
        refine inductionHypothesis shorter List.prefix_rfl
          ⟨fun other member => observes.after other (List.mem_append_left _ member), ?_⟩
        intro written last
        refine observes.valid written ?_
        unfold lastWrite at last ⊢
        rwa [writesOf_concat_of_not writes]
    · exact inductionHypothesis shorter inside observes

end Overlapping

/-- Concurrent calls of the tracker lose nothing, at any time, exactly when every write knows of
the calls that have finished since its read. -/
theorem losesNothing_iff (overlapping : Overlapping tasks session start schedule) :
    LosesNothing tasks session start schedule ↔ MissesNothing tasks session schedule := by
  constructor
  · intro nothing earlier event before writes
    have shorter : earlier <+: schedule := (List.prefix_append _ _).trans before
    have valid : Observes tasks session (earlier ++ [event]) event.now := by
      refine ⟨fun other member => ?_, fun written last => ?_⟩
      · rcases List.mem_append.mp member with inside | self
        · exact (overlapping.observes before writes.2).after other inside
        · exact (List.mem_singleton.mp self) ▸ Nat.le_refl _
      · unfold lastWrite at last
        rw [writesOf_concat_of_writes writes, List.getLast?_concat] at last
        cases last
        exact Nat.le_add_right _ _
    refine (overlapping.counts_finished_iff before (fun part now within observes => ?_) writes
      (Nat.le_add_right _ _)).mp (nothing.counted _ event.now before valid)
    exact nothing.counted part now (within.trans shorter) observes
  · intro nothing
    have counted : ∀ earlier now, earlier <+: schedule → Observes tasks session earlier now →
        ((start.run tasks earlier).recordOf now session).Counts (finished tasks session earlier) :=
      fun earlier now before observes =>
        overlapping.counts_of_missesNothing nothing before List.prefix_rfl observes
    refine ⟨counted, fun earlier later now since within before first second => ?_⟩
    have one := counted earlier now (within.trans before) first
    have two := counted later since before second
    have more : finished tasks session earlier ⊆ finished tasks session later :=
      finished_subset within
    exact ⟨fun set => two.rendered.mpr (more (one.rendered.mp set)),
      fun set => two.greedy.mpr (more (one.greedy.mp set))⟩

end Runs

end VisitTracker

/-! ### A page and its picture -/

namespace SampleVisits

open VisitTracker

def session : Vector UInt8 32 := .replicate 32 0

/-- A page, its style sheet and its positive beacon. -/
def tasks : Fin 3 → VisitTask
  | 0 => ⟨session, .record true⟩
  | 1 => ⟨session, .record false⟩
  | 2 => ⟨session, .beacon .positive⟩

def start : VisitTracker (Fin 3) := ⟨⟨∅, window⟩, fun _ => none⟩

/-- The beacon is recorded while the style sheet is. -/
def parallel : List (VisitEvent (Fin 3)) :=
  [⟨0, .read, 0⟩, ⟨0, .write, 1⟩, ⟨1, .read, 2⟩, ⟨2, .read, 3⟩, ⟨2, .write, 4⟩, ⟨1, .write, 5⟩]

/-- A page, its positive beacon twice, and a page of another session. -/
def beacons : Fin 4 → VisitTask
  | 0 => ⟨session, .record true⟩
  | 1 => ⟨session, .beacon .positive⟩
  | 2 => ⟨session, .beacon .positive⟩
  | 3 => ⟨.replicate 32 1, .record true⟩

/-- One beacon is recorded while the other is, and the other session while the page is. -/
def interleaved : List (VisitEvent (Fin 4)) :=
  [⟨0, .read, 0⟩, ⟨3, .read, 1⟩, ⟨0, .write, 2⟩, ⟨1, .read, 3⟩, ⟨3, .write, 4⟩, ⟨2, .read, 5⟩,
    ⟨2, .write, 6⟩, ⟨1, .write, 7⟩]

/-- A property of every event and what came before it, event by event. -/
theorem forall_parts_concat {calls : Nat} {schedule : List (VisitEvent (Fin calls))}
    {property : List (VisitEvent (Fin calls)) → VisitEvent (Fin calls) → Prop}
    (each : ∀ index : Fin schedule.length, property (schedule.take index) schedule[index]) :
    ∀ earlier event, earlier ++ [event] <+: schedule → property earlier event := by
  rintro earlier event ⟨later, rfl⟩
  simpa using each ⟨earlier.length, by simp⟩

theorem forall_prefix {calls : Nat} {schedule : List (VisitEvent (Fin calls))}
    {property : List (VisitEvent (Fin calls)) → Prop}
    (each : ∀ index : Fin (schedule.length + 1), property (schedule.take index)) :
    ∀ earlier, earlier <+: schedule → property earlier := by
  rintro earlier ⟨later, rfl⟩
  simpa using each ⟨earlier.length, by rw [List.length_append]; omega⟩

theorem overlapping_parallel : Overlapping tasks session start parallel where
  ttl := rfl
  new := rfl
  idle := fun _ => rfl
  ordered := by decide
  begun := forall_parts_concat (by decide)
  valid := forall_parts_concat (by decide)
  room := forall_prefix (by decide)

theorem overlapping_interleaved :
    Overlapping beacons session ⟨⟨∅, window⟩, fun _ => none⟩ interleaved where
  ttl := rfl
  new := rfl
  idle := fun _ => rfl
  ordered := by decide
  begun := forall_parts_concat (by decide)
  valid := forall_parts_concat (by decide)
  room := forall_prefix (by decide)

/-- The second beacon is missed by the first, which brings the same, and nothing is lost. -/
theorem losesNothing_interleaved :
    missed beacons session 1 (interleaved.take 7) = [.beacon .positive] ∧
      LosesNothing beacons session ⟨⟨∅, window⟩, fun _ => none⟩ interleaved :=
  ⟨by decide, (losesNothing_iff overlapping_interleaved).mpr (forall_parts_concat (by decide))⟩

/-- The style sheet takes back what the beacon had set. -/
theorem beacon_written_over :
    Overlapping tasks session start parallel ∧
      .beacon .positive ∈ finished tasks session parallel ∧
      ((start.run tasks (parallel.take 5)).recordOf 5 session).rendered = true ∧
      ((start.run tasks parallel).recordOf 5 session).rendered = false ∧
      ¬ LosesNothing tasks session start parallel := by
  have set : .beacon .positive ∈ finished tasks session parallel := by decide
  have taken : ((start.run tasks parallel).recordOf 5 session).rendered = false := by decide
  refine ⟨overlapping_parallel, set, by decide, taken, fun nothing => ?_⟩
  have observes : Observes tasks session parallel 5 := ⟨by decide, by decide⟩
  have counts := nothing.counted parallel 5 List.prefix_rfl observes
  exact Bool.false_ne_true (taken.symm.trans (counts.rendered.mpr set))

end SampleVisits

end Bagel
