/-
This file proves that the checkpoint of a source does not overtake its offenses. A site
is the running defense as one ordered source sees it: batches of records are handed to
it, mixed with those of other sources, a batch may be rolled back, the process may stop
at any point and start again, and the source resumes from the stored checkpoint.

A record counts as done once all offenses of one of its emissions are in the history of
the store. The checkpoint of a record is only ever written when everything up to it is
done: an unmatched record has nothing to commit, a matched one is committed together
with its checkpoint, and a duplicate is not written at all.

The records before the point where the source was last started without a checkpoint
are out of reach, and an emission that detects more than the committed one did is not
made up for: a detector may have remembered earlier lines that a restart forgets.
-/

import Bagel.Defense
import Bagel.Progress

namespace Bagel

/-! ### Handled records -/

namespace Defense

/-- A record is handed to the store unless nothing matched it. -/
theorem handleRecord_ok {defense : Defense} {memory next : Memory} {record : SourceRecord}
    {surroundings : Surroundings} {handled : Handled}
    (handles : defense.handleRecord memory record surroundings = .ok (next, handled)) :
    handled.record = record ∧
      (handled.event = none ∧ handled.offenses = [] ∨
        handled.event = some (eventOf record handled.offenses)) := by
  rw [handleRecord] at handles
  obtain ⟨⟨middle, offenses⟩, -, rest⟩ := Transaction.bind_eq_ok_iff.mp handles
  dsimp only at rest
  split at rest
  · next unmatched =>
    split at rest
    · obtain ⟨-, rfl⟩ := Prod.mk.inj (Except.ok.inj rest)
      have empty : offenses = [] := by simpa using (Bool.and_eq_true_iff.mp unmatched).1
      exact ⟨rfl, Or.inl ⟨rfl, empty⟩⟩
    · obtain ⟨-, rfl⟩ := Prod.mk.inj (Except.ok.inj rest)
      exact ⟨rfl, Or.inr rfl⟩
  · obtain ⟨-, rfl⟩ := Prod.mk.inj (Except.ok.inj rest)
    exact ⟨rfl, Or.inr rfl⟩

/-- What a record became: nothing if nothing matched it, else its event. -/
def Handled.Faithful (handled : Handled) : Prop :=
  handled.event = none ∧ handled.offenses = [] ∨
    handled.event = some (eventOf handled.record handled.offenses)

theorem handleRecords_ok {defense : Defense} {memory next : Memory}
    {records : List (SourceRecord × Surroundings)} {handled : List Handled}
    (handles : defense.handleRecords memory records = .ok (next, handled)) :
    handled.map Handled.record = records.map Prod.fst ∧ ∀ one ∈ handled, one.Faithful := by
  induction records generalizing memory handled with
  | nil =>
    obtain ⟨-, rfl⟩ := Prod.mk.inj (Except.ok.inj handles)
    exact ⟨rfl, by simp⟩
  | cons head rest inductionHypothesis =>
    simp only [handleRecords, Transaction.bind_eq_ok_iff, Prod.exists] at handles
    obtain ⟨middle, one, first, last, others, later, same⟩ := handles
    obtain ⟨rfl, rfl⟩ := Prod.mk.inj (Except.ok.inj same)
    obtain ⟨sameRecord, became⟩ := handleRecord_ok first
    obtain ⟨sameRecords, faithful⟩ := inductionHypothesis later
    refine ⟨by rw [List.map_cons, List.map_cons, sameRecord, sameRecords], fun other member => ?_⟩
    rcases List.mem_cons.mp member with rfl | included
    · rw [Handled.Faithful, sameRecord]
      exact became
    · exact faithful other included

/-- A batch is committed exactly when its records are handled and its events are stored. -/
theorem processRecords_eq_ok_iff {defense : Defense} {memory next : Memory} {store later : Store}
    {records : List (SourceRecord × Surroundings)} {outcomes : List EventOutcome} :
    defense.processRecords memory store records = .ok (next, later, outcomes) ↔
      ∃ handled, defense.handleRecords memory records = .ok (next, handled) ∧
        store.processEvents (pending handled) = .ok (later, outcomes) := by
  simp only [processRecords, Transaction.bind_eq_ok_iff, Prod.exists]
  constructor
  · rintro ⟨middle, handled, handles, rest⟩
    split at rest
    · next empty =>
      obtain ⟨rfl, pair⟩ := Prod.mk.inj (Except.ok.inj rest)
      obtain ⟨rfl, rfl⟩ := Prod.mk.inj pair
      refine ⟨handled, handles, ?_⟩
      rw [List.isEmpty_iff.mp empty]
      rfl
    · simp only [Transaction.bind_eq_ok_iff, Prod.exists] at rest
      obtain ⟨stored, results, processed, same⟩ := rest
      obtain ⟨rfl, pair⟩ := Prod.mk.inj (Except.ok.inj same)
      obtain ⟨rfl, rfl⟩ := Prod.mk.inj pair
      exact ⟨handled, handles, processed⟩
  · rintro ⟨handled, handles, processed⟩
    refine ⟨next, handled, handles, ?_⟩
    split
    · next empty =>
      rw [List.isEmpty_iff.mp empty] at processed
      obtain ⟨rfl, rfl⟩ := Prod.mk.inj (Except.ok.inj processed)
      rfl
    · simp only [Transaction.bind_eq_ok_iff, Prod.exists]
      exact ⟨later, outcomes, processed, rfl⟩

end Defense

/-! ### Emissions -/

/-- One time a record of the source was handed to detection, and the policies and networks
that detection produced offenses for. -/
structure Emission where
  index : Nat
  offenses : List (String × IpNetwork)
  deriving DecidableEq

namespace Stream

/-- The records of the source within a batch are its next ones, in order. -/
def Emits (stream : Stream) (position : Nat) : List SourceRecord → Prop
  | [] => True
  | record :: rest =>
    if record.source = stream.source then
      record.id = stream.recordId position ∧ record.checkpoint = stream.checkpoint position ∧
        stream.Emits (position + 1) rest
    else stream.Emits position rest

/-- The position of the source after a batch. -/
def advance (stream : Stream) (position : Nat) (records : List SourceRecord) : Nat :=
  position + records.countP fun record => record.source == stream.source

/-- What detection produced for the records of the source within a batch. -/
def emissions (stream : Stream) (position : Nat) : List Defense.Handled → List Emission
  | [] => []
  | handled :: rest =>
    if handled.record.source = stream.source then
      ⟨position, handled.offenses.map fun offense => (offense.policy, offense.network)⟩ ::
        stream.emissions (position + 1) rest
    else stream.emissions position rest

/-- The stored checkpoint of the source is that of a record. -/
def StoredAt (stream : Stream) (store : Store) (index : Nat) : Prop :=
  ∃ row, (store.checkpoints.find? fun row => row.source == stream.source) = some row ∧
    row.eventId = stream.recordId index ∧ row.data = stream.checkpoint index

/-- The offense of a record against a network is in the history of the store. -/
def Committed (stream : Stream) (store : Store) (index : Nat) (offense : String × IpNetwork) :
    Prop :=
  ∃ row ∈ store.inserted,
    row.subject = (stream.source, stream.recordId index, offense.1, offense.2)

instance (stream : Stream) (store : Store) (index : Nat) (offense : String × IpNetwork) :
    Decidable (stream.Committed store index offense) :=
  inferInstanceAs (Decidable (∃ row ∈ store.inserted, _))

end Stream

/-! ### Sites -/

/-- The running defense as one source sees it. `origin` is where the source was last started
without a checkpoint, and `emitted` tells what detection has produced so far. -/
structure Site where
  store : Store
  memory : Memory
  position : Nat
  failed : Bool
  origin : Nat
  emitted : List Emission

namespace Site

/-- A new database. The source starts at its beginning or its end. -/
def fresh (defense : Defense) (position : Nat) : Site :=
  ⟨Store.empty, defense.openMemory Store.empty, position, false, position, []⟩

/-- What can happen at a site. -/
inductive Step (defense : Defense) (stream : Stream) (site : Site) : Site → Prop where
  /-- A batch is processed and committed. -/
  | processed (records : List (SourceRecord × Surroundings)) {memory : Memory} {store : Store}
      {outcomes : List EventOutcome} {handled : List Defense.Handled}
      (running : site.failed = false)
      (ordered : stream.Emits site.position (records.map Prod.fst))
      (handles : defense.handleRecords site.memory records = .ok (memory, handled))
      (committed : defense.processRecords site.memory site.store records =
        .ok (memory, store, outcomes)) :
      Step defense stream site
        { site with
          store, memory
          position := stream.advance site.position (records.map Prod.fst)
          emitted := site.emitted ++ stream.emissions site.position handled }
  /-- A batch goes through detection and its transaction is rolled back, or the process stops
  before it is committed. The loop does not go on after that. -/
  | rolledBack (records : List (SourceRecord × Surroundings)) {memory : Memory}
      {handled : List Defense.Handled} (running : site.failed = false)
      (ordered : stream.Emits site.position (records.map Prod.fst))
      (handles : defense.handleRecords site.memory records = .ok (memory, handled)) :
      Step defense stream site
        { site with
          memory
          failed := true
          emitted := site.emitted ++ stream.emissions site.position handled }
  /-- The process starts again. The source resumes after the stored checkpoint, and may repeat
  records up to it. -/
  | restarted (position index : Nat) (stored : stream.StoredAt site.store index)
      (resumes : position ≤ index + 1) :
      Step defense stream site
        { site with memory := defense.openMemory site.store, position, failed := false }
  /-- The process starts again without a stored checkpoint of the source. -/
  | restartedFresh (position : Nat) (absent : site.store.checkpoint stream.source = none) :
      Step defense stream site
        { site with
          memory := defense.openMemory site.store, position, failed := false, origin := position }
  /-- The task of the source starts again within the running process. -/
  | resumed (position index : Nat) (stored : stream.StoredAt site.store index)
      (resumes : position ≤ index + 1) : Step defense stream site { site with position }
  | resumedFresh (position : Nat) (absent : site.store.checkpoint stream.source = none) :
      Step defense stream site { site with position, origin := position }
  /-- Maintenance, manual bans, reconciliation and the events of other sources. -/
  | called (call : StoreCall)
      (foreign : ∀ input ∈ call.inputs, input.source ≠ stream.source) :
      Step defense stream site { site with store := call.execute site.store }

/-- The sites that can be reached. -/
inductive Reachable (defense : Defense) (stream : Stream) : Site → Prop where
  | started (position : Nat) : Reachable defense stream (fresh defense position)
  | step {site next : Site} (before : Reachable defense stream site)
      (step : Step defense stream site next) : Reachable defense stream next

end Site

/-! ### What is done -/

namespace Stream

/-- Some emission of a record has all its offenses in the history. -/
def Done (stream : Stream) (emitted : List Emission) (store : Store) (index : Nat) : Prop :=
  ∃ emission ∈ emitted, emission.index = index ∧
    ∀ offense ∈ emission.offenses, stream.Committed store index offense

/-- Everything between two positions is done. -/
def DoneFrom (stream : Stream) (emitted : List Emission) (store : Store) (origin stop : Nat) :
    Prop :=
  ∀ index, origin ≤ index → index < stop → stream.Done emitted store index

/-- Everything up to the checkpoint of the source is done, and so is every record that has an
event row. -/
structure Settled (stream : Stream) (emitted : List Emission) (origin : Nat) (store : Store) :
    Prop where
  checkpoints : ∀ row ∈ store.checkpoints, row.source = stream.source →
    ∃ index, row.eventId = stream.recordId index ∧
      stream.DoneFrom emitted store origin (index + 1)
  events : ∀ row ∈ store.events, row.source = stream.source →
    ∀ index, row.eventId = stream.recordId index → stream.Done emitted store index

section Settled

variable {stream : Stream} {emitted more : List Emission} {origin position : Nat}
  {store next : Store}

theorem Done.mono {index : Nat} (done : stream.Done emitted store index)
    (grown : ∀ row ∈ store.inserted, row.source = stream.source → row ∈ next.inserted) :
    stream.Done (emitted ++ more) next index := by
  obtain ⟨emission, member, same, committed⟩ := done
  refine ⟨emission, List.mem_append_left _ member, same, fun offense included => ?_⟩
  obtain ⟨row, present, subject⟩ := committed offense included
  exact ⟨row, grown row present (Prod.mk.inj subject).1, subject⟩

theorem Done.later {index : Nat} (done : stream.Done emitted store index)
    (grown : ∀ row ∈ store.inserted, row.source = stream.source → row ∈ next.inserted) :
    stream.Done emitted next index :=
  List.append_nil emitted ▸ done.mono grown

theorem Done.follows {index : Nat} (done : stream.Done emitted store index)
    (followed : Store.Follows stream.source store next) : stream.Done emitted next index :=
  done.later fun _ member own => (followed.mem_inserted own).mpr member

theorem Settled.emit (settled : stream.Settled emitted origin store) :
    stream.Settled (emitted ++ more) origin store := by
  refine ⟨fun row member same => ?_, fun row member same index found => ?_⟩
  · obtain ⟨index, found, done⟩ := settled.checkpoints row member same
    exact ⟨index, found, fun earlier after before =>
      (done earlier after before).mono fun _ member _ => member⟩
  · exact (settled.events row member same index found).mono fun _ member _ => member

theorem Settled.follows (settled : stream.Settled emitted origin store)
    (followed : Store.Follows stream.source store next) : stream.Settled emitted origin next := by
  refine ⟨fun row member same => ?_, fun row member same index found => ?_⟩
  · obtain ⟨index, found, done⟩ :=
      settled.checkpoints row ((followed.mem_checkpoints same).mp member) same
    exact ⟨index, found, fun earlier after before => (done earlier after before).follows followed⟩
  · exact (settled.events row (followed.events row member same) same index found).follows followed

/-- A step that moves the checkpoint of the source to a record at which everything is done. -/
theorem Settled.setCheckpoint {input : EventInput} {index : Nat}
    (settled : stream.Settled emitted origin store) (found : input.eventId = stream.recordId index)
    (done : stream.DoneFrom emitted store origin (index + 1)) :
    stream.Settled emitted origin (store.setCheckpoint input) := by
  refine ⟨fun row member same => ?_, settled.events⟩
  rcases Store.mem_setCheckpoint member with rfl | old
  · exact ⟨index, found, done⟩
  · exact settled.checkpoints row old.1 same

theorem DoneFrom.succ (done : stream.DoneFrom emitted store origin position)
    (last : stream.Done emitted store position) :
    stream.DoneFrom emitted store origin (position + 1) := by
  intro index after before
  rcases Nat.lt_succ_iff_lt_or_eq.mp before with earlier | rfl
  · exact done index after earlier
  · exact last

/-- The event of the next record of the source leaves everything up to it done. -/
theorem Settled.event {input : EventInput} {outcome : EventOutcome}
    (settled : stream.Settled emitted origin store)
    (done : stream.DoneFrom emitted store origin position) (own : input.source = stream.source)
    (found : input.eventId = stream.recordId position)
    (known : ⟨position, input.offenses.map fun offense => (offense.policy, offense.network)⟩ ∈
      emitted)
    (step : Store.EventStep store input next outcome) :
    stream.Settled emitted origin next ∧
      stream.DoneFrom emitted next origin (position + 1) := by
  cases step with
  | duplicate seen =>
    obtain ⟨row, member, same⟩ := List.any_eq_true.mp seen
    simp only [Bool.and_eq_true, beq_iff_eq] at same
    have repeated := settled.events row member (same.1.trans own) position (same.2.trans found)
    exact ⟨settled, done.succ repeated⟩
  | @recorded middle leases unseen applied =>
    obtain ⟨sameEvents, sameCheckpoints, rows, grown, subjects⟩ := Store.applyOffenses_ok applied
    have kept : ∀ row ∈ store.inserted, row.source = stream.source → row ∈ middle.inserted := by
      intro row member _
      rw [grown]
      exact List.mem_append_left _ member
    have last : stream.Done emitted middle position := by
      refine ⟨_, known, rfl, fun offense member => ?_⟩
      obtain ⟨detected, present, rfl⟩ := List.mem_map.mp member
      have listed := List.mem_map_of_mem (f := fun offense : OffenseInput =>
        (input.source, input.eventId, offense.policy, offense.network)) present
      rw [← subjects] at listed
      obtain ⟨row, included, subject⟩ := List.mem_map.mp listed
      refine ⟨row, by rw [grown]; exact List.mem_append_right _ included, ?_⟩
      rw [subject, own, found]
    have done : stream.DoneFrom emitted middle origin (position + 1) :=
      DoneFrom.succ (fun index after before => (done index after before).later kept) last
    refine ⟨Settled.setCheckpoint ⟨fun row member same => ?_, fun row member same index named => ?_⟩
      found done, done⟩
    · rw [sameCheckpoints] at member
      obtain ⟨index, found, before⟩ := settled.checkpoints row member same
      exact ⟨index, found, fun earlier after stop => (before earlier after stop).later kept⟩
    · rw [sameEvents] at member
      rcases List.mem_append.mp member with old | new
      · exact (settled.events row old same index named).later kept
      · rw [List.mem_singleton.mp new] at named
        rw [← stream.distinct (found.symm.trans named)]
        exact last

/-- The events of a batch without the first record, which was handed to the store or not. -/
theorem processEvents_pending_cons {one : Defense.Handled} {rest : List Defense.Handled}
    {outcomes : List EventOutcome} (faithful : one.Faithful)
    (processed : store.processEvents (Defense.pending (one :: rest)) = .ok (next, outcomes)) :
    ∃ middle others, middle.processEvents (Defense.pending rest) = .ok (next, others) ∧
      ((one.offenses = [] ∧ middle = store) ∨
        (one.offenses = [] ∧ middle = store.setCheckpoint (Defense.eventOf one.record [])) ∨
        ∃ outcome, Store.EventStep store (Defense.eventOf one.record one.offenses) middle
          outcome) := by
  rcases faithful with ⟨dropped, unmatched⟩ | passed
  · rw [Defense.pending, List.filterMap_cons_none dropped, ← Defense.pending] at processed
    exact ⟨store, outcomes, processed, .inl ⟨unmatched, rfl⟩⟩
  · rw [Defense.pending, List.filterMap_cons_some passed, ← Defense.pending] at processed
    obtain ⟨middle, outcome, others, later, -, -, head⟩ :=
      Store.processEvents_cons_eq_ok_iff.mp processed
    rcases head with ⟨unmatched, rfl, -⟩ | ⟨-, step⟩
    · have unmatched : one.offenses = [] := unmatched
      exact ⟨_, others, later, .inr (.inl ⟨unmatched, by rw [unmatched]⟩)⟩
    · exact ⟨middle, others, later, .inr (.inr ⟨outcome, step⟩)⟩

/-- A record of the source is done once its part of the batch is. -/
theorem Settled.ownRecord {one : Defense.Handled} {rest : List Defense.Handled}
    {outcomes : List EventOutcome} (faithful : one.Faithful)
    (own : one.record.source = stream.source) (found : one.record.id = stream.recordId position)
    (known : ⟨position, one.offenses.map fun offense => (offense.policy, offense.network)⟩ ∈
      emitted)
    (settled : stream.Settled emitted origin store)
    (done : stream.DoneFrom emitted store origin position)
    (processed : store.processEvents (Defense.pending (one :: rest)) = .ok (next, outcomes)) :
    ∃ middle others, middle.processEvents (Defense.pending rest) = .ok (next, others) ∧
      stream.Settled emitted origin middle ∧
      stream.DoneFrom emitted middle origin (position + 1) := by
  obtain ⟨middle, others, later, head⟩ := processEvents_pending_cons faithful processed
  refine ⟨middle, others, later, ?_⟩
  have unmatched (empty : one.offenses = []) : stream.Done emitted store position := by
    refine ⟨_, known, rfl, fun offense member => ?_⟩
    rw [empty] at member
    exact nomatch member
  rcases head with ⟨empty, rfl⟩ | ⟨empty, rfl⟩ | ⟨outcome, step⟩
  · exact ⟨settled, done.succ (unmatched empty)⟩
  · exact ⟨settled.setCheckpoint found (done.succ (unmatched empty)),
      done.succ (unmatched empty)⟩
  · exact settled.event done own found known step

/-- A record of another source leaves the source alone. -/
theorem follows_otherRecord {one : Defense.Handled} {rest : List Defense.Handled}
    {outcomes : List EventOutcome} (faithful : one.Faithful)
    (foreign : one.record.source ≠ stream.source)
    (processed : store.processEvents (Defense.pending (one :: rest)) = .ok (next, outcomes)) :
    ∃ middle others, middle.processEvents (Defense.pending rest) = .ok (next, others) ∧
      Store.Follows stream.source store middle := by
  obtain ⟨middle, others, later, head⟩ := processEvents_pending_cons faithful processed
  refine ⟨middle, others, later, ?_⟩
  rcases head with ⟨-, rfl⟩ | ⟨-, rfl⟩ | ⟨outcome, step⟩
  · exact (Store.Keeps.refl _ _).toFollows
  · exact (Store.Keeps.setCheckpoint foreign store).toFollows
  · exact (step.keeps foreign).toFollows

/-- A committed batch leaves everything done that it emitted. The induction is over the records
of the batch, with the store as the transaction has it after each of them. -/
theorem Settled.batch {handled : List Defense.Handled} {outcomes : List EventOutcome}
    (faithful : ∀ one ∈ handled, one.Faithful)
    (ordered : stream.Emits position (handled.map Defense.Handled.record))
    (known : ∀ emission ∈ stream.emissions position handled, emission ∈ emitted)
    (settled : stream.Settled emitted origin store)
    (done : stream.DoneFrom emitted store origin position)
    (processed : store.processEvents (Defense.pending handled) = .ok (next, outcomes)) :
    stream.Settled emitted origin next ∧ stream.DoneFrom emitted next origin
      (stream.advance position (handled.map Defense.Handled.record)) := by
  induction handled generalizing store position outcomes with
  | nil =>
    obtain ⟨rfl, -⟩ := Prod.mk.inj (Except.ok.inj processed)
    exact ⟨settled, done⟩
  | cons one rest inductionHypothesis =>
    have faithfulRest := fun other member => faithful other (List.mem_cons_of_mem one member)
    have faithful := faithful one List.mem_cons_self
    by_cases own : one.record.source = stream.source
    · simp only [List.map_cons, Emits, if_pos own] at ordered
      simp only [emissions, if_pos own, List.mem_cons, forall_eq_or_imp] at known
      have advanced : stream.advance position ((one :: rest).map Defense.Handled.record) =
          stream.advance (position + 1) (rest.map Defense.Handled.record) := by
        rw [List.map_cons, advance, advance, List.countP_cons_of_pos (by simp [own])]
        omega
      obtain ⟨middle, others, later, settled, done⟩ :=
        settled.ownRecord faithful own ordered.1 known.1 done processed
      rw [advanced]
      exact inductionHypothesis faithfulRest ordered.2.2 known.2 settled done later
    · simp only [List.map_cons, Emits, if_neg own] at ordered
      simp only [emissions, if_neg own] at known
      have advanced : stream.advance position ((one :: rest).map Defense.Handled.record) =
          stream.advance position (rest.map Defense.Handled.record) := by
        rw [List.map_cons, advance, advance, List.countP_cons_of_neg (by simp [own])]
      obtain ⟨middle, others, later, followed⟩ := follows_otherRecord faithful own processed
      rw [advanced]
      exact inductionHypothesis faithfulRest ordered known (settled.follows followed)
        (fun index after before => (done index after before).follows followed) later

end Settled

end Stream

/-! ### Every reachable site -/

namespace Site

/-- What holds at every site: its store is settled, and while it runs everything before its
position is done. -/
structure Sound (stream : Stream) (site : Site) : Prop where
  settled : stream.Settled site.emitted site.origin site.store
  behind : site.failed = false →
    stream.DoneFrom site.emitted site.store site.origin site.position

variable {defense : Defense} {stream : Stream} {site next : Site}

/-- From a stored checkpoint the source resumes behind what is done. -/
theorem Sound.resume (sound : site.Sound stream) {position index : Nat}
    (stored : stream.StoredAt site.store index) (resumes : position ≤ index + 1) :
    stream.DoneFrom site.emitted site.store site.origin position := by
  obtain ⟨row, found, named, -⟩ := stored
  have own : row.source = stream.source := by simpa using List.find?_some found
  obtain ⟨other, alsoNamed, done⟩ :=
    sound.settled.checkpoints row (List.mem_of_find?_eq_some found) own
  obtain rfl := stream.distinct (named.symm.trans alsoNamed)
  exact fun earlier after before => done earlier after (Nat.lt_of_lt_of_le before resumes)

/-- Without a stored checkpoint the source may start anywhere. -/
theorem Sound.startAt (sound : site.Sound stream) (position : Nat)
    (absent : site.store.checkpoint stream.source = none) :
    stream.Settled site.emitted position site.store := by
  refine ⟨fun row member same => ?_, sound.settled.events⟩
  rw [Store.checkpoint, Option.map_eq_none_iff, List.find?_eq_none] at absent
  exact absurd (by simp [same]) (absent row member)

theorem Step.sound (step : Step defense stream site next) (sound : site.Sound stream) :
    next.Sound stream := by
  cases step with
  | processed records running ordered handles committed =>
    obtain ⟨handled, alsoHandles, processed⟩ := Defense.processRecords_eq_ok_iff.mp committed
    obtain rfl := (Prod.mk.inj (Except.ok.inj (handles.symm.trans alsoHandles))).2
    obtain ⟨sameRecords, faithful⟩ := Defense.handleRecords_ok handles
    rw [← sameRecords] at ordered ⊢
    obtain ⟨settled, done⟩ := sound.settled.emit.batch faithful ordered
      (fun emission member => List.mem_append_right site.emitted member)
      (fun index after before =>
        (sound.behind running index after before).mono fun _ member _ => member)
      processed
    exact ⟨settled, fun _ => done⟩
  | rolledBack records running ordered handles =>
    exact ⟨sound.settled.emit, fun running => Bool.noConfusion running⟩
  | restarted position index stored resumes =>
    exact ⟨sound.settled, fun _ => sound.resume stored resumes⟩
  | restartedFresh position absent =>
    exact ⟨sound.startAt position absent,
      fun _ index after before => absurd before (Nat.not_lt.mpr after)⟩
  | resumed position index stored resumes =>
    exact ⟨sound.settled, fun _ => sound.resume stored resumes⟩
  | resumedFresh position absent =>
    exact ⟨sound.startAt position absent,
      fun _ index after before => absurd before (Nat.not_lt.mpr after)⟩
  | called call foreign =>
    have followed := call.follows_execute foreign site.store
    exact ⟨sound.settled.follows followed, fun running index after before =>
      (sound.behind running index after before).follows followed⟩

theorem Reachable.sound (reachable : Reachable defense stream site) : site.Sound stream := by
  induction reachable with
  | started position =>
    exact ⟨⟨by simp [fresh, Store.empty], by simp [fresh, Store.empty]⟩,
      fun _ index after before => absurd before (Nat.not_lt.mpr after)⟩
  | step _ step inductionHypothesis => exact step.sound inductionHypothesis

end Site

/-- At every reachable site whose stored checkpoint is that of some record, every record up to
it, from where the source was last started without a checkpoint, was emitted and has the
offenses of one of its emissions committed. If all its emissions produced the same offenses,
every offense that detection produced for it is committed. -/
theorem checkpoint_does_not_overtake (defense : Defense) (stream : Stream) (site : Site)
    (reachable : Site.Reachable defense stream site) (last : Nat)
    (stored : stream.StoredAt site.store last) (index : Nat) (reached : site.origin ≤ index)
    (upTo : index ≤ last) :
    (∃ emission ∈ site.emitted, emission.index = index ∧
      ∀ offense ∈ emission.offenses, stream.Committed site.store index offense) ∧
    ((∀ first ∈ site.emitted, ∀ second ∈ site.emitted, first.index = index →
        second.index = index → first.offenses = second.offenses) →
      ∀ emission ∈ site.emitted, emission.index = index →
        ∀ offense ∈ emission.offenses, stream.Committed site.store index offense) := by
  have done := reachable.sound.resume stored (Nat.le_refl _) index reached (Nat.lt_succ_of_le upTo)
  refine ⟨done, fun agree emission member same offense produced => ?_⟩
  obtain ⟨committed, included, alsoSame, history⟩ := done
  rw [agree emission member committed included same alsoSame] at produced
  exact history offense produced

/-! ### A source of failed logins -/

/-- A regular expression that matches one text and captures an address in it. -/
def literalPattern (line address : String) : Pattern where
  captures text :=
    if text = line then some fun name => if name = "address" then some address else none
    else none

/-- A policy that bans a password failure, and a connection that is closed right away. -/
def sshPolicy : CompiledPolicy where
  source := "sshd"
  detector := .regex
    { prefilter := none
      patterns := [literalPattern "Failed password from 192.0.2.3" "192.0.2.3"]
      contextPatterns := [literalPattern "Connection from 192.0.2.3\nDisconnecting" "192.0.2.3"]
      maxContextLines := 3
      contextWindowSecs := 120
      ignore := []
      addressCapture := "address"
      timestampCapture := none
      timestampFormat := .rfc3339 }
  ignored := []
  maxAttempts := 5
  findtimeSecs := 600
  ban := ⟨some 60, 1, [], 0, 3600, false⟩
  action := .dropAll

def sshDefense : Defense where
  policies := [("ssh", sshPolicy)]
  protectedNetworks := []
  noBlock := []
  historyRetentionSecs := 86400
  inProcessSources := []
  listeners := []
  socketPort _ := .error "invalid socket address syntax"
  parsers :=
    { ipNetwork := fun _ => none
      ipAddr := fun raw => if raw = "192.0.2.3" then some (.v4 0xC0000203#32) else none
      rfc3339 := fun _ => none
      strptime := fun _ _ => none
      json := fun _ => none }

def sshStream : Stream where
  source := "sshd"
  recordId := cursorOf
  checkpoint index := .journal (cursorOf index) (1000000 * index)
  distinct := cursorOf_injective

/-- A record of the source, in surroundings without local addresses. -/
def sshRecord (index : Nat) (payload correlation : String) : SourceRecord × Surroundings :=
  (⟨"sshd", cursorOf index, payload, some correlation, index,
    .journal (cursorOf index) (1000000 * index), false⟩, ⟨fun _ => .ok [], fun _ => 0⟩)

def failedPassword (index : Nat) : SourceRecord × Surroundings :=
  sshRecord index "Failed password from 192.0.2.3" "pid:2"

def accused : String × IpNetwork :=
  ("ssh", hostNetwork (.v4 0xC0000203#32))

/-- Two failed logins are committed as one batch, the third is rolled back, and after a restart at
the checkpoint it is emitted again with a fourth. -/
theorem exists_site_after_rollback :
    ∃ site, Site.Reachable sshDefense sshStream site ∧ sshStream.StoredAt site.store 3 ∧
      site.origin = 0 ∧ site.emitted = [0, 1, 2, 2, 3].map fun index => ⟨index, [accused]⟩ := by
  have batch : Site.Reachable sshDefense sshStream _ :=
    .step (.started 0) (.processed [failedPassword 0, failedPassword 1] rfl
      ⟨rfl, rfl, rfl, rfl, trivial⟩ rfl rfl)
  have rolledBack : Site.Reachable sshDefense sshStream _ :=
    .step batch (.rolledBack [failedPassword 2] rfl ⟨rfl, rfl, trivial⟩ rfl)
  have restarted : Site.Reachable sshDefense sshStream _ :=
    .step rolledBack (.restarted 2 1 ⟨_, rfl, rfl, rfl⟩ (Nat.le_refl _))
  have emittedAgain : Site.Reachable sshDefense sshStream _ :=
    .step restarted (.processed [failedPassword 2, failedPassword 3] rfl
      ⟨rfl, rfl, rfl, rfl, trivial⟩ rfl rfl)
  exact ⟨_, emittedAgain, ⟨_, rfl, rfl, rfl⟩, rfl, rfl⟩

theorem checkpoint_does_not_overtake_failed_login :
    ∃ site, Site.Reachable sshDefense sshStream site ∧ sshStream.StoredAt site.store 3 ∧
      ∀ index ≤ 3, sshStream.Committed site.store index accused := by
  obtain ⟨site, reachable, stored, start, emitted⟩ := exists_site_after_rollback
  refine ⟨site, reachable, stored, fun index upTo => ?_⟩
  have committed := (checkpoint_does_not_overtake sshDefense sshStream site reachable 3 stored index
    (start.trans_le (Nat.zero_le index)) upTo).2
  have produced : ∀ emission ∈ site.emitted, emission.offenses = [accused] := by
    rw [emitted, List.forall_mem_map]
    exact fun index member => rfl
  have member : ⟨index, [accused]⟩ ∈ site.emitted := by
    rw [emitted]
    refine List.mem_map_of_mem ?_
    simp only [List.mem_cons]
    omega
  have agree : ∀ first ∈ site.emitted, ∀ second ∈ site.emitted, first.index = index →
      second.index = index → first.offenses = second.offenses :=
    fun first listed second again _ _ => (produced first listed).trans (produced second again).symm
  exact committed agree ⟨index, [accused]⟩ member rfl accused (List.mem_singleton_self _)

/-- A site whose checkpoint has overtaken an offense: the stored checkpoint is that of a later
record, and detection has produced an offense for an earlier one that is not committed. -/
def Site.Overtaken (stream : Stream) (site : Site) : Prop :=
  ∃ last, stream.StoredAt site.store last ∧ ∃ emission ∈ site.emitted, emission.index ≤ last ∧
    ∃ offense ∈ emission.offenses, ¬ stream.Committed site.store emission.index offense

/-- A source that starts at its end, as `--lines=0` makes it, passes over the record of a batch
that was rolled back before any checkpoint was stored. -/
theorem overtaken_after_start_at_end :
    ∃ site, Site.Reachable sshDefense sshStream site ∧ site.Overtaken sshStream ∧
      site.origin = 1 := by
  have first : Site.Reachable sshDefense sshStream _ :=
    .step (.started 0) (.rolledBack [failedPassword 0] rfl ⟨rfl, rfl, trivial⟩ rfl)
  have second : Site.Reachable sshDefense sshStream _ := .step first (.restartedFresh 1 rfl)
  have third : Site.Reachable sshDefense sshStream _ :=
    .step second (.processed [failedPassword 1] rfl ⟨rfl, rfl, trivial⟩ rfl rfl)
  refine ⟨_, third, ⟨1, ⟨_, rfl, rfl, rfl⟩, ⟨0, [accused]⟩, by decide, by decide, accused,
    List.mem_singleton_self _, by decide⟩, rfl⟩

/-- A detector forgets the lines it has seen when the process stops: a record that was
detected together with an earlier line goes undetected when it is emitted again. -/
theorem overtaken_after_forgotten_context :
    ∃ site, Site.Reachable sshDefense sshStream site ∧ site.Overtaken sshStream ∧
      site.origin = 0 := by
  have first : Site.Reachable sshDefense sshStream _ := .step (.started 0) (.processed
    [sshRecord 0 "Connection from 192.0.2.3" "pid:1", failedPassword 1] rfl
    ⟨rfl, rfl, rfl, rfl, trivial⟩ rfl rfl)
  have second : Site.Reachable sshDefense sshStream _ := .step first (.rolledBack
    [sshRecord 2 "Disconnecting" "pid:1"] rfl ⟨rfl, rfl, trivial⟩ rfl)
  have third : Site.Reachable sshDefense sshStream _ :=
    .step second (.restarted 2 1 ⟨_, rfl, rfl, rfl⟩ (Nat.le_refl _))
  have fourth : Site.Reachable sshDefense sshStream _ := .step third (.processed
    [sshRecord 2 "Disconnecting" "pid:1", failedPassword 3] rfl
    ⟨rfl, rfl, rfl, rfl, trivial⟩ rfl rfl)
  refine ⟨_, fourth, ⟨3, ⟨_, rfl, rfl, rfl⟩, ⟨2, [accused]⟩, by decide, by decide, accused,
    List.mem_singleton_self _, by decide⟩, rfl⟩

/-- Both ways in which a checkpoint can overtake an offense. -/
theorem checkpoint_can_overtake :
    (∃ site, Site.Reachable sshDefense sshStream site ∧ site.Overtaken sshStream ∧
      site.origin = 1) ∧
    ∃ site, Site.Reachable sshDefense sshStream site ∧ site.Overtaken sshStream ∧
      site.origin = 0 :=
  ⟨overtaken_after_start_at_end, overtaken_after_forgotten_context⟩

end Bagel
