/-
This file settles when a record counts at most once over a whole run of batches,
maintenance, crashes and restarts.

The store remembers the records it has counted in the events table, and pruning
offenses removes the events that no offense is left of. A source is asked again for
some of its records after a restart: a file for those from the stored offset on, which
is the end of the last record, a journal for those from the stored time on, which is
the time of the last record itself. A file is never asked for a record that was
counted. A journal is, so a record is counted once only as long as pruning leaves the
events of the records that a restart asks for.
-/

import Mathlib.Data.Prod.Lex
import Bagel.Progress

namespace Bagel

/-! ### Sources that resume -/

inductive FeedKind where
  | file
  | journal
  deriving DecidableEq

/-- Where the start-up code of a source takes up from a stored checkpoint: the offset that it
seeks to within a generation of the file, or the time it passes to `--since`. A file that was
replaced meanwhile is read from the start of the next generation, which is what comes after
the offset as well. -/
def Checkpoint.resumeMark : Checkpoint → Option (Nat ×ₗ Nat)
  | journal _ realtimeMicros => some (toLex (0, realtimeMicros))
  | file _ _ offset generation _ => some (toLex (generation, offset))
  | _ => none

/-- An ordered source with the mark of each record: the generation and the offset it starts at
in a file, or its time in a journal. The checkpoint of a file record is the offset after it,
that of a journal entry its own time. -/
structure Feed extends Stream where
  kind : FeedKind
  mark : Nat → Nat ×ₗ Nat
  ordered : Monotone mark
  fileOffsets : kind = .file → ∀ index, ∃ device inode offset generation tail,
    checkpoint index = .file device inode offset generation tail ∧
      mark index < toLex (generation, offset) ∧ toLex (generation, offset) ≤ mark (index + 1)
  journalTimes : kind = .journal → ∀ index, ∃ cursor realtimeMicros,
    checkpoint index = .journal cursor realtimeMicros ∧ mark index = toLex (0, realtimeMicros)

namespace Feed

variable (feed : Feed)

/-- A record that the source is asked for when it resumes from the stored checkpoint. -/
def Replayed (store : Store) (index : Nat) : Prop :=
  ∀ stored ∈ (store.checkpoint feed.source).bind Checkpoint.resumeMark, stored ≤ feed.mark index

/-- The source resumes with exactly the records that it is asked for. Without a stored
checkpoint it may start anywhere. -/
def ResumesAt (store : Store) (position : Nat) : Prop :=
  ∀ stored ∈ (store.checkpoint feed.source).bind Checkpoint.resumeMark,
    ∀ index, position ≤ index ↔ stored ≤ feed.mark index

/-- The events of the source within a batch are of its next records, in order. Records that
nothing matched may be left out. -/
def Feeds (feed : Feed) (position stop : Nat) : List EventInput → Prop
  | [] => position ≤ stop
  | input :: rest =>
    if input.source = feed.source then
      ∃ index, position ≤ index ∧ input.eventId = feed.recordId index ∧
        input.checkpoint = feed.checkpoint index ∧ feed.Feeds (index + 1) stop rest
    else feed.Feeds position stop rest

/-- A record has an offense row in the history. -/
def Counted (store : Store) (index : Nat) : Prop :=
  ∃ row ∈ store.inserted, row.source = feed.source ∧ row.eventId = feed.recordId index

/-- A record has an event row. -/
def Noted (store : Store) (index : Nat) : Prop :=
  ∃ row ∈ store.events, row.source = feed.source ∧ row.eventId = feed.recordId index

/-- No record of the source has two offense rows of one policy in the history. -/
def CountedOnce (store : Store) : Prop :=
  (store.inserted.filter fun row => row.source == feed.source).Pairwise fun first second =>
    ¬ (first.eventId = second.eventId ∧ first.policy = second.policy)

instance (store : Store) : Decidable (feed.CountedOnce store) :=
  inferInstanceAs (Decidable (List.Pairwise _ _))

/-- Pruning before a time leaves every noted record of a journal that the source would be
asked for again with an offense. -/
def PruneSafe (store : Store) (before : Nat) : Prop :=
  feed.kind = .journal → ∀ index, feed.Noted store index → feed.Replayed store index →
    ∃ row ∈ store.offenses, row.source = feed.source ∧ row.eventId = feed.recordId index ∧
      before ≤ row.observedAt

end Feed

/-! ### Runs -/

/-- The store and the next record of the source. -/
structure Tape where
  store : Store
  position : Nat

namespace Tape

/-- What can happen, if offenses are only pruned where `safe` allows it. -/
inductive Step (feed : Feed) (safe : Store → Nat → Prop) (tape : Tape) : Tape → Prop where
  /-- A batch is processed as one transaction. -/
  | processed (inputs : List EventInput) (stop : Nat)
      (ordered : feed.Feeds tape.position stop inputs) :
      Step feed safe tape ⟨(StoreCall.processEvents inputs).execute tape.store, stop⟩
  /-- A batch is lost before it is committed. -/
  | lost (inputs : List EventInput) (stop : Nat)
      (ordered : feed.Feeds tape.position stop inputs) : Step feed safe tape ⟨tape.store, stop⟩
  /-- The process or the source starts again. -/
  | restarted (position : Nat) (resumes : feed.ResumesAt tape.store position) :
      Step feed safe tape ⟨tape.store, position⟩
  /-- Maintenance, manual bans, reconciliation and the events of other sources. -/
  | called (call : StoreCall) (foreign : ∀ input ∈ call.inputs, input.source ≠ feed.source)
      (pruning : ∀ before, call = .pruneOffenses before → safe tape.store before) :
      Step feed safe tape ⟨call.execute tape.store, tape.position⟩

inductive Reachable (feed : Feed) (safe : Store → Nat → Prop) : Tape → Prop where
  | started (position : Nat) : Reachable feed safe ⟨Store.empty, position⟩
  | step {tape next : Tape} (before : Reachable feed safe tape)
      (step : Step feed safe tape next) : Reachable feed safe next

end Tape

/-! ### The invariant -/

namespace Feed

variable {feed : Feed}

/-- The mark of a checkpoint lies between its record and the next one, and after its record in
a file. -/
theorem exists_resumeMark (feed : Feed) (index : Nat) :
    ∃ stored, (feed.checkpoint index).resumeMark = some stored ∧ feed.mark index ≤ stored ∧
      (∀ later, index < later → stored ≤ feed.mark later) ∧
      (feed.kind = .file → feed.mark index < stored) := by
  cases kind : feed.kind with
  | file =>
    obtain ⟨device, inode, offset, generation, tail, same, low, high⟩ :=
      feed.fileOffsets kind index
    refine ⟨toLex (generation, offset), by rw [same]; rfl, low.le, ?_, fun _ => low⟩
    exact fun later after => high.trans (feed.ordered after)
  | journal =>
    obtain ⟨cursor, realtimeMicros, same, time⟩ := feed.journalTimes kind index
    refine ⟨feed.mark index, by rw [same, time]; rfl, le_refl _, ?_, fun file => nomatch file⟩
    exact fun later after => feed.ordered (Nat.le_of_lt after)

/-- What holds along a run: the source stands where its checkpoint would make it resume or
later, a counted record that a restart asks for is noted, a file asks for no counted record,
and no record was counted twice. -/
structure Sound (feed : Feed) (tape : Tape) : Prop where
  ahead : ∀ index, tape.position ≤ index → feed.Replayed tape.store index
  noted : ∀ index, feed.Counted tape.store index → feed.Replayed tape.store index →
    feed.Noted tape.store index
  passed : feed.kind = .file → ∀ index, feed.Counted tape.store index →
    ¬ feed.Replayed tape.store index
  once : feed.CountedOnce tape.store

section Sound

variable {store next : Store} {position index stop : Nat}

theorem Sound.forward (sound : feed.Sound ⟨store, position⟩) (order : position ≤ stop) :
    feed.Sound ⟨store, stop⟩ :=
  ⟨fun index after => sound.ahead index (order.trans after), sound.noted, sound.passed, sound.once⟩

/-- The checkpoint of a record at or after the position only asks for what was asked for
before. -/
theorem Sound.replayed_of_stored (sound : feed.Sound ⟨store, position⟩)
    (after : position ≤ index)
    (stored : next.checkpoint feed.source = some (feed.checkpoint index)) {other : Nat}
    (replayed : feed.Replayed next other) : feed.Replayed store other := by
  obtain ⟨mark, same, low, -, -⟩ := feed.exists_resumeMark index
  intro old member
  have asked : mark ≤ feed.mark other := by
    refine replayed mark ?_
    rw [stored]
    exact same
  exact ((sound.ahead index after old member).trans low).trans asked

/-- Moving the checkpoint to a record at or after the position. -/
theorem Sound.advance (sound : feed.Sound ⟨store, position⟩) (after : position ≤ index)
    (stored : next.checkpoint feed.source = some (feed.checkpoint index))
    (counted : ∀ other, feed.Counted next other → feed.Counted store other ∨ other = index)
    (kept : ∀ other, feed.Noted store other → feed.Noted next other)
    (fresh : feed.Counted next index → feed.Noted next index) (once : feed.CountedOnce next) :
    feed.Sound ⟨next, index + 1⟩ := by
  obtain ⟨mark, same, low, high, strict⟩ := feed.exists_resumeMark index
  have asked (other : Nat) : feed.Replayed next other ↔ mark ≤ feed.mark other := by
    simp only [Replayed, stored, Option.bind_some, same, Option.mem_some_iff, forall_eq']
  refine ⟨fun other later => (asked other).mpr (high other later), ?_, ?_, once⟩
  · intro other known replayed
    rcases counted other known with old | rfl
    · exact kept other (sound.noted other old (sound.replayed_of_stored after stored replayed))
    · exact fresh known
  · intro file other known replayed
    rcases counted other known with old | rfl
    · exact sound.passed file other old (sound.replayed_of_stored after stored replayed)
    · exact absurd ((asked other).mp replayed) (not_le.mpr (strict file))

/-- The event of a record at or after the position is counted only if it was not before. -/
theorem Sound.event {input : EventInput} {outcome : EventOutcome}
    (sound : feed.Sound ⟨store, position⟩) (after : position ≤ index)
    (own : input.source = feed.source) (named : input.eventId = feed.recordId index)
    (stored : input.checkpoint = feed.checkpoint index)
    (step : Store.EventStep store input next outcome) : feed.Sound ⟨next, index + 1⟩ := by
  cases step with
  | duplicate seen => exact sound.forward (after.trans (Nat.le_succ index))
  | @recorded middle leases unseen applied =>
    obtain ⟨sameEvents, -, rows, grown, subjects⟩ := Store.applyOffenses_ok applied
    have subject : ∀ row ∈ rows, row.source = feed.source ∧ row.eventId = feed.recordId index := by
      intro row member
      have listed := List.mem_map_of_mem (f := OffenseRow.subject) member
      rw [subjects] at listed
      obtain ⟨offense, -, same⟩ := List.mem_map.mp listed
      obtain ⟨sameSource, rest⟩ := Prod.mk.inj same
      exact ⟨sameSource.symm.trans own, (Prod.mk.inj rest).1.symm.trans named⟩
    have uncounted : ¬ feed.Counted store index := by
      intro counted
      obtain ⟨row, member, sameSource, sameEvent⟩ :=
        sound.noted index counted (sound.ahead index after)
      refine List.any_eq_false.mp unseen row member ?_
      simp [sameSource, own, sameEvent, named]
    have noted : feed.Noted (middle.setCheckpoint input) index := by
      refine ⟨⟨input.source, input.eventId, input.observedAt⟩, ?_, own, named⟩
      show _ ∈ middle.events
      rw [sameEvents]
      exact List.mem_append_right _ (List.mem_singleton_self _)
    refine sound.advance after ?_ ?_ ?_ (fun _ => noted) ?_
    · rw [← own, Store.checkpoint_setCheckpoint, stored]
    · rintro other ⟨row, member, sameSource, sameEvent⟩
      rw [show (middle.setCheckpoint input).inserted = _ from grown] at member
      rcases List.mem_append.mp member with old | new
      · exact Or.inl ⟨row, old, sameSource, sameEvent⟩
      · exact Or.inr (feed.distinct (sameEvent.symm.trans (subject row new).2))
    · rintro other ⟨row, member, same⟩
      refine ⟨row, ?_, same⟩
      show row ∈ middle.events
      rw [sameEvents]
      exact List.mem_append_left _ member
    · rw [CountedOnce, show (middle.setCheckpoint input).inserted = _ from grown,
        List.filter_append]
      refine List.pairwise_append.mpr ⟨sound.once, ?_, fun old oldMember new newMember same => ?_⟩
      · refine List.Pairwise.filter _ ((Store.pairwise_policies applied subjects).imp ?_)
        exact fun different same => different same.2
      · obtain ⟨present, ownOld⟩ := List.mem_filter.mp oldMember
        obtain ⟨added, -⟩ := List.mem_filter.mp newMember
        exact uncounted ⟨old, present, by simpa using ownOld, same.1.trans (subject new added).2⟩

theorem Sound.unmatched {input : EventInput} (sound : feed.Sound ⟨store, position⟩)
    (after : position ≤ index) (own : input.source = feed.source)
    (stored : input.checkpoint = feed.checkpoint index) :
    feed.Sound ⟨store.setCheckpoint input, index + 1⟩ := by
  refine sound.advance after ?_ (fun other => Or.inl) (fun other => id) ?_ sound.once
  · rw [← own, Store.checkpoint_setCheckpoint, stored]
  · exact fun counted => sound.noted index counted (sound.ahead index after)

theorem Sound.keeps (sound : feed.Sound ⟨store, position⟩)
    (kept : Store.Keeps feed.source store next) : feed.Sound ⟨next, position⟩ := by
  have counted (other : Nat) : feed.Counted next other → feed.Counted store other := by
    rintro ⟨row, member, own, named⟩
    exact ⟨row, (kept.mem_inserted own).mp member, own, named⟩
  have replayed (other : Nat) : feed.Replayed next other ↔ feed.Replayed store other := by
    rw [Replayed, kept.checkpoint_eq, ← Replayed]
  refine ⟨fun other after => (replayed other).mpr (sound.ahead other after), ?_, ?_, ?_⟩
  · intro other known asked
    obtain ⟨row, member, own, named⟩ :=
      sound.noted other (counted other known) ((replayed other).mp asked)
    exact ⟨row, kept.kept row member own, own, named⟩
  · exact fun file other known asked =>
      sound.passed file other (counted other known) ((replayed other).mp asked)
  · rw [CountedOnce, kept.inserted]
    exact sound.once

theorem Feeds.le {inputs : List EventInput} (ordered : feed.Feeds position stop inputs) :
    position ≤ stop := by
  induction inputs generalizing position with
  | nil => exact ordered
  | cons input rest inductionHypothesis =>
    rw [Feeds] at ordered
    split at ordered
    · obtain ⟨index, after, -, -, later⟩ := ordered
      exact (after.trans (Nat.le_succ index)).trans (inductionHypothesis later)
    · exact inductionHypothesis ordered

/-- A batch keeps the invariant, event by event within its transaction. -/
theorem Sound.batch {inputs : List EventInput} {outcomes : List EventOutcome}
    (sound : feed.Sound ⟨store, position⟩) (ordered : feed.Feeds position stop inputs)
    (processed : store.processEvents inputs = .ok (next, outcomes)) :
    feed.Sound ⟨next, stop⟩ := by
  induction inputs generalizing store position outcomes with
  | nil =>
    obtain ⟨rfl, -⟩ := Prod.mk.inj (Except.ok.inj processed)
    exact sound.forward ordered
  | cons input rest inductionHypothesis =>
    obtain ⟨middle, outcome, others, later, -, -, head⟩ :=
      Store.processEvents_cons_eq_ok_iff.mp processed
    rw [Feeds] at ordered
    split at ordered
    · next own =>
      obtain ⟨index, after, named, stored, ordered⟩ := ordered
      refine inductionHypothesis ?_ ordered later
      rcases head with ⟨-, rfl, -⟩ | ⟨-, step⟩
      · exact sound.unmatched after own stored
      · exact sound.event after own named stored step
    · next foreign =>
      refine inductionHypothesis (sound.keeps ?_) ordered later
      rcases head with ⟨-, rfl, -⟩ | ⟨-, step⟩
      · exact .setCheckpoint foreign store
      · exact step.keeps foreign

/-- Pruning keeps the invariant where it spares what a restart asks for. -/
theorem Sound.prune (sound : feed.Sound ⟨store, position⟩) {before : Nat}
    (safe : feed.PruneSafe store before) :
    feed.Sound ⟨store.withoutOffenses before, position⟩ := by
  refine ⟨sound.ahead, fun index counted replayed => ?_, sound.passed, sound.once⟩
  cases kind : feed.kind with
  | file => exact absurd replayed (sound.passed kind index counted)
  | journal =>
    have noted := sound.noted index counted replayed
    obtain ⟨offense, present, sameSource, sameEvent, recent⟩ := safe kind index noted replayed
    obtain ⟨row, member, own, named⟩ := noted
    refine ⟨row, Table.mem_delete.mpr ⟨member, ?_⟩, own, named⟩
    have spared : offense ∈ Table.delete (fun row => decide (row.observedAt < before))
        store.offenses :=
      Table.mem_delete.mpr ⟨present, decide_eq_false (Nat.not_lt.mpr recent)⟩
    rw [Bool.not_eq_false']
    exact List.any_eq_true.mpr ⟨offense, spared, by simp [sameSource, own, sameEvent, named]⟩

/-- Records that were counted before bring about no lease. -/
theorem Sound.granted_replay {inputs : List EventInput} {outcomes : List EventOutcome}
    (sound : feed.Sound ⟨store, position⟩) (ordered : feed.Feeds position stop inputs)
    (repeated : ∀ input ∈ inputs, input.source = feed.source ∧
      (input.offenses ≠ [] → ∃ row ∈ store.inserted,
        row.source = input.source ∧ row.eventId = input.eventId))
    (processed : store.processEvents inputs = .ok (next, outcomes)) :
    next.granted = store.granted := by
  induction inputs generalizing store position outcomes with
  | nil =>
    obtain ⟨rfl, -⟩ := Prod.mk.inj (Except.ok.inj processed)
    rfl
  | cons input rest inductionHypothesis =>
    obtain ⟨middle, outcome, others, later, -, -, head⟩ :=
      Store.processEvents_cons_eq_ok_iff.mp processed
    obtain ⟨own, counted⟩ := repeated input List.mem_cons_self
    have repeatedRest := fun other member => repeated other (List.mem_cons_of_mem input member)
    rw [Feeds, if_pos own] at ordered
    obtain ⟨index, after, named, stored, ordered⟩ := ordered
    rcases head with ⟨-, rfl, -⟩ | ⟨matched, step⟩
    · have same := inductionHypothesis (sound.unmatched after own stored) ordered repeatedRest
        later
      exact same
    · obtain ⟨row, member, sameSource, sameEvent⟩ := counted matched
      obtain ⟨event, noted, ownEvent, namedEvent⟩ := sound.noted index
        ⟨row, member, sameSource.trans own, sameEvent.trans named⟩ (sound.ahead index after)
      have seen : store.seen input = true :=
        List.any_eq_true.mpr ⟨event, noted, by simp [ownEvent, own, namedEvent, named]⟩
      cases step with
      | duplicate _ =>
        exact inductionHypothesis (sound.forward (after.trans (Nat.le_succ index))) ordered
          repeatedRest later
      | recorded unseen _ => exact absurd (unseen.symm.trans seen) Bool.false_ne_true

end Sound

end Feed

namespace Tape

variable {feed : Feed} {tape next : Tape}

theorem Step.sound (step : Step feed feed.PruneSafe tape next) (sound : feed.Sound tape) :
    feed.Sound next := by
  cases step with
  | processed inputs stop ordered =>
    cases result : tape.store.processEvents inputs with
    | error fault =>
      rw [StoreCall.execute, Transaction.commit_error result]
      exact sound.forward ordered.le
    | ok output =>
      rw [StoreCall.execute, Transaction.commit_ok result]
      exact sound.batch ordered result
  | lost inputs stop ordered => exact sound.forward ordered.le
  | restarted position resumes =>
    exact ⟨fun index after stored member => (resumes stored member index).mp after, sound.noted,
      sound.passed, sound.once⟩
  | called call foreign pruning =>
    by_cases prunes : ∃ before, call = .pruneOffenses before
    · obtain ⟨before, rfl⟩ := prunes
      cases result : tape.store.pruneOffenses before with
      | error fault =>
        rw [StoreCall.execute, Transaction.commit_error result]
        exact sound
      | ok output =>
        rw [StoreCall.execute, Transaction.commit_ok result, (Store.pruneOffenses_ok result).2]
        exact sound.prune (pruning before rfl)
    · push Not at prunes
      exact sound.keeps (StoreCall.keeps_execute foreign prunes tape.store)

theorem Reachable.sound (reachable : Reachable feed feed.PruneSafe tape) : feed.Sound tape := by
  induction reachable with
  | started position =>
    refine ⟨fun index _ stored member => (nomatch member), ?_, ?_, List.Pairwise.nil⟩
    · exact fun index ⟨row, member, _⟩ => nomatch member
    · exact fun _ index ⟨row, member, _⟩ => nomatch member
  | step _ step inductionHypothesis => exact step.sound inductionHypothesis

end Tape

/-- In every run that prunes offenses only where it spares the journal records that a restart
would ask for, no record has two offense rows of one policy in the whole history, and a batch
of records that were counted before brings about no lease. -/
theorem records_count_once (feed : Feed) (tape : Tape)
    (reachable : Tape.Reachable feed feed.PruneSafe tape) :
    feed.CountedOnce tape.store ∧
      ∀ inputs stop, feed.Feeds tape.position stop inputs →
        (∀ input ∈ inputs, input.source = feed.source ∧
          (input.offenses ≠ [] → ∃ row ∈ tape.store.inserted,
            row.source = input.source ∧ row.eventId = input.eventId)) →
        ((StoreCall.processEvents inputs).execute tape.store).granted = tape.store.granted := by
  have sound := reachable.sound
  refine ⟨sound.once, fun inputs stop ordered repeated => ?_⟩
  cases result : tape.store.processEvents inputs with
  | error fault => rw [StoreCall.execute, Transaction.commit_error result]
  | ok output =>
    rw [StoreCall.execute, Transaction.commit_ok result]
    exact sound.granted_replay ordered repeated result

/-! ### A quiet journal -/

/-- A journal with one entry each microsecond. -/
def quietJournal : Feed where
  source := "sshd"
  recordId := cursorOf
  checkpoint index := .journal (cursorOf index) (100000000 + index)
  distinct := cursorOf_injective
  kind := .journal
  mark index := toLex (0, 100000000 + index)
  ordered _ _ order := Prod.Lex.le_iff.mpr (.inr ⟨rfl, Nat.add_le_add_left order _⟩)
  fileOffsets file := nomatch file
  journalTimes _ index := ⟨cursorOf index, _, rfl, rfl⟩

/-- The first entry: a failed login that is banned at once. -/
def firstEntry : EventInput :=
  ⟨"sshd", cursorOf 0, .journal (cursorOf 0) 100000000, 100,
    [{ sshOffense 0xC0000201#32 100 with maxAttempts := 1 }]⟩

/-- The journal is asked for its first entry again as long as that is the last one stored. -/
theorem resumesAt_quietJournal {store : Store}
    (stored : store.checkpoint "sshd" = some firstEntry.checkpoint) :
    quietJournal.ResumesAt store 0 := by
  intro mark member index
  have member : mark ∈ (store.checkpoint "sshd").bind Checkpoint.resumeMark := member
  rw [stored] at member
  obtain rfl := Option.some.inj member
  exact ⟨fun _ => Prod.Lex.le_iff.mpr (.inr ⟨rfl, Nat.le_add_right _ index⟩),
    fun _ => Nat.zero_le index⟩

theorem feeds_quietJournal : quietJournal.Feeds 0 1 [firstEntry] :=
  ⟨0, Nat.le_refl _, rfl, rfl, Nat.le_refl _⟩

/-- Pruning up to a time before the entry keeps the entry's event. -/
theorem pruneSafe_quietJournal :
    quietJournal.PruneSafe ((StoreCall.processEvents [firstEntry]).execute Store.empty)
      50 := by
  rintro - index ⟨row, member, own, named⟩ -
  obtain rfl := List.mem_singleton.mp member
  exact ⟨_, List.mem_singleton_self _, rfl, named, by decide⟩

/-- The entry is counted, pruning leaves it alone, and its replay changes nothing. -/
theorem records_count_once_in_quiet_journal :
    ∃ tape, Tape.Reachable quietJournal quietJournal.PruneSafe tape ∧
      quietJournal.CountedOnce tape.store ∧ tape.store.inserted.length = 1 := by
  have first : Tape.Reachable quietJournal quietJournal.PruneSafe _ :=
    .step (.started 0) (.processed [firstEntry] 1 feeds_quietJournal)
  have second : Tape.Reachable quietJournal quietJournal.PruneSafe _ :=
    .step first (.called (.pruneOffenses 50) (by decide) fun _ same =>
      StoreCall.pruneOffenses.inj same ▸ pruneSafe_quietJournal)
  have third : Tape.Reachable quietJournal quietJournal.PruneSafe _ :=
    .step second (.restarted 0 (resumesAt_quietJournal rfl))
  have fourth : Tape.Reachable quietJournal quietJournal.PruneSafe _ :=
    .step third (.processed [firstEntry] 1 feeds_quietJournal)
  exact ⟨_, fourth, (records_count_once quietJournal _ fourth).1, by decide⟩

/-- Once pruning has removed the event, a restart counts the entry again, and the replay alone
grants a second lease. -/
theorem replay_counts_record_again :
    ∃ tape, Tape.Reachable quietJournal (fun _ _ => True) tape ∧
      ¬ quietJournal.CountedOnce tape.store ∧ tape.store.granted.length = 2 := by
  have first : Tape.Reachable quietJournal (fun _ _ => True) _ :=
    .step (.started 0) (.processed [firstEntry] 1 feeds_quietJournal)
  have second : Tape.Reachable quietJournal (fun _ _ => True) _ :=
    .step first (.called (.expire 100000) (by decide) fun _ _ => trivial)
  have third : Tape.Reachable quietJournal (fun _ _ => True) _ :=
    .step second (.called (.pruneOffenses 13600) (by decide) fun _ _ => trivial)
  have fourth : Tape.Reachable quietJournal (fun _ _ => True) _ :=
    .step third (.restarted 0 (resumesAt_quietJournal rfl))
  have fifth : Tape.Reachable quietJournal (fun _ _ => True) _ :=
    .step fourth (.processed [firstEntry] 1 feeds_quietJournal)
  exact ⟨_, fifth, by decide, by decide⟩

end Bagel
