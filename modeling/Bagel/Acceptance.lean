/-
This file proves that no record can bring the defense to a stop: whatever detection makes
of a batch, the store accepts it.

The store refuses an event for one of three reasons. A time may be out of the range of
SQLite, and every source and every parser of times stays within it. An offense may
collide with a row of its record and policy, but an offense row never outlives its event
row, so a record that is new has no rows, and detection yields one offense for a policy.
And a number of leases may be out of range, which the row identifiers of the lease table
rule out. What remains of an offense is a ban, whose length the configured schedule
bounds.
-/

import Bagel.Checkpoints
import Bagel.Enforceability

namespace Bagel

/-! ### Ban durations -/

theorem saturatingMul_le_saturatingMul {first second third fourth : Nat} (ordered : first ≤ second)
    (otherOrdered : third ≤ fourth) : saturatingMul first third ≤ saturatingMul second fourth :=
  min_le_min_right u64Max (Nat.mul_le_mul ordered otherOrdered)

theorem saturatingTwoPow_le_saturatingTwoPow {first second : Nat} (ordered : first ≤ second) :
    saturatingTwoPow first ≤ saturatingTwoPow second := by
  unfold saturatingTwoPow
  split
  · next small =>
    split
    · exact Nat.pow_le_pow_right Nat.two_pos ordered
    · calc 2 ^ first ≤ 2 ^ 63 := Nat.pow_le_pow_right Nat.two_pos (Nat.le_of_lt_succ small)
        _ ≤ u64Max := by decide
  · next large => rw [if_neg fun small => large (ordered.trans_lt small)]

theorem saturatingMul_pos {first second : Nat} (positive : 0 < first) (otherPositive : 0 < second) :
    0 < saturatingMul first second :=
  lt_min (Nat.mul_pos positive otherPositive) (by decide)

theorem saturatingTwoPow_pos (exponent : Nat) : 0 < saturatingTwoPow exponent := by
  unfold saturatingTwoPow
  split
  · exact Nat.two_pow_pos exponent
  · decide

theorem le_saturatingAdd {first second : Nat} (fits : first ≤ u64Max) :
    first ≤ saturatingAdd first second :=
  le_min (Nat.le_add_right first second) fits

/-- A ban without multipliers and jitter does not get shorter with more prior bans. -/
theorem banDuration_le_banDuration {schedule : BanSchedule} (doubling : schedule.multipliers = [])
    (steady : schedule.jitterSecs = 0) {count later : Nat} (ordered : count ≤ later)
    {draw laterDraw duration : Nat} (lasts : banDuration schedule count draw = some duration) :
    ∃ longer, banDuration schedule later laterDraw = some longer ∧ duration ≤ longer := by
  obtain ⟨base, given, rfl⟩ := Option.map_eq_some_iff.mp lasts
  refine ⟨_, Option.map_eq_some_iff.mpr ⟨base, given, rfl⟩, ?_⟩
  simp only [doubling, steady, List.getElem?_nil, if_true]
  refine min_le_min_right _ (min_le_min_right _ (Nat.add_le_add_right ?_ 0))
  refine saturatingMul_le_saturatingMul le_rfl (saturatingTwoPow_le_saturatingTwoPow ?_)
  exact min_le_min_right _ ordered

theorem banDuration_le {schedule : BanSchedule} {count draw duration : Nat}
    (lasts : banDuration schedule count draw = some duration) :
    duration ≤ schedule.maxDurationSecs := by
  obtain ⟨base, -, rfl⟩ := Option.map_eq_some_iff.mp lasts
  exact min_le_right _ _

/-- An accepted schedule bans for some time. -/
theorem banDuration_pos {policy : String} {schedule : BanSchedule}
    (checked : validateBanSchedule policy schedule = .ok ()) {count draw duration : Nat}
    (lasts : banDuration schedule count draw = some duration) : 0 < duration := by
  rw [validateBanSchedule, refuse_eq_ok_iff] at checked
  simp only [Bool.or_eq_false_iff, beq_eq_false_iff_ne] at checked
  obtain ⟨⟨⟨lasting, factor⟩, multipliers⟩, bounded⟩ := checked
  obtain ⟨base, given, rfl⟩ := Option.map_eq_some_iff.mp lasts
  have basePositive : 0 < base := by
    refine Nat.pos_of_ne_zero fun zero => ?_
    rw [given, zero] at lasting
    exact Bool.noConfusion lasting
  have scaled := saturatingMul_pos basePositive (Nat.pos_of_ne_zero factor)
  refine lt_min (lt_of_lt_of_le ?_ (le_saturatingAdd ?_)) (Nat.pos_of_ne_zero bounded)
  · split
    · exact saturatingMul_pos scaled (saturatingTwoPow_pos _)
    · next multiplier listed =>
      refine saturatingMul_pos scaled (Nat.pos_of_ne_zero fun zero => ?_)
      have member : 0 ∈ schedule.multipliers := zero ▸ List.mem_of_getElem? listed
      rw [List.contains_iff_mem.mpr member] at multipliers
      exact Bool.noConfusion multipliers
  · split <;> exact min_le_right _ _

/-! ### Offenses and their events -/

namespace Store

/-- Every offense row belongs to an event row. -/
def Attributed (store : Store) : Prop :=
  ∀ row ∈ store.offenses, ∃ event ∈ store.events,
    event.source = row.source ∧ event.eventId = row.eventId

/-- While the offenses of an event are recorded, its own event row is there too. -/
structure Noted (input : EventInput) (store : Store) : Prop where
  attributed : store.Attributed
  event : ∃ event ∈ store.events, event.source = input.source ∧ event.eventId = input.eventId

theorem Attributed.noteEvent {store : Store} (before : store.Attributed) (input : EventInput) :
    (store.noteEvent input).Noted input := by
  refine ⟨fun row member => ?_, _, List.mem_append_right _ (List.mem_singleton_self _), rfl, rfl⟩
  obtain ⟨event, present, same⟩ := before row member
  exact ⟨event, List.mem_append_left _ present, same⟩

theorem OffenseStep.noted {store next : Store} {input : EventInput} {offense : OffenseInput}
    {lease : Option Lease} (step : OffenseStep store input offense next lease)
    (before : store.Noted input) : next.Noted input := by
  refine ⟨?_, step.events_eq ▸ before.event⟩
  rw [Attributed, step.events_eq]
  exact step.forall_offenses (fun _ => id) before.event before.attributed

theorem EventStep.attributed {store next : Store} {input : EventInput} {outcome : EventOutcome}
    (step : EventStep store input next outcome) (before : store.Attributed) : next.Attributed := by
  cases step with
  | duplicate seen => exact before
  | recorded unseen applied =>
    have after : Noted input _ := applyOffenses_preserves ?_ (before.noteEvent input) applied
    · exact after.attributed
    · exact fun offense _ store next lease _ _ step => step.noted

theorem attributed_processEvents {inputs : List EventInput} {store next : Store}
    {outcomes : List EventOutcome} (before : store.Attributed)
    (processed : store.processEvents inputs = .ok (next, outcomes)) : next.Attributed := by
  induction inputs generalizing store outcomes with
  | nil =>
    obtain ⟨rfl, -⟩ := Prod.mk.inj (Except.ok.inj processed)
    exact before
  | cons input rest inductionHypothesis =>
    obtain ⟨middle, outcome, others, later, -, -, first⟩ :=
      processEvents_cons_eq_ok_iff.mp processed
    rcases first with ⟨-, rfl, -⟩ | ⟨-, step⟩
    · exact inductionHypothesis (show (store.setCheckpoint input).Attributed from before) later
    · exact inductionHypothesis (step.attributed before) later

/-- Pruning removes an event row only after the last of its offense rows. -/
theorem Attributed.withoutOffenses {store : Store} (attributed : store.Attributed) (before : Nat) :
    (store.withoutOffenses before).Attributed := by
  intro row member
  obtain ⟨present, -⟩ := Table.mem_delete.mp member
  obtain ⟨event, listed, sameSource, sameEvent⟩ := attributed row present
  refine ⟨event, Table.mem_delete.mpr ⟨listed, ?_⟩, sameSource, sameEvent⟩
  rw [Bool.not_eq_false']
  exact List.any_eq_true.mpr ⟨row, member, by simp [sameSource, sameEvent]⟩

end Store

namespace StoreCall

theorem attributed_execute (call : StoreCall) {store : Store} (before : store.Attributed) :
    (call.execute store).Attributed := by
  cases call with
  | processEvent input =>
    rw [execute]
    refine Transaction.commit_preserves before fun next outcome processed => ?_
    exact (Store.applyEvent_eq_ok_iff.mp processed).2.attributed before
  | processEvents inputs =>
    rw [execute]
    exact Transaction.commit_preserves before fun next outcomes processed =>
      Store.attributed_processEvents before processed
  | _ =>
    refine execute_upkeep_preserves (fun bound _ store attributed =>
      attributed.withoutOffenses bound) ?_ ?_ ?_ rfl before
    · exact fun store hit change _ attributed => attributed
    · exact fun store hit attributed => attributed
    · intro store next network action now durationSecs lease blocked attributed
      rw [(Store.manualBlock_ok blocked).2.2]
      exact attributed

/-- In every store that a run can reach, each offense belongs to an event. -/
theorem attributed_run (calls : List StoreCall) : (run calls).Attributed := by
  have initial : Store.empty.Attributed := fun row member => absurd member List.not_mem_nil
  exact Transaction.foldl_preserves calls initial fun call _ store => attributed_execute call

end StoreCall

/-! ### What the store accepts -/

/-- A lease that ends no earlier than it begins and lasts no longer than a limit. It only ends
at once where the range of times does. -/
def Lease.LastsWithin (lease : Lease) (limit : Nat) : Prop :=
  ∀ expiry, lease.expiresAt = some expiry →
    lease.createdAt ≤ expiry ∧ expiry ≤ lease.createdAt + limit ∧
      (lease.createdAt < sqlMax → lease.createdAt < expiry)

/-- An offense that its event can record: its time is in range and its ban takes time. -/
structure EventInput.Records (input : EventInput) (offense : OffenseInput) : Prop where
  fits : input.timeOf offense ≤ sqlMax
  lasting : ∀ count duration, banDuration offense.ban count offense.draw = some duration →
    0 < duration

/-- An event without a cause to be refused. -/
structure EventInput.Sound (input : EventInput) : Prop where
  fits : input.observedAt ≤ sqlMax
  distinct : (input.offenses.map OffenseInput.policy).Nodup
  records : ∀ offense ∈ input.offenses, input.Records offense

namespace Store

theorem lastsWithin_leaseOf (store : Store) {input : EventInput} {offense : OffenseInput}
    (records : input.Records offense) :
    (store.leaseOf input offense).LastsWithin offense.ban.maxDurationSecs := by
  intro expiry expires
  obtain ⟨duration, lasts, rfl⟩ := Option.map_eq_some_iff.mp expires
  have fits := records.fits
  have positive := records.lasting _ duration lasts
  have bounded := banDuration_le lasts
  have sum : saturatingAdd (input.timeOf offense) duration ≤ input.timeOf offense + duration :=
    min_le_left _ _
  have grown : min (input.timeOf offense + duration) sqlMax ≤
      min (saturatingAdd (input.timeOf offense) duration) sqlMax := by
    refine le_min (le_min (min_le_left _ _) ?_) (min_le_right _ _)
    exact (min_le_right _ _).trans (by decide)
  show input.timeOf offense ≤ _ ∧ _ ≤ input.timeOf offense + _ ∧ (input.timeOf offense < _ → _)
  refine ⟨?_, ?_, fun early => ?_⟩
  · exact (le_min (Nat.le_add_right _ _) fits).trans grown
  · exact ((min_le_left _ _).trans sum).trans (Nat.add_le_add_left bounded _)
  · exact (lt_min (Nat.lt_add_of_pos_right positive) early).trans_le grown

/-- An offense whose time is in range always has a step, as long as leases can be counted. -/
theorem exists_offenseStep (store : Store) (input : EventInput) (offense : OffenseInput)
    (room : store.leases.length ≤ sqlMax) :
    ∃ next lease, OffenseStep store input offense next lease := by
  cases active : store.leaseActive offense.policy offense.network (input.timeOf offense) with
  | true => exact ⟨_, _, .absorbed active⟩
  | false =>
    by_cases few : (store.record input offense).countAttempts (input.windowOf offense) <
        offense.maxAttempts
    · exact ⟨_, _, .counted active few⟩
    · exact ⟨_, _, .banned active (Nat.le_of_not_lt few) (List.countP_le_length.trans room)⟩

theorem OffenseStep.length_leases {store next : Store} {input : EventInput}
    {offense : OffenseInput} {lease : Option Lease}
    (step : OffenseStep store input offense next lease) :
    next.leases.length ≤ store.leases.length + 1 := by
  cases step with
  | absorbed active => exact Nat.le_succ _
  | counted inactive few => exact Nat.le_succ _
  | banned inactive enough fits => exact List.length_append.le

theorem OffenseStep.eq_leaseOf {store next : Store} {input : EventInput} {offense : OffenseInput}
    {lease : Lease} (step : OffenseStep store input offense next (some lease)) :
    lease = store.leaseOf input offense := by
  cases step
  rfl

/-- A lease of an event answers one of its offenses. -/
def Answers (input : EventInput) (lease : Lease) : Prop :=
  ∃ offense ∈ input.offenses, lease.policy = offense.policy ∧
    lease.LastsWithin offense.ban.maxDurationSecs

/-- The loop over the offenses of a new event runs to its end: no row has the key of an offense
that is still to come. -/
theorem exists_applyOffenses {input : EventInput} {offenses : List OffenseInput}
    (listed : ∀ offense ∈ offenses, offense ∈ input.offenses)
    (distinct : (offenses.map OffenseInput.policy).Nodup)
    (records : ∀ offense ∈ offenses, input.Records offense) {store : Store}
    (free : ∀ offense ∈ offenses, store.KeyFree input offense)
    (room : store.leases.length + offenses.length ≤ sqlMax) :
    ∃ next leases, store.applyOffenses input offenses = .ok (next, leases) ∧
      next.leases.length ≤ store.leases.length + offenses.length ∧
      ∀ lease ∈ leases, Answers input lease := by
  induction offenses generalizing store with
  | nil => exact ⟨store, [], rfl, le_rfl, fun lease member => absurd member List.not_mem_nil⟩
  | cons offense rest inductionHypothesis =>
    rw [List.length_cons] at room
    obtain ⟨absent, restDistinct⟩ := List.nodup_cons.mp distinct
    obtain ⟨recorded, restRecords⟩ := List.forall_mem_cons.mp records
    obtain ⟨own, restListed⟩ := List.forall_mem_cons.mp listed
    obtain ⟨ownFree, restFree⟩ := List.forall_mem_cons.mp free
    obtain ⟨middle, lease, step⟩ := store.exists_offenseStep input offense (by omega)
    have grown := step.length_leases
    have stillFree : ∀ other ∈ rest, middle.KeyFree input other := by
      intro other member
      rw [keyFree_iff, step.map_rowKey, List.mem_append, List.mem_singleton, not_or]
      refine ⟨keyFree_iff.mp (restFree other member), fun same => absent ?_⟩
      have samePolicy := congrArg (fun key => key.2.2) same
      exact List.mem_map.mpr ⟨other, member, samePolicy⟩
    obtain ⟨next, leases, later, length, answers⟩ := inductionHypothesis restListed restDistinct
      restRecords stillFree (by omega)
    refine ⟨next, lease.toList ++ leases, ?_, by rw [List.length_cons]; omega, ?_⟩
    · simp only [applyOffenses, Transaction.bind_eq_ok_iff, Prod.exists]
      exact ⟨middle, lease, applyOffense_eq_ok_iff.mpr ⟨recorded.fits, ownFree, step⟩, next, leases,
        later, rfl⟩
    · intro other member
      rcases List.mem_append.mp member with first | others
      · obtain rfl := Option.mem_toList.mp first
        rw [step.eq_leaseOf]
        exact ⟨offense, own, rfl, store.lastsWithin_leaseOf recorded⟩
      · exact answers other others

theorem exists_eventStep {input : EventInput} (sound : input.Sound) {store : Store}
    (attributed : store.Attributed)
    (room : store.leases.length + input.offenses.length ≤ sqlMax) :
    ∃ next outcome, EventStep store input next outcome ∧
      next.leases.length ≤ store.leases.length + input.offenses.length ∧
      ∀ lease ∈ outcome.leases, Answers input lease := by
  cases unseen : store.seen input with
  | true =>
    refine ⟨store, _, .duplicate unseen, Nat.le_add_right _ _, fun lease member => ?_⟩
    exact absurd member List.not_mem_nil
  | false =>
    have free : ∀ offense ∈ input.offenses, (store.noteEvent input).KeyFree input offense := by
      rintro offense - row member ⟨sameSource, sameEvent, -⟩
      obtain ⟨event, present, source, eventId⟩ := attributed row member
      have absent := List.any_eq_false.mp unseen event present
      exact absent (by simp [source, eventId, sameSource, sameEvent])
    obtain ⟨middle, leases, applied, length, answers⟩ := exists_applyOffenses (fun _ => id)
      sound.distinct sound.records free room
    exact ⟨_, _, .recorded unseen applied, length, answers⟩

/-- A batch of sound events is accepted, and each of its leases answers an offense. -/
theorem exists_processEvents {inputs : List EventInput} (sound : ∀ input ∈ inputs, input.Sound)
    {store : Store} (attributed : store.Attributed)
    (room : store.leases.length + (inputs.flatMap EventInput.offenses).length ≤ sqlMax) :
    ∃ next outcomes, store.processEvents inputs = .ok (next, outcomes) ∧
      ∀ outcome ∈ outcomes, ∀ lease ∈ outcome.leases, ∃ input ∈ inputs, Answers input lease := by
  induction inputs generalizing store with
  | nil => exact ⟨store, [], rfl, fun outcome member => absurd member List.not_mem_nil⟩
  | cons input rest inductionHypothesis =>
    obtain ⟨first, restSound⟩ := List.forall_mem_cons.mp sound
    rw [List.flatMap_cons, List.length_append] at room
    obtain ⟨middle, outcome, step, kept, length, answers⟩ : ∃ middle outcome,
        ((input.offenses = [] ∧ middle = store.setCheckpoint input ∧ outcome = ⟨false, []⟩) ∨
          (input.offenses ≠ [] ∧ EventStep store input middle outcome)) ∧ middle.Attributed ∧
        middle.leases.length ≤ store.leases.length + input.offenses.length ∧
        ∀ lease ∈ outcome.leases, Answers input lease := by
      by_cases unmatched : input.offenses = []
      · refine ⟨_, _, .inl ⟨unmatched, rfl, rfl⟩, attributed, Nat.le_add_right _ _, ?_⟩
        exact fun lease member => absurd member List.not_mem_nil
      · obtain ⟨middle, outcome, step, rest⟩ := exists_eventStep first attributed (by omega)
        exact ⟨middle, outcome, .inr ⟨unmatched, step⟩, step.attributed attributed, rest⟩
    obtain ⟨next, outcomes, later, others⟩ := inductionHypothesis restSound kept (by omega)
    refine ⟨next, outcome :: outcomes, processEvents_cons_eq_ok_iff.mpr
      ⟨middle, outcome, outcomes, later, rfl, first.fits, step⟩, ?_⟩
    intro other member lease granted
    rcases List.mem_cons.mp member with rfl | included
    · exact ⟨input, List.mem_cons_self, answers lease granted⟩
    · obtain ⟨source, listed, answered⟩ := others other included lease granted
      exact ⟨source, List.mem_cons_of_mem _ listed, answered⟩

end Store

/-! ### Times -/

namespace SourceRecord

/-- `now` of `source.rs`. The system clock counts a signed number of seconds, and one that is
set before the epoch reads as zero. -/
def now (clock : Int64) : Nat := clock.toInt.toNat

/-- The time of a journal entry, of which `__REALTIME_TIMESTAMP` gives the microseconds. -/
def journalTime (realtimeMicros : Option UInt64) (clock : Int64) : Nat :=
  (realtimeMicros.elim (saturatingMul (now clock) 1000000) UInt64.toNat) / 1000000

/-- The times that sources give their records. -/
inductive Timed (record : SourceRecord) : Prop where
  | journal (realtimeMicros : Option UInt64) (clock : Int64)
      (entry : record.observedAt = journalTime realtimeMicros clock)
  | read (clock : Int64) (arrival : record.observedAt = now clock)

theorem now_le (clock : Int64) : now clock ≤ sqlMax := by
  have bounded := clock.toInt_lt
  rw [now, sqlMax]
  omega

theorem Timed.observedAt_le {record : SourceRecord} (timed : record.Timed) :
    record.observedAt ≤ sqlMax := by
  cases timed with
  | read clock arrival => exact arrival ▸ now_le clock
  | journal realtimeMicros clock entry =>
    rw [entry, journalTime]
    have micros : realtimeMicros.elim (saturatingMul (now clock) 1000000) UInt64.toNat ≤
        u64Max := by
      cases realtimeMicros with
      | none =>
        rw [Option.elim_none, saturatingMul]
        exact min_le_right _ _
      | some stamp =>
        have bounded := stamp.toNat_lt
        rw [Option.elim_some, u64Max]
        omega
    have whole : u64Max / 1000000 ≤ sqlMax := by decide
    exact (Nat.div_le_div_right micros).trans whole

end SourceRecord

/-- A parsed date is given by a signed 64-bit number of seconds. -/
structure Parsers.Signed (parsers : Parsers) : Prop where
  rfc3339 : ∀ raw seconds, parsers.rfc3339 raw = some seconds → seconds < 2 ^ 63
  strptime : ∀ format raw seconds, parsers.strptime format raw = some seconds → seconds < 2 ^ 63

namespace Parsers

variable {parsers : Parsers}

theorem secondsOf_le {seconds : Int} {time : Nat} (bounded : seconds < 2 ^ 63)
    (converted : secondsOf seconds = some time) : time ≤ sqlMax := by
  rw [secondsOf] at converted
  split at converted
  · obtain rfl := Option.some.inj converted
    rw [sqlMax]
    omega
  · exact nomatch converted

theorem parseTimestamp_le (signed : parsers.Signed) {raw : String} {format : TimestampFormat}
    {time : Nat} (parsed : parsers.parseTimestamp raw format = some time) : time ≤ sqlMax := by
  cases format with
  | unix =>
    have bounded := (Option.filter_eq_some_iff.mp parsed).2
    exact of_decide_eq_true bounded
  | rfc3339 =>
    obtain ⟨seconds, read, converted⟩ := Option.bind_eq_some_iff.mp parsed
    exact secondsOf_le (signed.rfc3339 raw seconds read) converted
  | strptime format =>
    obtain ⟨seconds, read, converted⟩ := Option.bind_eq_some_iff.mp parsed
    exact secondsOf_le (signed.strptime format raw seconds read) converted

end Parsers

/-! ### Detections -/

section Detections

variable {parsers : Parsers} {receivedAt : Nat} {detection : Detection}

theorem getD_le {timestamp : Option Nat} {bound : Nat}
    (bounded : ∀ time, timestamp = some time → time ≤ bound) (received : receivedAt ≤ bound) :
    timestamp.getD receivedAt ≤ bound := by
  cases timestamp with
  | none => exact received
  | some time => exact bounded time rfl

theorem RegexDetector.observedAt_detectPattern (signed : parsers.Signed)
    (received : receivedAt ≤ sqlMax) {detector : RegexDetector} {text : String} {pattern : Pattern}
    (detected : detector.detectPattern parsers receivedAt text pattern = some detection) :
    detection.observedAt ≤ sqlMax := by
  simp only [detectPattern, Option.bind_eq_bind, Option.bind_eq_some_iff] at detected
  obtain ⟨captures, -, address, -, network, -, same⟩ := detected
  obtain rfl := Option.some.inj same
  refine getD_le (fun time parsed => ?_) received
  simp only [Option.bind_eq_some_iff] at parsed
  obtain ⟨name, -, raw, -, parsed⟩ := parsed
  exact Parsers.parseTimestamp_le signed parsed

theorem RegexDetector.observedAt_detect (signed : parsers.Signed) (received : receivedAt ≤ sqlMax)
    {detector : RegexDetector} {context : Context} {record : String} {correlation : Option String}
    (detected : (detector.detect parsers context record receivedAt correlation).2 =
      some detection) : detection.observedAt ≤ sqlMax := by
  have texts : ∀ text patterns, detector.detectText parsers receivedAt text patterns =
      some detection → detection.observedAt ≤ sqlMax := by
    intro text patterns found
    obtain ⟨pattern, -, matched⟩ := List.exists_of_findSome?_eq_some found
    exact observedAt_detectPattern signed received matched
  rw [detect] at detected
  split at detected
  · exact nomatch detected
  · split at detected
    · exact nomatch detected
    · dsimp only at detected
      split at detected
      · exact texts _ _ detected
      · split at detected
        · exact texts _ _ detected
        · dsimp only at detected
          cases direct : detector.detectText parsers receivedAt _ detector.patterns with
          | none =>
            rw [direct] at detected
            exact texts _ _ detected
          | some first =>
            rw [direct] at detected
            exact texts _ _ (direct.trans detected)

theorem JsonDetector.observedAt_detect (signed : parsers.Signed) (received : receivedAt ≤ sqlMax)
    {detector : JsonDetector} {record : String}
    (detected : detector.detect parsers record receivedAt = some detection) :
    detection.observedAt ≤ sqlMax := by
  simp only [detect, Option.bind_eq_bind, Option.bind_eq_some_iff] at detected
  obtain ⟨value, -, _, -, address, -, raw, -, network, -, grouped⟩ := detected
  have timed : (detector.timestampPointer.bind fun pointer => (value.pointer pointer).bind
      fun actual => actual.asStr.bind fun raw =>
        parsers.parseTimestamp raw detector.timestampFormat).getD receivedAt ≤ sqlMax := by
    refine getD_le (fun time parsed => ?_) received
    simp only [Option.bind_eq_some_iff] at parsed
    obtain ⟨pointer, -, actual, -, raw, -, parsed⟩ := parsed
    exact Parsers.parseTimestamp_le signed parsed
  split at grouped
  · obtain rfl := Option.some.inj grouped
    exact timed
  · obtain ⟨groupKey, -, same⟩ := Option.bind_eq_some_iff.mp grouped
    obtain rfl := Option.some.inj same
    exact timed

/-- Every detection is timed within the range of the store. -/
theorem CompiledDetector.observedAt_detect (signed : parsers.Signed)
    (received : receivedAt ≤ sqlMax) {detector : CompiledDetector} {context : Context}
    {record : String} {correlation : Option String}
    (detected : (detector.detect parsers context record receivedAt correlation).2 =
      some detection) : detection.observedAt ≤ sqlMax := by
  cases detector with
  | regex detector => exact RegexDetector.observedAt_detect signed received detected
  | json detector => exact JsonDetector.observedAt_detect signed received detected

end Detections

/-! ### Batches -/

namespace Defense

/-- What detection makes of a record: for some of the policies an offense each, on the terms of
the policy and with a time in range. -/
structure Detected (policies : List (String × CompiledPolicy)) (record : SourceRecord)
    (offenses : List OffenseInput) : Prop where
  names : (offenses.map OffenseInput.policy).Sublist (policies.map Prod.fst)
  terms : ∀ offense ∈ offenses, ∃ entry ∈ policies,
    offense.policy = entry.1 ∧ offense.ban = entry.2.ban
  times : ∀ offense ∈ offenses, offense.observedAt.getD record.observedAt ≤ sqlMax

theorem Detected.nil (policies : List (String × CompiledPolicy)) (record : SourceRecord) :
    Detected policies record [] :=
  ⟨List.nil_sublist _, fun _ member => absurd member List.not_mem_nil,
    fun _ member => absurd member List.not_mem_nil⟩

/-- A policy without an offense. -/
theorem Detected.skip {policies : List (String × CompiledPolicy)} {record : SourceRecord}
    {offenses : List OffenseInput} (detected : Detected policies record offenses)
    (entry : String × CompiledPolicy) : Detected (entry :: policies) record offenses := by
  refine ⟨detected.names.cons entry.1, fun offense member => ?_, detected.times⟩
  obtain ⟨found, listed, same⟩ := detected.terms offense member
  exact ⟨found, List.mem_cons_of_mem _ listed, same⟩

/-- A policy with an offense. -/
theorem Detected.take {policies : List (String × CompiledPolicy)} {record : SourceRecord}
    {offenses : List OffenseInput} (detected : Detected policies record offenses)
    (defense : Defense) (name : String) (policy : CompiledPolicy) {detection : Detection}
    (draw : Nat) (fits : detection.observedAt ≤ sqlMax) :
    Detected ((name, policy) :: policies) record
      (defense.offenseInput name policy detection draw :: offenses) := by
  have skipped := detected.skip (name, policy)
  refine ⟨detected.names.cons_cons name, ?_, ?_⟩
  · rw [List.forall_mem_cons]
    exact ⟨⟨(name, policy), List.mem_cons_self, rfl, rfl⟩, skipped.terms⟩
  · rw [List.forall_mem_cons]
    exact ⟨fits, detected.times⟩

variable {defense : Defense}

theorem matchPolicies_detected (signed : defense.parsers.Signed) {record : SourceRecord}
    (received : record.observedAt ≤ sqlMax) {surroundings : Surroundings} {memory next : Memory}
    {policies : List (String × CompiledPolicy)} {offenses : List OffenseInput}
    (matched : defense.matchPolicies record surroundings memory policies = .ok (next, offenses)) :
    Detected policies record offenses := by
  induction policies generalizing memory offenses with
  | nil =>
    obtain ⟨-, rfl⟩ := Prod.mk.inj (Except.ok.inj matched)
    exact Detected.nil _ _
  | cons head rest inductionHypothesis =>
    obtain ⟨name, policy⟩ := head
    rw [matchPolicies] at matched
    split at matched
    · exact (inductionHypothesis matched).skip _
    · dsimp only at matched
      split at matched
      · exact (inductionHypothesis matched).skip _
      · next detection found =>
        simp only [Transaction.bind_eq_ok_iff, Prod.exists] at matched
        obtain ⟨offense, judged, last, others, later, same⟩ := matched
        obtain ⟨rfl, rfl⟩ := Prod.mk.inj (Except.ok.inj same)
        have detected := inductionHypothesis later
        obtain ⟨guarded, -, judged⟩ := Transaction.bind_eq_ok_iff.mp judged
        split at judged
        · obtain rfl := Except.ok.inj judged
          exact detected.skip _
        · split at judged
          · obtain rfl := Except.ok.inj judged
            exact detected.skip _
          · obtain rfl := Except.ok.inj judged
            exact detected.take defense name policy _
              (CompiledDetector.observedAt_detect signed received found)

theorem handleRecord_detected (signed : defense.parsers.Signed) {record : SourceRecord}
    (received : record.observedAt ≤ sqlMax) {surroundings : Surroundings} {memory next : Memory}
    {handled : Handled}
    (handles : defense.handleRecord memory record surroundings = .ok (next, handled)) :
    Detected defense.policies record handled.offenses := by
  rw [handleRecord] at handles
  obtain ⟨⟨middle, offenses⟩, detects, rest⟩ := Transaction.bind_eq_ok_iff.mp handles
  have same : handled.offenses = offenses := by
    dsimp only at rest
    split at rest
    · split at rest
      all_goals
        obtain ⟨-, rfl⟩ := Prod.mk.inj (Except.ok.inj rest)
        rfl
    · obtain ⟨-, rfl⟩ := Prod.mk.inj (Except.ok.inj rest)
      rfl
  rw [same]
  rw [detectOffenses] at detects
  split at detects
  · obtain ⟨-, rfl⟩ := Prod.mk.inj (Except.ok.inj detects)
    exact Detected.nil _ _
  · exact matchPolicies_detected signed received detects

theorem handleRecords_detected (signed : defense.parsers.Signed)
    {records : List (SourceRecord × Surroundings)}
    (received : ∀ entry ∈ records, entry.1.observedAt ≤ sqlMax) {memory next : Memory}
    {handled : List Handled}
    (handles : defense.handleRecords memory records = .ok (next, handled)) :
    ∀ one ∈ handled, one.record.observedAt ≤ sqlMax ∧
      Detected defense.policies one.record one.offenses := by
  induction records generalizing memory handled with
  | nil =>
    obtain ⟨-, rfl⟩ := Prod.mk.inj (Except.ok.inj handles)
    exact fun one member => absurd member List.not_mem_nil
  | cons head rest inductionHypothesis =>
    obtain ⟨first, others⟩ := List.forall_mem_cons.mp received
    simp only [handleRecords, Transaction.bind_eq_ok_iff, Prod.exists] at handles
    obtain ⟨middle, one, handlesFirst, last, ones, handlesRest, same⟩ := handles
    obtain ⟨rfl, rfl⟩ := Prod.mk.inj (Except.ok.inj same)
    rw [List.forall_mem_cons]
    refine ⟨?_, inductionHypothesis others handlesRest⟩
    rw [(handleRecord_ok handlesFirst).1]
    exact ⟨first, handleRecord_detected signed first handlesFirst⟩

/-- Each event of a batch comes from what detection made of a record. -/
theorem detected_of_mem_pending (signed : defense.parsers.Signed)
    {records : List (SourceRecord × Surroundings)}
    (received : ∀ entry ∈ records, entry.1.observedAt ≤ sqlMax) {memory next : Memory}
    {handled : List Handled} (handles : defense.handleRecords memory records = .ok (next, handled))
    {input : EventInput} (member : input ∈ pending handled) :
    ∃ record, input = eventOf record input.offenses ∧ record.observedAt ≤ sqlMax ∧
      Detected defense.policies record input.offenses := by
  obtain ⟨one, listed, became⟩ := List.mem_filterMap.mp member
  obtain ⟨fits, detected⟩ := handleRecords_detected signed received handles one listed
  rcases (handleRecords_ok handles).2 one listed with ⟨none, -⟩ | same
  · exact nomatch none.symm.trans became
  · obtain rfl := Option.some.inj (same.symm.trans became)
    exact ⟨one.record, rfl, fits, detected⟩

end Defense

/-! ### No record is refused -/

section Accepted

variable {crates : Crates} {compileDetector : Detector → Except Error CompiledDetector}
  {parsers : Parsers} {localAddresses : List IpAddr} {config : Config} {host : Host}

theorem map_fst_compilePolicies {policies : List (String × Policy)}
    {compiled : List (String × CompiledPolicy)}
    (compiles : Config.compilePolicies crates compileDetector policies = .ok compiled) :
    compiled.map Prod.fst = policies.map Prod.fst := by
  induction policies generalizing compiled with
  | nil =>
    obtain rfl := Except.ok.inj compiles
    rfl
  | cons first rest inductionHypothesis =>
    obtain ⟨own, others, rfl, later, named, -⟩ := compilePolicies_cons compiles
    rw [List.map_cons, List.map_cons, inductionHypothesis later, named]

theorem validateBanSchedule_of_accepted (accepted : validateConfig crates config = .ok ())
    {entry : String × Policy} (member : entry ∈ config.policies) :
    validateBanSchedule entry.1 entry.2.ban = .ok () := by
  have policy := validatePolicy_of_accepted accepted member
  rw [validatePolicy] at policy
  iterate 3 obtain ⟨_, -, policy⟩ := Transaction.bind_eq_ok_iff.mp policy
  obtain ⟨_, schedule, -⟩ := Transaction.bind_eq_ok_iff.mp policy
  exact schedule

/-- What a defense has from the configuration it was opened with. -/
theorem openHost_ok
    (opens : config.openHost crates compileDetector parsers localAddresses = .ok host) :
    host.defense.parsers = parsers ∧
      Config.compilePolicies crates compileDetector config.policies =
        .ok host.defense.policies := by
  obtain ⟨policies, compiles, opens⟩ := Transaction.bind_eq_ok_iff.mp opens
  obtain ⟨protectedNetworks, -, opens⟩ := Transaction.bind_eq_ok_iff.mp opens
  obtain ⟨noBlock, -, same⟩ := Transaction.bind_eq_ok_iff.mp opens
  obtain rfl := Except.ok.inj same
  exact ⟨rfl, compiles⟩

end Accepted

/-- No record brings the defense to a stop. Whatever batch a defense with an accepted
configuration makes of timed records, any store that a run has reached accepts it; every lease
that this brings about lasts as long as its policy allows, and escalation by doubling never
shortens a ban. The configuration has one policy for a name, and the lease table has room for a
lease of each offense of the batch. -/
theorem batch_accepted (crates : Crates)
    (compileDetector : Detector → Except Error CompiledDetector) (parsers : Parsers)
    (localAddresses : List IpAddr) (config : Config) (host : Host)
    (accepted : validateConfig crates config = .ok ())
    (distinct : (config.policies.map Prod.fst).Nodup) (signed : parsers.Signed)
    (opens : config.openHost crates compileDetector parsers localAddresses = .ok host)
    (calls : List StoreCall) (memory next : Memory) (records : List (SourceRecord × Surroundings))
    (timed : ∀ entry ∈ records, entry.1.Timed) (handled : List Defense.Handled)
    (handles : host.defense.handleRecords memory records = .ok (next, handled))
    (room : (StoreCall.run calls).leases.length +
      ((Defense.pending handled).flatMap EventInput.offenses).length ≤ sqlMax) :
    (∃ later outcomes,
      (StoreCall.run calls).processEvents (Defense.pending handled) = .ok (later, outcomes) ∧
      host.defense.processRecords memory (StoreCall.run calls) records =
        .ok (next, later, outcomes) ∧
      ∀ outcome ∈ outcomes, ∀ lease ∈ outcome.leases, ∃ policy,
        (lease.policy, policy) ∈ config.policies ∧
          lease.LastsWithin policy.ban.maxDurationSecs) ∧
    ∀ schedule : BanSchedule, schedule.multipliers = [] → schedule.jitterSecs = 0 →
      ∀ count later draw laterDraw duration, count ≤ later →
        banDuration schedule count draw = some duration →
        ∃ longer, banDuration schedule later laterDraw = some longer ∧ duration ≤ longer := by
  refine ⟨?_, fun schedule doubling steady count later draw laterDraw duration ordered lasts =>
    banDuration_le_banDuration doubling steady ordered lasts⟩
  obtain ⟨rfl, compiles⟩ := openHost_ok opens
  have received : ∀ entry ∈ records, entry.1.observedAt ≤ sqlMax :=
    fun entry member => (timed entry member).observedAt_le
  have detected := fun input (member : input ∈ Defense.pending handled) =>
    Defense.detected_of_mem_pending signed received handles member
  have policyOf : ∀ input ∈ Defense.pending handled, ∀ offense ∈ input.offenses, ∃ policy,
      (offense.policy, policy) ∈ config.policies ∧ offense.ban = policy.ban := by
    intro input member offense included
    obtain ⟨record, -, -, made⟩ := detected input member
    obtain ⟨entry, listed, sameName, sameBan⟩ := made.terms offense included
    obtain ⟨policy, configured, -, ban⟩ := mem_compilePolicies compiles listed
    exact ⟨policy, sameName ▸ configured, sameBan.trans ban⟩
  have sound : ∀ input ∈ Defense.pending handled, input.Sound := by
    intro input member
    obtain ⟨record, same, fits, made⟩ := detected input member
    have observed : input.observedAt = record.observedAt := congrArg EventInput.observedAt same
    refine ⟨observed ▸ fits, ?_, fun offense included => ⟨?_, fun count duration lasts => ?_⟩⟩
    · exact made.names.nodup (map_fst_compilePolicies compiles ▸ distinct)
    · rw [EventInput.timeOf, observed]
      exact made.times offense included
    · obtain ⟨policy, configured, ban⟩ := policyOf input member offense included
      rw [ban] at lasts
      exact banDuration_pos (validateBanSchedule_of_accepted accepted configured) lasts
  obtain ⟨later, outcomes, processed, answered⟩ :=
    Store.exists_processEvents sound (StoreCall.attributed_run calls) room
  refine ⟨later, outcomes, processed,
    Defense.processRecords_eq_ok_iff.mpr ⟨handled, handles, processed⟩, ?_⟩
  intro outcome member lease granted
  obtain ⟨input, listed, offense, included, samePolicy, lasts⟩ :=
    answered outcome member lease granted
  obtain ⟨policy, configured, ban⟩ := policyOf input listed offense included
  exact ⟨policy, samePolicy ▸ configured, ban ▸ lasts⟩

/-! ### The last second -/

namespace SampleBatch

/-- Parsers that know one payload. -/
def parsers : Parsers where
  ipNetwork _ := none
  ipAddr raw := if raw = "192.0.2.1" then some (.v4 0xC0000201#32) else none
  rfc3339 _ := none
  strptime _ _ := none
  json raw :=
    if raw = "drop" then
      some ⟨fun pointer =>
        if pointer = "/kind" then some (.string "drop")
        else if pointer = "/address" then some (.string "192.0.2.1")
        else none⟩
    else none

def host : Host where
  defense :=
    { policies := [tarpitEntry "drop" "quick", tarpitEntry "smear" "quick"]
      protectedNetworks := [ipv4Network 0x7F000000#32 8]
      noBlock := []
      historyRetentionSecs := 86400
      inProcessSources := ["web"]
      listeners := [("quick", "127.0.0.1:2222"), ("slow", "127.0.0.1:2223")]
      socketPort := sampleCrates.socketAddr
      parsers }
  firewall := ⟨"bagel", -10, true⟩
  localAddresses := []

/-- A drop in the last second that the system clock has. -/
def lastDrop : SourceRecord :=
  ⟨"web", "web:1", "drop", none, SourceRecord.now Int64.maxValue, .listener 1, false⟩

/-- What the policy on drops makes of it. -/
def lastOffense : OffenseInput :=
  host.defense.offenseInput "drop" (tarpitEntry "drop" "quick").2
    ⟨ipv4Network 0xC0000201#32 32, SourceRecord.now Int64.maxValue, none, none⟩ 0

def lastEvent : EventInput := Defense.eventOf lastDrop [lastOffense]

theorem handles_lastDrop : ∃ next,
    host.defense.handleRecords (host.defense.openMemory Store.empty)
      [(lastDrop, ⟨fun _ => .ok [], fun _ => 0⟩), (lastDrop, ⟨fun _ => .ok [], fun _ => 0⟩)] =
      .ok (next, [⟨lastDrop, [lastOffense], some lastEvent⟩,
        ⟨lastDrop, [lastOffense], some lastEvent⟩]) :=
  ⟨_, rfl⟩

/-- The record and its repetition are accepted. -/
theorem batch_accepted_last_second :
    validateConfig sampleCrates (tarpitConfig "quick") = .ok () ∧
      (tarpitConfig "quick").openHost sampleCrates sampleCompiler parsers [] = .ok host ∧
      ∃ later outcomes, (StoreCall.run []).processEvents [lastEvent, lastEvent] =
          .ok (later, outcomes) ∧
        ∀ outcome ∈ outcomes, ∀ lease ∈ outcome.leases, ∃ policy,
          (lease.policy, policy) ∈ (tarpitConfig "quick").policies ∧
            lease.LastsWithin policy.ban.maxDurationSecs := by
  have signed : parsers.Signed := ⟨fun _ _ => nofun, fun _ _ _ => nofun⟩
  obtain ⟨next, handles⟩ := handles_lastDrop
  have accepted := batch_accepted sampleCrates sampleCompiler parsers [] (tarpitConfig "quick") host
    rfl (by decide) signed rfl [] _ next _ ?_ _ handles (by decide)
  · obtain ⟨later, outcomes, processed, -, lasts⟩ := accepted.1
    exact ⟨rfl, rfl, later, outcomes, processed, lasts⟩
  · intro entry member
    rcases List.mem_pair.mp member with rfl | rfl
    · exact .read Int64.maxValue rfl
    · exact .read Int64.maxValue rfl

end SampleBatch

end Bagel
