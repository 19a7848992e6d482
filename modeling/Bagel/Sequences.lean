/-
This file models the numbering of in-process sources and settles when it never gives out
an event id that the store still holds.

A web source takes its numbers from an atomic counter and queues its records later, in
any order, or drops them. A listener source takes them one at a time under a lock and
keeps each until its event is stored. After a restart the web source resumes from the
larger of its checkpoint and the numbers of its stored events, the listener source from
its checkpoint alone. In between the store is pruned, and other sources go on.

Numbers are 64 bits wide: the counter of a web source wraps around and the one of a
listener source sticks to its last value, so an id is new only up to there.
-/

import Bagel.Checkpoints
import Bagel.Library.Decimal
import Bagel.Library.Machine

namespace Bagel

/-! ### Event ids -/

/-- What the event ids of an in-process source begin with. -/
def listenerPrefix (source : String) : String :=
  "listener:" ++ source ++ ":"

def listenerId (source : String) (sequence : Nat) : String :=
  listenerPrefix source ++ toString sequence

/-- The `LIKE` of SQLite, pattern first: `%` is any text, `_` is any character, and letters of
ASCII are compared without case. -/
def sqlLike : List Char → List Char → Bool
  | [], text => text.isEmpty
  | '%' :: pattern, text => text.tails.any (sqlLike pattern)
  | '_' :: _, [] => false
  | '_' :: pattern, _ :: text => sqlLike pattern text
  | _ :: _, [] => false
  | char :: pattern, head :: text => char.toLower == head.toLower && sqlLike pattern text

/-- The number that an event id of a source carries. -/
def sequenceOf (source eventId : String) : Option Nat :=
  (eventId.toList.dropPrefix? (listenerPrefix source).toList).bind fun rest =>
    parseU64 (String.ofList rest)

/-- The highest number of a stored event of a source, or zero. -/
def Store.lastListenerSequence (store : Store) (source : String) : Nat :=
  let rows := store.events.filter fun row => row.source == source &&
    sqlLike ((listenerPrefix source).toList ++ ['%']) row.eventId.toList
  rows.foldl (fun newest row =>
    match sequenceOf source row.eventId with
    | some sequence => max newest sequence
    | none => newest) 0

theorem listenerId_injective (source : String) : Function.Injective (listenerId source) := by
  intro first second same
  have characters := congrArg String.toList same
  rw [listenerId, listenerId, String.toList_append, String.toList_append] at characters
  exact Decimal.toString_inj (String.toList_inj.mp (List.append_cancel_left characters))

/-- A text that begins with the letters of a pattern matches it. -/
theorem sqlLike_append_percent (letters rest : List Char) :
    sqlLike (letters ++ ['%']) (letters ++ rest) = true := by
  induction letters with
  | nil =>
    rw [List.nil_append, sqlLike]
    exact List.any_eq_true.mpr ⟨[], (List.mem_tails _ _).mpr List.nil_suffix, rfl⟩
  | cons letter letters inductionHypothesis =>
    rw [List.cons_append, List.cons_append]
    unfold sqlLike
    split
    · next same => exact absurd same (List.cons_ne_nil _ _)
    · next pattern same =>
      -- A percent sign in the name of the source may match itself.
      obtain ⟨rfl, rfl⟩ := List.cons.inj same
      exact List.any_eq_true.mpr ⟨_, (List.mem_tails _ _).mpr (List.suffix_cons _ _),
        inductionHypothesis⟩
    · next none => exact absurd none (List.cons_ne_nil _ _)
    · next same text =>
      obtain ⟨rfl, rfl⟩ := List.cons.inj same
      obtain ⟨rfl, rfl⟩ := List.cons.inj text
      exact inductionHypothesis
    · next none => exact absurd none (List.cons_ne_nil _ _)
    · next same text =>
      obtain ⟨rfl, rfl⟩ := List.cons.inj same
      obtain ⟨rfl, rfl⟩ := List.cons.inj text
      rw [beq_self_eq_true, Bool.true_and]
      exact inductionHypothesis

/-- A number of 64 bits is parsed back from its digits. -/
theorem parseU64_toString {number : Nat} (fits : number ≤ u64Max) :
    parseU64 (toString number) = some number := by
  have small : number < 2 ^ 64 := Nat.lt_of_le_of_lt fits (by decide)
  have parsed : parseDigits (toString number).toList = some number := by
    have digits : (toString number).toList.all Char.isDigit = true :=
      List.all_eq_true.mpr fun char member => Decimal.isDigit_of_mem member
    have nonempty : (toString number).toList.isEmpty = false :=
      List.isEmpty_eq_false_iff.mpr (Decimal.toString_ne_nil number)
    rw [parseDigits, digits, nonempty, Decimal.foldl_toString]
    rfl
  unfold parseU64
  split
  · next rest plus =>
    -- A number does not begin with a sign.
    have digit : '+'.isDigit = true :=
      Decimal.isDigit_of_mem (by rw [plus]; exact List.mem_cons_self)
    exact absurd digit (by decide)
  · dsimp only
    rw [parsed, Option.filter_some, if_pos (decide_eq_true small)]

theorem sequenceOf_listenerId {source : String} {sequence : Nat} (fits : sequence ≤ u64Max) :
    sequenceOf source (listenerId source sequence) = some sequence := by
  rw [sequenceOf, listenerId, String.toList_append,
    List.dropPrefix?_append_of_beq _ (beq_self_eq_true _), Option.bind_some, String.ofList_toList,
    parseU64_toString fits]

/-- The loop over the rows ends with a number that none of them exceeds. -/
theorem le_foldl_sequence {source : String} {rows : List EventRow} {row : EventRow}
    {newest sequence : Nat}
    (bound : sequence ≤ newest ∨ row ∈ rows ∧ sequenceOf source row.eventId = some sequence) :
    sequence ≤ rows.foldl (fun newest row =>
      match sequenceOf source row.eventId with
      | some sequence => max newest sequence
      | none => newest) newest := by
  induction rows generalizing newest with
  | nil => exact bound.resolve_right fun present => List.not_mem_nil present.1
  | cons head rest inductionHypothesis =>
    refine inductionHypothesis ?_
    rcases bound with least | ⟨member, numbered⟩
    · left
      dsimp only
      split
      · exact Nat.le_trans least (Nat.le_max_left _ _)
      · exact least
    · rcases List.mem_cons.mp member with rfl | later
      · left
        dsimp only
        rw [numbered]
        exact Nat.le_max_right _ _
      · exact Or.inr ⟨later, numbered⟩

/-- No stored event of a source has a higher number than the last one. -/
theorem Store.le_lastListenerSequence {store : Store} {source : String} {row : EventRow}
    {sequence : Nat} (member : row ∈ store.events) (own : row.source = source)
    (numbered : row.eventId = listenerId source sequence) (fits : sequence ≤ u64Max) :
    sequence ≤ store.lastListenerSequence source := by
  have selected : sqlLike ((listenerPrefix source).toList ++ ['%']) row.eventId.toList = true := by
    rw [numbered, listenerId, String.toList_append]
    exact sqlLike_append_percent _ _
  refine le_foldl_sequence (Or.inr ⟨List.mem_filter.mpr ⟨member, ?_⟩, ?_⟩)
  · rw [own, selected, beq_self_eq_true]
    rfl
  · rw [numbered]
    exact sequenceOf_listenerId fits

/-! ### Numbered sources -/

inductive InProcessKind where
  | web
  | listener
  deriving DecidableEq

/-- A source whose events are numbered by the process itself. -/
structure InProcessSource where
  name : String
  kind : InProcessKind

/-- `RECORD_QUEUE` -/
def recordQueue : Nat := 1024

/-- `RECORD_BATCH` -/
def recordBatch : Nat := 256

/-- The process as one numbered source sees it. -/
structure NumberedSite where
  defense : Defense
  store : Store
  memory : Memory
  /-- The atomic counter of the web source, once it is attached. -/
  counter : Option Nat
  /-- The numbers that were taken and whose record is neither queued nor dropped. A listener has
  at most the one that its lock is held for. -/
  taken : List Nat
  /-- The channel to the defense loop. -/
  queue : List SourceRecord
  /-- Nothing can be sent to the channel any more. -/
  closed : Bool
  /-- The events that were handed to the store, with what it answered. -/
  answers : List (EventInput × EventOutcome)

inductive NumberedAction where
  /-- `web_source` -/
  | attach
  /-- The first half of `emit`: a number is taken. -/
  | take
  /-- The second half of `emit`: the record of a taken number is queued or dropped. -/
  | send (sequence : Nat) (payload : String) (observedAt : Nat)
  /-- The first half of `record_listener`: a number is taken under the lock. -/
  | listen
  /-- A round of the loop of `record_listener` that stores the event of its number. -/
  | persist (offense : OffenseInput) (observedAt : Nat)
  /-- A record of another source is queued. -/
  | arrive (record : SourceRecord)
  /-- The defense loop takes a batch from the channel and processes it. -/
  | process (surroundings : List Surroundings)
  /-- Another call of the store, such as pruning. -/
  | call (call : StoreCall)
  | shutdown
  /-- The process stops, at any point, and starts again with some configuration. -/
  | restart (defense : Defense)

namespace InProcessSource

variable (source : InProcessSource)

/-- The record of a number. -/
def recordOf (sequence : Nat) (payload : String) (observedAt : Nat) : SourceRecord :=
  ⟨source.name, listenerId source.name sequence, payload, none, observedAt, .listener sequence,
    false⟩

/-- The event of a number of a listener. -/
def inputOf (sequence : Nat) (offense : OffenseInput) (observedAt : Nat) : EventInput :=
  ⟨source.name, listenerId source.name sequence, .listener sequence, observedAt, [offense]⟩

def initial (defense : Defense) : NumberedSite :=
  ⟨defense, Store.empty, defense.openMemory Store.empty, none, [], [], false, []⟩

/-- The events of a batch, if its records are handled. -/
def inputsOf (site : NumberedSite) (batch : List (SourceRecord × Surroundings)) :
    List EventInput :=
  match site.defense.handleRecords site.memory batch with
  | .ok (_, handled) => Defense.pending handled
  | .error _ => []

/-- One action. What the source cannot do in a state leaves it as it is. -/
def act (site : NumberedSite) : NumberedAction → NumberedSite
  | .attach =>
    if source.kind = .web ∧ site.counter = none then
      let checkpoint := site.memory.sequences source.name
      { site with counter := some (max checkpoint (site.store.lastListenerSequence source.name)) }
    else site
  | .take =>
    match site.counter with
    | some last =>
      { site with
        counter := some ((last + 1) % 2 ^ 64)
        taken := site.taken ++ [saturatingAdd last 1] }
    | none => site
  | .send sequence payload observedAt =>
    if source.kind = .web ∧ sequence ∈ site.taken then
      let taken := site.taken.erase sequence
      if site.closed || decide (recordQueue ≤ site.queue.length) then { site with taken }
      else { site with
             taken, queue := site.queue ++ [source.recordOf sequence payload observedAt] }
    else site
  | .listen =>
    if source.kind = .listener ∧ site.taken = [] then
      let sequence := saturatingAdd (site.memory.sequences source.name) 1
      { site with
        memory := { site.memory with
          sequences := Function.update site.memory.sequences source.name sequence }
        taken := [sequence] }
    else site
  | .persist offense observedAt =>
    if source.kind = .listener then
      match site.taken with
      | [] => site
      | sequence :: _ =>
        let input := source.inputOf sequence offense observedAt
        match site.store.processEvent input with
        | .ok (store, outcome) =>
          { site with store, taken := [], answers := site.answers ++ [(input, outcome)] }
        | .error _ => site
    else site
  | .arrive record =>
    if record.source = source.name then site
    else if site.closed || decide (recordQueue ≤ site.queue.length) then site
    else { site with queue := site.queue ++ [record] }
  | .process surroundings =>
    let count := min surroundings.length recordBatch
    let batch := (site.queue.take count).zip (surroundings.take count)
    match site.defense.processRecords site.memory site.store batch with
    | .ok (memory, store, outcomes) =>
      { site with
        memory, store
        queue := site.queue.drop count
        answers := site.answers ++ (inputsOf site batch).zip outcomes }
    -- The loop ends with the error, and the channel with it.
    | .error _ => { site with queue := [], closed := true }
  | .call call =>
    if call.inputs.any fun input => input.source == source.name then site
    else { site with store := call.execute site.store }
  | .shutdown => { site with closed := true }
  | .restart defense =>
    if defense.inProcessSources.contains source.name then
      ⟨defense, site.store, defense.openMemory site.store, none, [], [], false, site.answers⟩
    else site

/-- The ids that were given out and are not stored yet. -/
def ids (site : NumberedSite) : List String :=
  site.taken.map (listenerId source.name) ++
    (site.queue.filter fun record => record.source == source.name).map SourceRecord.id

/-- No id that was given out is that of an event the store holds, and no event of the source
was discarded as a duplicate. -/
def NeverCollides (site : NumberedSite) : Prop :=
  (∀ id ∈ source.ids site, ∀ row ∈ site.store.events, row.source = source.name →
    row.eventId ≠ id) ∧
  ∀ answer ∈ site.answers, answer.1.source = source.name → answer.2.duplicate = false

/-- There is a number left when one is taken. -/
def HasNumber (site : NumberedSite) : NumberedAction → Prop
  | .take => ∀ last, site.counter = some last → last < u64Max
  | .listen => site.memory.sequences source.name < u64Max
  | _ => True

/-! ### The sequences of other sources -/

/-- The loop over the policies changes the memory of detectors only. -/
theorem sequences_matchPolicies {defense : Defense} {record : SourceRecord}
    {surroundings : Surroundings} {memory next : Memory}
    {policies : List (String × CompiledPolicy)} {offenses : List OffenseInput}
    (matched : defense.matchPolicies record surroundings memory policies = .ok (next, offenses)) :
    next.sequences = memory.sequences := by
  induction policies generalizing memory offenses with
  | nil =>
    obtain ⟨rfl, -⟩ := Prod.mk.inj (Except.ok.inj matched)
    rfl
  | cons head rest inductionHypothesis =>
    rw [Defense.matchPolicies] at matched
    split at matched
    · exact inductionHypothesis matched
    · dsimp only at matched
      split at matched
      · have later := inductionHypothesis matched
        exact later
      · simp only [Transaction.bind_eq_ok_iff, Prod.exists] at matched
        obtain ⟨offense, -, last, others, matched, same⟩ := matched
        obtain ⟨rfl, -⟩ := Prod.mk.inj (Except.ok.inj same)
        have later := inductionHypothesis matched
        exact later

theorem sequences_handleRecord {defense : Defense} {memory next : Memory} {record : SourceRecord}
    {surroundings : Surroundings} {handled : Defense.Handled} {name : String}
    (handles : defense.handleRecord memory record surroundings = .ok (next, handled))
    (foreign : record.source ≠ name) : next.sequences name = memory.sequences name := by
  rw [Defense.handleRecord] at handles
  obtain ⟨⟨middle, offenses⟩, detected, rest⟩ := Transaction.bind_eq_ok_iff.mp handles
  have unchanged : middle.sequences = memory.sequences := by
    rw [Defense.detectOffenses] at detected
    split at detected
    · obtain ⟨rfl, -⟩ := Prod.mk.inj (Except.ok.inj detected)
      rfl
    · exact sequences_matchPolicies detected
  rw [← unchanged]
  dsimp only at rest
  split at rest
  · split at rest
    all_goals
      obtain ⟨rfl, -⟩ := Prod.mk.inj (Except.ok.inj rest)
      exact Function.update_of_ne foreign.symm _ _
  · obtain ⟨rfl, -⟩ := Prod.mk.inj (Except.ok.inj rest)
    rfl

/-- Records of other sources leave the sequence of a source alone. -/
theorem sequences_handleRecords {defense : Defense} {memory next : Memory}
    {records : List (SourceRecord × Surroundings)} {handled : List Defense.Handled} {name : String}
    (handles : defense.handleRecords memory records = .ok (next, handled))
    (foreign : ∀ record ∈ records.map Prod.fst, record.source ≠ name) :
    next.sequences name = memory.sequences name := by
  induction records generalizing memory handled with
  | nil =>
    obtain ⟨rfl, -⟩ := Prod.mk.inj (Except.ok.inj handles)
    rfl
  | cons head rest inductionHypothesis =>
    simp only [Defense.handleRecords, Transaction.bind_eq_ok_iff, Prod.exists] at handles
    obtain ⟨middle, one, first, last, others, later, same⟩ := handles
    obtain ⟨rfl, -⟩ := Prod.mk.inj (Except.ok.inj same)
    have tail := inductionHypothesis later fun record member =>
      foreign record (List.mem_cons_of_mem _ member)
    rw [tail]
    exact sequences_handleRecord first (foreign _ List.mem_cons_self)

/-! ### What the store answers -/

variable {source}

/-- What an event does to the events of a source, if none of them has its id yet. -/
theorem unheld_of_eventStep {name : String} {store next : Store} {input : EventInput}
    {outcome : EventOutcome} (step : Store.EventStep store input next outcome)
    (unheld : input.source = name → ∀ row ∈ store.events, row.source = name →
      row.eventId ≠ input.eventId) :
    (∀ row ∈ next.events, row.source = name →
      row ∈ store.events ∨ input.source = name ∧ row.eventId = input.eventId) ∧
    (input.source = name → outcome.duplicate = false) := by
  cases step with
  | duplicate seen =>
    refine ⟨fun row member _ => Or.inl member, fun own => ?_⟩
    obtain ⟨row, member, same⟩ := List.any_eq_true.mp seen
    rw [Bool.and_eq_true, beq_iff_eq, beq_iff_eq] at same
    exact absurd same.2 (unheld own row member (same.1.trans own))
  | recorded unseen applied =>
    refine ⟨fun row member own => ?_, fun _ => rfl⟩
    have events := (Store.applyOffenses_ok applied).1
    rw [Store.setCheckpoint, events] at member
    rcases List.mem_append.mp member with old | new
    · exact Or.inl old
    · rw [List.mem_singleton.mp new] at own ⊢
      exact Or.inr ⟨own, rfl⟩

/-- The ids of the events of a source within a batch. -/
def ownIds (name : String) (inputs : List EventInput) : List String :=
  (inputs.filter fun input => input.source == name).map EventInput.eventId

theorem mem_ownIds {name id : String} {inputs : List EventInput} :
    id ∈ ownIds name inputs ↔ ∃ input ∈ inputs, input.source = name ∧ input.eventId = id := by
  simp [ownIds, and_assoc]

/-- A batch adds only events with the ids it brings, and if these are new and different, none
of its events of the source is a duplicate. -/
theorem unheld_of_processEvents {name : String} {store next : Store} {inputs : List EventInput}
    {outcomes : List EventOutcome}
    (processed : store.processEvents inputs = .ok (next, outcomes))
    (distinct : (ownIds name inputs).Nodup)
    (unheld : ∀ id ∈ ownIds name inputs, ∀ row ∈ store.events, row.source = name →
      row.eventId ≠ id) :
    (∀ row ∈ next.events, row.source = name →
      row ∈ store.events ∨ row.eventId ∈ ownIds name inputs) ∧
    ∀ answer ∈ inputs.zip outcomes, answer.1.source = name → answer.2.duplicate = false := by
  induction inputs generalizing store outcomes with
  | nil =>
    obtain ⟨rfl, -⟩ := Prod.mk.inj (Except.ok.inj processed)
    exact ⟨fun row member _ => Or.inl member, by simp⟩
  | cons input rest inductionHypothesis =>
    obtain ⟨middle, outcome, others, later, rfl, -, first⟩ :=
      Store.processEvents_cons_eq_ok_iff.mp processed
    have head : (∀ row ∈ middle.events, row.source = name →
        row ∈ store.events ∨ input.source = name ∧ row.eventId = input.eventId) ∧
        (input.source = name → outcome.duplicate = false) := by
      rcases first with ⟨-, rfl, rfl⟩ | ⟨-, step⟩
      · exact ⟨fun row member _ => Or.inl member, fun _ => rfl⟩
      · refine unheld_of_eventStep step fun own => unheld _ ?_
        exact mem_ownIds.mpr ⟨input, List.mem_cons_self, own, rfl⟩
    have restDistinct : (ownIds name rest).Nodup :=
      distinct.sublist (((List.sublist_cons_self input rest).filter _).map _)
    have restUnheld : ∀ id ∈ ownIds name rest, ∀ row ∈ middle.events, row.source = name →
        row.eventId ≠ id := by
      intro id member row stored own
      rcases head.1 row stored own with old | ⟨headOwn, same⟩
      · obtain ⟨other, included, otherOwn, rfl⟩ := mem_ownIds.mp member
        exact unheld _ (mem_ownIds.mpr ⟨other, List.mem_cons_of_mem _ included, otherOwn, rfl⟩)
          row old own
      · rintro rfl
        rw [ownIds, List.filter_cons_of_pos (by simpa using headOwn), List.map_cons,
          List.nodup_cons] at distinct
        exact distinct.1 (same ▸ member)
    obtain ⟨rows, answers⟩ := inductionHypothesis later restDistinct restUnheld
    refine ⟨fun row member own => ?_, fun answer member own => ?_⟩
    · rcases rows row member own with between | new
      · rcases head.1 row between own with old | ⟨headOwn, same⟩
        · exact Or.inl old
        · exact Or.inr (mem_ownIds.mpr ⟨input, List.mem_cons_self, headOwn, same.symm⟩)
      · obtain ⟨other, included, otherOwn, same⟩ := mem_ownIds.mp new
        exact Or.inr (mem_ownIds.mpr ⟨other, List.mem_cons_of_mem _ included, otherOwn, same⟩)
    · rw [List.zip_cons_cons] at member
      rcases List.mem_cons.mp member with rfl | included
      · exact head.2 own
      · exact answers answer included own

/-- The events of a batch have the ids of some of its records. -/
theorem ownIds_pending_sublist (name : String) {handled : List Defense.Handled}
    (faithful : ∀ one ∈ handled, one.Faithful) :
    (ownIds name (Defense.pending handled)).Sublist
      (((handled.map Defense.Handled.record).filter fun record => record.source == name).map
        SourceRecord.id) := by
  induction handled with
  | nil => exact List.Sublist.refl _
  | cons one rest inductionHypothesis =>
    have later := inductionHypothesis fun other member =>
      faithful other (List.mem_cons_of_mem _ member)
    rw [List.map_cons]
    rcases faithful one List.mem_cons_self with ⟨silent, -⟩ | event
    · rw [Defense.pending, List.filterMap_cons_none silent]
      exact later.trans (((List.sublist_cons_self _ _).filter _).map _)
    · rw [Defense.pending, List.filterMap_cons_some event]
      by_cases own : one.record.source = name
      · rw [ownIds, List.filter_cons_of_pos (by simpa [Defense.eventOf] using own),
          List.filter_cons_of_pos (by simpa using own)]
        exact later.cons_cons _
      · rw [ownIds, List.filter_cons_of_neg (by simpa [Defense.eventOf] using own),
          List.filter_cons_of_neg (by simpa using own)]
        exact later

/-! ### Numbers up to a limit -/

/-- The id of a number up to a limit. -/
def Numbered (name : String) (limit : Nat) (id : String) : Prop :=
  ∃ sequence, sequence ≤ limit ∧ sequence ≤ u64Max ∧ id = listenerId name sequence

theorem Numbered.mono {name id : String} {limit larger : Nat}
    (numbered : Numbered name limit id) (grows : limit ≤ larger) : Numbered name larger id := by
  obtain ⟨sequence, least, fits, same⟩ := numbered
  exact ⟨sequence, Nat.le_trans least grows, fits, same⟩

/-- The ids in circulation are those of numbers up to a limit, each given out once. -/
structure Numbers (source : InProcessSource) (limit : Nat) (site : NumberedSite) : Prop where
  rows : ∀ row ∈ site.store.events, row.source = source.name →
    Numbered source.name limit row.eventId
  pending : ∀ id ∈ source.ids site, Numbered source.name limit id
  distinct : (source.ids site).Nodup
  neverCollides : source.NeverCollides site

/-- What an action does that takes no number: some ids given out are stored or forgotten. -/
structure Advances (source : InProcessSource) (site next : NumberedSite) : Prop where
  moved : ∃ stored, List.Subperm (stored ++ source.ids next) (source.ids site) ∧
    ∀ row ∈ next.store.events, row.source = source.name →
      row ∈ site.store.events ∨ row.eventId ∈ stored
  answered : ∀ answer ∈ next.answers, answer ∈ site.answers ∨
    (answer.1.source = source.name → answer.2.duplicate = false)

theorem Numbers.advance {limit : Nat} {site next : NumberedSite}
    (numbers : source.Numbers limit site) (advances : source.Advances site next) :
    source.Numbers limit next := by
  obtain ⟨stored, included, rows⟩ := advances.moved
  have kept (id : String) (member : id ∈ source.ids next) : id ∈ source.ids site :=
    included.subset (List.mem_append_right _ member)
  have distinct : (stored ++ source.ids next).Nodup := by
    obtain ⟨middle, same, shorter⟩ := included
    exact same.nodup_iff.mp (numbers.distinct.sublist shorter)
  refine ⟨fun row member own => ?_, fun id member => numbers.pending id (kept id member),
    (List.nodup_append.mp distinct).2.1, fun id member row present own same => ?_,
    fun answer member own => ?_⟩
  · rcases rows row member own with old | new
    · exact numbers.rows row old own
    · exact numbers.pending _ (included.subset (List.mem_append_left _ new))
  · rcases rows row present own with old | new
    · exact numbers.neverCollides.1 id (kept id member) row old own same
    · exact (List.nodup_append.mp distinct).2.2 _ new _ member same
  · rcases advances.answered answer member with old | new
    · exact numbers.neverCollides.2 answer old own
    · exact new own

/-- The number after the limit is new. -/
theorem Numbers.take {limit : Nat} {site : NumberedSite} (numbers : source.Numbers limit site)
    (room : limit < u64Max) (next : NumberedSite)
    (given : (source.ids next).Perm (listenerId source.name (limit + 1) :: source.ids site))
    (sameEvents : next.store.events = site.store.events)
    (sameAnswers : next.answers = site.answers) :
    source.Numbers (limit + 1) next := by
  have new {id : String} (numbered : Numbered source.name limit id) :
      id ≠ listenerId source.name (limit + 1) := by
    obtain ⟨sequence, least, -, rfl⟩ := numbered
    intro same
    have equal := listenerId_injective source.name same
    omega
  have cases {id : String} (member : id ∈ source.ids next) :
      id = listenerId source.name (limit + 1) ∨ id ∈ source.ids site :=
    List.mem_cons.mp (given.subset member)
  refine ⟨fun row member own => ?_, fun id member => ?_, ?_, fun id member row present own => ?_,
    fun answer member => ?_⟩
  · rw [sameEvents] at member
    exact (numbers.rows row member own).mono (Nat.le_succ limit)
  · rcases cases member with rfl | old
    · exact ⟨limit + 1, Nat.le_refl _, room, rfl⟩
    · exact (numbers.pending id old).mono (Nat.le_succ limit)
  · refine given.nodup_iff.mpr (List.nodup_cons.mpr ⟨fun member => ?_, numbers.distinct⟩)
    exact new (numbers.pending _ member) rfl
  · rw [sameEvents] at present
    rcases cases member with rfl | old
    · exact new (numbers.rows row present own)
    · exact numbers.neverCollides.1 id old row present own
  · rw [sameAnswers] at member
    exact numbers.neverCollides.2 answer member

/-- Nothing is given out: the limit only has to cover what is stored. -/
theorem Numbers.of_idle {limit larger : Nat} {site next : NumberedSite}
    (numbers : source.Numbers limit site) (idle : source.ids next = [])
    (sameStore : next.store = site.store) (sameAnswers : next.answers = site.answers)
    (rows : ∀ row ∈ site.store.events, row.source = source.name →
      Numbered source.name larger row.eventId) :
    source.Numbers larger next := by
  refine ⟨by rwa [sameStore], by simp [idle], by simp [idle], by simp [idle], ?_⟩
  rw [sameAnswers]
  exact numbers.neverCollides.2

/-! ### Actions that take no number -/

theorem Advances.of_ids {site next : NumberedSite}
    (kept : List.Subperm (source.ids next) (source.ids site))
    (sameEvents : ∀ row ∈ next.store.events, row.source = source.name → row ∈ site.store.events)
    (sameAnswers : next.answers = site.answers) : source.Advances site next :=
  ⟨⟨[], kept, fun row member own => Or.inl (sameEvents row member own)⟩,
    fun _ member => Or.inl (sameAnswers ▸ member)⟩

theorem Advances.refl (site : NumberedSite) : source.Advances site site :=
  .of_ids (List.Subperm.refl _) (fun _ member _ => member) rfl

theorem ids_queued {site : NumberedSite} {sequence : Nat} (record : SourceRecord)
    (own : record.source = source.name) (numbered : record.id = listenerId source.name sequence)
    (member : sequence ∈ site.taken) :
    (source.ids { site with
      taken := site.taken.erase sequence, queue := site.queue ++ [record] }).Perm
      (source.ids site) := by
  have taken := ((List.perm_cons_erase member).map (listenerId source.name)).append_right
    ((site.queue.filter fun record => record.source == source.name).map SourceRecord.id)
  refine List.Perm.trans ?_ taken.symm
  simp only [ids, List.filter_append, List.map_append]
  rw [List.filter_cons_of_pos (by simpa using own), List.filter_nil, List.map_singleton, numbered,
    ← List.append_assoc]
  exact List.perm_append_singleton _ _

theorem send_advances (site : NumberedSite) (sequence : Nat) (payload : String)
    (observedAt : Nat) :
    source.Advances site (source.act site (.send sequence payload observedAt)) := by
  simp only [act]
  split
  · next valid =>
    split
    · refine .of_ids (List.Sublist.subperm ?_) (fun _ member _ => member) rfl
      exact (List.erase_sublist.map _).append_right _
    · refine .of_ids (List.Perm.subperm ?_) (fun _ member _ => member) rfl
      exact ids_queued (source.recordOf sequence payload observedAt) rfl rfl valid.2
  · exact .refl site

theorem arrive_advances (site : NumberedSite) (record : SourceRecord) :
    source.Advances site (source.act site (.arrive record)) := by
  simp only [act]
  split
  · exact .refl site
  · next foreign =>
    split
    · exact .refl site
    · refine .of_ids (List.Perm.subperm (List.Perm.of_eq ?_)) (fun _ member _ => member) rfl
      simp only [ids, List.filter_append]
      rw [List.filter_cons_of_neg (by simpa using foreign), List.filter_nil, List.append_nil]

theorem call_advances (site : NumberedSite) (call : StoreCall) :
    source.Advances site (source.act site (.call call)) := by
  simp only [act]
  split
  · exact .refl site
  · next foreign =>
    have others : ∀ input ∈ call.inputs, input.source ≠ source.name := by
      simpa using foreign
    exact .of_ids (List.Subperm.refl _) (call.follows_execute others site.store).events rfl

theorem persist_advances {limit : Nat} {site : NumberedSite}
    (numbers : source.Numbers limit site) (offense : OffenseInput) (observedAt : Nat) :
    source.Advances site (source.act site (.persist offense observedAt)) := by
  simp only [act]
  split
  · split
    · exact .refl site
    · next sequence rest held =>
      split
      · next store outcome processed =>
        have member : listenerId source.name sequence ∈ source.ids site := by
          rw [ids, held]
          exact List.mem_append_left _ List.mem_cons_self
        obtain ⟨rows, answer⟩ := unheld_of_eventStep (Store.applyEvent_eq_ok_iff.mp processed).2
          fun _ => numbers.neverCollides.1 _ member
        refine ⟨⟨[listenerId source.name sequence], ?_, fun row present own => ?_⟩,
          fun other present => ?_⟩
        · rw [ids, ids, held, List.map_cons]
          exact (((List.nil_sublist _).append_right _).cons_cons _).subperm
        · exact (rows row present own).imp_right fun new => List.mem_singleton.mpr new.2
        · rcases List.mem_append.mp present with old | new
          · exact Or.inl old
          · rw [List.mem_singleton.mp new]
            exact Or.inr answer
      · exact .refl site
  · exact .refl site

theorem process_advances {limit : Nat} {site : NumberedSite}
    (numbers : source.Numbers limit site) (surroundings : List Surroundings) :
    source.Advances site (source.act site (.process surroundings)) := by
  simp only [act]
  set count := min surroundings.length recordBatch with countIs
  set batch := (site.queue.take count).zip (surroundings.take count) with batchIs
  split
  · next memory store outcomes processed =>
    obtain ⟨handled, handles, stored⟩ := Defense.processRecords_eq_ok_iff.mp processed
    have inputs : inputsOf site batch = Defense.pending handled := by
      rw [inputsOf, handles]
    obtain ⟨records, faithful⟩ := Defense.handleRecords_ok handles
    -- The batch is the front of the channel.
    have front : batch.map Prod.fst = site.queue.take count := by
      refine List.map_fst_zip ?_
      rw [List.length_take, List.length_take]
      omega
    have idsOfBatch := ownIds_pending_sublist source.name faithful
    rw [records, front] at idsOfBatch
    have split : List.Subperm (ownIds source.name (Defense.pending handled) ++
        source.ids { site with queue := site.queue.drop count }) (source.ids site) := by
      have whole : source.ids site = site.taken.map (listenerId source.name) ++
          (((site.queue.take count).filter fun record => record.source == source.name).map
            SourceRecord.id ++ ((site.queue.drop count).filter fun record =>
              record.source == source.name).map SourceRecord.id) := by
        rw [ids, ← List.map_append, ← List.filter_append, List.take_append_drop]
      rw [whole, ids]
      refine ((List.perm_append_comm_assoc _ _ _).subperm).trans ?_
      exact ((idsOfBatch.append_right _).append_left _).subperm
    have distinct : (ownIds source.name (Defense.pending handled)).Nodup := by
      obtain ⟨middle, same, shorter⟩ := split
      exact (List.nodup_append.mp (same.nodup_iff.mp (numbers.distinct.sublist shorter))).1
    obtain ⟨rows, answers⟩ := unheld_of_processEvents stored distinct fun id member =>
      numbers.neverCollides.1 id (split.subset (List.mem_append_left _ member))
    refine ⟨⟨_, split, rows⟩, fun answer member => ?_⟩
    rcases List.mem_append.mp member with old | new
    · exact Or.inl old
    · rw [inputs] at new
      exact Or.inr (answers answer new)
  · refine .of_ids (List.Sublist.subperm ?_) (fun _ member _ => member) rfl
    rw [ids, ids]
    exact (List.nil_sublist _).append_left _

/-- No action but taking a number gives out an id. -/
theorem act_advances {limit : Nat} {site : NumberedSite} (numbers : source.Numbers limit site)
    {action : NumberedAction} (other : action ≠ .take ∧ action ≠ .listen) :
    source.Advances site (source.act site action) := by
  cases action with
  | attach =>
    simp only [act]
    split
    · exact .of_ids (List.Subperm.refl _) (fun _ member _ => member) rfl
    · exact .refl site
  | take => exact absurd rfl other.1
  | send sequence payload observedAt => exact send_advances site sequence payload observedAt
  | listen => exact absurd rfl other.2
  | persist offense observedAt => exact persist_advances numbers offense observedAt
  | arrive record => exact arrive_advances site record
  | process surroundings => exact process_advances numbers surroundings
  | call call => exact call_advances site call
  | shutdown => exact .of_ids (List.Subperm.refl _) (fun _ member _ => member) rfl
  | restart defense =>
    simp only [act]
    split
    · exact .of_ids (List.nil_subperm) (fun _ member _ => member) rfl
    · exact .refl site

theorem saturatingAdd_one {last : Nat} (room : last < u64Max) :
    saturatingAdd last 1 = last + 1 :=
  Nat.min_eq_left room

/-! ### Web sources -/

/-- While a web source is attached its counter is the limit. Before that, nothing is given out. -/
def WebSound (source : InProcessSource) (site : NumberedSite) : Prop :=
  match site.counter with
  | some last => source.Numbers last site
  | none => source.ids site = [] ∧ source.Numbers u64Max site

/-- Attaching reads a limit for everything that is stored. -/
theorem WebSound.attach {site : NumberedSite} (sound : source.WebSound site) :
    source.WebSound (source.act site .attach) := by
  simp only [act]
  split
  · next detached =>
    rw [WebSound, detached.2] at sound
    obtain ⟨idle, numbers⟩ := sound
    refine numbers.of_idle idle rfl rfl fun row member own => ?_
    obtain ⟨sequence, -, fits, same⟩ := numbers.rows row member own
    have stored := Store.le_lastListenerSequence member own same fits
    exact ⟨sequence, Nat.le_trans stored (Nat.le_max_right _ _), fits, same⟩
  · exact sound

theorem WebSound.take {site : NumberedSite} (sound : source.WebSound site)
    (room : source.HasNumber site .take) : source.WebSound (source.act site .take) := by
  simp only [act]
  split
  · next last attached =>
    rw [WebSound, attached] at sound
    have left : last < u64Max := room last attached
    have whole : (last + 1) % 2 ^ 64 = last + 1 := by
      refine Nat.mod_eq_of_lt ?_
      rw [u64Max] at left
      omega
    rw [WebSound]
    dsimp only
    rw [whole]
    refine Numbers.take sound left _ ?_ rfl rfl
    rw [saturatingAdd_one left]
    simp only [ids, List.map_append, List.map_singleton, List.append_assoc]
    exact List.perm_middle
  · exact sound

/-- After a restart the source is detached, and what is stored stays numbered. -/
theorem WebSound.restart {site : NumberedSite} (sound : source.WebSound site)
    (defense : Defense) : source.WebSound (source.act site (.restart defense)) := by
  obtain ⟨limit, numbers⟩ : ∃ limit, source.Numbers limit site := by
    rw [WebSound] at sound
    split at sound
    · exact ⟨_, sound⟩
    · exact ⟨_, sound.2⟩
  simp only [act]
  split
  · refine ⟨rfl, numbers.of_idle rfl rfl rfl fun row member own => ?_⟩
    obtain ⟨sequence, -, fits, same⟩ := numbers.rows row member own
    exact ⟨sequence, fits, fits, same⟩
  · exact sound

/-- An action that neither takes a number nor attaches the source leaves its counter alone. -/
theorem WebSound.advance {site next : NumberedSite} (sound : source.WebSound site)
    (sameCounter : next.counter = site.counter)
    (advances : ∀ limit, source.Numbers limit site → source.Advances site next) :
    source.WebSound next := by
  rw [WebSound] at sound ⊢
  rw [sameCounter]
  split at sound
  · next last _ => exact sound.advance (advances last sound)
  · have moves := advances u64Max sound.2
    refine ⟨?_, sound.2.advance moves⟩
    obtain ⟨stored, included, -⟩ := moves.moved
    rw [sound.1] at included
    exact (List.append_eq_nil_iff.mp (List.subperm_nil.mp included)).2

theorem WebSound.act {site : NumberedSite} (web : source.kind = .web)
    (sound : source.WebSound site) {action : NumberedAction}
    (room : source.HasNumber site action) : source.WebSound (source.act site action) := by
  cases action with
  | attach => exact sound.attach
  | take => exact sound.take room
  | restart defense => exact sound.restart defense
  | listen =>
    rw [InProcessSource.act, if_neg (by simp [web])]
    exact sound
  | persist offense observedAt =>
    rw [InProcessSource.act, if_neg (by simp [web])]
    exact sound
  | _ =>
    refine sound.advance ?_ fun limit numbers => act_advances numbers (by simp)
    simp only [InProcessSource.act]
    repeat' split
    all_goals rfl

/-! ### Listener sources -/

/-- The number of the stored checkpoint, which `open` resumes from. -/
def storedSequence (store : Store) (name : String) : Nat :=
  match store.checkpoint name with
  | some (.listener sequence) => sequence
  | _ => 0

/-- A listener source stores each number before it takes the next, so the stored checkpoint is
the limit of what is stored. -/
structure ListenerSound (source : InProcessSource) (site : NumberedSite) : Prop where
  numbers : source.Numbers (site.memory.sequences source.name) site
  stored : ∀ row ∈ site.store.events, row.source = source.name →
    Numbered source.name (storedSequence site.store source.name) row.eventId
  taken : ∀ sequence ∈ site.taken, sequence = site.memory.sequences source.name
  foreign : ∀ record ∈ site.queue, record.source ≠ source.name
  detached : site.counter = none

/-- An action that leaves the sequence and the checkpoint of the source alone, and stores no
event of it. -/
theorem ListenerSound.keep {site next : NumberedSite} (sound : source.ListenerSound site)
    (advances : source.Advances site next)
    (sameSequence : next.memory.sequences source.name = site.memory.sequences source.name)
    (follows : Store.Follows source.name site.store next.store)
    (sameTaken : next.taken = site.taken)
    (queued : ∀ record ∈ next.queue, record.source ≠ source.name)
    (detached : next.counter = none) : source.ListenerSound next := by
  refine ⟨?_, fun row member own => ?_, ?_, queued, detached⟩
  · rw [sameSequence]
    exact sound.numbers.advance advances
  · rw [storedSequence, follows.checkpoint_eq]
    exact sound.stored row (follows.events row member own) own
  · rw [sameTaken, sameSequence]
    exact sound.taken

theorem ListenerSound.listen {site : NumberedSite} (sound : source.ListenerSound site)
    (room : source.HasNumber site .listen) : source.ListenerSound (source.act site .listen) := by
  simp only [act]
  split
  · next free =>
    have next := saturatingAdd_one room
    refine ⟨?_, sound.stored, ?_, sound.foreign, sound.detached⟩
    · dsimp only
      rw [Function.update_self, next]
      refine Numbers.take sound.numbers room _ ?_ rfl rfl
      rw [ids, ids, free.2]
      exact List.Perm.refl _
    · intro sequence member
      rw [List.mem_singleton.mp member]
      dsimp only
      rw [Function.update_self]
  · exact sound

/-- Storing the event of the taken number moves the checkpoint up to it. -/
theorem ListenerSound.persist {site : NumberedSite} (sound : source.ListenerSound site)
    (offense : OffenseInput) (observedAt : Nat) :
    source.ListenerSound (source.act site (.persist offense observedAt)) := by
  have advances := persist_advances sound.numbers offense observedAt
  simp only [act] at advances ⊢
  split
  · next listener =>
    rw [if_pos listener] at advances
    split
    · exact sound
    · next sequence rest held =>
      rw [held] at advances
      dsimp only at advances
      split
      · next store outcome processed =>
        rw [processed] at advances
        have numbers := sound.numbers.advance advances
        refine ⟨numbers, ?_, by simp, sound.foreign, sound.detached⟩
        have current := sound.taken sequence (by rw [held]; exact List.mem_cons_self)
        -- The event was not a duplicate, so its checkpoint was written.
        have written : storedSequence store source.name = site.memory.sequences source.name := by
          have member : listenerId source.name sequence ∈ source.ids site := by
            rw [ids, held]
            exact List.mem_append_left _ List.mem_cons_self
          cases (Store.applyEvent_eq_ok_iff.mp processed).2 with
          | duplicate seen =>
            obtain ⟨row, present, same⟩ := List.any_eq_true.mp seen
            rw [Bool.and_eq_true, beq_iff_eq, beq_iff_eq] at same
            exact absurd same.2 (sound.numbers.neverCollides.1 _ member row present same.1)
          | @recorded middle leases unseen applied =>
            have checkpoint := Store.checkpoint_setCheckpoint middle
              (source.inputOf sequence offense observedAt)
            simp only [inputOf] at checkpoint
            rw [storedSequence, ← current]
            simp only [inputOf]
            rw [checkpoint]
        dsimp only
        rw [written]
        exact numbers.rows
      · exact sound
  · exact sound

/-- The batches of the defense loop hold no record of a listener. -/
theorem ListenerSound.process {site : NumberedSite} (sound : source.ListenerSound site)
    (surroundings : List Surroundings) :
    source.ListenerSound (source.act site (.process surroundings)) := by
  have advances := process_advances sound.numbers surroundings
  simp only [act] at advances ⊢
  split
  · next memory store outcomes processed =>
    rw [processed] at advances
    obtain ⟨handled, handles, stored⟩ := Defense.processRecords_eq_ok_iff.mp processed
    obtain ⟨records, faithful⟩ := Defense.handleRecords_ok handles
    have foreign : ∀ record ∈ handled.map Defense.Handled.record, record.source ≠ source.name := by
      intro record member
      rw [records] at member
      obtain ⟨pair, chosen, rfl⟩ := List.mem_map.mp member
      exact sound.foreign _ (List.mem_of_mem_take (List.of_mem_zip chosen).1)
    have foreignInputs : ∀ input ∈ Defense.pending handled, input.source ≠ source.name := by
      intro input member
      obtain ⟨one, included, event⟩ := List.mem_filterMap.mp member
      rcases faithful one included with ⟨silent, -⟩ | became
      · rw [silent] at event
        exact absurd event (by simp)
      · rw [became] at event
        rw [← Option.some.inj event]
        exact foreign _ (List.mem_map_of_mem included)
    refine sound.keep advances ?_ (Store.keeps_processEvents foreignInputs stored).toFollows rfl
      (fun record member => sound.foreign record (List.mem_of_mem_drop member)) sound.detached
    rw [records] at foreign
    exact sequences_handleRecords handles foreign
  · next error failed =>
    rw [failed] at advances
    exact sound.keep advances rfl (Store.Keeps.refl _ _).toFollows rfl (by simp) sound.detached

/-- A listener resumes from its checkpoint. -/
theorem ListenerSound.restart {site : NumberedSite} (sound : source.ListenerSound site)
    (defense : Defense) : source.ListenerSound (source.act site (.restart defense)) := by
  simp only [act]
  split
  · next listed =>
    have resumed : (defense.openMemory site.store).sequences source.name =
        storedSequence site.store source.name := if_pos listed
    refine ⟨?_, sound.stored, by simp, by simp, rfl⟩
    dsimp only
    rw [resumed]
    exact sound.numbers.of_idle rfl rfl rfl sound.stored
  · exact sound

theorem ListenerSound.act {site : NumberedSite} (listener : source.kind = .listener)
    (sound : source.ListenerSound site) {action : NumberedAction}
    (room : source.HasNumber site action) : source.ListenerSound (source.act site action) := by
  have same := (Store.Keeps.refl source.name site.store).toFollows
  cases action with
  | attach =>
    rw [InProcessSource.act, if_neg (by simp [listener])]
    exact sound
  | take =>
    rw [InProcessSource.act, sound.detached]
    exact sound
  | send sequence payload observedAt =>
    rw [InProcessSource.act, if_neg (by simp [listener])]
    exact sound
  | listen => exact sound.listen room
  | persist offense observedAt => exact sound.persist offense observedAt
  | process surroundings => exact sound.process surroundings
  | restart defense => exact sound.restart defense
  | shutdown =>
    have advances : source.Advances site (source.act site .shutdown) :=
      act_advances sound.numbers (by simp)
    exact sound.keep advances rfl same rfl sound.foreign sound.detached
  | arrive record =>
    have advances : source.Advances site (source.act site (.arrive record)) :=
      arrive_advances site record
    simp only [InProcessSource.act] at advances ⊢
    split
    · exact sound
    · next foreign =>
      rw [if_neg foreign] at advances
      split
      · exact sound
      · next room =>
        rw [if_neg room] at advances
        refine sound.keep advances rfl same rfl (fun other member => ?_) sound.detached
        rcases List.mem_append.mp member with old | new
        · exact sound.foreign other old
        · rw [List.mem_singleton.mp new]
          exact foreign
  | call call =>
    have advances : source.Advances site (source.act site (.call call)) :=
      call_advances site call
    simp only [InProcessSource.act] at advances ⊢
    split
    · exact sound
    · next foreign =>
      rw [if_neg foreign] at advances
      refine sound.keep advances rfl (call.follows_execute ?_ site.store) rfl sound.foreign
        sound.detached
      simpa using foreign

/-! ### Whole runs -/

theorem numbers_initial (defense : Defense) (limit : Nat) :
    source.Numbers limit (initial defense) := by
  refine ⟨?_, ?_, List.nodup_nil, ?_, ?_⟩
  all_goals simp [initial, Store.empty, ids]

/-- As long as a number is left whenever one is taken, no event id that an in-process source
gives out is that of an event the store holds, through any number of restarts, and no event of
the source is discarded as a duplicate. -/
theorem ids_never_collide (source : InProcessSource) (defense : Defense) (site : NumberedSite)
    (reaches : Machine.Reaches source.act source.HasNumber (initial defense) site) :
    source.NeverCollides site := by
  cases kind : source.kind with
  | web =>
    have sound : source.WebSound site := by
      refine reaches.preserves ⟨rfl, numbers_initial defense u64Max⟩ ?_
      exact fun site action before room => before.act kind room
    rw [WebSound] at sound
    split at sound
    · exact sound.neverCollides
    · exact sound.2.neverCollides
  | listener =>
    have sound : source.ListenerSound site := by
      refine reaches.preserves ⟨numbers_initial defense _, ?_, ?_, ?_, rfl⟩ ?_
      · simp [initial, Store.empty]
      · simp [initial]
      · simp [initial]
      · exact fun site action before room => before.act kind room
    exact sound.numbers.neverCollides

/-- The payload of a dropped request, as far as the detector below reads it. -/
def dropPayload : String :=
  "\x7b\"kind\":\"drop\",\"address\":\"203.0.113.7\"\x7d"

def webPolicy : CompiledPolicy where
  source := "web"
  detector := .json
    { equals := [("/kind", "drop")]
      addressPointer := "/address"
      timestampPointer := none
      groupKeyPointer := none
      timestampFormat := .unix }
  ignored := []
  maxAttempts := 5
  findtimeSecs := 600
  ban := ⟨some 60, 1, [], 0, 3600, false⟩
  action := .dropAll

def webDefense : Defense where
  policies := [("drops", webPolicy)]
  protectedNetworks := []
  noBlock := []
  historyRetentionSecs := 86400
  inProcessSources := ["web"]
  listeners := []
  socketPort _ := .error "invalid socket address syntax"
  parsers :=
    { ipNetwork := fun _ => none
      ipAddr := fun raw => if raw = "203.0.113.7" then some (.v4 0xCB007107#32) else none
      rfc3339 := fun _ => none
      strptime := fun _ _ => none
      json := fun raw => if raw = dropPayload then some ⟨fun pointer =>
        if pointer = "/kind" then some (.string "drop")
        else if pointer = "/address" then some (.string "203.0.113.7")
        else none⟩ else none }

def webSource : InProcessSource := ⟨"web", .web⟩

/-- The surroundings of a record on a host without local addresses. -/
def calm : Surroundings := ⟨fun _ => .ok [], fun _ => 0⟩

/-- Two numbers are taken, the record of the second is stored and that of the first is still on
its way when the process is started again. -/
def webRestart : List NumberedAction :=
  [.attach, .take, .take, .send 2 dropPayload 1000, .process [calm], .restart webDefense, .attach,
    .take]

/-- The source goes on with the number after the stored one. -/
theorem ids_never_collide_after_restart :
    let site := webRestart.foldl webSource.act (initial webDefense)
    site.store.events = [⟨"web", listenerId "web" 2, 1000⟩] ∧
      webSource.ids site = [listenerId "web" 3] ∧ webSource.NeverCollides site := by
  refine ⟨by decide, by decide, ?_⟩
  refine ids_never_collide webSource webDefense _ (Machine.reaches_of_along ?_)
  simp only [webRestart, Machine.Along, HasNumber, true_and, and_true]
  refine ⟨?_, ?_, ?_⟩
  · intro last attached
    rw [Option.some.inj (attached.symm.trans (show _ = some 0 by decide))]
    decide
  · intro last attached
    rw [Option.some.inj (attached.symm.trans (show _ = some 1 by decide))]
    decide
  · intro last attached
    rw [Option.some.inj (attached.symm.trans (show _ = some 2 by decide))]
    decide

/-! ### Past the last number -/

/-- The record of a number is dropped by a closed channel. -/
theorem act_take_send (site : NumberedSite) {last : Nat} (web : source.kind = .web)
    (attached : site.counter = some last) (idle : site.taken = []) (closed : site.closed = true) :
    [.take, .send (saturatingAdd last 1) "" 0].foldl source.act site =
      { site with counter := some ((last + 1) % 2 ^ 64) } := by
  simp only [List.foldl_cons, List.foldl_nil, act, attached, idle, closed, web]
  simp

/-- A closed channel drops any number of records, and the counter wraps around. -/
theorem exists_drops {site : NumberedSite} {last : Nat} (web : source.kind = .web)
    (attached : site.counter = some last) (idle : site.taken = []) (closed : site.closed = true)
    (fits : last < 2 ^ 64) (count : Nat) :
    ∃ actions : List NumberedAction, actions.foldl source.act site =
      { site with counter := some ((last + count) % 2 ^ 64) } := by
  induction count with
  | zero =>
    refine ⟨[], ?_⟩
    rw [Nat.add_zero, Nat.mod_eq_of_lt fits, ← attached]
    rfl
  | succ count inductionHypothesis =>
    obtain ⟨actions, reached⟩ := inductionHypothesis
    refine ⟨actions ++ [.take, .send (saturatingAdd ((last + count) % 2 ^ 64) 1) "" 0], ?_⟩
    rw [List.foldl_append, reached]
    have step := act_take_send { site with counter := some ((last + count) % 2 ^ 64) } web rfl idle
      closed
    refine step.trans ?_
    rw [Nat.mod_add_mod]
    rfl

/-- The event of the first number is stored, and after a restart the channel is closed. -/
def webClosed : List NumberedAction :=
  [.attach, .take, .send 1 dropPayload 1000, .process [calm], .restart webDefense, .attach,
    .shutdown]

/-- Once the counter has gone through all its values, the first id is given out again while the
store still holds its event. -/
theorem id_given_out_again :
    ¬ ∀ (source : InProcessSource) (defense : Defense) (site : NumberedSite),
      Machine.Reaches source.act (fun _ _ => True) (initial defense) site →
        source.NeverCollides site := by
  intro never
  set before := webClosed.foldl webSource.act (initial webDefense) with beforeIs
  have attached : before.counter = some 1 := by decide
  have idle : before.taken = [] := by decide
  have closed : before.closed = true := by decide
  have held : before.store.events = [⟨"web", listenerId "web" 1, 1000⟩] := by decide
  have web : webSource.kind = .web := rfl
  obtain ⟨actions, reached⟩ := exists_drops web attached idle closed (by decide) (2 ^ 64 - 1)
  have whole : (webClosed ++ actions ++ [NumberedAction.take]).foldl webSource.act
      (initial webDefense) = webSource.act { before with counter := some 0 } .take := by
    rw [List.foldl_append, List.foldl_append, ← beforeIs, reached]
    rfl
  have collides := never webSource webDefense _ (Machine.reaches_of_along
    (Machine.along_of_forall (fun _ _ => trivial) _ (webClosed ++ actions ++ [.take])))
  rw [whole] at collides
  refine collides.1 (listenerId "web" 1) ?_ ⟨"web", listenerId "web" 1, 1000⟩ ?_ rfl rfl
  · simp only [act, ids, idle]
    exact List.mem_append_left _ List.mem_cons_self
  · simp only [act, held]
    exact List.mem_cons_self

end InProcessSource

end Bagel
