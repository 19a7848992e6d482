/-
This file proves that maintenance is transparent: flagging expired leases and pruning
old offenses and leases does not change which leases later events bring about.

A run with maintenance is compared with the run of the same events alone. The two
stores differ in what maintenance removed, so they are related by what a later event
can still see of them. An offense at or after a time sees the offenses of the find
time before it, the leases that are in force from that time on, and the leases of the
escalation history; every cut-off of maintenance lies before all of these.
-/

import Bagel.StoreCalls

namespace Bagel

/-- A lease without its row number, which is all that maintenance may change of it. -/
def Lease.anonymous (lease : Lease) : Lease :=
  { lease with id := 0 }

/-- The retention of offenses: long enough for the widest window, and a day at least. -/
def offenseRetention (maxFindtimeSecs : Nat) : Nat :=
  max maxFindtimeSecs 86400

namespace Store

section Views

variable (store : Store)

/-- The offenses from a time on. -/
def offensesSince (start : Nat) : List OffenseRow :=
  store.offenses.filter fun row => decide (start ≤ row.observedAt)

/-- The leases created from a time on. -/
def leasesSince (start : Nat) : List Lease :=
  (store.leases.filter fun row => decide (start ≤ row.createdAt)).map fun row =>
    row.toLease.anonymous

/-- The leases in force at a time. -/
def leasesInForce (now : Nat) : List Lease :=
  (store.leases.filter fun row => row.active now).map fun row => row.toLease.anonymous

/-- The leases ever granted. -/
def grantedLeases : List Lease :=
  store.granted.map fun grant => grant.lease.anonymous

/-- A lease in force is in force at every earlier time. -/
theorem active_of_le {row : LeaseRow} {time later : Nat} (order : time ≤ later)
    (active : row.active later = true) : row.active time = true := by
  rw [LeaseRow.active, Bool.and_eq_true] at active ⊢
  refine ⟨active.1, ?_⟩
  have unexpired := active.2
  rw [LeaseRow.unexpired] at unexpired ⊢
  cases expires : row.expiresAt with
  | none => rfl
  | some expiry =>
    rw [expires, Option.all_some, decide_eq_true_eq] at unexpired
    simpa using Nat.lt_of_le_of_lt order unexpired

/-- Whether a lease is in force at a later time shows in the leases in force before. -/
theorem leaseActive_eq {time later : Nat} (order : time ≤ later) (policy : String)
    (network : IpNetwork) :
    store.leaseActive policy network later = (store.leasesInForce time).any fun lease =>
      lease.policy == policy && lease.network == network &&
        lease.expiresAt.all fun expiry => decide (later < expiry) := by
  rw [leasesInForce, List.any_map, List.any_filter]
  refine List.any_congr rfl fun row => ?_
  cases active : row.active time with
  | true =>
    have standing := (Bool.and_eq_true_iff.mp active).1
    simp [LeaseRow.active, standing, LeaseRow.unexpired, Lease.anonymous]
  | false =>
    have inactive : row.active later = false := by
      by_contra active'
      rw [Bool.not_eq_false] at active'
      rw [active_of_le order active'] at active
      exact Bool.noConfusion active
    simp [inactive]

/-- The bans that escalate a later ban are among the leases since the history began. -/
theorem priorBans_eq {time : Nat} {input : EventInput} {offense : OffenseInput}
    (order : time ≤ input.timeOf offense) :
    store.priorBans input offense =
      (store.leasesSince (time - offense.historyRetentionSecs)).countP fun lease =>
        lease.network == offense.network &&
          (offense.ban.overall || lease.policy == offense.policy) && !lease.manual &&
          decide (input.timeOf offense - offense.historyRetentionSecs ≤ lease.createdAt) := by
  rw [leasesSince, List.countP_map, List.countP_filter]
  refine List.countP_congr fun row _ => ?_
  simp only [Function.comp_apply, Lease.anonymous, Bool.and_eq_true, decide_eq_true_eq]
  constructor
  · intro counted
    exact ⟨counted, (Nat.sub_le_sub_right order _).trans counted.2⟩
  · exact fun both => both.1

theorem filter_selects_eq {start : Nat} {window : OffenseWindow} (order : start ≤ window.start) :
    store.offenses.filter window.selects = (store.offensesSince start).filter window.selects := by
  rw [offensesSince, List.filter_filter]
  refine List.filter_congr fun row _ => ?_
  cases selected : window.selects row with
  | false => rfl
  | true =>
    simp only [OffenseWindow.selects, Bool.and_eq_true] at selected
    have inside := of_decide_eq_true selected.1.1.2
    simp [order.trans inside]

end Views

/-! ### Stores that look alike -/

/-- Two stores show the same to every offense from a time on. -/
structure Alike (maxFindtimeSecs historyRetentionSecs time : Nat) (first second : Store) :
    Prop where
  inserted : first.inserted = second.inserted
  offenses : first.offensesSince (time - offenseRetention maxFindtimeSecs) =
    second.offensesSince (time - offenseRetention maxFindtimeSecs)
  history : first.leasesSince (time - historyRetentionSecs) =
    second.leasesSince (time - historyRetentionSecs)
  inForce : first.leasesInForce time = second.leasesInForce time
  granted : first.grantedLeases = second.grantedLeases

section Alike

variable {maxFindtimeSecs historyRetentionSecs time : Nat} {first second : Store}

theorem Alike.refl (store : Store) : store.Alike maxFindtimeSecs historyRetentionSecs time store :=
  ⟨rfl, rfl, rfl, rfl, rfl⟩

theorem Alike.symm (alike : first.Alike maxFindtimeSecs historyRetentionSecs time second) :
    second.Alike maxFindtimeSecs historyRetentionSecs time first :=
  ⟨alike.inserted.symm, alike.offenses.symm, alike.history.symm, alike.inForce.symm,
    alike.granted.symm⟩

theorem Alike.trans {third : Store}
    (earlier : first.Alike maxFindtimeSecs historyRetentionSecs time second)
    (later : second.Alike maxFindtimeSecs historyRetentionSecs time third) :
    first.Alike maxFindtimeSecs historyRetentionSecs time third :=
  ⟨earlier.inserted.trans later.inserted, earlier.offenses.trans later.offenses,
    earlier.history.trans later.history, earlier.inForce.trans later.inForce,
    earlier.granted.trans later.granted⟩

theorem offensesSince_of_le (store : Store) {start later : Nat} (order : start ≤ later) :
    store.offensesSince later =
      (store.offensesSince start).filter fun row => decide (later ≤ row.observedAt) := by
  rw [offensesSince, offensesSince, List.filter_filter]
  refine List.filter_congr fun row _ => ?_
  by_cases recent : later ≤ row.observedAt
  · simp [recent, order.trans recent]
  · simp [recent]

theorem leasesSince_of_le (store : Store) {start later : Nat} (order : start ≤ later) :
    store.leasesSince later =
      (store.leasesSince start).filter fun lease => decide (later ≤ lease.createdAt) := by
  rw [leasesSince, leasesSince, List.filter_map, List.filter_filter]
  congr 1
  refine List.filter_congr fun row _ => ?_
  by_cases recent : later ≤ row.createdAt
  · simp [recent, order.trans recent, Lease.anonymous]
  · simp [recent, Lease.anonymous]

theorem leasesInForce_of_le (store : Store) {time later : Nat} (order : time ≤ later) :
    store.leasesInForce later = (store.leasesInForce time).filter fun lease =>
      lease.expiresAt.all fun expiry => decide (later < expiry) := by
  rw [leasesInForce, leasesInForce, List.filter_map, List.filter_filter]
  congr 1
  refine List.filter_congr fun row _ => ?_
  cases active : row.active later with
  | true =>
    have unexpired := (Bool.and_eq_true_iff.mp active).2
    rw [active_of_le order active, Bool.and_true]
    exact unexpired.symm
  | false =>
    by_contra shown
    rw [← ne_eq, ne_comm, Bool.ne_false_iff, Bool.and_eq_true] at shown
    have standing := (Bool.and_eq_true_iff.mp shown.2).1
    have : row.active later = true := by
      rw [LeaseRow.active, standing]
      exact shown.1
    rw [this] at active
    exact Bool.noConfusion active

/-- What looks alike from a time on looks alike from every later time on. -/
theorem Alike.later (alike : first.Alike maxFindtimeSecs historyRetentionSecs time second)
    {later : Nat} (order : time ≤ later) :
    first.Alike maxFindtimeSecs historyRetentionSecs later second where
  inserted := alike.inserted
  offenses := by
    have start := Nat.sub_le_sub_right order (offenseRetention maxFindtimeSecs)
    rw [offensesSince_of_le first start, offensesSince_of_le second start, alike.offenses]
  history := by
    have start := Nat.sub_le_sub_right order historyRetentionSecs
    rw [leasesSince_of_le first start, leasesSince_of_le second start, alike.history]
  inForce := by
    rw [leasesInForce_of_le first order, leasesInForce_of_le second order, alike.inForce]
  granted := alike.granted

/-! ### Maintenance is not seen -/

theorem Alike.withoutOffenses (store : Store) {now : Nat} (order : now ≤ time) :
    (store.withoutOffenses (now - offenseRetention maxFindtimeSecs)).Alike maxFindtimeSecs
      historyRetentionSecs time store where
  inserted := rfl
  offenses := by
    refine Table.filter_delete (fun row old => ?_) store.offenses
    have old : row.observedAt < now - offenseRetention maxFindtimeSecs := of_decide_eq_true old
    exact decide_eq_false (by omega)
  history := rfl
  inForce := rfl
  granted := rfl

/-- A lease that has run out by a time is not in force from then on. -/
theorem inactive_of_expired {row : LeaseRow} {now : Nat}
    (expired : (row.expiresAt.any fun expiry => decide (expiry ≤ now)) = true)
    (order : now ≤ time) : row.active time = false := by
  obtain ⟨expiry, expires, passed⟩ := (Option.any_eq_true _ _).mp expired
  have passed : expiry ≤ now := of_decide_eq_true passed
  rw [LeaseRow.active, LeaseRow.unexpired, expires, Option.all_some,
    decide_eq_false (by omega), Bool.and_false]

theorem Alike.expire (store : Store) {now : Nat} (order : now ≤ time) :
    { store with
      leases := Table.update (fun row => row.due now)
        (fun row => { row with expiredAt := some now }) store.leases }.Alike maxFindtimeSecs
      historyRetentionSecs time store where
  inserted := rfl
  offenses := rfl
  history := by
    rw [leasesSince, leasesSince, Table.filter_update_of_unnoticed (fun row => by rfl),
      Table.update, List.map_map]
    refine List.map_congr_left fun row _ => ?_
    rw [Function.comp_apply]
    split <;> rfl
  inForce := by
    rw [leasesInForce, leasesInForce, Table.filter_update fun row due => ?_]
    refine ⟨inactive_of_expired (Bool.and_eq_true_iff.mp due).2 order, ?_⟩
    simp [LeaseRow.active, LeaseRow.standing]
  granted := rfl

theorem Alike.pruneLeases (store : Store) {now : Nat} (order : now ≤ time) :
    { store with
      leases := Table.delete (fun row => row.prunable (now - historyRetentionSecs) now)
        store.leases }.Alike maxFindtimeSecs historyRetentionSecs time store where
  inserted := rfl
  offenses := rfl
  history := by
    rw [leasesSince, leasesSince, Table.filter_delete fun row gone => ?_]
    have old := of_decide_eq_true (Bool.and_eq_true_iff.mp gone).1
    exact decide_eq_false (by omega)
  inForce := by
    rw [leasesInForce, leasesInForce, Table.filter_delete fun row gone => ?_]
    rcases Bool.or_eq_true_iff.mp (Bool.and_eq_true_iff.mp gone).2 with ended | expired
    · rw [Bool.not_eq_true'] at ended
      rw [LeaseRow.active, ended, Bool.false_and]
    · exact inactive_of_expired expired order
  granted := rfl

/-! ### Offenses -/

theorem Alike.record (alike : first.Alike maxFindtimeSecs historyRetentionSecs time second)
    (input : EventInput) (offense : OffenseInput) :
    (first.record input offense).Alike maxFindtimeSecs historyRetentionSecs time
      (second.record input offense) := by
  have sameRow : first.rowOf input offense = second.rowOf input offense := by
    rw [rowOf, rowOf, alike.inserted]
  refine ⟨?_, ?_, alike.history, alike.inForce, alike.granted⟩
  · rw [Store.record, Store.record, sameRow, alike.inserted]
  · have appended (store : Store) :
        (store.record input offense).offensesSince (time - offenseRetention maxFindtimeSecs) =
          store.offensesSince (time - offenseRetention maxFindtimeSecs) ++
            [store.rowOf input offense].filter fun row =>
              decide (time - offenseRetention maxFindtimeSecs ≤ row.observedAt) :=
      List.filter_append _ _
    rw [appended, appended, sameRow, alike.offenses]

theorem Alike.consume (alike : first.Alike maxFindtimeSecs historyRetentionSecs time second)
    (hit : OffenseRow → Bool) :
    { first with offenses := Table.update hit Store.consume first.offenses }.Alike maxFindtimeSecs
      historyRetentionSecs time
      { second with offenses := Table.update hit Store.consume second.offenses } := by
  refine ⟨alike.inserted, ?_, alike.history, alike.inForce, alike.granted⟩
  have consumed (store : Store) :
      { store with offenses := Table.update hit Store.consume store.offenses }.offensesSince
          (time - offenseRetention maxFindtimeSecs) =
        Table.update hit Store.consume
          (store.offensesSince (time - offenseRetention maxFindtimeSecs)) :=
    Table.filter_update_of_unnoticed (fun row => by rfl) _
  rw [consumed, consumed, alike.offenses]

variable {input : EventInput} {offense : OffenseInput}

/-- The store after a lease was granted to an offense. -/
def grant (store : Store) (offense : OffenseInput) (lease : Lease) : Store :=
  { store with
    leases := store.leases ++ [⟨lease, none, none⟩]
    granted := store.granted ++ [⟨lease, offense⟩] }

theorem leasesSince_grant (store : Store) (offense : OffenseInput) (lease : Lease) (start : Nat) :
    (store.grant offense lease).leasesSince start = store.leasesSince start ++
      if start ≤ lease.anonymous.createdAt then [lease.anonymous] else [] := by
  rw [leasesSince, Store.grant, List.filter_append, List.map_append, ← leasesSince]
  congr 1
  split
  · next recent =>
    have recent : decide (start ≤ lease.createdAt) = true := decide_eq_true recent
    rw [List.filter_cons_of_pos (by exact recent)]
    rfl
  · next old =>
    have old : ¬ decide (start ≤ lease.createdAt) = true :=
      fun recent => old (of_decide_eq_true recent)
    rw [List.filter_cons_of_neg (by exact old)]
    rfl

theorem leasesInForce_grant (store : Store) (offense : OffenseInput) (lease : Lease) (now : Nat) :
    (store.grant offense lease).leasesInForce now = store.leasesInForce now ++
      if lease.anonymous.expiresAt.all fun expiry => decide (now < expiry) then [lease.anonymous]
      else [] := by
  rw [leasesInForce, Store.grant, List.filter_append, List.map_append, ← leasesInForce]
  congr 1
  split
  · next unexpired =>
    have active : LeaseRow.active ⟨lease, none, none⟩ now = true := unexpired
    rw [List.filter_cons_of_pos (by exact active)]
    rfl
  · next expired =>
    have inactive : ¬ LeaseRow.active ⟨lease, none, none⟩ now = true := expired
    rw [List.filter_cons_of_neg (by exact inactive)]
    rfl

/-- Both stores are granted the same lease, up to its row number. -/
theorem Alike.grant (alike : first.Alike maxFindtimeSecs historyRetentionSecs time second)
    {firstLease secondLease : Lease} (same : firstLease.anonymous = secondLease.anonymous) :
    (first.grant offense firstLease).Alike maxFindtimeSecs historyRetentionSecs time
      (second.grant offense secondLease) := by
  refine ⟨alike.inserted, alike.offenses, ?_, ?_, ?_⟩
  · rw [leasesSince_grant, leasesSince_grant, same, alike.history]
  · rw [leasesInForce_grant, leasesInForce_grant, same, alike.inForce]
  · have appended (store : Store) (lease : Lease) :
        (store.grant offense lease).grantedLeases = store.grantedLeases ++ [lease.anonymous] :=
      List.map_append
    rw [appended, appended, same, alike.granted]

/-- An offense of the policies that maintenance respects. -/
structure Respected (maxFindtimeSecs historyRetentionSecs time : Nat) (input : EventInput)
    (offense : OffenseInput) : Prop where
  later : time ≤ input.timeOf offense
  findtime : offense.findtimeSecs ≤ maxFindtimeSecs
  retention : offense.historyRetentionSecs = historyRetentionSecs

section Respected

variable (respected : Respected maxFindtimeSecs historyRetentionSecs time input offense)

include respected

theorem Alike.leaseOf (alike : first.Alike maxFindtimeSecs historyRetentionSecs time second) :
    first.priorBans input offense = second.priorBans input offense ∧
      (first.leaseOf input offense).anonymous = (second.leaseOf input offense).anonymous := by
  have sameBans : first.priorBans input offense = second.priorBans input offense := by
    rw [priorBans_eq first respected.later, priorBans_eq second respected.later,
      respected.retention, alike.history]
  refine ⟨sameBans, ?_⟩
  simp only [Lease.anonymous, Store.leaseOf, sameBans]

theorem Alike.countAttempts (alike : first.Alike maxFindtimeSecs historyRetentionSecs time second) :
    first.countAttempts (input.windowOf offense) =
      second.countAttempts (input.windowOf offense) := by
  have start : time - offenseRetention maxFindtimeSecs ≤ (input.windowOf offense).start := by
    have later := respected.later
    have findtime : offense.findtimeSecs ≤ offenseRetention maxFindtimeSecs :=
      respected.findtime.trans (Nat.le_max_left _ _)
    simp only [EventInput.windowOf]
    omega
  rw [Store.countAttempts, Store.countAttempts, filter_selects_eq first start,
    filter_selects_eq second start, alike.offenses]

/-- An offense takes the same step on stores that look alike. -/
theorem OffenseStep.alike {next : Store} {lease : Option Lease}
    (step : OffenseStep first input offense next lease)
    (alike : first.Alike maxFindtimeSecs historyRetentionSecs time second) :
    ∃ other otherLease, OffenseStep second input offense other otherLease ∧
      next.Alike maxFindtimeSecs historyRetentionSecs time other := by
  have sameActive : first.leaseActive offense.policy offense.network (input.timeOf offense) =
      second.leaseActive offense.policy offense.network (input.timeOf offense) := by
    rw [leaseActive_eq first respected.later, leaseActive_eq second respected.later, alike.inForce]
  have recorded := alike.record input offense
  have sameCount := recorded.countAttempts respected
  cases step with
  | absorbed active =>
    exact ⟨_, _, .absorbed (sameActive ▸ active), recorded.consume _⟩
  | counted inactive few =>
    exact ⟨_, _, .counted (sameActive ▸ inactive) (sameCount ▸ few), recorded⟩
  | banned inactive enough fits =>
    obtain ⟨sameBans, sameLease⟩ := alike.leaseOf respected
    refine ⟨_, _, .banned (sameActive ▸ inactive) (sameCount ▸ enough) (sameBans ▸ fits), ?_⟩
    exact (recorded.consume (input.windowOf offense).selects).grant sameLease

end Respected

/-! ### Events -/

/-- The rows of an event are among those that later offenses may see. -/
def EventRecent (start : Nat) (input : EventInput) (store : Store) : Prop :=
  ∀ row ∈ store.offenses, row.source = input.source → row.eventId = input.eventId →
    start ≤ row.observedAt

theorem Alike.keyFree (alike : first.Alike maxFindtimeSecs historyRetentionSecs time second)
    (recent : second.EventRecent (time - offenseRetention maxFindtimeSecs) input)
    (free : first.KeyFree input offense) : second.KeyFree input offense := by
  intro row member same
  have seen : row ∈ second.offensesSince (time - offenseRetention maxFindtimeSecs) :=
    List.mem_filter.mpr ⟨member, decide_eq_true (recent row member same.1 same.2.1)⟩
  rw [← alike.offenses] at seen
  exact free row (List.mem_filter.mp seen).1 same

theorem OffenseStep.eventRecent {start : Nat} {next : Store} {lease : Option Lease}
    (step : OffenseStep first input offense next lease) (order : start ≤ input.timeOf offense)
    (recent : first.EventRecent start input) : next.EventRecent start input :=
  step.forall_offenses (fun _ => id) (fun _ _ => order) recent

theorem applyOffenses_alike {offenses : List OffenseInput}
    (respected : ∀ offense ∈ offenses,
      Respected maxFindtimeSecs historyRetentionSecs time input offense)
    {next : Store} {leases : List Lease}
    (alike : first.Alike maxFindtimeSecs historyRetentionSecs time second)
    (firstRecent : first.EventRecent (time - offenseRetention maxFindtimeSecs) input)
    (secondRecent : second.EventRecent (time - offenseRetention maxFindtimeSecs) input)
    (applied : first.applyOffenses input offenses = .ok (next, leases)) :
    ∃ other otherLeases, second.applyOffenses input offenses = .ok (other, otherLeases) ∧
      next.Alike maxFindtimeSecs historyRetentionSecs time other := by
  induction offenses generalizing first second leases with
  | nil =>
    obtain ⟨rfl, -⟩ := Prod.mk.inj (Except.ok.inj applied)
    exact ⟨second, [], rfl, alike⟩
  | cons offense rest inductionHypothesis =>
    have respectedHead := respected offense List.mem_cons_self
    simp only [applyOffenses, Transaction.bind_eq_ok_iff, Prod.exists] at applied ⊢
    obtain ⟨middle, lease, head, last, others, tail, same⟩ := applied
    obtain ⟨rfl, -⟩ := Prod.mk.inj (Except.ok.inj same)
    obtain ⟨fits, free, step⟩ := applyOffense_eq_ok_iff.mp head
    obtain ⟨otherMiddle, otherLease, otherStep, after⟩ := step.alike respectedHead alike
    have order : time - offenseRetention maxFindtimeSecs ≤ input.timeOf offense :=
      (Nat.sub_le _ _).trans respectedHead.later
    obtain ⟨other, otherLeases, otherTail, finish⟩ := inductionHypothesis
      (fun offense member => respected offense (List.mem_cons_of_mem _ member)) after
      (step.eventRecent order firstRecent) (otherStep.eventRecent order secondRecent) tail
    have otherHead := applyOffense_eq_ok_iff.mpr
      ⟨fits, alike.keyFree secondRecent free, otherStep⟩
    exact ⟨other, _, ⟨otherMiddle, otherLease, otherHead, other, otherLeases, otherTail, rfl⟩,
      finish⟩

/-- The store has no trace of the record of an input. -/
structure Unseen (input : EventInput) (store : Store) : Prop where
  events : ∀ row ∈ store.events, ¬ (row.source = input.source ∧ row.eventId = input.eventId)
  offenses : ∀ row ∈ store.offenses, ¬ (row.source = input.source ∧ row.eventId = input.eventId)

theorem Unseen.seen_eq_false {store : Store} (unseen : store.Unseen input) :
    store.seen input = false := by
  refine List.any_eq_false.mpr fun row member => ?_
  simpa using unseen.events row member

theorem Unseen.eventRecent {store : Store} (unseen : store.Unseen input) (start : Nat) :
    (store.noteEvent input).EventRecent start input :=
  fun row member sameSource sameEvent =>
    absurd ⟨sameSource, sameEvent⟩ (unseen.offenses row member)

/-- Two inputs of different records. -/
def Distinct (one other : EventInput) : Prop :=
  ¬ (one.source = other.source ∧ one.eventId = other.eventId)

instance (one other : EventInput) : Decidable (Distinct one other) :=
  inferInstanceAs (Decidable (¬ (_ ∧ _)))

theorem EventStep.alike (respected : ∀ offense ∈ input.offenses,
      Respected maxFindtimeSecs historyRetentionSecs time input offense)
    (alike : first.Alike maxFindtimeSecs historyRetentionSecs time second)
    (firstUnseen : first.Unseen input) (secondUnseen : second.Unseen input) {next : Store}
    {outcome : EventOutcome} (step : EventStep first input next outcome) :
    ∃ other otherOutcome, EventStep second input other otherOutcome ∧
      next.Alike maxFindtimeSecs historyRetentionSecs time other := by
  cases step with
  | duplicate seen => exact absurd (firstUnseen.seen_eq_false.symm.trans seen) Bool.false_ne_true
  | recorded unseen applied =>
    have noted : (first.noteEvent input).Alike maxFindtimeSecs historyRetentionSecs time
        (second.noteEvent input) :=
      ⟨alike.inserted, alike.offenses, alike.history, alike.inForce, alike.granted⟩
    obtain ⟨other, otherLeases, otherApplied, after⟩ := applyOffenses_alike respected noted
      (firstUnseen.eventRecent _) (secondUnseen.eventRecent _) applied
    refine ⟨_, _, .recorded secondUnseen.seen_eq_false otherApplied, ?_⟩
    exact ⟨after.inserted, after.offenses, after.history, after.inForce, after.granted⟩

/-- The offenses of an event leave no trace of another record. -/
theorem EventStep.unseen {other : EventInput} (distinct : Distinct input other) {store next : Store}
    {outcome : EventOutcome} (step : EventStep store input next outcome)
    (unseen : store.Unseen other) : next.Unseen other := by
  cases step with
  | duplicate seen => exact unseen
  | recorded fresh applied =>
    have noted : (store.noteEvent input).Unseen other := by
      refine ⟨fun row member => ?_, unseen.offenses⟩
      rcases List.mem_append.mp member with old | new
      · exact unseen.events row old
      · rw [List.mem_singleton.mp new]
        exact distinct
    have after : Unseen other _ := applyOffenses_preserves ?_ noted applied
    · exact ⟨after.events, after.offenses⟩
    · intro offense _ store next lease _ _ step unseen
      refine ⟨step.events_eq ▸ unseen.events, ?_⟩
      exact step.forall_offenses (fun _ => id) distinct unseen.offenses

theorem processEvents_unseen {inputs : List EventInput} {other : EventInput}
    (distinct : ∀ input ∈ inputs, Distinct input other) {store next : Store}
    {outcomes : List EventOutcome} (unseen : store.Unseen other)
    (processed : store.processEvents inputs = .ok (next, outcomes)) : next.Unseen other := by
  induction inputs generalizing store outcomes with
  | nil =>
    obtain ⟨rfl, -⟩ := Prod.mk.inj (Except.ok.inj processed)
    exact unseen
  | cons input rest inductionHypothesis =>
    obtain ⟨middle, outcome, others, later, -, -, first⟩ :=
      processEvents_cons_eq_ok_iff.mp processed
    refine inductionHypothesis
      (fun input member => distinct input (List.mem_cons_of_mem _ member)) ?_ later
    rcases first with ⟨-, rfl, -⟩ | ⟨-, step⟩
    · exact ⟨unseen.events, unseen.offenses⟩
    · exact step.unseen (distinct input List.mem_cons_self) unseen

theorem processEvents_alike {inputs : List EventInput}
    (respected : ∀ input ∈ inputs, ∀ offense ∈ input.offenses,
      Respected maxFindtimeSecs historyRetentionSecs time input offense)
    (distinct : inputs.Pairwise Distinct)
    (alike : first.Alike maxFindtimeSecs historyRetentionSecs time second)
    (unseen : ∀ input ∈ inputs, first.Unseen input ∧ second.Unseen input) {next : Store}
    {outcomes : List EventOutcome} (processed : first.processEvents inputs = .ok (next, outcomes)) :
    ∃ other otherOutcomes, second.processEvents inputs = .ok (other, otherOutcomes) ∧
      next.Alike maxFindtimeSecs historyRetentionSecs time other := by
  induction inputs generalizing first second outcomes with
  | nil =>
    obtain ⟨rfl, -⟩ := Prod.mk.inj (Except.ok.inj processed)
    exact ⟨second, [], rfl, alike⟩
  | cons input rest inductionHypothesis =>
    obtain ⟨apart, distinct⟩ := List.pairwise_cons.mp distinct
    obtain ⟨middle, outcome, others, later, -, fits, head⟩ :=
      processEvents_cons_eq_ok_iff.mp processed
    have respectedRest := fun other member => respected other (List.mem_cons_of_mem input member)
    have unseenRest := fun other member => unseen other (List.mem_cons_of_mem input member)
    rcases head with ⟨unmatched, rfl, -⟩ | ⟨matched, step⟩
    · have after : (first.setCheckpoint input).Alike maxFindtimeSecs historyRetentionSecs time
          (second.setCheckpoint input) :=
        ⟨alike.inserted, alike.offenses, alike.history, alike.inForce, alike.granted⟩
      obtain ⟨last, otherOutcomes, otherLater, finish⟩ :=
        inductionHypothesis respectedRest distinct after
          (fun other member =>
            have known := unseenRest other member
            ⟨⟨known.1.events, known.1.offenses⟩, ⟨known.2.events, known.2.offenses⟩⟩) later
      exact ⟨last, _, processEvents_cons_eq_ok_iff.mpr ⟨_, _, _, otherLater, rfl, fits,
        Or.inl ⟨unmatched, rfl, rfl⟩⟩, finish⟩
    · have known := unseen input List.mem_cons_self
      obtain ⟨otherMiddle, otherOutcome, otherStep, after⟩ :=
        step.alike (respected input List.mem_cons_self) alike known.1 known.2
      obtain ⟨last, otherOutcomes, otherLater, finish⟩ :=
        inductionHypothesis respectedRest distinct after
          (fun other member =>
            have known := unseenRest other member
            ⟨step.unseen (apart other member) known.1,
              otherStep.unseen (apart other member) known.2⟩) later
      exact ⟨last, _, processEvents_cons_eq_ok_iff.mpr ⟨_, _, _, otherLater, rfl, fits,
        Or.inr ⟨matched, otherStep⟩⟩, finish⟩

end Alike

end Store

/-! ### Runs with maintenance -/

/-- What happens to the store: events, alone or in a batch, and maintenance at a time. -/
inductive Turn where
  | event (input : EventInput)
  | batch (inputs : List EventInput)
  | expire (now : Nat)
  | pruneOffenses (now : Nat)
  | pruneLeases (now : Nat)

namespace Turn

/-- The call of a turn. Maintenance prunes with the cut-offs of `defense_maintenance::expire`. -/
def call (maxFindtimeSecs historyRetentionSecs : Nat) : Turn → StoreCall
  | event input => .processEvent input
  | batch inputs => .processEvents inputs
  | expire now => .expire now
  | pruneOffenses now => .pruneOffenses (now - offenseRetention maxFindtimeSecs)
  | pruneLeases now => .pruneLeases (now - historyRetentionSecs) now

def inputs : Turn → List EventInput
  | event input => [input]
  | batch inputs => inputs
  | _ => []

/-- The time of maintenance. -/
def maintainedAt : Turn → Option Nat
  | event _ => none
  | batch _ => none
  | expire now => some now
  | pruneOffenses now => some now
  | pruneLeases now => some now

/-- The store after some turns. -/
def play (maxFindtimeSecs historyRetentionSecs : Nat) (turns : List Turn) (store : Store) : Store :=
  turns.foldl (fun store turn => (turn.call maxFindtimeSecs historyRetentionSecs).execute store)
    store

section Runs

variable {maxFindtimeSecs historyRetentionSecs time : Nat}

/-- Maintenance up to a time is not seen from that time on. -/
theorem alike_execute_maintenance {turn : Turn} {now : Nat}
    (maintained : turn.maintainedAt = some now) (order : now ≤ time) (store : Store) :
    store.Alike maxFindtimeSecs historyRetentionSecs time
      ((turn.call maxFindtimeSecs historyRetentionSecs).execute store) := by
  cases turn with
  | event input => exact nomatch maintained
  | batch inputs => exact nomatch maintained
  | expire now =>
    obtain rfl := Option.some.inj maintained
    rw [call, StoreCall.execute]
    refine Transaction.commit_preserves (.refl store) fun next count expired => ?_
    rw [(Store.expire_ok expired).2]
    exact (Store.Alike.expire store order).symm
  | pruneOffenses now =>
    obtain rfl := Option.some.inj maintained
    rw [call, StoreCall.execute]
    refine Transaction.commit_preserves (.refl store) fun next count pruned => ?_
    rw [(Store.pruneOffenses_ok pruned).2]
    exact (Store.Alike.withoutOffenses store order).symm
  | pruneLeases now =>
    obtain rfl := Option.some.inj maintained
    rw [call, StoreCall.execute]
    refine Transaction.commit_preserves (.refl store) fun next count pruned => ?_
    rw [(Store.pruneLeases_ok pruned).2]
    exact (Store.Alike.pruneLeases store order).symm

theorem execute_unseen {turn : Turn} {other : EventInput}
    (distinct : ∀ input ∈ turn.inputs, Store.Distinct input other) {store : Store}
    (unseen : store.Unseen other) :
    ((turn.call maxFindtimeSecs historyRetentionSecs).execute store).Unseen other := by
  cases turn with
  | event input =>
    rw [call, StoreCall.execute]
    refine Transaction.commit_preserves unseen fun next outcome processed => ?_
    exact (Store.applyEvent_eq_ok_iff.mp processed).2.unseen
      (distinct input (List.mem_singleton_self input)) unseen
  | batch inputs =>
    rw [call, StoreCall.execute]
    refine Transaction.commit_preserves unseen fun next outcomes processed => ?_
    exact Store.processEvents_unseen distinct unseen processed
  | expire now | pruneOffenses now | pruneLeases now =>
    refine StoreCall.execute_upkeep_preserves ?_ ?_ ?_ ?_ rfl unseen
    · exact fun _ _ store unseen =>
        ⟨fun row member => unseen.events row (Table.mem_delete.mp member).1,
          fun row member => unseen.offenses row (Table.mem_delete.mp member).1⟩
    · exact fun store hit change _ unseen => ⟨unseen.events, unseen.offenses⟩
    · exact fun store hit unseen => ⟨unseen.events, unseen.offenses⟩
    · intro store next network action time durationSecs lease blocked unseen
      rw [(Store.manualBlock_ok blocked).2.2]
      exact ⟨unseen.events, unseen.offenses⟩

/-- Events do the same to stores that look alike. -/
theorem alike_execute_events {turn : Turn} (untimed : turn.maintainedAt = none)
    (respected : ∀ input ∈ turn.inputs, ∀ offense ∈ input.offenses,
      Store.Respected maxFindtimeSecs historyRetentionSecs time input offense)
    (distinct : turn.inputs.Pairwise Store.Distinct) {first second : Store}
    (alike : first.Alike maxFindtimeSecs historyRetentionSecs time second)
    (unseen : ∀ input ∈ turn.inputs, first.Unseen input ∧ second.Unseen input) :
    ((turn.call maxFindtimeSecs historyRetentionSecs).execute first).Alike maxFindtimeSecs
      historyRetentionSecs time
      ((turn.call maxFindtimeSecs historyRetentionSecs).execute second) := by
  cases turn with
  | event input =>
    have respected := respected input (List.mem_singleton_self input)
    have unseen := unseen input (List.mem_singleton_self input)
    rw [call, StoreCall.execute, StoreCall.execute]
    refine Transaction.commit_related alike (fun next outcome processed => ?_)
      fun other outcome processed => ?_
    · obtain ⟨fits, step⟩ := Store.applyEvent_eq_ok_iff.mp processed
      obtain ⟨other, otherOutcome, otherStep, after⟩ := step.alike respected alike unseen.1 unseen.2
      exact ⟨other, otherOutcome, Store.applyEvent_eq_ok_iff.mpr ⟨fits, otherStep⟩, after⟩
    · obtain ⟨fits, step⟩ := Store.applyEvent_eq_ok_iff.mp processed
      obtain ⟨next, nextOutcome, nextStep, -⟩ :=
        step.alike respected alike.symm unseen.2 unseen.1
      exact ⟨next, nextOutcome, Store.applyEvent_eq_ok_iff.mpr ⟨fits, nextStep⟩⟩
  | batch inputs =>
    rw [call, StoreCall.execute, StoreCall.execute]
    refine Transaction.commit_related alike (fun next outcomes processed => ?_)
      fun other outcomes processed => ?_
    · exact Store.processEvents_alike respected distinct alike unseen processed
    · obtain ⟨next, nextOutcomes, done, -⟩ := Store.processEvents_alike respected distinct
        alike.symm (fun input member => (unseen input member).symm) processed
      exact ⟨next, nextOutcomes, done⟩
  | expire now => cases untimed
  | pruneOffenses now => cases untimed
  | pruneLeases now => cases untimed

/-- A run with maintenance and the run of its events alone keep looking alike. The time from
which they do moves on with maintenance. -/
theorem grantedLeases_play (time : Nat) {turns : List Turn}
    (distinct : (turns.flatMap inputs).Pairwise Store.Distinct)
    (ordered : turns.Pairwise fun earlier later => ∀ now ∈ earlier.maintainedAt,
      ∀ input ∈ later.inputs, ∀ offense ∈ input.offenses, now ≤ input.timeOf offense)
    (respected : ∀ input ∈ turns.flatMap inputs, ∀ offense ∈ input.offenses,
      Store.Respected maxFindtimeSecs historyRetentionSecs time input offense)
    {first second : Store}
    (alike : first.Alike maxFindtimeSecs historyRetentionSecs time second)
    (unseen : ∀ input ∈ turns.flatMap inputs, first.Unseen input ∧ second.Unseen input) :
    (play maxFindtimeSecs historyRetentionSecs turns first).grantedLeases =
      (play maxFindtimeSecs historyRetentionSecs
        (turns.filter fun turn => turn.maintainedAt.isNone) second).grantedLeases := by
  induction turns generalizing time first second with
  | nil => exact alike.granted
  | cons turn rest inductionHypothesis =>
    rw [List.flatMap_cons] at distinct respected unseen
    obtain ⟨here, later, apart⟩ := List.pairwise_append.mp distinct
    obtain ⟨orderedHere, orderedLater⟩ := List.pairwise_cons.mp ordered
    have respectedLater := fun input member => respected input (List.mem_append_right _ member)
    have unseenLater := fun input member => unseen input (List.mem_append_right _ member)
    cases maintained : turn.maintainedAt with
    | none =>
      rw [List.filter_cons_of_pos (by simp [maintained])]
      refine inductionHypothesis time later orderedLater respectedLater ?_ fun input member => ?_
      · exact alike_execute_events maintained
          (fun input member => respected input (List.mem_append_left _ member)) here alike
          fun input member => unseen input (List.mem_append_left _ member)
      · exact ⟨execute_unseen (fun other present => apart other present input member)
            (unseenLater input member).1,
          execute_unseen (fun other present => apart other present input member)
            (unseenLater input member).2⟩
    | some now =>
      rw [List.filter_cons_of_neg (by simp [maintained])]
      have alike := alike.later (Nat.le_max_left time now)
      have hidden : first.Alike maxFindtimeSecs historyRetentionSecs (max time now)
          ((turn.call maxFindtimeSecs historyRetentionSecs).execute first) :=
        alike_execute_maintenance maintained (Nat.le_max_right time now) first
      refine inductionHypothesis (max time now) later orderedLater ?_ (hidden.symm.trans alike)
        fun input member => ?_
      · intro input member offense present
        have before := respectedLater input member offense present
        obtain ⟨other, included, brought⟩ := List.mem_flatMap.mp member
        have after := orderedHere other included now maintained input brought offense present
        exact ⟨Nat.max_le.mpr ⟨before.later, after⟩, before.findtime, before.retention⟩
      · exact ⟨execute_unseen (fun other present => apart other present input member)
            (unseenLater input member).1, (unseenLater input member).2⟩

end Runs

end Turn

/-- Interleaving maintenance with events does not change the leases that the events bring
about, if no later offense lies before an earlier maintenance. -/
theorem maintenance_is_transparent (maxFindtimeSecs historyRetentionSecs : Nat) (turns : List Turn)
    (distinct : (turns.flatMap Turn.inputs).Pairwise Store.Distinct)
    (limits : ∀ input ∈ turns.flatMap Turn.inputs, ∀ offense ∈ input.offenses,
      offense.findtimeSecs ≤ maxFindtimeSecs ∧ offense.historyRetentionSecs = historyRetentionSecs)
    (ordered : turns.Pairwise fun earlier later => ∀ now ∈ earlier.maintainedAt,
      ∀ input ∈ later.inputs, ∀ offense ∈ input.offenses, now ≤ input.timeOf offense) :
    (Turn.play maxFindtimeSecs historyRetentionSecs turns Store.empty).grantedLeases =
      (Turn.play maxFindtimeSecs historyRetentionSecs
        (turns.filter fun turn => turn.maintainedAt.isNone) Store.empty).grantedLeases := by
  refine Turn.grantedLeases_play 0 distinct ordered ?_ (.refl Store.empty) ?_
  · intro input member offense present
    have limit := limits input member offense present
    exact ⟨Nat.zero_le _, limit.1, limit.2⟩
  · intro input _
    exact ⟨⟨by simp [Store.empty], by simp [Store.empty]⟩,
      ⟨by simp [Store.empty], by simp [Store.empty]⟩⟩

/-- Two bursts of failed logins two days apart, with all three kinds of maintenance between
them. -/
def maintainedLogins : List Turn :=
  [.event (failedLogin "first" 0xC0000201#32 100), .event (failedLogin "second" 0xC0000201#32 105),
    .expire 200000, .pruneOffenses 200000, .pruneLeases 200000,
    .batch [failedLogin "third" 0xC0000201#32 200010, failedLogin "fourth" 0xC0000201#32 200015]]

/-- Maintenance empties the tables between the two bursts, and both are banned all the same. -/
theorem maintenance_is_transparent_between_bursts :
    ((Turn.play 10 86400 (maintainedLogins.take 5) Store.empty).offenses = [] ∧
      (Turn.play 10 86400 (maintainedLogins.take 5) Store.empty).leases = []) ∧
    (Turn.play 10 86400 maintainedLogins Store.empty).grantedLeases.length = 2 ∧
    (Turn.play 10 86400 maintainedLogins Store.empty).grantedLeases =
      (Turn.play 10 86400 (maintainedLogins.filter fun turn => turn.maintainedAt.isNone)
        Store.empty).grantedLeases := by
  refine ⟨by decide, by decide, ?_⟩
  exact maintenance_is_transparent 10 86400 maintainedLogins (by decide) (by decide) (by decide)

end Bagel
