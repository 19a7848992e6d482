/-
This file proves when the firewall agrees with the store once all tasks have finished.

Each reconcile publishes what it has read of the lease table, so the system is an
instance of the publication protocol: the shared collection is the leases in force
without the notes of reconciliation, and what is posted is the installed ruleset. If
rulesets are installed in the order their leases were read, the ruleset installed last
is that of the leases in force, and a lease marked as applied is in it. If a ruleset is
installed after one whose leases were read later, neither holds, and nothing in the
store shows it.
-/

import Bagel.LeaseTable
import Bagel.Library.Publish
import Bagel.Precedence
import Bagel.Reconcile

namespace Bagel

/-! ### Plans -/

namespace Host

variable {host : Host}

/-- A lease that the firewall is to enforce. -/
structure Enforceable (host : Host) (lease : Lease) : Prop where
  unprotected : host.isProtected lease.network = .ok false
  unshared : host.defense.isNoBlockNetwork lease.network = false
  enforced : lease.action ≠ .observe

/-- Nothing fails when the local addresses are known. -/
theorem exists_isProtected (host : Host) (network : IpNetwork) :
    ∃ answer, host.isProtected network = .ok answer := by
  rw [isProtected, Defense.isProtected]
  split
  · exact ⟨true, rfl⟩
  · exact ⟨_, rfl⟩

/-- The plan of a list of leases, by what its first lease is. -/
theorem plan_cons {lease : Lease} {rest : List Lease} {plan : Plan}
    (planned : host.plan (lease :: rest) = .ok plan) :
    ∃ others, host.plan rest = .ok others ∧
      ((host.isProtected lease.network = .ok true ∧
          plan = { others with protectedIds := lease.id :: others.protectedIds }) ∨
        (host.isProtected lease.network = .ok false ∧
          host.defense.isNoBlockNetwork lease.network = true ∧
          plan = { others with sparedIds := lease.id :: others.sparedIds }) ∨
        (host.isProtected lease.network = .ok false ∧
          host.defense.isNoBlockNetwork lease.network = false ∧
          ∃ membership, host.defense.membership lease = .ok membership ∧
            plan = { others with memberships := membership.toList ++ others.memberships })) := by
  rw [Host.plan] at planned
  obtain ⟨answer, known⟩ := host.exists_isProtected lease.network
  obtain ⟨_, same, planned⟩ := Transaction.bind_eq_ok_iff.mp planned
  obtain rfl := Except.ok.inj (known.symm.trans same)
  cases answer with
  | true =>
    obtain ⟨others, later, same⟩ := Transaction.bind_eq_ok_iff.mp planned
    exact ⟨others, later, .inl ⟨known, (Except.ok.inj same).symm⟩⟩
  | false =>
    cases shared : host.defense.isNoBlockNetwork lease.network with
    | true =>
      simp only [Bool.false_eq_true, if_false, shared, if_true] at planned
      obtain ⟨others, later, same⟩ := Transaction.bind_eq_ok_iff.mp planned
      exact ⟨others, later, .inr (.inl ⟨known, rfl, (Except.ok.inj same).symm⟩)⟩
    | false =>
      simp only [Bool.false_eq_true, if_false, shared] at planned
      obtain ⟨membership, found, planned⟩ := Transaction.bind_eq_ok_iff.mp planned
      obtain ⟨others, later, same⟩ := Transaction.bind_eq_ok_iff.mp planned
      exact ⟨others, later, .inr (.inr ⟨known, rfl, membership, found, (Except.ok.inj same).symm⟩)⟩

/-- Only an observed lease has no membership. -/
theorem exists_membership {lease : Lease} {found : Option Membership}
    (enforced : lease.action ≠ .observe) (built : host.defense.membership lease = .ok found) :
    ∃ membership, found = some membership := by
  rw [Defense.membership] at built
  cases kind : lease.action with
  | observe => exact absurd kind enforced
  | drop protocol ports | reject protocol ports =>
    simp only [kind, Action.blockParts, Transaction.bind_eq_ok_iff] at built
    obtain ⟨scope, -, same⟩ := built
    exact ⟨_, (Except.ok.inj same).symm⟩
  | tarpitRedirect protocol ports listener =>
    simp only [kind, Action.blockParts, Transaction.bind_eq_ok_iff] at built
    obtain ⟨port, -, scope, -, same⟩ := built
    exact ⟨_, (Except.ok.inj same).symm⟩
  | dropProtocol | dropAll | rejectProtocol | rejectAll =>
    simp only [kind, Action.blockParts] at built
    exact ⟨_, (Except.ok.inj built).symm⟩

/-- The membership of a lease that is to be enforced is in the plan. -/
theorem mem_plan {leases : List Lease} {plan : Plan} (planned : host.plan leases = .ok plan)
    {lease : Lease} (member : lease ∈ leases) (enforceable : host.Enforceable lease) :
    ∃ membership ∈ plan.memberships, host.defense.membership lease = .ok (some membership) := by
  induction leases generalizing plan with
  | nil => exact nomatch member
  | cons first rest inductionHypothesis =>
    obtain ⟨others, later, cases⟩ := plan_cons planned
    rcases List.mem_cons.mp member with rfl | inRest
    · rcases cases with ⟨known, -⟩ | ⟨-, shared, -⟩ | ⟨-, -, found, built, rfl⟩
      · exact nomatch known.symm.trans enforceable.unprotected
      · exact nomatch shared.symm.trans enforceable.unshared
      · obtain ⟨membership, rfl⟩ := exists_membership enforceable.enforced built
        exact ⟨membership, List.mem_append_left _ (List.mem_singleton_self _), built⟩
    · obtain ⟨membership, listed, built⟩ := inductionHypothesis later inRest
      rcases cases with ⟨-, rfl⟩ | ⟨-, -, rfl⟩ | ⟨-, -, _, -, rfl⟩
      · exact ⟨membership, listed, built⟩
      · exact ⟨membership, listed, built⟩
      · exact ⟨membership, List.mem_append_right _ listed, built⟩

/-- A lease that is left out of the plan is named there. -/
theorem enforceable_of_unnamed {leases : List Lease} {plan : Plan}
    (planned : host.plan leases = .ok plan) {lease : Lease} (member : lease ∈ leases)
    (unprotected : lease.id ∉ plan.protectedIds) (unshared : lease.id ∉ plan.sparedIds)
    (enforced : lease.action ≠ .observe) : host.Enforceable lease := by
  induction leases generalizing plan with
  | nil => exact nomatch member
  | cons first rest inductionHypothesis =>
    obtain ⟨others, later, cases⟩ := plan_cons planned
    rcases List.mem_cons.mp member with rfl | inRest
    · rcases cases with ⟨-, rfl⟩ | ⟨-, -, rfl⟩ | ⟨known, unshared, -⟩
      · exact absurd List.mem_cons_self unprotected
      · exact absurd List.mem_cons_self unshared
      · exact ⟨known, unshared, enforced⟩
    · rcases cases with ⟨-, rfl⟩ | ⟨-, -, rfl⟩ | ⟨-, -, _, -, rfl⟩
      · exact inductionHypothesis later inRest
          (fun named => unprotected (List.mem_cons_of_mem _ named)) unshared
      · exact inductionHypothesis later inRest unprotected
          fun named => unshared (List.mem_cons_of_mem _ named)
      · exact inductionHypothesis later inRest unprotected unshared

/-- A lease is marked as applied only if it is to be enforced and was installed. -/
theorem applied_mem_outcomes {leases : List Lease} {plan : Plan}
    {result : Except Error (Option Ruleset)} (planned : host.plan leases = .ok plan) {id : Nat}
    (applied : (id, ApplyOutcome.applied) ∈ host.outcomes plan result leases) :
    host.firewall.required = true ∧ (∃ answer, result = .ok answer) ∧
      ∃ lease ∈ leases, lease.id = id ∧ host.Enforceable lease := by
  obtain ⟨lease, member, same⟩ := List.mem_map.mp applied
  obtain ⟨rfl, outcome⟩ := Prod.mk.inj same
  cases result with
  | error error => exact nomatch outcome
  | ok answer =>
    rw [Host.outcome] at outcome
    split at outcome
    · exact nomatch outcome
    · next enforced =>
      simp only [Bool.or_eq_true, Bool.not_eq_true', beq_iff_eq, List.contains_iff_mem, not_or,
        Bool.not_eq_false] at enforced
      obtain ⟨⟨⟨required, acts⟩, unprotected⟩, unshared⟩ := enforced
      exact ⟨required, ⟨answer, rfl⟩, lease, member, rfl,
        enforceable_of_unnamed planned member unprotected unshared acts⟩

/-- The plan only depends on the terms of the leases. -/
theorem plan_map_bare (rows : List LeaseRow) :
    host.plan (rows.map LeaseRow.bare) = host.plan (rows.map LeaseRow.toLease) := by
  induction rows with
  | nil => rfl
  | cons row rest inductionHypothesis =>
    rw [List.map_cons, List.map_cons, Host.plan, Host.plan, inductionHypothesis]
    rfl

/-- The ruleset that a reconcile installs for the leases it has read, if it installs any. -/
def render (host : Host) (leases : List Lease) : Option Ruleset :=
  match host.plan leases with
  | .error _ => none
  | .ok plan =>
    match host.firewall.reconcile plan.memberships with
    | .error _ => none
    | .ok answer => answer

theorem render_eq_some_iff {leases : List Lease} {ruleset : Ruleset} :
    host.render leases = some ruleset ↔
      ∃ plan, host.plan leases = .ok plan ∧
        host.firewall.reconcile plan.memberships = .ok (some ruleset) := by
  rw [render]
  cases planned : host.plan leases with
  | error error => simp
  | ok plan =>
    cases answer : host.firewall.reconcile plan.memberships with
    | error error => simp [answer]
    | ok installed => simp [answer]

theorem reconcile_eq_some_iff {firewall : Firewall} {memberships : List Membership}
    {ruleset : Ruleset} :
    firewall.reconcile memberships = .ok (some ruleset) ↔ firewall.required = true ∧
      renderRuleset firewall.table firewall.priority memberships = .ok ruleset := by
  rw [Firewall.reconcile]
  cases firewall.required with
  | false => simp
  | true => simp [Transaction.bind_eq_ok_iff, pure, Except.pure]

/-- Where enforcement is required, a reconcile that succeeds installs a ruleset. -/
theorem exists_ruleset {firewall : Firewall} {memberships : List Membership}
    {installed : Option Ruleset} (required : firewall.required = true)
    (answer : firewall.reconcile memberships = .ok installed) :
    ∃ ruleset, installed = some ruleset := by
  rw [Firewall.reconcile, required] at answer
  obtain ⟨ruleset, -, same⟩ := Transaction.bind_eq_ok_iff.mp answer
  exact ⟨ruleset, (Except.ok.inj same).symm⟩

end Host

/-! ### Requests -/

/-- A manual ban that is not refused reaches the store. -/
theorem Request.perform_manualBlock {host : Host} {network : IpNetwork} {durationSecs : Option Nat}
    {now : Nat} {store next : Store} {follows : Bool}
    (performs : (manualBlock network durationSecs).perform host now store = .ok (next, follows)) :
    follows = true ∧ ∃ lease, store.manualBlock network .dropAll now durationSecs =
      .ok (next, lease) := by
  rw [Request.perform] at performs
  split at performs
  · exact nomatch performs
  · obtain ⟨answer, -, performs⟩ := Transaction.bind_eq_ok_iff.mp performs
    split at performs
    · exact nomatch performs
    · split at performs
      · exact nomatch performs
      · obtain ⟨⟨_, lease⟩, blocked, same⟩ := Transaction.bind_eq_ok_iff.mp performs
        obtain ⟨rfl, rfl⟩ := Prod.mk.inj (Except.ok.inj same)
        exact ⟨rfl, lease, blocked⟩

/-- What a request does to the lease table. -/
theorem Request.perform_extends {host : Host} {request : Request} {now : Nat} {store next : Store}
    {follows : Bool} (performs : request.perform host now store = .ok (next, follows)) :
    store.Extends next := by
  cases request with
  | manualBlock network durationSecs =>
    obtain ⟨-, lease, blocked⟩ := perform_manualBlock performs
    exact Store.Extends.manualBlock blocked
  | unblock network =>
    obtain ⟨⟨_, count⟩, unblocked, same⟩ := Transaction.bind_eq_ok_iff.mp performs
    obtain ⟨rfl, -⟩ := Prod.mk.inj (Except.ok.inj same)
    exact Store.Extends.manualUnblock unblocked
  | processRecords events =>
    obtain ⟨⟨_, outcomes⟩, processed, same⟩ := Transaction.bind_eq_ok_iff.mp performs
    obtain ⟨rfl, -⟩ := Prod.mk.inj (Except.ok.inj same)
    exact Store.Extends.events processed
  | recordListener event =>
    obtain ⟨⟨_, outcome⟩, processed, same⟩ := Transaction.bind_eq_ok_iff.mp performs
    obtain ⟨rfl, -⟩ := Prod.mk.inj (Except.ok.inj same)
    exact Store.Extends.event processed
  | reconcile =>
    obtain ⟨rfl, -⟩ := Prod.mk.inj (Except.ok.inj performs)
    exact Store.Extends.refl store

/-- A request that no reconcile follows leaves the lease table as it is. -/
theorem Request.leases_eq_of_perform {host : Host} {request : Request} {now : Nat}
    {store next : Store} (performs : request.perform host now store = .ok (next, false)) :
    next.leases = store.leases := by
  cases request with
  | manualBlock network durationSecs => exact nomatch (perform_manualBlock performs).1
  | unblock network =>
    obtain ⟨⟨_, count⟩, unblocked, same⟩ := Transaction.bind_eq_ok_iff.mp performs
    exact nomatch (Prod.mk.inj (Except.ok.inj same)).2
  | processRecords events =>
    obtain ⟨⟨_, outcomes⟩, processed, same⟩ := Transaction.bind_eq_ok_iff.mp performs
    obtain ⟨rfl, ungranted⟩ := Prod.mk.inj (Except.ok.inj same)
    refine Store.leases_eq_of_processEvents processed fun outcome member => ?_
    simpa using List.any_eq_false.mp ungranted outcome member
  | recordListener event =>
    obtain ⟨⟨_, outcome⟩, processed, same⟩ := Transaction.bind_eq_ok_iff.mp performs
    obtain ⟨rfl, ungranted⟩ := Prod.mk.inj (Except.ok.inj same)
    exact (Store.applyEvent_eq_ok_iff.mp processed).2.leases_eq (by simpa using ungranted)
  | reconcile => exact nomatch (Prod.mk.inj (Except.ok.inj performs)).2

/-! ### Times at which nothing expires -/

namespace Period

variable {period : Period} {store next : Store} {now : Nat}

theorem Steady.active_eq (steady : period.Steady store) (within : period.Contains now)
    {row : LeaseRow} (member : row ∈ store.leases) :
    row.active now = row.active period.opening := by
  obtain ⟨after, before⟩ := within
  rw [LeaseRow.active, LeaseRow.active, LeaseRow.unexpired, LeaseRow.unexpired]
  cases expires : row.expiresAt with
  | none => rfl
  | some expiry =>
    have outside := steady row member expiry expires
    have same : decide (now < expiry) = decide (period.opening < expiry) := by
      rw [decide_eq_decide]
      omega
    rw [Option.all_some, Option.all_some, same]

theorem Steady.view_eq (steady : period.Steady store) (within : period.Contains now) :
    store.view now = store.view period.opening := by
  rw [Store.view, Store.view, List.filter_congr fun row member => steady.active_eq within member]

theorem Steady.relabels (steady : period.Steady store) (relabels : store.Relabels next) :
    period.Steady next := by
  intro row member expiry expires
  obtain ⟨old, present, same⟩ := relabels.exists_old member
  refine steady old present expiry ?_
  have terms : old.expiresAt = row.expiresAt := congrArg (fun row => row.toLease.expiresAt) same
  rw [terms]
  exact expires

end Period

/-! ### The system as a publication -/

/-- What a phase is to the publication protocol. Once the firewall has answered, nothing is left
to publish. -/
def Phase.publication : Phase → Publish.Phase
  | idle => .idle
  | owing => .owing
  | holding ticket _ => .holding ticket
  | settled _ => .idle

namespace System

variable {Task : Type} {host : Host} {period : Period} {system next : System Task}

/-- The leases in force are what the tasks publish. -/
def board (period : Period) (system : System Task) : Publish.Board Task Lease Ruleset where
  current := system.store.view period.opening
  posted := system.installed
  latest := system.latest
  snapshots := system.snapshots
  phases := Phase.publication ∘ system.phases

/-- A lease under this identifier was to be enforced in a snapshot up to the one that was
installed last. -/
def Shown (host : Host) (system : System Task) (id : Nat) : Prop :=
  ∃ ticket earlier seen, system.latest = some ticket ∧ earlier ≤ ticket ∧
    system.snapshots[earlier]? = some seen ∧
    ∃ lease ∈ seen, lease.id = id ∧ host.Enforceable lease

/-- What a phase says about the history: a task holds what it has read, and what it is about to
mark as applied was shown. -/
def Fits (host : Host) (system : System Task) : Phase → Prop
  | .idle => True
  | .owing => True
  | .holding ticket leases => system.snapshots[ticket]? = some leases
  | .settled results =>
    ∀ id, (id, ApplyOutcome.applied) ∈ results → system.Shown host id

/-- What holds along a run that installs rulesets in order. -/
structure Consistent (host : Host) (period : Period) (system : System Task) : Prop where
  steady : period.Steady system.store
  ascend : system.store.IdsAscend
  /-- An identifier that was read still names the lease it named. -/
  known : ∀ snapshot ∈ system.snapshots, ∀ lease ∈ snapshot,
    lease.id < system.store.nextLeaseId ∧
      ∀ row ∈ system.store.leases, row.id = lease.id → row.bare = lease
  fits : ∀ task, system.Fits host (system.phases task)
  /-- Once a reconcile has begun, what is in force and marked as applied was shown. -/
  applied : system.snapshots = [] ∨ ∀ row ∈ system.store.leases,
    row.active period.opening = true → row.applyState = .applied → system.Shown host row.id

/-- One history continues another. -/
structure Later (system next : System Task) : Prop where
  snapshots : ∀ (index : Nat) seen, system.snapshots[index]? = some seen →
    next.snapshots[index]? = some seen
  latest : ∀ ticket, system.latest = some ticket → ∃ later, next.latest = some later ∧
    ticket ≤ later

theorem Shown.later {id : Nat} (shown : system.Shown host id) (later : Later system next) :
    next.Shown host id := by
  obtain ⟨ticket, earlier, seen, installed, order, taken, lease⟩ := shown
  obtain ⟨last, installed, further⟩ := later.latest ticket installed
  exact ⟨last, earlier, seen, installed, order.trans further, later.snapshots earlier seen taken,
    lease⟩

theorem Fits.later {phase : Phase} (fits : system.Fits host phase) (later : Later system next) :
    next.Fits host phase := by
  cases phase with
  | idle => trivial
  | owing => trivial
  | holding ticket leases => exact later.snapshots ticket leases fits
  | settled results => exact fun id listed => (fits id listed).later later

theorem later_refl {store : Store} {phases : Task → Phase} :
    Later system { system with store, phases } :=
  ⟨fun _ _ taken => taken, fun ticket installed => ⟨ticket, installed, Nat.le_refl _⟩⟩

/-- Nothing but the phase of one task changes in the history. -/
theorem fits_update [DecidableEq Task] {phase : Phase} (task : Task) (later : Later system next)
    (moved : next.phases = Function.update system.phases task phase)
    (fits : ∀ other, system.Fits host (system.phases other)) (fit : next.Fits host phase) :
    ∀ other, next.Fits host (next.phases other) := by
  rw [moved]
  refine (Function.forall_update_iff system.phases fun _ phase => next.Fits host phase).mpr ?_
  exact ⟨fit, fun other _ => (fits other).later later⟩

namespace Consistent

/-- A task holds the snapshot that it has taken. -/
theorem taken (consistent : system.Consistent host period) {task : Task} {ticket : Nat}
    {leases : List Lease} (holding : system.phases task = .holding ticket leases) :
    system.snapshots[ticket]? = some leases := by
  have fits := consistent.fits task
  rw [holding] at fits
  exact fits

/-- The notes of reconciliation do not touch what was read. -/
theorem known_relabels (consistent : system.Consistent host period) {store : Store}
    (relabels : system.store.Relabels store) {snapshot : List Lease}
    (member : snapshot ∈ system.snapshots) {lease : Lease} (listed : lease ∈ snapshot) :
    lease.id < store.nextLeaseId ∧ ∀ row ∈ store.leases, row.id = lease.id → row.bare = lease := by
  obtain ⟨bound, named⟩ := consistent.known snapshot member lease listed
  rw [Store.nextLeaseId_congr relabels.leaseIds_eq]
  refine ⟨bound, fun row present same => ?_⟩
  obtain ⟨old, before, terms⟩ := relabels.exists_old present
  have bare : old.bare = row.bare := congrArg LeaseRow.toLease terms
  rw [← bare]
  exact named old before ((LeaseRow.id_eq_of_bare bare).trans same)

/-- A lease that is read is the only one under its identifier. -/
theorem known_view (consistent : system.Consistent host period) {store : Store}
    (relabels : system.store.Relabels store) {now : Nat} {lease : Lease}
    (listed : lease ∈ system.store.view now) :
    lease.id < store.nextLeaseId ∧ ∀ row ∈ store.leases, row.id = lease.id → row.bare = lease := by
  obtain ⟨read, chosen, rfl⟩ := List.mem_map.mp listed
  have present := (List.mem_filter.mp chosen).1
  have bound : read.id < system.store.nextLeaseId := Store.id_lt_nextLeaseId present
  rw [Store.nextLeaseId_congr relabels.leaseIds_eq]
  refine ⟨bound, fun row there same => ?_⟩
  obtain ⟨old, before, terms⟩ := relabels.exists_old there
  have bare : old.bare = row.bare := congrArg LeaseRow.toLease terms
  rw [← bare, consistent.ascend.eq_of_id before present
    ((LeaseRow.id_eq_of_bare bare).trans same)]

theorem ascend_relabels (consistent : system.Consistent host period) {store : Store}
    (relabels : system.store.Relabels store) : store.IdsAscend := by
  rw [Store.IdsAscend, relabels.leaseIds_eq]
  exact consistent.ascend

variable [DecidableEq Task]

/-- A request keeps the terms of what was read and adds pending leases under new
identifiers. -/
theorem performed (consistent : system.Consistent host period) (task : Task) {store : Store}
    (grown : system.store.Extends store) (steady : period.Steady store) (follows : Bool) :
    Consistent host period { system with
      store
      phases := Function.update system.phases task (if follows then .owing else .idle) } := by
  refine ⟨steady, grown.ascend consistent.ascend, ?_, ?_, ?_⟩
  · intro snapshot member lease listed
    obtain ⟨bound, named⟩ := consistent.known snapshot member lease listed
    refine ⟨bound.trans_le grown.ids, fun row present same => ?_⟩
    rcases grown.rows row present with ⟨old, before, terms, -⟩ | ⟨fresh, -⟩
    · rw [← terms]
      exact named old before ((LeaseRow.id_eq_of_bare terms).trans same)
    · exact absurd (same ▸ fresh) (Nat.not_le.mpr bound)
  · refine fits_update task later_refl rfl consistent.fits ?_
    cases follows <;> trivial
  · refine consistent.applied.imp_right fun shown row member active applied => ?_
    rcases grown.rows row member with ⟨old, before, terms, stands, same⟩ | ⟨-, pending⟩
    · rw [← LeaseRow.id_eq_of_bare terms]
      exact shown old before (LeaseRow.active_of_bare terms stands active) (same.symm.trans applied)
    · exact nomatch applied.symm.trans pending

/-- A reconcile that begins leaves no lease in force marked. -/
theorem began (consistent : system.Consistent host period) (task : Task) {now count : Nat}
    {store : Store} {leases : List Lease} (within : period.Contains now)
    (begun : system.store.beginReconcile now = .ok (store, count))
    (read : store.activeLeases now = .ok leases) :
    Consistent host period { system with
      store
      snapshots := system.snapshots ++ [leases]
      phases := Function.update system.phases task
        (.holding system.snapshots.length leases) } := by
  have relabels := Store.relabels_beginReconcile begun
  have steady := consistent.steady.relabels relabels
  refine ⟨steady, consistent.ascend_relabels relabels, ?_, ?_, .inr ?_⟩
  · intro snapshot member lease listed
    rcases List.mem_append.mp member with old | new
    · exact consistent.known_relabels relabels old listed
    · rw [List.mem_singleton.mp new, Store.activeLeases_of_beginReconcile begun read] at listed
      exact consistent.known_view relabels listed
  · have later : Later system { system with
        store
        snapshots := system.snapshots ++ [leases]
        phases := Function.update system.phases task
          (.holding system.snapshots.length leases) } := by
      refine ⟨fun index seen taken => ?_, fun ticket installed => ?_⟩
      · exact (List.getElem?_append_left (List.getElem?_eq_some_iff.mp taken).1).trans taken
      · exact ⟨ticket, installed, Nat.le_refl _⟩
    exact fits_update task later rfl consistent.fits List.getElem?_concat_length
  · intro row member active applied
    rw [← steady.active_eq within member] at active
    have blank := Store.reset_eq_of_beginReconcile begun member active
    exact nomatch (congrArg (fun row => row.toLease.applyState) blank).trans applied

/-- Once a ruleset is installed, what it was rendered from is shown. -/
theorem installed (consistent : system.Consistent host period) {task : Task} {ticket : Nat}
    {leases : List Lease} {plan : Plan} {ruleset : Ruleset}
    (holding : system.phases task = .holding ticket leases)
    (planned : host.plan leases = .ok plan) (inOrder : InOrder system.latest ticket) :
    Consistent host period { system with
      installed := some ruleset
      latest := some ticket
      phases := Function.update system.phases task
        (.settled (host.outcomes plan (.ok (some ruleset)) leases)) } := by
  have later : Later system { system with
      installed := some ruleset
      latest := some ticket
      phases := Function.update system.phases task
        (.settled (host.outcomes plan (.ok (some ruleset)) leases)) } :=
    ⟨fun _ _ taken => taken, fun earlier before => ⟨ticket, rfl, inOrder earlier before⟩⟩
  refine ⟨consistent.steady, consistent.ascend, consistent.known, ?_, ?_⟩
  · refine fits_update task later rfl consistent.fits fun id listed => ?_
    obtain ⟨-, -, lease⟩ := Host.applied_mem_outcomes planned listed
    exact ⟨ticket, ticket, leases, rfl, Nat.le_refl _, consistent.taken holding, lease⟩
  · exact consistent.applied.imp_right fun shown row member active applied =>
      (shown row member active applied).later later

/-- Nothing is marked as applied if nothing was installed. -/
theorem kept (consistent : system.Consistent host period) {task : Task} {leases : List Lease}
    {plan : Plan} {result : Except Error (Option Ruleset)}
    (planned : host.plan leases = .ok plan)
    (answer : host.firewall.reconcile plan.memberships = result)
    (nothing : ∀ ruleset, result ≠ .ok (some ruleset)) :
    Consistent host period { system with
      phases := Function.update system.phases task
        (.settled (host.outcomes plan result leases)) } := by
  refine ⟨consistent.steady, consistent.ascend, consistent.known, ?_, consistent.applied⟩
  refine fits_update task later_refl rfl consistent.fits fun id listed => ?_
  obtain ⟨required, ⟨installed, rfl⟩, -⟩ := Host.applied_mem_outcomes planned listed
  obtain ⟨ruleset, rfl⟩ := Host.exists_ruleset required answer
  exact absurd rfl (nothing ruleset)

theorem aborted (consistent : system.Consistent host period) (task : Task) :
    Consistent host period { system with
      phases := Function.update system.phases task .idle } :=
  ⟨consistent.steady, consistent.ascend, consistent.known,
    fits_update task later_refl rfl consistent.fits trivial, consistent.applied⟩

/-- A lease is marked as applied only if it was shown. -/
theorem marked (consistent : system.Consistent host period) {task : Task}
    {results : List (Nat × ApplyOutcome)} (settled : system.phases task = .settled results) :
    Consistent host period { system with
      store := (StoreCall.markApplyResults results).execute system.store
      phases := Function.update system.phases task .idle } := by
  have shown : system.Fits host (.settled results) := settled ▸ consistent.fits task
  rw [StoreCall.execute]
  cases result : system.store.markApplyResults results with
  | error error =>
    rw [Transaction.commit_error result]
    exact consistent.aborted task
  | ok output =>
    obtain ⟨store, ⟨⟩⟩ := output
    rw [Transaction.commit_ok result]
    have relabels := Store.relabels_markApplyResults result
    refine ⟨consistent.steady.relabels relabels, consistent.ascend_relabels relabels,
      fun snapshot member lease listed => consistent.known_relabels relabels member listed,
      fits_update task later_refl rfl consistent.fits trivial, ?_⟩
    refine consistent.applied.imp_right fun before row member active applied => ?_
    rcases Store.applied_of_markApplyResults result member applied with
      ⟨old, present, terms, was⟩ | listed
    · have bare : old.bare = row.bare := congrArg LeaseRow.toLease terms
      rw [← LeaseRow.id_eq_of_bare bare]
      refine before old present ?_ was
      show old.reset.active period.opening = true
      rw [terms]
      exact active
    · exact shown row.id listed

theorem step (consistent : system.Consistent host period)
    (step : Step host period InOrder system next) : next.Consistent host period := by
  cases step with
  | performed task request now store follows idle within performs steady =>
    exact consistent.performed task (Request.perform_extends performs) steady follows
  | began task now store count leases owing within begun read =>
    exact consistent.began task within begun read
  | installed task ticket leases plan ruleset holding planned answer inOrder =>
    exact consistent.installed holding planned inOrder
  | kept task ticket leases plan result holding planned answer nothing =>
    exact consistent.kept planned answer nothing
  | aborted task ticket leases error holding planned => exact consistent.aborted task
  | marked task results settled => exact consistent.marked settled

end Consistent

/-! ### The simulation -/

section Simulation

/-- A lease in force after a request was in force before, or no reconcile has seen it. -/
theorem Consistent.lasting (consistent : system.Consistent host period) {store : Store}
    (grown : system.store.Extends store) {lease : Lease}
    (member : lease ∈ store.view period.opening) :
    lease ∈ system.store.view period.opening ∨
      ∀ snapshot ∈ system.snapshots, lease ∉ snapshot := by
  obtain ⟨row, chosen, rfl⟩ := List.mem_map.mp member
  obtain ⟨present, active⟩ := List.mem_filter.mp chosen
  rcases grown.rows row present with ⟨old, before, terms, stands, -⟩ | ⟨fresh, -⟩
  · refine .inl (List.mem_map.mpr ⟨old, List.mem_filter.mpr ⟨before, ?_⟩, terms⟩)
    exact LeaseRow.active_of_bare terms stands active
  · refine .inr fun snapshot taken listed => ?_
    have bound := (consistent.known snapshot taken _ listed).1
    exact absurd fresh (Nat.not_le.mpr bound)

variable [DecidableEq Task]

/-- What becomes of the board when one task moves. -/
theorem board_update (store : Store) (installed : Option Ruleset) (latest : Option Nat)
    (snapshots : List (List Lease)) (task : Task) (phase : Phase) :
    board period ⟨store, installed, latest, snapshots,
        Function.update system.phases task phase⟩ =
      ⟨store.view period.opening, installed, latest, snapshots,
        Function.update (system.board period).phases task phase.publication⟩ := by
  rw [board, Function.comp_update]
  rfl

/-- Nothing is published if a task with nothing to publish moves and the leases in force stay. -/
theorem board_eq {store : Store} (task : Task) {phase : Phase}
    (same : store.view period.opening = system.store.view period.opening)
    (before : (system.phases task).publication = .idle) (after : phase.publication = .idle) :
    board period { system with store, phases := Function.update system.phases task phase } =
      board period system := by
  have rests : (system.board period).phases task = phase.publication := before.trans after.symm
  rw [board_update, ← rests, Function.update_eq_self, same]
  rfl

/-- Every step of a task is a step of the publication protocol, or none at all. -/
theorem Step.simulated (step : Step host period InOrder system next)
    (consistent : system.Consistent host period) :
    Relation.ReflTransGen (Publish.Step host.render) (system.board period)
      (next.board period) := by
  cases step with
  | performed task request now store follows idle within performs steady =>
    have rests := congrArg Phase.publication idle
    cases follows with
    | true =>
      rw [board_update]
      exact .single (.changed task _ rests fun lease member =>
        consistent.lasting (Request.perform_extends performs) member)
    | false =>
      have same : store.view period.opening = system.store.view period.opening := by
        rw [Store.view, Request.leases_eq_of_perform performs, Store.view]
      rw [board_eq task same rests rfl]
  | began task now store count leases owing within begun read =>
    have same := (Store.relabels_beginReconcile begun).view_eq period.opening
    have seen : leases = system.store.view period.opening :=
      (Store.activeLeases_of_beginReconcile begun read).trans (consistent.steady.view_eq within)
    rw [board_update, same, seen]
    exact .single (.taken task (congrArg Phase.publication owing))
  | installed task ticket leases plan ruleset holding planned answer inOrder =>
    rw [board_update]
    exact .single (.posted task ticket leases ruleset (congrArg Phase.publication holding)
      (consistent.taken holding) (Host.render_eq_some_iff.mpr ⟨plan, planned, answer⟩) inOrder)
  | kept task ticket leases plan result holding planned answer nothing =>
    rw [board_update]
    refine .single (.dropped task ticket leases (congrArg Phase.publication holding)
      (consistent.taken holding) ?_)
    refine Option.eq_none_iff_forall_ne_some.mpr fun ruleset renders => ?_
    obtain ⟨_, same, installs⟩ := Host.render_eq_some_iff.mp renders
    obtain rfl := Except.ok.inj (planned.symm.trans same)
    exact nothing ruleset (answer.symm.trans installs)
  | aborted task ticket leases error holding planned =>
    rw [board_update]
    refine .single (.dropped task ticket leases (congrArg Phase.publication holding)
      (consistent.taken holding) ?_)
    rw [Host.render, planned]
  | marked task results settled =>
    have relabels : system.store.Relabels
        ((StoreCall.markApplyResults results).execute system.store) := by
      rw [StoreCall.execute]
      exact Transaction.commit_preserves (Eq.refl _) fun store _ done =>
        Store.relabels_markApplyResults done
    rw [board_eq task (relabels.view_eq _) (congrArg Phase.publication settled) rfl]

theorem phases_started (start task : Task) (store : Store) (before : Option Ruleset) :
    (started start store before).phases task = if task = start then .owing else .idle :=
  Function.update_apply (fun _ => Phase.idle) start .owing task

theorem consistent_started (start : Task) {calls : List StoreCall}
    (steady : period.Steady (StoreCall.run calls)) (before : Option Ruleset) :
    Consistent host period (started start (StoreCall.run calls) before) := by
  refine ⟨steady, run_idsAscend calls, fun _ member => (nomatch member), ?_, .inl rfl⟩
  intro task
  rw [phases_started]
  split <;> trivial

theorem sound_started (start : Task) (store : Store) (before : Option Ruleset) :
    Publish.Sound host.render (board period (started start store before)) := by
  have phases (task : Task) : (board period (started start store before)).phases task =
      (if task = start then Phase.owing else .idle).publication :=
    congrArg Phase.publication (phases_started start task store before)
  refine Publish.sound_of_owing ((phases start).trans (by rw [if_pos rfl]; rfl)) ?_ rfl rfl
  intro other ticket holds
  rw [phases] at holds
  split at holds <;> exact nomatch holds

/-- What holds of every state that a run in order reaches. -/
theorem reached (start : Task) {calls : List StoreCall} {before : Option Ruleset}
    (steady : period.Steady (StoreCall.run calls))
    (run : Relation.ReflTransGen (Step host period InOrder)
      (started start (StoreCall.run calls) before) system) :
    system.Consistent host period ∧ Publish.Sound host.render (system.board period) := by
  induction run with
  | refl =>
    exact ⟨consistent_started start steady before, sound_started start _ before⟩
  | tail _ step inductionHypothesis =>
    obtain ⟨consistent, sound⟩ := inductionHypothesis
    exact ⟨consistent.step step, sound.run (step.simulated consistent)⟩

end Simulation

end System

/-! ### Agreement -/

/-- The ruleset that is wanted at a time when nothing expires is the one rendered from the
leases in force. -/
theorem Host.render_view {host : Host} {period : Period} {store : Store} {now : Nat}
    {ruleset : Ruleset} (steady : period.Steady store) (within : period.Contains now)
    (required : host.firewall.required = true) (wanted : host.wanted store now = .ok ruleset) :
    host.render (store.view period.opening) = some ruleset := by
  obtain ⟨leases, read, wanted⟩ := Transaction.bind_eq_ok_iff.mp wanted
  obtain ⟨plan, planned, renders⟩ := Transaction.bind_eq_ok_iff.mp wanted
  obtain ⟨_, conversion, same⟩ := Transaction.bind_eq_ok_iff.mp read
  obtain ⟨-, rfl⟩ := sqlTime_eq_ok_iff.mp conversion
  obtain rfl := Except.ok.inj same
  rw [← steady.view_eq within, Host.render_eq_some_iff]
  exact ⟨plan, (Host.plan_map_bare _).trans planned,
    Host.reconcile_eq_some_iff.mpr ⟨required, renders⟩⟩

/-- Any number of tasks block, unblock, process records and listener offenses and reconcile, in
any interleaving of their steps, and no ruleset is installed after one whose leases were read
later. Once all tasks have finished, the installed ruleset is the one rendered from the leases
of the store that are active, unprotected and not spared, and every active lease that is marked
as applied is in the installed ruleset. -/
theorem enforcement_agrees {Task : Type} [DecidableEq Task] (host : Host) (period : Period)
    (start : Task) (calls : List StoreCall) (before : Option Ruleset) (system : System Task)
    (steady : period.Steady (StoreCall.run calls))
    (run : Relation.ReflTransGen (System.Step host period InOrder)
      (.started start (StoreCall.run calls) before) system)
    (finished : ∀ task, system.phases task = .idle) (now : Nat) (within : period.Contains now) :
    (host.firewall.required = true → ∀ ruleset, host.wanted system.store now = .ok ruleset →
      system.installed = some ruleset) ∧
    ∀ row ∈ system.store.leases, row.active now = true → row.applyState = .applied →
      ∃ ruleset, system.installed = some ruleset ∧ host.Enforces ruleset row.toLease := by
  obtain ⟨consistent, sound⟩ := System.reached start steady run
  have idle (task : Task) : (system.board period).phases task = .idle :=
    congrArg Phase.publication (finished task)
  refine ⟨fun required ruleset wanted => ?_, fun row member active applied => ?_⟩
  · exact sound.posted_eq idle (Host.render_view consistent.steady within required wanted)
  · rw [consistent.steady.active_eq within member] at active
    have shown := consistent.applied.resolve_left (sound.snapshots_ne_nil idle) row member active
      applied
    obtain ⟨ticket, earlier, seen, latest, order, taken, lease, listed, same, enforceable⟩ := shown
    have bare : row.bare = lease :=
      (consistent.known seen (List.mem_of_getElem? taken) lease listed).2 row member same.symm
    have there : lease ∈ (system.board period).current :=
      List.mem_map.mpr ⟨row, List.mem_filter.mpr ⟨member, active⟩, bare⟩
    obtain ⟨snapshot, renders, posted, included⟩ :=
      sound.mem_posted latest order taken listed there
    obtain ⟨ruleset, renders⟩ := Option.isSome_iff_exists.mp renders
    obtain ⟨plan, planned, answer⟩ := Host.render_eq_some_iff.mp renders
    obtain ⟨membership, enforced, built⟩ := Host.mem_plan planned included enforceable
    refine ⟨ruleset, posted.trans renders, plan.memberships,
      (Host.reconcile_eq_some_iff.mp answer).2, membership, enforced, ?_⟩
    rw [← bare] at built
    exact built

/-- What it means that a lease is in a ruleset: one that drops has its packets dropped, unless
they come from the host itself. -/
theorem Host.Enforces.dropped {host : Host} {ruleset : Ruleset} {lease : Lease}
    {membership : Membership} (enforces : host.Enforces ruleset lease)
    (built : host.defense.membership lease = .ok (some membership))
    (drops : membership.scope.verdict = .drop) (packet : Packet)
    (covers : membership.covers packet = true) (isLocal : IpAddr → Bool)
    (remote : isLocal packet.source = false) :
    ruleset.inputVerdict isLocal packet = .dropped := by
  obtain ⟨memberships, renders, other, member, same⟩ := enforces
  obtain rfl := Option.some.inj (Except.ok.inj (built.symm.trans same))
  obtain ⟨_, -, renders⟩ := Transaction.bind_eq_ok_iff.mp renders
  obtain ⟨result, normalized, same⟩ := Transaction.bind_eq_ok_iff.mp renders
  obtain rfl := Except.ok.inj same
  have covered : CoveredBy result .drop packet :=
    (coveredBy_normalized_block normalized .drop rfl packet).mpr ⟨membership, member, drops, covers⟩
  rw [inputVerdict_eq, remote, if_neg Bool.false_ne_true, if_pos covered]

/-! ### Two tasks -/

/-- A host that protects nothing. -/
def bareHost : Host where
  defense :=
    { policies := []
      protectedNetworks := []
      noBlock := []
      historyRetentionSecs := 86400
      inProcessSources := []
      listeners := []
      socketPort := fun _ => .error "invalid socket address syntax"
      parsers := ⟨fun _ => none, fun _ => none, fun _ => none, fun _ _ => none, fun _ => none⟩ }
  firewall := ⟨"bagel", -10, true⟩
  localAddresses := []

def oneMinute : Period := ⟨100, 160, by decide⟩

/-- Runs of two tasks on a new database. -/
def Runs (allowed : Option Nat → Nat → Prop) : System Bool → Prop :=
  Relation.ReflTransGen (System.Step bareHost oneMinute allowed)
    (.started false (StoreCall.run []) none)

/-- A reconcile reads the empty table, the other task blocks `192.0.2.1`, the ruleset of the first
is installed while the second waits, and the two take turns until both have finished. -/
theorem enforcement_agrees_on_manual_block :
    ∃ system, Runs InOrder system ∧ (∀ task, system.phases task = .idle) ∧
      (∃ wanted, bareHost.wanted system.store 150 = .ok wanted ∧
        system.installed = some wanted) ∧
      ∃ row ∈ system.store.leases, row.active 150 = true ∧ row.applyState = .applied ∧
        ∃ ruleset, system.installed = some ruleset ∧ bareHost.Enforces ruleset row.toLease := by
  have first : Runs InOrder _ :=
    .tail .refl (.began false 100 _ _ _ rfl (by decide) rfl rfl)
  have second : Runs InOrder _ := .tail first (.installed false 0 _ _ _ rfl rfl rfl (by decide))
  have third : Runs InOrder _ := .tail second (.marked false _ rfl)
  have fourth : Runs InOrder _ :=
    .tail third (.performed false .reconcile 110 _ _ rfl (by decide) rfl (by decide))
  have fifth : Runs InOrder _ := .tail fourth (.began false 110 _ _ _ rfl (by decide) rfl rfl)
  have sixth : Runs InOrder _ :=
    .tail fifth (.performed true (.manualBlock (ipv4Network 0xC0000201#32 32) none) 110 _ _ rfl
      (by decide) rfl (by decide))
  have seventh : Runs InOrder _ := .tail sixth (.installed false 1 _ _ _ rfl rfl rfl (by decide))
  have eighth : Runs InOrder _ := .tail seventh (.began true 110 _ _ _ rfl (by decide) rfl rfl)
  have ninth : Runs InOrder _ := .tail eighth (.marked false _ rfl)
  have tenth : Runs InOrder _ := .tail ninth (.installed true 2 _ _ _ rfl rfl rfl (by decide))
  have eleventh : Runs InOrder _ := .tail tenth (.marked true _ rfl)
  have agreement := enforcement_agrees bareHost oneMinute false [] none _ (by decide) eleventh
    (Bool.forall_bool.mpr ⟨rfl, rfl⟩) 150 (by decide)
  exact ⟨_, eleventh, Bool.forall_bool.mpr ⟨rfl, rfl⟩, ⟨_, rfl, agreement.1 rfl _ rfl⟩, _,
    List.mem_singleton_self _, rfl, rfl, agreement.2 _ (List.mem_singleton_self _) rfl rfl⟩

/-- A reconcile reads the empty table, the other task blocks `192.0.2.1` and reconciles, and only
then the first ruleset is installed. Both tasks have finished, the ban is in force and marked as
applied, and the installed ruleset knows nothing of it. -/
theorem stale_ruleset_lifts_ban :
    ∃ system, Runs (fun _ _ => True) system ∧ (∀ task, system.phases task = .idle) ∧
      (∃ wanted, bareHost.wanted system.store 150 = .ok wanted ∧
        system.installed ≠ some wanted) ∧
      ∃ row ∈ system.store.leases, row.active 150 = true ∧ row.applyState = .applied ∧
        ∀ ruleset, system.installed = some ruleset →
          ¬ bareHost.Enforces ruleset row.toLease := by
  have first : Runs (fun _ _ => True) _ :=
    .tail .refl (.began false 100 _ _ _ rfl (by decide) rfl rfl)
  have second : Runs (fun _ _ => True) _ :=
    .tail first (.installed false 0 _ _ _ rfl rfl rfl trivial)
  have third : Runs (fun _ _ => True) _ := .tail second (.marked false _ rfl)
  have fourth : Runs (fun _ _ => True) _ :=
    .tail third (.performed false .reconcile 110 _ _ rfl (by decide) rfl (by decide))
  have fifth : Runs (fun _ _ => True) _ :=
    .tail fourth (.began false 110 _ _ _ rfl (by decide) rfl rfl)
  have sixth : Runs (fun _ _ => True) _ :=
    .tail fifth (.performed true (.manualBlock (ipv4Network 0xC0000201#32 32) none) 110 _ _ rfl
      (by decide) rfl (by decide))
  have seventh : Runs (fun _ _ => True) _ :=
    .tail sixth (.began true 110 _ _ _ rfl (by decide) rfl rfl)
  have eighth : Runs (fun _ _ => True) _ :=
    .tail seventh (.installed true 2 _ _ _ rfl rfl rfl trivial)
  have ninth : Runs (fun _ _ => True) _ := .tail eighth (.marked true _ rfl)
  have tenth : Runs (fun _ _ => True) _ :=
    .tail ninth (.installed false 1 _ _ _ rfl rfl rfl trivial)
  have eleventh : Runs (fun _ _ => True) _ := .tail tenth (.marked false _ rfl)
  refine ⟨_, eleventh, Bool.forall_bool.mpr ⟨rfl, rfl⟩, ⟨_, rfl, fun same => ?_⟩, _,
    List.mem_singleton_self _, rfl, rfl, fun ruleset same enforces => ?_⟩
  · exact nomatch congrArg (Option.map fun ruleset => ruleset.input.length) same
  · obtain rfl := Option.some.inj same
    have dropped := enforces.dropped rfl rfl ⟨.v4 0xC0000201#32, .tcp, 22⟩ rfl (fun _ => false) rfl
    exact nomatch dropped

end Bagel
