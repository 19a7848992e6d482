/-
This file models the table of pending challenges and settles how it keeps its books.

An issued challenge waits in the table under a random key until it is redeemed or its
lifetime is over. The table is a map with a queue of expiries next to it, so the model
is a book of the expiry library, and each of the two calls is one operation on it. A
run of calls also writes down what it issued and what it redeemed; that history is what
the one-time use of a key is stated over.
-/

import Bagel.Library.Expiry
import Bagel.Library.Transaction

namespace Bagel

open Expiry

variable {Digest : Type} [LinearOrder Digest]

/-! ### The table -/

/-- `CAPACITY` of the table. -/
def pendingCapacity : Nat := 65536

/-- `LIFETIME` of a pending challenge, in nanoseconds. -/
def pendingLifetime : Nat := 300 * 1000000000

/-- What a key was issued for. Times are instants of the monotonic clock in nanoseconds. -/
structure PendingChallenge (Digest : Type) where
  binding : Digest
  passKey : Digest
  level : Nat
  /-- The harder level a GPU solver may return instead. -/
  gpuLevel : Option Nat
  expiry : Nat
  deriving DecidableEq

abbrev PendingTable (Digest : Type) := Book Digest (PendingChallenge Digest)

/-- A level that the challenge may be solved at. -/
def PendingChallenge.Offered (challenge : PendingChallenge Digest) (level : Nat) : Prop :=
  challenge.level = level ∨ challenge.gpuLevel = some level

instance (challenge : PendingChallenge Digest) (level : Nat) :
    Decidable (challenge.Offered level) :=
  inferInstanceAs (Decidable (_ ∨ _))

inductive IssueError where
  | limited
  | full
  | random
  deriving DecidableEq

/-- What the rate tracker answers for the host and the network of a request. -/
structure IssueRate where
  last1 : Nat
  last60 : Nat

def IssueRate.Limited (rate : IssueRate) : Prop := 32 < rate.last1 ∨ 120 < rate.last60

instance (rate : IssueRate) : Decidable rate.Limited := inferInstanceAs (Decidable (_ ∨ _))

namespace PendingTable

variable (table : PendingTable Digest)

/-- Draw keys until one is not in the table. The generator answers with the draws in turn, and
fails after the last of them. -/
def drawKey : List Digest → Option Digest
  | [] => none
  | key :: rest => if (table.entries.lookup key).isSome then drawKey rest else some key

/-- The call `issue`, with the answers of the tracker, the clock and the generator. -/
def issue (now : Nat) (rate : IssueRate) (draws : List Digest) (binding passKey : Digest)
    (level : Nat) (gpuLevel : Option Nat) (duration : Nat) :
    PendingTable Digest × Except IssueError Digest :=
  if rate.Limited then (table, .error .limited)
  else
    let table := table.expire now
    if pendingCapacity ≤ table.size then (table, .error .full)
    else
      match drawKey table draws with
      | none => (table, .error .random)
      | some key =>
        let expiry := now + min duration pendingLifetime
        (table.insert key ⟨binding, passKey, level, gpuLevel, expiry⟩ expiry, .ok key)

/-- The call `redeem`. -/
def redeem (now : Nat) (key binding : Digest) (level : Nat) :
    PendingTable Digest × Option Digest :=
  let table := table.expire now
  match table.entries.lookup key with
  | none => (table, none)
  | some challenge =>
    if challenge.binding = binding ∧ challenge.Offered level then
      (table.remove key challenge.expiry, some challenge.passKey)
    else (table, none)

variable {table}

theorem drawKey_fresh {draws : List Digest} {key : Digest}
    (drawn : drawKey table draws = some key) : table.entries.lookup key = none := by
  induction draws with
  | nil => exact nomatch drawn
  | cons first rest inductionHypothesis =>
    rw [drawKey] at drawn
    split at drawn
    · exact inductionHypothesis drawn
    · next fresh =>
      rw [← Option.some.inj drawn]
      exact Option.not_isSome_iff_eq_none.mp fresh

theorem mem_of_drawKey {draws : List Digest} {key : Digest}
    (drawn : drawKey table draws = some key) : key ∈ draws := by
  induction draws with
  | nil => cases drawn
  | cons first rest inductionHypothesis =>
    rw [drawKey] at drawn
    split at drawn
    · exact List.mem_cons_of_mem _ (inductionHypothesis drawn)
    · rw [← Option.some.inj drawn]
      exact List.mem_cons_self

/-- What a call of `issue` can do: nothing, expire only, or issue a fresh key while there is
room. -/
theorem issue_cases (table : PendingTable Digest) (now : Nat) (rate : IssueRate)
    (draws : List Digest) (binding passKey : Digest) (level : Nat) (gpuLevel : Option Nat)
    (duration : Nat) :
    (∃ fault, table.issue now rate draws binding passKey level gpuLevel duration =
      (table, .error fault)) ∨
    (∃ fault, table.issue now rate draws binding passKey level gpuLevel duration =
      (table.expire now, .error fault)) ∨
    ∃ key challenge, (table.expire now).entries.lookup key = none ∧
      (table.expire now).size < pendingCapacity ∧
      challenge = ⟨binding, passKey, level, gpuLevel, now + min duration pendingLifetime⟩ ∧
      table.issue now rate draws binding passKey level gpuLevel duration =
        ((table.expire now).insert key challenge challenge.expiry, .ok key) := by
  unfold issue
  split
  · exact .inl ⟨_, rfl⟩
  · simp only
    split
    · exact .inr (.inl ⟨_, rfl⟩)
    · next room =>
      cases drawn : drawKey (table.expire now) draws with
      | none => exact .inr (.inl ⟨_, rfl⟩)
      | some key =>
        exact .inr (.inr ⟨key, _, drawKey_fresh drawn, Nat.lt_of_not_le room, rfl, rfl⟩)

/-- A key that is issued was drawn. -/
theorem mem_of_issue (table : PendingTable Digest) (now : Nat) (rate : IssueRate)
    (draws : List Digest) (binding passKey : Digest) (level : Nat) (gpuLevel : Option Nat)
    (duration : Nat) {key : Digest}
    (issued : (table.issue now rate draws binding passKey level gpuLevel duration).2 = .ok key) :
    key ∈ draws := by
  unfold issue at issued
  split at issued
  · cases issued
  · simp only at issued
    split at issued
    · cases issued
    · cases drawn : drawKey (table.expire now) draws with
      | none =>
        rw [drawn] at issued
        cases issued
      | some other =>
        rw [drawn] at issued
        cases issued
        exact mem_of_drawKey drawn

/-- What a call of `redeem` can do: expire only and answer nothing, or remove the challenge it
found under the key for the binding at an offered level. -/
theorem redeem_cases (table : PendingTable Digest) (now : Nat) (key binding : Digest)
    (level : Nat) :
    table.redeem now key binding level = (table.expire now, none) ∨
    ∃ challenge, (table.expire now).entries.lookup key = some challenge ∧
      challenge.binding = binding ∧ challenge.Offered level ∧
      table.redeem now key binding level =
        ((table.expire now).remove key challenge.expiry, some challenge.passKey) := by
  unfold redeem
  simp only
  split
  · exact .inl rfl
  · next challenge found =>
    split
    · next accepted => exact .inr ⟨challenge, found, accepted.1, accepted.2, rfl⟩
    · exact .inl rfl

/-- A failed `redeem` only expires. -/
theorem redeem_none {now : Nat} {key binding : Digest} {level : Nat}
    (failed : (table.redeem now key binding level).2 = none) :
    (table.redeem now key binding level).1 = table.expire now := by
  rcases redeem_cases table now key binding level with outcome | ⟨challenge, -, -, -, outcome⟩
  · rw [outcome]
  · rw [outcome] at failed
    exact nomatch failed

end PendingTable

/-! ### Runs -/

/-- One call of the table, with what its surroundings answer it. -/
inductive PendingCall (Digest : Type) where
  | issue (now : Nat) (rate : IssueRate) (draws : List Digest) (binding passKey : Digest)
      (level : Nat) (gpuLevel : Option Nat) (duration : Nat)
  | redeem (now : Nat) (key binding : Digest) (level : Nat)

/-- What a successful call did. -/
inductive PendingEvent (Digest : Type) where
  | issued (key : Digest) (challenge : PendingChallenge Digest)
  | redeemed (key : Digest) (now : Nat) (binding : Digest) (level : Nat) (passKey : Digest)

namespace PendingEvent

def key : PendingEvent Digest → Digest
  | issued key _ => key
  | redeemed key _ _ _ _ => key

def isIssue : PendingEvent Digest → Bool
  | issued _ _ => true
  | redeemed _ _ _ _ _ => false

end PendingEvent

/-- The table, and what the calls so far issued and redeemed, the newest first. -/
structure PendingRun (Digest : Type) where
  table : PendingTable Digest
  history : List (PendingEvent Digest)

namespace PendingRun

def start : PendingRun Digest := ⟨Book.empty, []⟩

/-- One call. A key is issued with the challenge that the table now holds for it. -/
def step (run : PendingRun Digest) : PendingCall Digest → PendingRun Digest
  | .issue now rate draws binding passKey level gpuLevel duration =>
    match run.table.issue now rate draws binding passKey level gpuLevel duration with
    | (table, .error _) => ⟨table, run.history⟩
    | (table, .ok key) =>
      ⟨table, .issued key ⟨binding, passKey, level, gpuLevel, now + min duration pendingLifetime⟩ ::
        run.history⟩
  | .redeem now key binding level =>
    match run.table.redeem now key binding level with
    | (table, none) => ⟨table, run.history⟩
    | (table, some passKey) => ⟨table, .redeemed key now binding level passKey :: run.history⟩

/-- What there is after a sequence of calls. -/
def after (calls : List (PendingCall Digest)) : PendingRun Digest := calls.foldl step start

section Calls

variable {run : PendingRun Digest} {now level duration : Nat} {rate : IssueRate}
  {draws : List Digest} {binding passKey key : Digest} {gpuLevel : Option Nat}

theorem history_issue_error {fault : IssueError}
    (failed : (run.table.issue now rate draws binding passKey level gpuLevel duration).2 =
      .error fault) :
    (run.step (.issue now rate draws binding passKey level gpuLevel duration)).history =
      run.history := by
  rw [step]
  split
  · rfl
  · next found =>
    rw [found] at failed
    exact nomatch failed

theorem history_issue_ok
    (issues : (run.table.issue now rate draws binding passKey level gpuLevel duration).2 =
      .ok key) :
    (run.step (.issue now rate draws binding passKey level gpuLevel duration)).history =
      .issued key ⟨binding, passKey, level, gpuLevel, now + min duration pendingLifetime⟩ ::
        run.history := by
  rw [step]
  split
  · next found =>
    rw [found] at issues
    exact nomatch issues
  · next found =>
    rw [found] at issues
    rw [Except.ok.inj issues]

theorem history_redeem_none (failed : (run.table.redeem now key binding level).2 = none) :
    (run.step (.redeem now key binding level)).history = run.history := by
  rw [step]
  split
  · rfl
  · next found =>
    rw [found] at failed
    exact nomatch failed

theorem history_redeem_some (redeems : (run.table.redeem now key binding level).2 = some passKey) :
    (run.step (.redeem now key binding level)).history =
      .redeemed key now binding level passKey :: run.history := by
  rw [step]
  split
  · next found =>
    rw [found] at redeems
    exact nomatch redeems
  · next found =>
    rw [found] at redeems
    rw [Option.some.inj redeems]

end Calls

/-- The last thing that happened to the key was its issue as the challenge. -/
def Outstanding (history : List (PendingEvent Digest)) (key : Digest)
    (challenge : PendingChallenge Digest) : Prop :=
  history.find? (fun event => event.key = key) = some (.issued key challenge)

/-- How often the key was issued. -/
def issues (history : List (PendingEvent Digest)) (key : Digest) : Nat :=
  history.countP fun event => event.key = key ∧ event.isIssue

/-- How often the key was redeemed. -/
def redemptions (history : List (PendingEvent Digest)) (key : Digest) : Nat :=
  history.countP fun event => event.key = key ∧ ¬ event.isIssue

/-- Every redemption in the history was of an outstanding challenge, before its expiry, for its
binding and at a level it offers, and answered its pass key. -/
def Earned : List (PendingEvent Digest) → Prop
  | [] => True
  | .issued _ _ :: earlier => Earned earlier
  | .redeemed key now binding level passKey :: earlier =>
    (∃ challenge, Outstanding earlier key challenge ∧ now < challenge.expiry ∧
      challenge.binding = binding ∧ challenge.Offered level ∧ challenge.passKey = passKey) ∧
    Earned earlier

section Counts

variable (history : List (PendingEvent Digest)) (key other : Digest)

theorem issues_issued (challenge : PendingChallenge Digest) :
    issues (.issued key challenge :: history) other =
      issues history other + if key = other then 1 else 0 := by
  simp [issues, List.countP_cons, PendingEvent.key, PendingEvent.isIssue]

theorem issues_redeemed (now level : Nat) (binding passKey : Digest) :
    issues (.redeemed key now binding level passKey :: history) other = issues history other := by
  simp [issues, PendingEvent.isIssue]

theorem redemptions_issued (challenge : PendingChallenge Digest) :
    redemptions (.issued key challenge :: history) other = redemptions history other := by
  simp [redemptions, PendingEvent.isIssue]

theorem redemptions_redeemed (now level : Nat) (binding passKey : Digest) :
    redemptions (.redeemed key now binding level passKey :: history) other =
      redemptions history other + if key = other then 1 else 0 := by
  simp [redemptions, List.countP_cons, PendingEvent.key, PendingEvent.isIssue]

end Counts

/-- The invariant of a run. -/
structure Kept (run : PendingRun Digest) : Prop where
  balanced : run.table.Balanced PendingChallenge.expiry
  bounded : run.table.size ≤ pendingCapacity
  outstanding : ∀ key challenge, run.table.entries.lookup key = some challenge →
    Outstanding run.history key challenge
  earned : Earned run.history
  spent : ∀ key, redemptions run.history key ≤ issues run.history key
  unspent : ∀ key, (run.table.entries.lookup key).isSome →
    redemptions run.history key < issues run.history key

theorem kept_start : (start : PendingRun Digest).Kept where
  balanced := Book.balanced_empty
  bounded := Nat.zero_le _
  outstanding _ _ found := nomatch found
  earned := trivial
  spent _ := Nat.le_refl _
  unspent _ held := nomatch held

/-- An entry that is left after expiring was there before, and its expiry has not come. -/
theorem lookup_expire_eq_some {table : PendingTable Digest}
    (balanced : table.Balanced PendingChallenge.expiry) {now : Nat} {key : Digest}
    {challenge : PendingChallenge Digest}
    (found : (table.expire now).entries.lookup key = some challenge) :
    table.entries.lookup key = some challenge ∧ now < challenge.expiry := by
  rw [balanced.lookup_expire, Option.filter_eq_some_iff] at found
  exact ⟨found.1, of_decide_eq_true found.2⟩

variable {table : PendingTable Digest} {history : List (PendingEvent Digest)}

theorem Kept.expire (kept : Kept ⟨table, history⟩) (now : Nat) :
    Kept ⟨table.expire now, history⟩ where
  balanced := kept.balanced.expire now
  bounded := Nat.le_trans (Book.size_expire_le table now) kept.bounded
  outstanding key challenge found :=
    kept.outstanding key challenge (lookup_expire_eq_some kept.balanced found).1
  earned := kept.earned
  spent := kept.spent
  unspent key held := by
    obtain ⟨challenge, found⟩ := Option.isSome_iff_exists.mp held
    have before := (lookup_expire_eq_some kept.balanced found).1
    exact kept.unspent key (Option.isSome_iff_exists.mpr ⟨challenge, before⟩)

theorem Kept.issued (kept : Kept ⟨table, history⟩) {key : Digest}
    {challenge : PendingChallenge Digest} (fresh : table.entries.lookup key = none)
    (room : table.size < pendingCapacity) :
    Kept ⟨table.insert key challenge challenge.expiry, .issued key challenge :: history⟩ where
  balanced := kept.balanced.insert fresh challenge
  bounded := by
    show (table.insert key challenge challenge.expiry).size ≤ pendingCapacity
    rw [Book.size_insert table fresh]
    exact room
  outstanding other held found := by
    rw [Book.insert] at found
    by_cases same : other = key
    · subst same
      rw [AList.lookup_insert, Option.some.injEq] at found
      subst found
      simp [Outstanding, PendingEvent.key]
    · rw [AList.lookup_insert_ne same] at found
      have before := kept.outstanding other held found
      simpa [Outstanding, PendingEvent.key, Ne.symm same] using before
  earned := kept.earned
  spent other := by
    rw [redemptions_issued, issues_issued]
    exact Nat.le_trans (kept.spent other) (Nat.le_add_right _ _)
  unspent other held := by
    rw [redemptions_issued, issues_issued]
    by_cases same : key = other
    · rw [if_pos same]
      exact Nat.lt_succ_of_le (kept.spent other)
    · rw [Book.insert, AList.lookup_insert_ne (Ne.symm same)] at held
      rw [if_neg same]
      exact kept.unspent other held

theorem Kept.redeemed (kept : Kept ⟨table, history⟩) {key : Digest}
    {challenge : PendingChallenge Digest} (found : table.entries.lookup key = some challenge)
    {now level : Nat} (early : now < challenge.expiry) (offered : challenge.Offered level) :
    Kept ⟨table.remove key challenge.expiry,
      .redeemed key now challenge.binding level challenge.passKey :: history⟩ where
  balanced := kept.balanced.remove found
  bounded := Nat.le_trans (Book.size_remove_le table key _) kept.bounded
  outstanding other held left := by
    rw [Book.remove] at left
    by_cases same : other = key
    · subst same
      rw [AList.lookup_erase] at left
      cases left
    · rw [AList.lookup_erase_ne same] at left
      have before := kept.outstanding other held left
      simpa [Outstanding, PendingEvent.key, Ne.symm same] using before
  earned := ⟨⟨challenge, kept.outstanding key challenge found, early, rfl, offered, rfl⟩,
    kept.earned⟩
  spent other := by
    rw [redemptions_redeemed, issues_redeemed]
    by_cases same : key = other
    · subst same
      rw [if_pos rfl]
      exact kept.unspent key (Option.isSome_iff_exists.mpr ⟨challenge, found⟩)
    · rw [if_neg same]
      exact kept.spent other
  unspent other held := by
    rw [redemptions_redeemed, issues_redeemed]
    rw [Book.remove] at held
    by_cases same : other = key
    · subst same
      rw [AList.lookup_erase] at held
      cases held
    · rw [AList.lookup_erase_ne same] at held
      rw [if_neg (Ne.symm same)]
      exact kept.unspent other held

theorem Kept.step {run : PendingRun Digest} (kept : run.Kept) (call : PendingCall Digest) :
    (run.step call).Kept := by
  cases call with
  | issue now rate draws binding passKey level gpuLevel duration =>
    rw [PendingRun.step]
    rcases PendingTable.issue_cases run.table now rate draws binding passKey level gpuLevel duration
      with ⟨fault, outcome⟩ | ⟨fault, outcome⟩ | ⟨key, challenge, fresh, room, rfl, outcome⟩
    · rw [outcome]
      exact kept
    · rw [outcome]
      exact kept.expire now
    · rw [outcome]
      exact (kept.expire now).issued fresh room
  | redeem now key binding level =>
    rw [PendingRun.step]
    rcases PendingTable.redeem_cases run.table now key binding level
      with outcome | ⟨challenge, found, rfl, offered, outcome⟩
    · rw [outcome]
      exact kept.expire now
    · rw [outcome]
      have early := (lookup_expire_eq_some kept.balanced found).2
      exact (kept.expire now).redeemed found early offered

theorem kept_after (calls : List (PendingCall Digest)) : (after calls).Kept :=
  Transaction.foldl_preserves calls kept_start fun call _ _ kept => kept.step call

theorem Earned.of_append {later earlier : List (PendingEvent Digest)}
    (earned : Earned (later ++ earlier)) : Earned earlier := by
  induction later with
  | nil => exact earned
  | cons event rest inductionHypothesis =>
    cases event with
    | issued key challenge => exact inductionHypothesis earned
    | redeemed key now binding level passKey => exact inductionHypothesis earned.2

/-- In every state that calls of `issue` and `redeem` lead to, the queue is exactly the set of
the expiries of the challenges held, at most 65536 of them. Each redemption is of a challenge
that was issued under the key and not redeemed since, before its expiry, for its binding and at
its level or its GPU level, so no key is redeemed more often than it was issued. A `redeem` that
fails drops the expired challenges and changes nothing else. -/
theorem pending_table_keeps_books (calls : List (PendingCall Digest)) :
    let run := after calls
    (run.table.queue.Nodup ∧ ∀ time key, (time, key) ∈ run.table.queue ↔
      ∃ challenge, run.table.entries.lookup key = some challenge ∧ challenge.expiry = time) ∧
    run.table.size ≤ 65536 ∧
    (∀ key, redemptions run.history key ≤ issues run.history key) ∧
    (∀ later earlier key now binding level passKey,
      run.history = later ++ .redeemed key now binding level passKey :: earlier →
      ∃ challenge, Outstanding earlier key challenge ∧ now < challenge.expiry ∧
        challenge.binding = binding ∧
        (challenge.level = level ∨ challenge.gpuLevel = some level) ∧
        challenge.passKey = passKey) ∧
    ∀ now key binding level, (run.table.redeem now key binding level).2 = none →
      (run.table.redeem now key binding level).1 = run.table.expire now ∧
      ∀ other, (run.table.expire now).entries.lookup other =
        (run.table.entries.lookup other).filter fun challenge => now < challenge.expiry := by
  have kept := kept_after calls
  refine ⟨⟨kept.balanced.ordered.imp Before.ne, kept.balanced.queued⟩, kept.bounded, kept.spent,
    ?_, ?_⟩
  · intro later earlier key now binding level passKey split
    have earned := kept.earned
    rw [split] at earned
    exact earned.of_append.1
  · intro now key binding level failed
    exact ⟨PendingTable.redeem_none failed, kept.balanced.lookup_expire now⟩

/-! ### Single use -/

/-- The keys that are drawn in a call. -/
def drawn : PendingCall Digest → List Digest
  | .issue _ _ draws _ _ _ _ _ => draws
  | .redeem _ _ _ _ => []

theorem issues_step_le (run : PendingRun Digest) (call : PendingCall Digest) (key : Digest) :
    issues (run.step call).history key ≤ issues run.history key + (drawn call).count key := by
  cases call with
  | issue now rate draws binding passKey level gpuLevel duration =>
    have listed : ∀ other, (run.table.issue now rate draws binding passKey level gpuLevel
        duration).2 = .ok other → other ∈ draws := fun other issued =>
      run.table.mem_of_issue now rate draws binding passKey level gpuLevel duration issued
    rw [PendingRun.step]
    split
    · exact Nat.le_add_right _ _
    · next table other outcome =>
      rw [issues_issued]
      split
      · next same =>
        have member : key ∈ draws := same ▸ listed other (by rw [outcome])
        exact Nat.add_le_add_left (List.count_pos_iff.mpr member) _
      · exact Nat.le_add_right _ _
  | redeem now other binding level =>
    rw [PendingRun.step]
    split
    · exact Nat.le_add_right _ _
    · rw [issues_redeemed]
      exact Nat.le_add_right _ _

/-- A key is issued at most as often as it is drawn. -/
theorem issues_le_count (calls : List (PendingCall Digest)) (run : PendingRun Digest)
    (key : Digest) :
    issues (calls.foldl step run).history key ≤
      issues run.history key + (calls.flatMap drawn).count key := by
  induction calls generalizing run with
  | nil => exact Nat.le_add_right _ _
  | cons call rest inductionHypothesis =>
    calc issues ((call :: rest).foldl step run).history key
        ≤ issues (run.step call).history key + (rest.flatMap drawn).count key :=
          inductionHypothesis (run.step call)
      _ ≤ issues run.history key + (drawn call).count key + (rest.flatMap drawn).count key :=
          Nat.add_le_add_right (issues_step_le run call key) _
      _ = issues run.history key + ((call :: rest).flatMap drawn).count key := by
          rw [List.flatMap_cons, List.count_append, Nat.add_assoc]

/-- When no key is drawn twice, every key is redeemed at most once. -/
theorem redemptions_le_one {calls : List (PendingCall Digest)}
    (distinct : (calls.flatMap drawn).Nodup) (key : Digest) :
    redemptions (after calls).history key ≤ 1 := by
  have issued := issues_le_count calls start key
  have none : issues (start : PendingRun Digest).history key = 0 := rfl
  rw [none, Nat.zero_add] at issued
  exact ((kept_after calls).spent key).trans
    (issued.trans (List.nodup_iff_count_le_one.mp distinct key))

/-- A key is issued, redeemed at its GPU level, and offered once more. -/
def redeemedTwice : List (PendingCall Nat) :=
  [.issue 10 ⟨1, 1⟩ [7] 3 4 5 (some 6) 1000, .redeem 20 7 3 6, .redeem 30 7 3 6]

theorem pending_table_keeps_books_redeemed_twice :
    issues (after redeemedTwice).history 7 = 1 ∧ redemptions (after redeemedTwice).history 7 = 1 ∧
      redemptions (after redeemedTwice).history 7 ≤ issues (after redeemedTwice).history 7 := by
  refine ⟨by decide, by decide, ?_⟩
  exact (pending_table_keeps_books redeemedTwice).2.2.1 7

end PendingRun

end Bagel
