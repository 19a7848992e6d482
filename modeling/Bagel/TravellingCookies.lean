/-
This file proves which passes travel between networks. A cookie of a session that has not solved
anything is pending: it is sealed for the host alone, so that it still opens when the client
comes back from another network.

The flag goes down where a solved challenge is redeemed. A challenge that the server settles by
itself, with a blocklist, writes its pass into the token as well and leaves the flag alone. The
cookies that travel are therefore free of passes exactly in the runs in which no blocklist lets
a session pass that is new or still pending.
-/

import Bagel.GateSoundness

namespace Bagel

variable {Digest : Type}

/-! ### Tokens without a pass -/

/-- A pending token holds no challenge that was passed. -/
def Token.PassFree (token : Token Digest) : Prop :=
  token.pending = true → ∀ name pass, token.state name = some pass → pass.ok = false

section Tokens

variable {token : Option (Token Digest)} {random : Option (Vector UInt8 32)} {duration : Nat}
  {now : Int}

theorem passFree_ensureSession (free : ∀ held ∈ token, held.PassFree) {session : Token Digest}
    {extended : Bool}
    (ensures : ensureSession token random duration now = some (session, extended)) :
    session.PassFree := by
  unfold ensureSession at ensures
  cases token with
  | some held =>
    have before := free held rfl
    dsimp only at ensures
    split at ensures
    · obtain ⟨rfl, -⟩ := Prod.mk.inj (Option.some.inj ensures)
      exact before
    · obtain ⟨rfl, -⟩ := Prod.mk.inj (Option.some.inj ensures)
      exact before
  | none =>
    obtain ⟨drawn, -, made⟩ := Option.map_eq_some_iff.mp ensures
    obtain ⟨rfl, -⟩ := Prod.mk.inj made
    exact fun _ name pass held => nomatch held

/-- Settling a challenge leaves the flag of a session as it was. A new session is pending. -/
theorem pending_of_issueChallenge {name : Text} {key : Digest} {noted : Token Digest}
    (settles : issueChallenge token random name key duration now = some noted) :
    noted.pending = true ↔ ∀ held ∈ token, held.pending = true := by
  obtain ⟨⟨session, extended⟩, ensures, rfl⟩ := Option.map_eq_some_iff.mp settles
  unfold ensureSession at ensures
  cases token with
  | some held =>
    have own : (∀ other ∈ some held, other.pending = true) ↔ held.pending = true :=
      ⟨fun all => all held rfl, fun pending other same => Option.some.inj same ▸ pending⟩
    rw [own]
    dsimp only at ensures
    split at ensures
    · obtain ⟨rfl, -⟩ := Prod.mk.inj (Option.some.inj ensures)
      rfl
    · obtain ⟨rfl, -⟩ := Prod.mk.inj (Option.some.inj ensures)
      rfl
  | none =>
    obtain ⟨drawn, -, made⟩ := Option.map_eq_some_iff.mp ensures
    obtain ⟨rfl, -⟩ := Prod.mk.inj made
    exact iff_of_true rfl fun _ held => nomatch held

/-- A challenge that was settled is one that was passed. -/
theorem passFree_issueChallenge_iff {name : Text} {key : Digest} {noted : Token Digest}
    (settles : issueChallenge token random name key duration now = some noted) :
    noted.PassFree ↔ ¬ ∀ held ∈ token, held.pending = true := by
  rw [← pending_of_issueChallenge settles]
  constructor
  · intro free pending
    obtain ⟨⟨session, extended⟩, -, rfl⟩ := Option.map_eq_some_iff.mp settles
    exact Bool.true_eq_false_eq_False (free pending name _ (Function.update_self _ _ _))
  · exact fun settled pending => absurd pending settled

theorem issueChallenge_eq_none_iff {name : Text} {key : Digest} :
    issueChallenge token random name key duration now = none ↔ token = none ∧ random = none := by
  unfold issueChallenge ensureSession
  cases token with
  | none => cases random <;> simp
  | some held =>
    dsimp only
    split <;> simp

end Tokens

/-! ### One challenge of an action -/

variable [LinearOrder Digest]

/-- The blocklist lets a challenge pass, and the pass goes into a new or a pending token. -/
structure SettlesPending (server : Server Digest) (policy : GatePolicy) (action : ChallengeAction)
    (visit : Visit) (now : Int) (answers : ChallengeAnswers Digest) (name : Text)
    (token : Option (Token Digest)) : Prop where
  answer : answers.lookup = .passed
  settled : ∃ registration, policy.challenges name = some registration ∧
    registration.runtime.redemption = .none ∧
    server.challengePassed registration name visit.ip (action.levelFor registration.runtime)
      visit.stack now token = false
  pending : ∀ held ∈ token, held.pending = true
  drawn : token = none → answers.session ≠ none

/-- Checking one challenge leaves a token without a pass exactly when the blocklist does not let
a pending session pass. -/
theorem passFree_evaluateChallenge_iff (server : Server Digest) (policy : GatePolicy)
    (action : ChallengeAction) (visit : Visit) (now : Int) (answers : ChallengeAnswers Digest)
    (name : Text) (run : PendingRun Digest) (token : Option (Token Digest)) (modified : Bool)
    (free : ∀ held ∈ token, held.PassFree) :
    (∀ held ∈ (evaluateChallenge server policy action visit now answers name run token
        modified).token, held.PassFree) ↔
      ¬ SettlesPending server policy action visit now answers name token := by
  unfold evaluateChallenge
  split
  · next unknown =>
    refine iff_of_true free fun settles => ?_
    obtain ⟨registration, registered, -⟩ := settles.settled
    cases unknown.symm.trans registered
  · next registration registered =>
    have same {other : ChallengeRegistration} (found : policy.challenges name = some other) :
        other = registration := Option.some.inj (found.symm.trans registered)
    dsimp only
    split
    · next passed =>
      refine iff_of_true free fun settles => ?_
      obtain ⟨other, found, -, failed⟩ := settles.settled
      rw [same found, passed] at failed
      cases failed
    · next failed =>
      split
      · next transparent =>
        split
        · next answer =>
          split
          · next refused =>
            refine iff_of_true free fun settles => ?_
            obtain ⟨absent, random⟩ := issueChallenge_eq_none_iff.mp refused
            exact settles.drawn absent random
          · next noted settles =>
            have only : (∀ held ∈ some noted, held.PassFree) ↔ noted.PassFree :=
              ⟨fun all => all noted rfl, fun own held same => Option.some.inj same ▸ own⟩
            rw [only, passFree_issueChallenge_iff settles, not_iff_not]
            refine ⟨fun pending => ⟨answer, ⟨registration, registered, transparent,
              Bool.eq_false_iff.mpr failed⟩, pending, fun absent random => ?_⟩,
              SettlesPending.pending⟩
            rw [issueChallenge_eq_none_iff.mpr ⟨absent, random⟩] at settles
            cases settles
        · next answer =>
          refine iff_of_true free fun settles => ?_
          cases answer.symm.trans settles.answer
        · next answer =>
          refine iff_of_true free fun settles => ?_
          cases answer.symm.trans settles.answer
      · next interactive =>
        have never : ¬ SettlesPending server policy action visit now answers name token := by
          intro settles
          obtain ⟨other, found, transparent, -⟩ := settles.settled
          exact interactive (same found ▸ transparent)
        split
        · exact iff_of_true free never
        · split
          · exact iff_of_true free never
          · next session extended ensures =>
            have ensured := passFree_ensureSession free ensures
            split
            · exact iff_of_true (fun held same => Option.some.inj same ▸ ensured) never
            · exact iff_of_true (fun held same => Option.some.inj same ▸ ensured) never

/-! ### Runs of the gates -/

/-- The action checks a challenge that the blocklist lets a pending session pass. -/
def GateState.SettlesPending (server : Server Digest) (state : GateState Digest) :
    GateAction Digest → Prop
  | .next index now answers => ∃ opened action name rest, state.visits[index]? = some opened ∧
      opened.action = some action ∧ opened.remaining = name :: rest ∧
      Bagel.SettlesPending server opened.policy action opened.visit now answers name opened.token
  | _ => False

/-- No token that was sealed, and none of a request that is being answered, is pending with a
challenge that was passed. -/
structure GateState.PassFree (state : GateState Digest) : Prop where
  cookies : ∀ cookie ∈ state.cookies, cookie.token.PassFree
  visits : ∀ opened ∈ state.visits, ∀ token ∈ opened.token, token.PassFree

section Runs

variable {server : Server Digest} {state : GateState Digest}

/-- A token that a request carries was sealed before. -/
theorem GateState.PassFree.fromHeaders (free : state.PassFree) {cookie : Option Nat} {host : Text}
    {ip : Option IpAddr} {now : Int} {token : Token Digest}
    (opened : server.fromHeaders (cookie.bind (state.cookies[·]?)) host ip now = some token) :
    token.PassFree := by
  obtain ⟨sealed, carries, rfl, -⟩ := Server.fromHeaders_eq_some opened
  obtain ⟨index, -, found⟩ := Option.bind_eq_some_iff.mp carries
  exact free.cookies sealed (List.mem_of_getElem? found)

omit [LinearOrder Digest] in
/-- What a step makes of the lists is judged by what it added to them. -/
theorem GateState.PassFree.of_added (free : state.PassFree) {next : GateState Digest}
    (cookies : ∀ cookie ∈ next.cookies, cookie ∈ state.cookies ∨ cookie.token.PassFree)
    (visits : ∀ opened ∈ next.visits, opened ∈ state.visits ∨
      ∀ token ∈ opened.token, token.PassFree) : next.PassFree where
  cookies cookie known := (cookies cookie known).elim (free.cookies cookie) id
  visits opened known := (visits opened known).elim (free.visits opened) id

theorem GateState.PassFree.leave (free : state.PassFree) (index : Nat) :
    (state.act server (.leave index)).PassFree := by
  rw [act]
  split
  · exact free
  · next opened found =>
    have gone : ∀ other ∈ state.visits.eraseIdx index, other ∈ state.visits ∨
        ∀ token ∈ other.token, token.PassFree :=
      fun _ known => Or.inl (List.mem_of_mem_eraseIdx known)
    dsimp only
    split
    · next token held =>
      have own := free.visits opened (List.mem_of_getElem? found) token held
      split
      · refine free.of_added (fun cookie known => ?_) gone
        rcases mem_of_mem_added known with earlier | rfl
        · exact Or.inl earlier
        · exact Or.inr own
      · exact free.of_added (fun _ => Or.inl) gone
    · exact free.of_added (fun _ => Or.inl) gone

theorem GateState.PassFree.finish (free : state.PassFree) (index : Nat) (now : Int) :
    (state.act server (.finish index now)).PassFree := by
  rw [act]
  split
  · exact free
  · split
    · exact free
    · dsimp only
      split
      · split
        · exact free.of_added (fun _ => Or.inl) fun _ => Or.inl
        · next cookie seals =>
          refine free.of_added (fun other known => ?_) fun _ => Or.inl
          rcases mem_of_mem_added known with earlier | rfl
          · exact Or.inl earlier
          · -- A redeemed challenge settles the flag.
            obtain ⟨token, -, rfl⟩ := Option.map_eq_some_iff.mp seals
            exact Or.inr fun pending => absurd pending Bool.false_ne_true
      · exact free.of_added (fun _ => Or.inl) fun _ => Or.inl

theorem GateState.PassFree.next_iff (free : state.PassFree) (index : Nat) (now : Int)
    (answers : ChallengeAnswers Digest) :
    (state.act server (.next index now answers)).PassFree ↔
      ¬ state.SettlesPending server (.next index now answers) := by
  rw [act]
  split
  · next missing =>
    refine iff_of_true free ?_
    rintro ⟨opened, action, name, rest, found, -⟩
    cases missing.symm.trans found
  · next opened found =>
    split
    · next action name rest chosen left =>
      have own := free.visits opened (List.mem_of_getElem? found)
      have settles : state.SettlesPending server (.next index now answers) ↔
          Bagel.SettlesPending server opened.policy action opened.visit now answers name
            opened.token := by
        constructor
        · rintro ⟨opened', action', name', rest', found', chosen', left', settles⟩
          cases found.symm.trans found'
          cases chosen.symm.trans chosen'
          cases left.symm.trans left'
          exact settles
        · exact fun settles => ⟨opened, action, name, rest, found, chosen, left, settles⟩
      rw [settles, ← passFree_evaluateChallenge_iff server opened.policy action opened.visit now
        answers name state.run opened.token opened.modified own]
      constructor
      · exact fun free => free.visits _ (List.mem_append_right _ List.mem_cons_self)
      · intro checked
        refine free.of_added (fun _ => Or.inl) fun other known => ?_
        rcases mem_of_mem_replaced known with earlier | rfl
        · exact Or.inl earlier
        · exact Or.inr checked
    · next idle =>
      refine iff_of_true free ?_
      rintro ⟨opened', action, name, rest, found', chosen, left, -⟩
      cases found.symm.trans found'
      exact idle action name rest chosen left

/-- A step leaves no pending token with a pass exactly when it does not settle a challenge of a
pending session. -/
theorem GateState.PassFree.act_iff (free : state.PassFree) (action : GateAction Digest) :
    (state.act server action).PassFree ↔ ¬ state.SettlesPending server action := by
  cases action with
  | next index now answers => exact free.next_iff index now answers
  | reload policy => exact iff_of_true (free.of_added (fun _ => Or.inl) fun _ => Or.inl) id
  | arrive cookie visit now =>
    refine iff_of_true (free.of_added (fun _ => Or.inl) fun opened known => ?_) id
    rcases mem_of_mem_added known with earlier | rfl
    · exact Or.inl earlier
    · exact Or.inr fun token opens => free.fromHeaders opens
  | rule index action =>
    refine iff_of_true ?_ id
    rw [act]
    split
    · exact free
    · next opened found =>
      split
      · exact free
      · refine free.of_added (fun _ => Or.inl) fun other known => ?_
        rcases mem_of_mem_replaced known with earlier | rfl
        · exact Or.inl earlier
        · exact Or.inr (free.visits opened (List.mem_of_getElem? found))
  | leave index => exact iff_of_true (free.leave index) id
  | admitRequest cookie client userAgent challenge now =>
    refine iff_of_true ?_ id
    rw [act]
    dsimp only
    split
    · exact free
    · split
      · exact free
      · split
        · exact free
        · exact free.of_added (fun _ => Or.inl) fun _ => Or.inl
  | redeem index instant solution =>
    refine iff_of_true ?_ id
    rw [act]
    split
    · exact free
    · split
      · exact free
      · dsimp only
        split
        · exact free.of_added (fun _ => Or.inl) fun _ => Or.inl
        · split
          · exact free.of_added (fun _ => Or.inl) fun _ => Or.inl
          · exact free.of_added (fun _ => Or.inl) fun _ => Or.inl
  | finish index now => exact iff_of_true (free.finish index now) id

end Runs

/-- The cookies that travel carry no pass, in every state of a run and for every request that is
being answered, exactly when no blocklist lets a pending session pass. -/
theorem passFree_iff (server : Server Digest) (policy : GatePolicy)
    (actions : List (GateAction Digest)) :
    (∀ earlier, earlier <+: actions →
        (earlier.foldl (GateState.act server) (GateState.start policy)).PassFree) ↔
      Machine.Along (GateState.act server)
        (fun state action => ¬ state.SettlesPending server action) (GateState.start policy)
        actions := by
  refine (Machine.along_iff_forall ⟨?_, ?_⟩ (fun state action free => free.act_iff action)
    actions).symm
  · exact fun cookie known => nomatch known
  · exact fun opened known => nomatch known

/-! ### A client that a blocklist knows nothing about -/

namespace SampleTraveller

open SampleGate

def blocklist : Text := ⟨"blocklist", by decide⟩

def registration : ChallengeRegistration where
  duration := 3600
  gpuDuration := none
  runtime := .dnsbl
  durationFits := hour_fits
  gpuDurationFits := no_gpu_fits

/-- Every request has its address looked up. -/
def policy : GatePolicy where
  revision := 0
  challenges name := if name = blocklist then some registration else none
  actions := [⟨[blocklist], none, true⟩]
  valid := by
    intro action listed name asked
    obtain rfl := List.mem_singleton.mp listed
    obtain rfl := List.mem_singleton.mp asked
    exact ⟨registration, if_pos rfl, fun _ => nofun, nofun⟩

/-- A new client at home asks for a page, and its address is not listed. -/
def ask : List (GateAction (List Nat)) :=
  [.arrive none ⟨web, some home, [], none⟩ 3600, .rule 0 0,
    .next 0 3600 ⟨some (Vector.replicate 32 1), ⟨1, 1⟩, 10, [], .passed⟩, .leave 0]

def state : GateState (List Nat) := ask.foldl (GateState.act server) (GateState.start policy)

/-- The cookie that the client gets opens on every network and holds the pass. -/
theorem pass_travels :
    ∃ cookie ∈ state.cookies, cookie.suffix = "pending" ∧ cookie.token.pending = true ∧
      (∃ pass, cookie.token.state blocklist = some pass ∧ pass.ok = true) ∧
      (server.fromHeaders (some cookie) web (some away) 3610).isSome = true := by
  have sealed : state.cookies.any (fun cookie =>
      cookie.suffix = "pending" && cookie.token.pending &&
        (cookie.token.state blocklist).any (fun pass => pass.ok) &&
        (server.fromHeaders (some cookie) web (some away) 3610).isSome) = true := by
    decide
  obtain ⟨cookie, known, holds⟩ := List.any_eq_true.mp sealed
  simp only [Bool.and_eq_true, decide_eq_true_eq] at holds
  obtain ⟨⟨⟨suffix, pending⟩, passed⟩, opens⟩ := holds
  exact ⟨cookie, known, suffix, pending, (Option.any_eq_true _ _).mp passed, opens⟩

end SampleTraveller

end Bagel
