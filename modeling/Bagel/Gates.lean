/-
This file models the gates of the web plane as one system: requests that
`evaluate_challenge_action` checks, challenges that it issues, and the verify endpoints
that redeem them and seal passes.

The requests are taken apart into the steps between which others can run. A visit opens
its cookie, has the challenges of some actions of the policy checked one after the other,
and seals its cookie again if something changed. A verification opens its cookie, redeems
a key of the table and seals a pass. Both keep the policy they were started under when it
is reloaded. Clients may present every cookie that was ever sealed, from anywhere.

Next to what the server keeps, the state writes down which keys were issued and to whom,
which proofs of work a request was let through, and which proofs led to a pass.
-/

import Bagel.Challenge
import Bagel.Pending

namespace Bagel

/-! ### Policies -/

/-- What a challenge or check action asks for. -/
structure ChallengeAction where
  challenges : List Text
  difficulty : Option Nat
  /-- A `check` action goes on after a challenge was issued. -/
  check : Bool

/-- `validate_action` accepts the action. -/
def ChallengeAction.Valid (registry : Text → Option ChallengeRegistration)
    (action : ChallengeAction) : Prop :=
  ∀ name ∈ action.challenges, ∃ registration, registry name = some registration ∧
    (action.check = true → registration.runtime.redemption ≠ .redirect) ∧
    ∀ difficulty ∈ action.difficulty,
      (∃ pow, registration.runtime = .pow pow) ∧ PowChallenge.DifficultyRange difficulty

/-- A policy that was loaded: the registered challenges and the actions of its rules. -/
structure GatePolicy where
  revision : Nat
  challenges : Text → Option ChallengeRegistration
  actions : List ChallengeAction
  valid : ∀ action ∈ actions, action.Valid challenges

/-- The level a challenge is asked for at. -/
def ChallengeAction.levelFor (action : ChallengeAction) : ChallengeRuntime → Nat
  | .pow pow => action.difficulty.getD pow.difficulty
  | _ => 0

/-- A proof of work is never asked for at level zero. -/
theorem GatePolicy.one_le_level (policy : GatePolicy) {action : ChallengeAction}
    (listed : action ∈ policy.actions) {name : Text} (asked : name ∈ action.challenges)
    (pow : PowChallenge) : 1 ≤ action.levelFor (.pow pow) := by
  obtain ⟨_, -, -, ranges⟩ := policy.valid action listed name asked
  simp only [ChallengeAction.levelFor]
  cases given : action.difficulty with
  | none => exact pow.inRange.1
  | some difficulty => exact (ranges difficulty given).2.1

/-! ### Sessions -/

section Sessions

variable {Digest : Type}

/-- `ensure_session`: the token of the session and whether it was changed. A new session is
random, which may fail. -/
def ensureSession (token : Option (Token Digest)) (random : Option (Vector UInt8 32))
    (duration : Nat) (now : Int) : Option (Token Digest × Bool) :=
  let expiry := saturateI64 (now + duration)
  match token with
  | some token =>
    if token.exp < expiry then some ({ token with exp := expiry }, true) else some (token, false)
  | none => random.map fun session => (⟨session, fun _ => none, true, expiry, now, now⟩, true)

/-- `issue_challenge`: the pass of a challenge that is settled without the client. -/
def issueChallenge (token : Option (Token Digest)) (random : Option (Vector UInt8 32))
    (name : Text) (key : Digest) (duration : Nat) (now : Int) : Option (Token Digest) :=
  (ensureSession token random duration now).map fun (token, _) =>
    let exp := saturateI64 (now + duration)
    { token with
      state := Function.update token.state name (some ⟨key, [], 0, "", true, exp, now, now⟩)
      exp := if token.exp < exp then exp else token.exp }

/-- The digest of `ChallengeBinding::new`. -/
def Server.challengeBinding (server : Server Digest) (session : Vector UInt8 32)
    (host challenge : Text) (userAgent : List UInt8) (revision : Nat) : Digest :=
  server.sha256 (Bytes.frame session.toList ++ (Bytes.frame (Bytes.ofText host.value) ++
    (Bytes.frame (Bytes.ofText challenge.value) ++ (Bytes.frame userAgent ++
      Bytes.frame (Bytes.ofInt 8 revision)))))

theorem Text.ext {first second : Text} (same : first.value = second.value) : first = second := by
  cases first
  cases second
  cases same
  rfl

/-- A binding tells the session, the host and the challenge. -/
theorem Server.challengeBinding_inj {server : Server Digest}
    (collisionFree : Function.Injective server.sha256) {session session' : Vector UInt8 32}
    {host host' challenge challenge' : Text} {userAgent userAgent' : List UInt8}
    {revision revision' : Nat}
    (same : server.challengeBinding session host challenge userAgent revision =
      server.challengeBinding session' host' challenge' userAgent' revision') :
    session = session' ∧ host = host' ∧ challenge = challenge' := by
  have length (session : Vector UInt8 32) : session.toList.length < 2 ^ 64 := by
    rw [Vector.length_toList]
    decide
  obtain ⟨sessions, rest⟩ :=
    Bytes.frame_append_inj (length session) (length session') (collisionFree same)
  obtain ⟨hosts, rest⟩ := Bytes.frame_append_inj host.fits host'.fits rest
  obtain ⟨challenges, -⟩ := Bytes.frame_append_inj challenge.fits challenge'.fits rest
  exact ⟨Vector.toList_inj.mp sessions, Text.ext (Bytes.ofText_inj hosts),
    Text.ext (Bytes.ofText_inj challenges)⟩

/-- A binding tells the revision, of which it holds 64 bits. -/
theorem Server.challengeBinding_revision_inj {server : Server Digest}
    (collisionFree : Function.Injective server.sha256) {session session' : Vector UInt8 32}
    {host host' challenge challenge' : Text} {userAgent userAgent' : List UInt8}
    {revision revision' : Nat} (newer : revision ≤ revision') (near : revision' < revision + 2 ^ 64)
    (same : server.challengeBinding session host challenge userAgent revision =
      server.challengeBinding session' host' challenge' userAgent' revision') :
    revision = revision' := by
  have bytes := collisionFree same
  have lengths : (Bytes.frame (Bytes.ofInt 8 revision)).length =
      (Bytes.frame (Bytes.ofInt 8 revision')).length := by
    rw [Bytes.frame, Bytes.frame, List.length_append, List.length_append]
    simp only [Bytes.length_ofInt]
  simp only [← List.append_assoc] at bytes
  have integers : (revision : Int) = revision' := by
    refine Bytes.ofInt_inj (Bytes.frame_inj (List.append_inj' bytes lengths).2) ?_
    rw [abs_of_nonneg (by omega)]
    omega
  exact Int.ofNat.inj integers

end Sessions

/-! ### One challenge of an action -/

/-- The answer of a blocklist. -/
inductive DnsblAnswer where
  | passed
  | failed
  | skip
  deriving DecidableEq

/-- What the surroundings answer while one challenge is checked: the generator of sessions and
keys, the rate tracker, the monotonic clock and the blocklist. -/
structure ChallengeAnswers (Digest : Type) where
  session : Option (Vector UInt8 32)
  rate : IssueRate
  instant : Nat
  draws : List Digest
  lookup : DnsblAnswer

/-- The request as a gate sees it. -/
structure Visit where
  host : Text
  ip : Option IpAddr
  userAgent : List UInt8
  stack : Option String

/-- A key, the challenge that the table held for it, and whom it was issued to. -/
structure Issue (Digest : Type) where
  key : Digest
  entry : PendingChallenge Digest
  challenge : Text
  session : Vector UInt8 32
  host : Text
  address : IpAddr

/-- A request that was let through a proof of work. -/
structure Admission where
  challenge : Text
  level : Nat
  session : Vector UInt8 32
  host : Text
  ip : Option IpAddr

/-- What checking one challenge leads to. -/
structure Checked (Digest : Type) where
  run : PendingRun Digest
  token : Option (Token Digest)
  modified : Bool
  /-- The next challenge of the action is checked. -/
  goesOn : Bool
  issued : Option (Issue Digest)
  admitted : Option Admission

variable {Digest : Type} [LinearOrder Digest]

/-- The nanoseconds of some seconds. -/
def nanoseconds (seconds : Nat) : Nat := seconds * 1000000000

/-- The admission to write down, if the challenge is a proof of work. -/
def admissionOf (runtime : ChallengeRuntime) (name : Text) (level : Nat) (visit : Visit)
    (token : Option (Token Digest)) : Option Admission :=
  match runtime, token with
  | .pow _, some token => some ⟨name, level, token.session, visit.host, visit.ip⟩
  | _, _ => none

/-- One round of the loop of `evaluate_challenge_action`. -/
def evaluateChallenge (server : Server Digest) (policy : GatePolicy) (action : ChallengeAction)
    (visit : Visit) (now : Int) (answers : ChallengeAnswers Digest) (name : Text)
    (run : PendingRun Digest) (token : Option (Token Digest)) (modified : Bool) :
    Checked Digest :=
  match policy.challenges name with
  | none => ⟨run, token, modified, true, none, none⟩
  | some registration =>
    let challengeKey := server.deriveChallengeKey name visit.ip
      (bucketExpiry now registration.maxDuration)
    let level := action.levelFor registration.runtime
    if server.challengePassed registration name visit.ip level visit.stack now token then
      ⟨run, token, modified, true, none, admissionOf registration.runtime name level visit token⟩
    else if registration.runtime.redemption = .none then
      match answers.lookup with
      | .passed =>
        match issueChallenge token answers.session name challengeKey registration.duration now with
        | none => ⟨run, token, modified, false, none, none⟩
        | some token => ⟨run, some token, true, true, none, none⟩
      | .failed => ⟨run, token, modified, action.check, none, none⟩
      | .skip => ⟨run, token, modified, true, none, none⟩
    else
      match visit.ip with
      | none => ⟨run, token, modified, false, none, none⟩
      | some address =>
        match ensureSession token answers.session registration.duration now with
        | none => ⟨run, token, modified, false, none, none⟩
        | some (token, extended) =>
          let binding := server.challengeBinding token.session visit.host name visit.userAgent
            policy.revision
          let gpuLevel := match registration.runtime with
            | .pow pow => pow.gpuLevel level
            | _ => none
          let duration := nanoseconds registration.duration
          let call := PendingCall.issue answers.instant answers.rate answers.draws binding
            challengeKey level gpuLevel duration
          match (run.table.issue answers.instant answers.rate answers.draws binding challengeKey
            level gpuLevel duration).2 with
          | .error _ => ⟨run.step call, some token, modified || extended, false, none, none⟩
          | .ok key =>
            let entry : PendingChallenge Digest :=
              ⟨binding, challengeKey, level, gpuLevel,
                answers.instant + min duration pendingLifetime⟩
            ⟨run.step call, some token, modified || extended, action.check,
              some ⟨key, entry, name, token.session, visit.host, address⟩, none⟩

/-! ### The system -/

/-- A request that is being answered. -/
structure OpenVisit (Digest : Type) where
  policy : GatePolicy
  visit : Visit
  token : Option (Token Digest)
  modified : Bool
  /-- The action that is evaluated. -/
  action : Option ChallengeAction
  /-- The challenges of the action that are left. -/
  remaining : List Text

/-- What a verify request brings. -/
structure Solution (Digest : Type) where
  key : Digest
  nonce : Nat
  difficulty : Nat
  probe : Nat

/-- A key that was redeemed, and at which level. -/
structure Spent (Digest : Type) extends Solution Digest where
  passKey : Digest
  level : Nat

/-- A verify request that is being answered. -/
structure Verification (Digest : Type) where
  registration : ChallengeRegistration
  challenge : Text
  client : Client
  carried : Option (SealedCookie Digest)
  binding : Digest
  spent : Option (Spent Digest)

/-- What a pass was sealed for. -/
structure Solved (Digest : Type) where
  challenge : Text
  runtime : ChallengeRuntime
  key : Digest
  nonce : Nat
  level : Nat

structure GateState (Digest : Type) where
  policy : GatePolicy
  run : PendingRun Digest
  /-- Every cookie that was sealed. -/
  cookies : List (SealedCookie Digest)
  visits : List (OpenVisit Digest)
  verifications : List (Verification Digest)
  issues : List (Issue Digest)
  admissions : List Admission
  /-- One entry for each pass that was sealed. -/
  passes : List (Solved Digest)

inductive GateAction (Digest : Type) where
  /-- A policy is loaded. -/
  | reload (policy : GatePolicy)
  /-- A request arrives with one of the sealed cookies or none. -/
  | arrive (cookie : Option Nat) (visit : Visit) (now : Int)
  /-- The rules of the policy lead an open request to one of its actions. -/
  | rule (index action : Nat)
  /-- The next challenge of the action is checked. -/
  | next (index : Nat) (now : Int) (answers : ChallengeAnswers Digest)
  /-- The request is answered. -/
  | leave (index : Nat)
  /-- A verify request arrives: `admit`. -/
  | admitRequest (cookie : Option Nat) (client : Client) (userAgent : List UInt8) (challenge : Text)
      (now : Int)
  | redeem (index : Nat) (instant : Nat) (solution : Solution Digest)
  /-- The proof of a redeemed key is checked and the pass is sealed. -/
  | finish (index : Nat) (now : Int)

namespace GateState

def start (policy : GatePolicy) : GateState Digest :=
  ⟨policy, PendingRun.start, [], [], [], [], [], []⟩

/-- `seal_cookie` at the end of a request. -/
def sealCookie (visit : Visit) (token : Token Digest) : SealedCookie Digest :=
  ⟨visit.host, if token.pending then "pending" else (visit.ip.map ipNetworkPrefix).getD "", token⟩

/-- The level that a solution claims. A redirect has none. -/
def claimedLevel (registration : ChallengeRegistration) (solution : Solution Digest) :
    Option Nat :=
  match registration.runtime with
  | .pow _ =>
    if PowChallenge.DifficultyRange solution.difficulty then some solution.difficulty else none
  | _ => some 0

/-- What is noted with a pass. -/
def resultOf (registration : ChallengeRegistration) (spent : Spent Digest) : List UInt8 :=
  match registration.runtime with
  | .pow _ => (Bytes.ofInt 8 spent.nonce).reverse ++ (Bytes.ofInt 8 spent.probe).reverse
  | _ => []

/-- The proof of a redeemed key is accepted. -/
def proofAccepted (server : Server Digest) (registration : ChallengeRegistration)
    (spent : Spent Digest) : Bool :=
  match registration.runtime with
  | .pow pow => server.verify pow spent.key spent.nonce spent.level
  | _ => true

/-- One step. What is not possible in a state leaves it as it is. -/
def act (server : Server Digest) (state : GateState Digest) :
    GateAction Digest → GateState Digest
  | .reload policy =>
    { state with policy := { policy with revision := state.policy.revision + 1 } }
  | .arrive cookie visit now =>
    let carried := cookie.bind (state.cookies[·]?)
    let token := server.fromHeaders carried visit.host visit.ip now
    { state with visits := state.visits ++ [⟨state.policy, visit, token, false, none, []⟩] }
  | .rule index action =>
    match state.visits[index]? with
    | none => state
    | some opened =>
      match opened.policy.actions[action]? with
      | none => state
      | some action =>
        { state with
          visits := state.visits.eraseIdx index ++
            [{ opened with action := some action, remaining := action.challenges }] }
  | .next index now answers =>
    match state.visits[index]? with
    | none => state
    | some opened =>
      match opened.action, opened.remaining with
      | some action, name :: rest =>
        let checked := evaluateChallenge server opened.policy action opened.visit now answers name
          state.run opened.token opened.modified
        { state with
          run := checked.run
          visits := state.visits.eraseIdx index ++
            [{ opened with
              token := checked.token
              modified := checked.modified
              remaining := if checked.goesOn then rest else [] }]
          issues := checked.issued.toList ++ state.issues
          admissions := checked.admitted.toList ++ state.admissions }
      | _, _ => state
  | .leave index =>
    match state.visits[index]? with
    | none => state
    | some opened =>
      let visits := state.visits.eraseIdx index
      match opened.token with
      | some token =>
        if opened.modified then
          { state with visits, cookies := state.cookies ++ [sealCookie opened.visit token] }
        else { state with visits }
      | none => { state with visits }
  | .admitRequest cookie client userAgent challenge now =>
    let carried := cookie.bind (state.cookies[·]?)
    match state.policy.challenges challenge with
    | none => state
    | some registration =>
      if registration.runtime.redemption = .none then state
      else
        match server.fromHeaders carried client.host (some client.ip) now with
        | none => state
        | some token =>
          let binding := server.challengeBinding token.session client.host challenge userAgent
            state.policy.revision
          { state with
            verifications := state.verifications ++
              [⟨registration, challenge, client, carried, binding, none⟩] }
  | .redeem index instant solution =>
    match state.verifications[index]? with
    | none => state
    | some verification =>
      match verification.spent with
      | some _ => state
      | none =>
        let verifications := state.verifications.eraseIdx index
        match claimedLevel verification.registration solution with
        | none => { state with verifications }
        | some level =>
          let run := state.run.step (.redeem instant solution.key verification.binding level)
          match (state.run.table.redeem instant solution.key verification.binding level).2 with
          | none => { state with verifications, run }
          | some passKey =>
            { state with
              run
              verifications := verifications ++
                [{ verification with spent := some ⟨solution, passKey, level⟩ }] }
  | .finish index now =>
    match state.verifications[index]? with
    | none => state
    | some verification =>
      match verification.spent with
      | none => state
      | some spent =>
        let verifications := state.verifications.eraseIdx index
        if proofAccepted server verification.registration spent then
          match server.sealPass verification.client verification.carried verification.challenge
            spent.passKey (resultOf verification.registration spent) spent.level
            (verification.registration.durationFor spent.level) now with
          | none => { state with verifications }
          | some cookie =>
            { state with
              verifications
              cookies := state.cookies ++ [cookie]
              passes := ⟨verification.challenge, verification.registration.runtime, spent.key,
                spent.nonce, spent.level⟩ :: state.passes }
        else { state with verifications }

end GateState

end Bagel
