/-
This file states what the gates of the web plane keep true while requests, verifications
and reloads run in any order.

One inductive type says what checking one challenge can lead to. A pass of level one or
more is backed by a key that was issued for the challenge, redeemed, and solved; backing
only ever refers to what was written down, so it survives whatever is added. The invariant
collects what is asked of each part of the state, and a step has to show soundness only for
what it adds.
-/

import Bagel.Gates

namespace Bagel

variable {Digest : Type} [LinearOrder Digest]

/-! ### What one check can do -/

/-- What checking one challenge can lead to. -/
inductive CheckStep (server : Server Digest) (policy : GatePolicy) (action : ChallengeAction)
    (visit : Visit) (now : Int) (name : Text) (run : PendingRun Digest)
    (token : Option (Token Digest)) (modified : Bool) : Checked Digest → Prop where
  /-- Nothing is issued, and no proof of work was passed. -/
  | unchanged (goesOn : Bool) : CheckStep server policy action visit now name run token modified
      ⟨run, token, modified, goesOn, none, none⟩
  /-- The proof of work was passed. -/
  | admitted (registration : ChallengeRegistration) (pow : PowChallenge) (held : Token Digest)
      (isPow : registration.runtime = .pow pow) (carried : token = some held)
      (passed : server.challengePassed registration name visit.ip (action.levelFor (.pow pow))
        visit.stack now (some held) = true) :
      CheckStep server policy action visit now name run token modified
        ⟨run, token, modified, true, none,
          some ⟨name, action.levelFor (.pow pow), held.session, visit.host, visit.ip⟩⟩
  /-- The blocklist had nothing against the client. -/
  | settled (random : Option (Vector UInt8 32)) (key : Digest) (duration : Nat)
      (noted : Token Digest)
      (settles : issueChallenge token random name key duration now = some noted) :
      CheckStep server policy action visit now name run token modified
        ⟨run, some noted, true, true, none, none⟩
  /-- A key was asked for and not issued. -/
  | refused (random : Option (Vector UInt8 32)) (duration : Nat) (session : Token Digest)
      (extended : Bool)
      (ensures : ensureSession token random duration now = some (session, extended))
      (later : PendingRun Digest) (table : later.history = run.history)
      (kept : run.Kept → later.Kept) :
      CheckStep server policy action visit now name run token modified
        ⟨later, some session, modified || extended, false, none, none⟩
  /-- A key was issued. -/
  | issued (random : Option (Vector UInt8 32)) (duration : Nat) (session : Token Digest)
      (extended : Bool)
      (ensures : ensureSession token random duration now = some (session, extended))
      (address : IpAddr) (here : visit.ip = some address) (bucket : Int)
      (later : PendingRun Digest) (key : Digest) (entry : PendingChallenge Digest)
      (binds : entry.binding = server.challengeBinding session.session visit.host name
        visit.userAgent policy.revision)
      (keyed : entry.passKey = server.deriveChallengeKey name (some address) bucket)
      (grows : later.history = .issued key entry :: run.history) (kept : run.Kept → later.Kept) :
      CheckStep server policy action visit now name run token modified
        ⟨later, some session, modified || extended, action.check,
          some ⟨key, entry, name, session.session, visit.host, address⟩, none⟩

theorem evaluateChallenge_step (server : Server Digest) (policy : GatePolicy)
    (action : ChallengeAction) (visit : Visit) (now : Int) (answers : ChallengeAnswers Digest)
    (name : Text) (run : PendingRun Digest) (token : Option (Token Digest)) (modified : Bool) :
    CheckStep server policy action visit now name run token modified
      (evaluateChallenge server policy action visit now answers name run token modified) := by
  unfold evaluateChallenge
  split
  · exact .unchanged true
  · next registration registered =>
    dsimp only
    split
    · next passed =>
      cases runtime : registration.runtime with
      | pow pow =>
        rw [runtime] at passed
        cases token with
        | none => exact nomatch passed
        | some held => exact .admitted registration pow held runtime rfl passed
      | _ => exact .unchanged true
    · split
      · split
        · split
          · exact .unchanged false
          · next noted settles => exact .settled _ _ _ _ settles
        · exact .unchanged _
        · exact .unchanged true
      · split
        · exact .unchanged false
        · next address here =>
          split
          · exact .unchanged false
          · next session extended ensures =>
            split
            · next fault failed =>
              exact .refused _ _ _ _ ensures _ (PendingRun.history_issue_error failed)
                fun kept => kept.step _
            · next key issues =>
              refine .issued _ _ _ _ ensures _ here
                (bucketExpiry now registration.maxDuration) _ _ _ rfl ?_
                (PendingRun.history_issue_ok issues) fun kept => kept.step _
              rw [here]

/-! ### What backs a pass -/

/-- The key of the issue was redeemed at the level, for its binding, while it was outstanding. -/
def RedeemedAs (history : List (PendingEvent Digest)) (issue : Issue Digest) (level : Nat) :
    Prop :=
  ∃ later earlier now,
    history = later ++
      .redeemed issue.key now issue.entry.binding level issue.entry.passKey :: earlier ∧
    PendingRun.Outstanding earlier issue.key issue.entry

theorem RedeemedAs.mono {history longer : List (PendingEvent Digest)} {issue : Issue Digest}
    {level : Nat} (redeemed : RedeemedAs history issue level) (grows : history <:+ longer) :
    RedeemedAs longer issue level := by
  obtain ⟨later, earlier, now, rfl, waiting⟩ := redeemed
  obtain ⟨newer, rfl⟩ := grows
  exact ⟨newer ++ later, earlier, now, by rw [List.append_assoc], waiting⟩

/-- A proof of work for the key of the issue was accepted at the level, and a pass was sealed. -/
def SolvedAs (server : Server Digest) (passes : List (Solved Digest)) (issue : Issue Digest)
    (level : Nat) : Prop :=
  ∃ solved ∈ passes, solved.challenge = issue.challenge ∧ solved.key = issue.key ∧
    solved.level = level ∧
    ∃ pow, solved.runtime = .pow pow ∧ server.verify pow issue.key solved.nonce level = true

/-- The pass of the challenge goes back to a key that was issued for it to the session and the
host. -/
def Backed (server : Server Digest) (state : GateState Digest) (host : Text)
    (session : Vector UInt8 32) (name : Text) (pass : TokenChallenge Digest) : Prop :=
  ∃ issue ∈ state.issues, issue.challenge = name ∧ issue.session = session ∧ issue.host = host ∧
    issue.entry.passKey = pass.key ∧ RedeemedAs state.run.history issue pass.level ∧
    SolvedAs server state.passes issue pass.level

/-- What was written down is not taken back. -/
structure GateState.Grows (state next : GateState Digest) : Prop where
  issues : state.issues ⊆ next.issues
  history : state.run.history <:+ next.run.history
  passes : state.passes ⊆ next.passes
  cookies : state.cookies ⊆ next.cookies

section Growth

variable {server : Server Digest} {state next : GateState Digest}

theorem Backed.mono {host name : Text} {session : Vector UInt8 32} {pass : TokenChallenge Digest}
    (backed : Backed server state host session name pass) (grows : state.Grows next) :
    Backed server next host session name pass := by
  obtain ⟨issue, known, challenges, sessions, hosts, keys, redeemed, solved⟩ := backed
  obtain ⟨proof, found, accepted⟩ := solved
  exact ⟨issue, grows.issues known, challenges, sessions, hosts, keys, redeemed.mono grows.history,
    proof, grows.passes found, accepted⟩

/-- Passes of level one and above are backed, and a token that is pending has none. -/
def TokenSound (server : Server Digest) (state : GateState Digest) (host : Text)
    (token : Token Digest) : Prop :=
  ∀ name pass, token.state name = some pass → 1 ≤ pass.level →
    token.pending = false ∧ Backed server state host token.session name pass

theorem TokenSound.mono {host : Text} {token : Token Digest}
    (sound : TokenSound server state host token) (grows : state.Grows next) :
    TokenSound server next host token := by
  intro name pass held high
  obtain ⟨settled, backed⟩ := sound name pass held high
  exact ⟨settled, backed.mono grows⟩

theorem TokenSound.of_pending {host host' : Text} {token : Token Digest}
    (sound : TokenSound server state host token) (pending : token.pending = true) :
    TokenSound server state host' token := by
  intro name pass held high
  obtain ⟨settled, -⟩ := sound name pass held high
  exact absurd pending (by rw [settled]; decide)

/-- A session that is continued keeps its passes, and a new one has none. -/
theorem TokenSound.ensureSession {host : Text} {token : Option (Token Digest)}
    (sound : ∀ held ∈ token, TokenSound server state host held)
    {random : Option (Vector UInt8 32)} {duration : Nat} {now : Int} {session : Token Digest}
    {extended : Bool}
    (ensures : ensureSession token random duration now = some (session, extended)) :
    TokenSound server state host session := by
  unfold Bagel.ensureSession at ensures
  cases token with
  | some held =>
    have before := sound held rfl
    dsimp only at ensures
    split at ensures
    · obtain ⟨rfl, -⟩ := Prod.mk.inj (Option.some.inj ensures)
      exact before
    · obtain ⟨rfl, -⟩ := Prod.mk.inj (Option.some.inj ensures)
      exact before
  | none =>
    obtain ⟨drawn, -, made⟩ := Option.map_eq_some_iff.mp ensures
    obtain ⟨rfl, -⟩ := Prod.mk.inj made
    exact fun _ _ held => nomatch held

omit [LinearOrder Digest] in
/-- A pass that is held after one was added is that one or was held before. -/
theorem held_of_update {passes : Text → Option (TokenChallenge Digest)} {name other : Text}
    {added pass : TokenChallenge Digest}
    (held : Function.update passes name (some added) other = some pass) :
    name = other ∧ added = pass ∨ passes other = some pass := by
  by_cases same : other = name
  · subst same
    rw [Function.update_self] at held
    exact Or.inl ⟨rfl, Option.some.inj held⟩
  · rw [Function.update_of_ne same] at held
    exact Or.inr held

/-- A challenge that was settled without the client is worth a pass of level zero. -/
theorem TokenSound.issueChallenge {host : Text} {token : Option (Token Digest)}
    (sound : ∀ held ∈ token, TokenSound server state host held)
    {random : Option (Vector UInt8 32)} {name : Text} {key : Digest} {duration : Nat} {now : Int}
    {noted : Token Digest}
    (settles : issueChallenge token random name key duration now = some noted) :
    TokenSound server state host noted := by
  obtain ⟨⟨session, extended⟩, ensures, rfl⟩ := Option.map_eq_some_iff.mp settles
  have before := TokenSound.ensureSession sound ensures
  intro other pass held high
  rcases held_of_update held with ⟨-, rfl⟩ | earlier
  · exact absurd high (Nat.not_succ_le_zero 0)
  · exact before other pass earlier high

theorem TokenSound.withPass {host : Text} {token : Token Digest}
    (sound : TokenSound server state host token) {name : Text} {pass : TokenChallenge Digest}
    (backed : 1 ≤ pass.level → Backed server state host token.session name pass) :
    TokenSound server state host (token.withPass name pass) := by
  intro other held found high
  rcases held_of_update found with ⟨rfl, rfl⟩ | earlier
  · exact ⟨rfl, backed high⟩
  · exact ⟨rfl, (sound other held earlier high).2⟩

end Growth

/-! ### The invariant -/

/-- The cookie opens for the host and the network of a request only if it was sealed for that
host. -/
def SealedCookie.AtOwnHost (cookie : SealedCookie Digest) (host : Text) (ip : Option IpAddr) :
    Prop :=
  cookie.host.value ++ cookie.suffix = host.value ++ (ip.map ipNetworkPrefix).getD "" →
    cookie.host = host

instance (cookie : SealedCookie Digest) (host : Text) (ip : Option IpAddr) :
    Decidable (cookie.AtOwnHost host ip) :=
  inferInstanceAs (Decidable (_ → _))

/-- The table holds the key for the session, the host and the challenge of the issue, and the
pass is for its network. -/
def IssueSound (server : Server Digest) (issue : Issue Digest) : Prop :=
  (∃ userAgent revision, issue.entry.binding =
    server.challengeBinding issue.session issue.host issue.challenge userAgent revision) ∧
  ∃ bucket, issue.entry.passKey =
    server.deriveChallengeKey issue.challenge (some issue.address) bucket

/-- An open request has a sound token and is led by its policy. -/
structure VisitSound (server : Server Digest) (state : GateState Digest)
    (opened : OpenVisit Digest) : Prop where
  token : ∀ token ∈ opened.token, TokenSound server state opened.visit.host token
  led : ∀ action ∈ opened.action, action ∈ opened.policy.actions ∧
    opened.remaining ⊆ action.challenges

/-- A verify request carries a cookie that opens for its own host only, and what it has redeemed
was issued for its binding. -/
structure VerificationSound (server : Server Digest) (state : GateState Digest)
    (verification : Verification Digest) : Prop where
  carried : ∃ cookie ∈ state.cookies, verification.carried = some cookie ∧
    cookie.AtOwnHost verification.client.host (some verification.client.ip) ∧
    ∃ userAgent revision, verification.binding = server.challengeBinding cookie.token.session
      verification.client.host verification.challenge userAgent revision
  spent : ∀ spent ∈ verification.spent, ∃ issue ∈ state.issues, issue.key = spent.key ∧
    issue.entry.binding = verification.binding ∧ issue.entry.passKey = spent.passKey ∧
    RedeemedAs state.run.history issue spent.level ∧
    (1 ≤ spent.level → ∃ pow, verification.registration.runtime = .pow pow)

/-- The request was let through for a key that was issued for the challenge to its session, host
and network, and redeemed with a proof at its level or above. -/
def AdmissionSound (server : Server Digest) (state : GateState Digest) (admission : Admission) :
    Prop :=
  ∃ issue ∈ state.issues, issue.challenge = admission.challenge ∧
    issue.session = admission.session ∧ issue.host = admission.host ∧
    admission.ip.map SourceNetwork.fromIp = some (SourceNetwork.fromIp issue.address) ∧
    ∃ level, admission.level ≤ level ∧ RedeemedAs state.run.history issue level ∧
      SolvedAs server state.passes issue level

/-- The key that a verify request has redeemed. -/
def Verification.spentKey (verification : Verification Digest) : Option Digest :=
  verification.spent.map fun spent => spent.key

/-- The passes that the key led to, and those that it may still lead to. -/
def GateState.claims (state : GateState Digest) (key : Digest) : Nat :=
  (state.passes.map Solved.key).count key +
    (state.verifications.filterMap Verification.spentKey).count key

/-- What holds in every state that is reached. -/
structure GateState.Sound (server : Server Digest) (state : GateState Digest) : Prop where
  kept : state.run.Kept
  issues : ∀ issue ∈ state.issues, IssueSound server issue
  recorded : ∀ key entry, .issued key entry ∈ state.run.history →
    ∃ issue ∈ state.issues, issue.key = key ∧ issue.entry = entry
  cookies : ∀ cookie ∈ state.cookies, TokenSound server state cookie.host cookie.token
  visits : ∀ opened ∈ state.visits, VisitSound server state opened
  verifications : ∀ verification ∈ state.verifications,
    VerificationSound server state verification
  admissions : ∀ admission ∈ state.admissions, AdmissionSound server state admission
  claims : ∀ key, state.claims key ≤ PendingRun.redemptions state.run.history key

section Growth

variable {server : Server Digest} {state next : GateState Digest}

theorem VisitSound.mono {opened : OpenVisit Digest} (sound : VisitSound server state opened)
    (grows : state.Grows next) : VisitSound server next opened :=
  ⟨fun token held => (sound.token token held).mono grows, sound.led⟩

theorem VerificationSound.mono {verification : Verification Digest}
    (sound : VerificationSound server state verification) (grows : state.Grows next) :
    VerificationSound server next verification := by
  constructor
  · obtain ⟨cookie, known, carries, own, binds⟩ := sound.carried
    exact ⟨cookie, grows.cookies known, carries, own, binds⟩
  · intro spent spends
    obtain ⟨issue, known, keys, binds, passKeys, redeemed, proves⟩ := sound.spent spent spends
    exact ⟨issue, grows.issues known, keys, binds, passKeys, redeemed.mono grows.history, proves⟩

theorem AdmissionSound.mono {admission : Admission}
    (sound : AdmissionSound server state admission) (grows : state.Grows next) :
    AdmissionSound server next admission := by
  obtain ⟨issue, known, challenges, sessions, hosts, networks, level, enough, redeemed, solved⟩ :=
    sound
  obtain ⟨proof, found, accepted⟩ := solved
  exact ⟨issue, grows.issues known, challenges, sessions, hosts, networks, level, enough,
    redeemed.mono grows.history, proof, grows.passes found, accepted⟩

/-- What a step adds to a state has to be sound in the next one. -/
structure GateState.Adds (server : Server Digest) (state next : GateState Digest) : Prop where
  grows : state.Grows next
  kept : next.run.Kept
  issues : ∀ issue ∈ next.issues, issue ∈ state.issues ∨ IssueSound server issue
  recorded : ∀ key entry, .issued key entry ∈ next.run.history →
    .issued key entry ∈ state.run.history ∨
      ∃ issue ∈ next.issues, issue.key = key ∧ issue.entry = entry
  cookies : ∀ cookie ∈ next.cookies, cookie ∈ state.cookies ∨
    TokenSound server next cookie.host cookie.token
  visits : ∀ opened ∈ next.visits, opened ∈ state.visits ∨ VisitSound server next opened
  verifications : ∀ verification ∈ next.verifications, verification ∈ state.verifications ∨
    VerificationSound server next verification
  admissions : ∀ admission ∈ next.admissions, admission ∈ state.admissions ∨
    AdmissionSound server next admission
  claims : ∀ key, next.claims key ≤ PendingRun.redemptions next.run.history key

theorem GateState.Sound.adds (sound : state.Sound server) (adds : state.Adds server next) :
    next.Sound server where
  kept := adds.kept
  issues issue known := (adds.issues issue known).elim (sound.issues issue) id
  recorded key entry happened := by
    rcases adds.recorded key entry happened with before | found
    · obtain ⟨issue, known, same⟩ := sound.recorded key entry before
      exact ⟨issue, adds.grows.issues known, same⟩
    · exact found
  cookies cookie known := (adds.cookies cookie known).elim
    (fun before => (sound.cookies cookie before).mono adds.grows) id
  visits opened known := (adds.visits opened known).elim
    (fun before => (sound.visits opened before).mono adds.grows) id
  verifications verification known := (adds.verifications verification known).elim
    (fun before => (sound.verifications verification before).mono adds.grows) id
  admissions admission known := (adds.admissions admission known).elim
    (fun before => (sound.admissions admission before).mono adds.grows) id
  claims := adds.claims

/-- A step that neither issues nor redeems nor seals a pass. -/
theorem GateState.Sound.sameBooks (sound : state.Sound server) (policy : GatePolicy)
    {cookies : List (SealedCookie Digest)} {visits : List (OpenVisit Digest)}
    {verifications : List (Verification Digest)} (more : state.cookies ⊆ cookies)
    (newCookies : ∀ cookie ∈ cookies, cookie ∈ state.cookies ∨
      TokenSound server state cookie.host cookie.token)
    (newVisits : ∀ opened ∈ visits, opened ∈ state.visits ∨ VisitSound server state opened)
    (newVerifications : ∀ verification ∈ verifications, verification ∈ state.verifications ∨
      VerificationSound server state verification)
    (spent : ∀ key, (verifications.filterMap Verification.spentKey).count key ≤
      (state.verifications.filterMap Verification.spentKey).count key) :
    ({ state with policy, cookies, visits, verifications } : GateState Digest).Sound server := by
  have grows : state.Grows { state with policy, cookies, visits, verifications } :=
    ⟨List.Subset.refl _, List.suffix_rfl, List.Subset.refl _, more⟩
  refine sound.adds ⟨grows, sound.kept, fun _ => Or.inl, fun _ _ => Or.inl, ?_, ?_, ?_,
    fun _ => Or.inl, ?_⟩
  · exact fun cookie known => (newCookies cookie known).imp_right (TokenSound.mono · grows)
  · exact fun opened known => (newVisits opened known).imp_right (VisitSound.mono · grows)
  · exact fun verification known =>
      (newVerifications verification known).imp_right (VerificationSound.mono · grows)
  · exact fun key => Nat.le_trans (Nat.add_le_add_left (spent key) _) (sound.claims key)

end Growth

end Bagel
