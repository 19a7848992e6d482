/-
This file settles when the gates of the web plane are sound: whoever is let through a
proof of work has had a key issued for it, to the same session, host and network, and has
redeemed that key with a nonce that was accepted at the level asked for or above.

Backing is kept by everything that happens to a token, as long as a cookie is only opened
for the host that it was sealed for. The key of a cookie is derived from host and network
written together, so a cookie of one host may open for another host and another network;
that is the condition on a run.
-/

import Bagel.GateInvariant
import Bagel.Passes
import Bagel.Library.Machine
import Mathlib.Data.List.Lex

namespace Bagel

variable {Digest : Type} [LinearOrder Digest]

/-! ### The steps -/

section Steps

variable {server : Server Digest} {state : GateState Digest}

/-- The token of a cookie that opens for its own host only is sound for the host it opens for. -/
theorem TokenSound.fromHeaders (collisionFree : Function.Injective server.sha256)
    {cookie : SealedCookie Digest} (sound : TokenSound server state cookie.host cookie.token)
    {host : Text} {ip : Option IpAddr} (own : cookie.AtOwnHost host ip) {now : Int}
    {token : Token Digest} (opened : server.fromHeaders (some cookie) host ip now = some token) :
    token = cookie.token ∧ TokenSound server state host token := by
  obtain ⟨_, carries, rfl, -, bound | pending⟩ := Server.fromHeaders_eq_some opened
  · obtain rfl := Option.some.inj carries
    refine ⟨rfl, ?_⟩
    rw [← own (Server.deriveCookieKey_inj collisionFree bound)]
    exact sound
  · obtain rfl := Option.some.inj carries
    exact ⟨rfl, sound.of_pending pending⟩

theorem GateState.Sound.withVisits (sound : state.Sound server)
    {visits : List (OpenVisit Digest)}
    (newVisits : ∀ opened ∈ visits, opened ∈ state.visits ∨ VisitSound server state opened) :
    ({ state with visits } : GateState Digest).Sound server :=
  sound.sameBooks state.policy (List.Subset.refl _) (fun _ => Or.inl) newVisits (fun _ => Or.inl)
    fun _ => Nat.le_refl _

section Lists

variable {Entry : Type} {entries : List Entry} {added entry : Entry}

omit [LinearOrder Digest]

theorem mem_of_mem_added (known : entry ∈ entries ++ [added]) : entry ∈ entries ∨ entry = added :=
  (List.mem_append.mp known).imp_right List.mem_singleton.mp

/-- What is in the list after one entry was taken out and another put in. -/
theorem mem_of_mem_replaced {index : Nat} (known : entry ∈ entries.eraseIdx index ++ [added]) :
    entry ∈ entries ∨ entry = added :=
  (mem_of_mem_added known).imp_left List.mem_of_mem_eraseIdx

end Lists

theorem GateState.Sound.arrive (collisionFree : Function.Injective server.sha256)
    (sound : state.Sound server) {cookie : Option Nat} {visit : Visit} {now : Int}
    (own : ∀ carried ∈ cookie.bind (state.cookies[·]?), carried.AtOwnHost visit.host visit.ip) :
    (state.act server (.arrive cookie visit now)).Sound server := by
  refine sound.withVisits fun opened known => ?_
  rcases mem_of_mem_added known with before | rfl
  · exact Or.inl before
  · refine Or.inr ⟨fun token opens => ?_, fun action led => nomatch led⟩
    obtain ⟨carried, carries, -⟩ := Server.fromHeaders_eq_some opens
    obtain ⟨index, -, found⟩ := Option.bind_eq_some_iff.mp carries
    have sealed := sound.cookies carried (List.mem_of_getElem? found)
    rw [carries] at opens
    exact (sealed.fromHeaders collisionFree (own carried carries) opens).2

theorem GateState.Sound.rule (sound : state.Sound server) (index action : Nat) :
    (state.act server (.rule index action)).Sound server := by
  rw [act]
  split
  · exact sound
  · next opened found =>
    split
    · exact sound
    · next led listed =>
      refine sound.withVisits fun other known => ?_
      rcases mem_of_mem_replaced known with earlier | rfl
      · exact Or.inl earlier
      · have before := sound.visits opened (List.mem_of_getElem? found)
        refine Or.inr ⟨before.token, fun action leads => ?_⟩
        obtain rfl := Option.some.inj leads
        exact ⟨List.mem_of_getElem? listed, List.Subset.refl _⟩

theorem GateState.Sound.leave (sound : state.Sound server) (index : Nat) :
    (state.act server (.leave index)).Sound server := by
  have closed : ∀ opened ∈ state.visits.eraseIdx index, opened ∈ state.visits ∨
      VisitSound server state opened := fun _ known => Or.inl (List.mem_of_mem_eraseIdx known)
  rw [act]
  split
  · exact sound
  · next opened found =>
    dsimp only
    split
    · next token held =>
      split
      · refine sound.sameBooks state.policy (List.subset_append_left _ _) ?_ closed
          (fun _ => Or.inl) fun _ => Nat.le_refl _
        intro cookie known
        rcases mem_of_mem_added known with before | rfl
        · exact Or.inl before
        · exact Or.inr ((sound.visits opened (List.mem_of_getElem? found)).token token held)
      · exact sound.withVisits closed
    · exact sound.withVisits closed

/-- A check that passes for a proof of work is backed by a redemption at its level or above. -/
theorem admissionSound_of_passed (collisionFree : Function.Injective server.sha256)
    (sound : state.Sound server) {policy : GatePolicy} {action : ChallengeAction}
    (listed : action ∈ policy.actions) {name : Text} (asked : name ∈ action.challenges)
    {registration : ChallengeRegistration} (pow : PowChallenge) {visit : Visit} {now : Int}
    {token : Token Digest} (held : TokenSound server state visit.host token)
    (passed : server.challengePassed registration name visit.ip (action.levelFor (.pow pow))
      visit.stack now (some token) = true) :
    AdmissionSound server state
      ⟨name, action.levelFor (.pow pow), token.session, visit.host, visit.ip⟩ := by
  obtain ⟨pass, found, admits, keyed⟩ := Server.challengePassed_iff.mp passed
  have enough := admits.level
  have high := Nat.le_trans (policy.one_le_level listed asked pow) enough
  obtain ⟨-, issue, known, rfl, sessions, hosts, keys, redeemed, solved⟩ :=
    held name pass found high
  obtain ⟨bucket, passKey⟩ := (sound.issues issue known).2
  -- The key of the pass names the network, whichever of the two buckets it is of.
  have network {expiry : Int}
      (same : pass.key = server.deriveChallengeKey issue.challenge visit.ip expiry) :
      visit.ip.map SourceNetwork.fromIp = some (SourceNetwork.fromIp issue.address) :=
    (Server.deriveChallengeKey_inj collisionFree (same.symm.trans (keys.symm.trans passKey))).1
  exact ⟨issue, known, rfl, sessions, hosts, keyed.elim network network, pass.level, enough,
    redeemed, solved⟩

/-- What a check leads to is sound: the token it leaves, and what it issues and lets through. -/
structure Checked.Sound (server : Server Digest) (state : GateState Digest) (host : Text)
    (checked : Checked Digest) : Prop where
  longer : state.run.history <:+ checked.run.history
  kept : checked.run.Kept
  issues : ∀ issue ∈ checked.issued, IssueSound server issue
  recorded : ∀ key entry, .issued key entry ∈ checked.run.history →
    .issued key entry ∈ state.run.history ∨
      ∃ issue ∈ checked.issued, issue.key = key ∧ issue.entry = entry
  token : ∀ token ∈ checked.token, TokenSound server state host token
  admissions : ∀ admission ∈ checked.admitted, AdmissionSound server state admission

theorem CheckStep.sound (collisionFree : Function.Injective server.sha256)
    (sound : state.Sound server) {policy : GatePolicy} {action : ChallengeAction}
    (listed : action ∈ policy.actions) {name : Text} (asked : name ∈ action.challenges)
    {visit : Visit} {token : Option (Token Digest)}
    (held : ∀ session ∈ token, TokenSound server state visit.host session) {now : Int}
    {modified : Bool} {checked : Checked Digest}
    (step : CheckStep server policy action visit now name state.run token modified checked) :
    checked.Sound server state visit.host := by
  have nothing {Entry : Type} {holds : Entry → Prop} :
      ∀ entry ∈ (none : Option Entry), holds entry := fun _ member => nomatch member
  have only {Entry : Type} {entry : Entry} {holds : Entry → Prop} (one : holds entry) :
      ∀ other ∈ some entry, holds other := fun _ member => Option.some.inj member ▸ one
  cases step with
  | unchanged goesOn =>
    exact ⟨List.suffix_rfl, sound.kept, nothing, fun _ _ => Or.inl, held, nothing⟩
  | admitted registration pow session isPow carried passed =>
    refine ⟨List.suffix_rfl, sound.kept, nothing, fun _ _ => Or.inl, held, only ?_⟩
    exact admissionSound_of_passed collisionFree sound listed asked pow (held session carried)
      passed
  | settled random key duration noted settles =>
    exact ⟨List.suffix_rfl, sound.kept, nothing, fun _ _ => Or.inl,
      only (TokenSound.issueChallenge held settles), nothing⟩
  | refused random duration session extended ensures later same kept =>
    exact ⟨by rw [same], kept sound.kept, nothing, fun _ _ happened => Or.inl (same ▸ happened),
      only (TokenSound.ensureSession held ensures), nothing⟩
  | issued random duration session extended ensures address here bucket later key entry binds
      keyed grows kept =>
    refine ⟨by rw [grows]; exact List.suffix_cons _ _, kept sound.kept,
      only ⟨⟨_, _, binds⟩, bucket, keyed⟩, fun other entry happened => ?_,
      only (TokenSound.ensureSession held ensures), nothing⟩
    rw [grows] at happened
    rcases List.mem_cons.mp happened with new | earlier
    · obtain ⟨rfl, rfl⟩ := PendingEvent.issued.inj new
      exact Or.inr ⟨_, rfl, rfl, rfl⟩
    · exact Or.inl earlier

theorem GateState.Sound.afterCheck (sound : state.Sound server) {checked : Checked Digest}
    {host : Text} (step : checked.Sound server state host) {visits : List (OpenVisit Digest)}
    (newVisits : ∀ opened ∈ visits, opened ∈ state.visits ∨ VisitSound server state opened) :
    ({ state with
      run := checked.run
      visits
      issues := checked.issued.toList ++ state.issues
      admissions := checked.admitted.toList ++ state.admissions } :
      GateState Digest).Sound server := by
  have grows : state.Grows { state with
      run := checked.run
      visits
      issues := checked.issued.toList ++ state.issues
      admissions := checked.admitted.toList ++ state.admissions } :=
    ⟨List.subset_append_right _ _, step.longer, List.Subset.refl _, List.Subset.refl _⟩
  refine sound.adds ⟨grows, step.kept, ?_, ?_, fun _ => Or.inl, ?_, fun _ => Or.inl, ?_, ?_⟩
  · intro issue known
    rcases List.mem_append.mp known with added | before
    · exact Or.inr (step.issues issue (Option.mem_toList.mp added))
    · exact Or.inl before
  · intro key entry happened
    refine (step.recorded key entry happened).imp_right ?_
    rintro ⟨issue, added, same⟩
    exact ⟨issue, List.mem_append_left _ (Option.mem_toList.mpr added), same⟩
  · exact fun opened known => (newVisits opened known).imp_right (VisitSound.mono · grows)
  · intro admission known
    rcases List.mem_append.mp known with added | before
    · exact Or.inr ((step.admissions admission (Option.mem_toList.mp added)).mono grows)
    · exact Or.inl before
  · exact fun key => Nat.le_trans (sound.claims key) step.longer.sublist.countP_le

/-- A request whose token stays sound goes on with the rest of its action or with none of it. -/
theorem VisitSound.checked {opened : OpenVisit Digest} (before : VisitSound server state opened)
    {name : Text} {rest : List Text}
    (remains : opened.remaining = name :: rest)
    {token : Option (Token Digest)} (modified goesOn : Bool)
    (held : ∀ session ∈ token, TokenSound server state opened.visit.host session) :
    VisitSound server state
      { opened with token, modified, remaining := if goesOn then rest else [] } := by
  refine ⟨held, fun other same => ?_⟩
  obtain ⟨listed, asked⟩ := before.led other same
  rw [remains] at asked
  refine ⟨listed, ?_⟩
  dsimp only
  split
  · exact List.Subset.trans (List.subset_cons_self _ _) asked
  · exact List.nil_subset _

theorem GateState.Sound.next (collisionFree : Function.Injective server.sha256)
    (sound : state.Sound server) (index : Nat) (now : Int) (answers : ChallengeAnswers Digest) :
    (state.act server (.next index now answers)).Sound server := by
  rw [act]
  split
  · exact sound
  · next opened found =>
    split
    · next action name rest leads remains =>
      have before := sound.visits opened (List.mem_of_getElem? found)
      obtain ⟨listed, asked⟩ := before.led action leads
      rw [remains] at asked
      have step := (evaluateChallenge_step server opened.policy action opened.visit now answers name
        state.run opened.token opened.modified).sound collisionFree sound listed
        (asked List.mem_cons_self) before.token
      refine sound.afterCheck step fun other known => (mem_of_mem_replaced known).imp_right ?_
      rintro rfl
      exact before.checked remains _ _ step.token
    · exact sound

theorem GateState.Sound.admitRequest (sound : state.Sound server) {cookie : Option Nat}
    {client : Client} {userAgent : List UInt8} {challenge : Text} {now : Int}
    (own : ∀ carried ∈ cookie.bind (state.cookies[·]?),
      carried.AtOwnHost client.host (some client.ip)) :
    (state.act server (.admitRequest cookie client userAgent challenge now)).Sound server := by
  rw [act]
  dsimp only
  split
  · exact sound
  · next registration registered =>
    split
    · exact sound
    · split
      · exact sound
      · next token opens =>
        refine sound.sameBooks state.policy (List.Subset.refl _) (fun _ => Or.inl)
          (fun _ => Or.inl) (fun verification known => ?_) fun key => ?_
        · rcases mem_of_mem_added known with before | rfl
          · exact Or.inl before
          · obtain ⟨carried, carries, rfl, -⟩ := Server.fromHeaders_eq_some opens
            obtain ⟨index, -, found⟩ := Option.bind_eq_some_iff.mp carries
            exact Or.inr ⟨⟨carried, List.mem_of_getElem? found, carries, own carried carries,
              userAgent, _, rfl⟩, fun _ spent => nomatch spent⟩
        · rw [List.filterMap_append]
          exact Nat.le_of_eq (congrArg _ (List.append_nil _))

/-- A verify request that is answered no longer claims its key. -/
theorem count_spentKey_eraseIdx {verifications : List (Verification Digest)} {index : Nat}
    {verification : Verification Digest} (found : verifications[index]? = some verification)
    (key : Digest) :
    (verifications.filterMap Verification.spentKey).count key =
      ((verifications.eraseIdx index).filterMap Verification.spentKey).count key +
        if verification.spentKey = some key then 1 else 0 := by
  obtain ⟨bound, rfl⟩ := List.getElem?_eq_some_iff.mp found
  have same := ((List.getElem_cons_eraseIdx_perm bound).filterMap Verification.spentKey).count_eq
    key
  rw [← same]
  cases spent : verifications[index].spentKey with
  | none => simp [spent]
  | some other => simp [spent, List.count_cons]

/-- A key that was redeemed had been issued for the binding. -/
theorem GateState.Sound.issue_of_redeemed (sound : state.Sound server) {run : PendingRun Digest}
    (kept : run.Kept) {key binding passKey : Digest} {now level : Nat}
    (grown : run.history = .redeemed key now binding level passKey :: state.run.history) :
    ∃ issue ∈ state.issues, issue.key = key ∧ issue.entry.binding = binding ∧
      issue.entry.passKey = passKey ∧ RedeemedAs run.history issue level := by
  have earned := kept.earned
  rw [grown] at earned
  obtain ⟨challenge, outstanding, -, rfl, -, rfl⟩ := earned.1
  have happened := List.mem_of_find?_eq_some outstanding
  obtain ⟨issue, known, rfl, rfl⟩ := sound.recorded key challenge happened
  exact ⟨issue, known, rfl, rfl, rfl, [], state.run.history, now, grown, outstanding⟩

omit [LinearOrder Digest] in
/-- A level of one and above is only claimed for a proof of work. -/
theorem GateState.pow_of_claimedLevel {registration : ChallengeRegistration}
    {solution : Solution Digest} {level : Nat}
    (claims : claimedLevel registration solution = some level) (high : 1 ≤ level) :
    ∃ pow, registration.runtime = .pow pow := by
  unfold claimedLevel at claims
  split at claims
  · next pow runtime => exact ⟨pow, runtime⟩
  · rw [← Option.some.inj claims] at high
    exact absurd high (Nat.not_succ_le_zero 0)

/-- A verify request that has redeemed its key may lead to a pass. -/
theorem GateState.Sound.redeemed (sound : state.Sound server) {index instant level : Nat}
    {solution : Solution Digest} {verification : Verification Digest} {passKey : Digest}
    (before : VerificationSound server state verification)
    (counts : ∀ key, (state.verifications.filterMap Verification.spentKey).count key =
      ((state.verifications.eraseIdx index).filterMap Verification.spentKey).count key)
    (claims : claimedLevel verification.registration solution = some level)
    (redeems : (state.run.table.redeem instant solution.key verification.binding level).2 =
      some passKey) :
    ({ state with
      run := state.run.step (.redeem instant solution.key verification.binding level)
      verifications := state.verifications.eraseIdx index ++
        [{ verification with spent := some ⟨solution, passKey, level⟩ }] } :
      GateState Digest).Sound server := by
  have kept := sound.kept.step (.redeem instant solution.key verification.binding level)
  have grown := PendingRun.history_redeem_some redeems
  have grows : state.Grows { state with
      run := state.run.step (.redeem instant solution.key verification.binding level)
      verifications := state.verifications.eraseIdx index ++
        [{ verification with spent := some ⟨solution, passKey, level⟩ }] } :=
    ⟨List.Subset.refl _, by rw [grown]; exact List.suffix_cons _ _, List.Subset.refl _,
      List.Subset.refl _⟩
  refine sound.adds ⟨grows, kept, fun _ => Or.inl, fun _ _ happened => ?_, fun _ => Or.inl,
    fun _ => Or.inl, fun other known => ?_, fun _ => Or.inl, fun key => ?_⟩
  · rw [grown] at happened
    exact Or.inl ((List.mem_cons.mp happened).resolve_left nofun)
  · rcases mem_of_mem_replaced known with earlier | rfl
    · exact Or.inl earlier
    · refine Or.inr ⟨(before.mono grows).carried, fun spent spends => ?_⟩
      obtain rfl := Option.some.inj spends
      obtain ⟨issue, known, keys, binds, passKeys, redeemed⟩ := sound.issue_of_redeemed kept grown
      exact ⟨issue, known, keys, binds, passKeys, redeemed, pow_of_claimedLevel claims⟩
  · -- One more redemption, and one more pass that it may lead to.
    have bound := sound.claims key
    rw [GateState.claims, counts] at bound
    rw [GateState.claims, grown, PendingRun.redemptions_redeemed, List.filterMap_append,
      List.count_append]
    show _ + (_ + [solution.key].count key) ≤ _
    rw [List.count_singleton]
    simp only [beq_iff_eq]
    omega

theorem GateState.Sound.redeem (sound : state.Sound server) (index instant : Nat)
    (solution : Solution Digest) :
    (state.act server (.redeem index instant solution)).Sound server := by
  rw [act]
  split
  · exact sound
  · next verification found =>
    split
    · exact sound
    · next unspent =>
      have before := sound.verifications verification (List.mem_of_getElem? found)
      have counts (key : Digest) := count_spentKey_eraseIdx found key
      have unclaimed : verification.spentKey = none := by
        rw [Verification.spentKey, unspent, Option.map_none]
      simp only [unclaimed, reduceCtorEq, if_false, Nat.add_zero] at counts
      have left : ∀ other ∈ state.verifications.eraseIdx index, other ∈ state.verifications :=
        fun _ => List.mem_of_mem_eraseIdx
      dsimp only
      split
      · exact sound.sameBooks state.policy (List.Subset.refl _) (fun _ => Or.inl)
          (fun _ => Or.inl) (fun other known => Or.inl (left other known))
          fun key => Nat.le_of_eq (counts key).symm
      · next level claims =>
        split
        · next failed =>
          have same := PendingRun.history_redeem_none failed
          have kept := sound.kept.step (.redeem instant solution.key verification.binding level)
          refine sound.adds ⟨⟨List.Subset.refl _, by rw [same], List.Subset.refl _,
            List.Subset.refl _⟩, kept, fun _ => Or.inl, ?_, fun _ => Or.inl, fun _ => Or.inl,
            fun other known => Or.inl (left other known), fun _ => Or.inl, fun key => ?_⟩
          · exact fun _ _ happened => Or.inl (same ▸ happened)
          · have bound := sound.claims key
            rw [GateState.claims, counts] at bound
            rwa [GateState.claims, same]
        · next passKey redeems => exact sound.redeemed before counts claims redeems

/-- The token of a pass is sound once the pass is written down. -/
theorem tokenSound_sealPass (collisionFree : Function.Injective server.sha256)
    (sound : state.Sound server) {next : GateState Digest} (grows : state.Grows next)
    {verification : Verification Digest} (before : VerificationSound server state verification)
    {spent : Spent Digest} (spends : verification.spent = some spent)
    (accepted : GateState.proofAccepted server verification.registration spent = true)
    (noted : (⟨verification.challenge, verification.registration.runtime, spent.key, spent.nonce,
      spent.level⟩ : Solved Digest) ∈ next.passes)
    {result : List UInt8} {duration : Nat} {now : Int} {cookie : SealedCookie Digest}
    (seals : server.sealPass verification.client verification.carried verification.challenge
      spent.passKey result spent.level duration now = some cookie) :
    TokenSound server next cookie.host cookie.token := by
  obtain ⟨carried, known, carries, own, userAgent, revision, bound⟩ := before.carried
  obtain ⟨issue, issued, keys, binds, passKeys, redeemed, proves⟩ := before.spent spent spends
  obtain ⟨token, opens, rfl⟩ := Option.map_eq_some_iff.mp seals
  rw [carries] at opens
  obtain ⟨rfl, held⟩ := (sound.cookies carried known).fromHeaders collisionFree own opens
  refine (held.mono grows).withPass fun high => ?_
  obtain ⟨⟨_, _, made⟩, -⟩ := sound.issues issue issued
  obtain ⟨sessions, hosts, challenges⟩ :=
    Server.challengeBinding_inj collisionFree (made.symm.trans (binds.trans bound))
  obtain ⟨pow, runtime⟩ := proves high
  rw [GateState.proofAccepted, runtime] at accepted
  exact ⟨issue, grows.issues issued, challenges, sessions, hosts, passKeys,
    redeemed.mono grows.history, _, noted, challenges.symm, keys.symm, rfl, pow, runtime,
    keys ▸ accepted⟩

theorem GateState.Sound.finish (collisionFree : Function.Injective server.sha256)
    (sound : state.Sound server) (index : Nat) (now : Int) :
    (state.act server (.finish index now)).Sound server := by
  rw [act]
  split
  · exact sound
  · next verification found =>
    split
    · exact sound
    · next spent spends =>
      have before := sound.verifications verification (List.mem_of_getElem? found)
      have counts (key : Digest) := count_spentKey_eraseIdx found key
      have claimed : verification.spentKey = some spent.key := by
        rw [Verification.spentKey, spends, Option.map_some]
      simp only [claimed, Option.some.injEq] at counts
      have left : ∀ other ∈ state.verifications.eraseIdx index, other ∈ state.verifications ∨
          VerificationSound server state other :=
        fun _ known => Or.inl (List.mem_of_mem_eraseIdx known)
      have dropped : ({ state with verifications := state.verifications.eraseIdx index } :
          GateState Digest).Sound server :=
        sound.sameBooks state.policy (List.Subset.refl _) (fun _ => Or.inl) (fun _ => Or.inl) left
          fun key => counts key ▸ Nat.le_add_right _ _
      dsimp only
      split
      · next accepted =>
        split
        · exact dropped
        · next cookie seals =>
          have grows : state.Grows { state with
              verifications := state.verifications.eraseIdx index
              cookies := state.cookies ++ [cookie]
              passes := ⟨verification.challenge, verification.registration.runtime, spent.key,
                spent.nonce, spent.level⟩ :: state.passes } :=
            ⟨List.Subset.refl _, List.suffix_rfl, List.subset_cons_self _ _,
              List.subset_append_left _ _⟩
          refine sound.adds ⟨grows, sound.kept, fun _ => Or.inl, fun _ _ => Or.inl,
            fun other known => ?_, fun _ => Or.inl,
            fun other known => Or.inl (List.mem_of_mem_eraseIdx known), fun _ => Or.inl,
            fun key => ?_⟩
          · rcases mem_of_mem_added known with earlier | rfl
            · exact Or.inl earlier
            · exact Or.inr (tokenSound_sealPass collisionFree sound grows before spends accepted
                List.mem_cons_self seals)
          · -- What was claimed before is a pass now.
            have bound := sound.claims key
            rw [GateState.claims, counts] at bound
            rw [GateState.claims, List.map_cons, List.count_cons]
            simp only [beq_iff_eq]
            omega
      · exact dropped

end Steps

/-! ### Runs -/

/-- No request carries a cookie that was sealed for another host and opens for this one because
host and network run together to the same text. -/
def GateState.AtOwnHosts (state : GateState Digest) : GateAction Digest → Prop
  | .arrive cookie visit _ =>
    ∀ carried ∈ cookie.bind (state.cookies[·]?), carried.AtOwnHost visit.host visit.ip
  | .admitRequest cookie client _ _ _ =>
    ∀ carried ∈ cookie.bind (state.cookies[·]?), carried.AtOwnHost client.host (some client.ip)
  | _ => True

instance (state : GateState Digest) (action : GateAction Digest) :
    Decidable (state.AtOwnHosts action) :=
  match action with
  | .arrive _ _ _ => inferInstanceAs (Decidable (∀ carried ∈ Option.bind _ _, _))
  | .admitRequest _ _ _ _ _ => inferInstanceAs (Decidable (∀ carried ∈ Option.bind _ _, _))
  | .reload _ | .rule _ _ | .next _ _ _ | .leave _ | .redeem _ _ _ | .finish _ _ => isTrue trivial

theorem GateState.sound_start (server : Server Digest) (policy : GatePolicy) :
    (start policy).Sound server where
  kept := PendingRun.kept_start
  issues _ known := nomatch known
  recorded _ _ happened := nomatch happened
  cookies _ known := nomatch known
  visits _ known := nomatch known
  verifications _ known := nomatch known
  admissions _ known := nomatch known
  claims _ := Nat.le_refl _

theorem GateState.Sound.act {server : Server Digest}
    (collisionFree : Function.Injective server.sha256) {state : GateState Digest}
    (sound : state.Sound server) {action : GateAction Digest} (own : state.AtOwnHosts action) :
    (state.act server action).Sound server := by
  cases action with
  | reload policy =>
    exact sound.sameBooks _ (List.Subset.refl _) (fun _ => Or.inl) (fun _ => Or.inl)
      (fun _ => Or.inl) fun _ => Nat.le_refl _
  | arrive cookie visit now => exact sound.arrive collisionFree own
  | rule index action => exact sound.rule index action
  | next index now answers => exact sound.next collisionFree index now answers
  | leave index => exact sound.leave index
  | admitRequest cookie client userAgent challenge now => exact sound.admitRequest own
  | redeem index instant solution => exact sound.redeem index instant solution
  | finish index now => exact sound.finish collisionFree index now

/-- Every request that was let through a proof of work goes back to a key that was issued for it
and redeemed, and no key led to more passes than it was issued for. -/
def GateState.GatesSound (server : Server Digest) (state : GateState Digest) : Prop :=
  (∀ admission ∈ state.admissions, AdmissionSound server state admission) ∧
    ∀ key, (state.passes.map Solved.key).count key ≤ PendingRun.issues state.run.history key

/-- As long as no request carries a cookie of another host that opens for its own, whoever is let
through a proof of work has had a key issued for it, to the same session, host and network, and
has redeemed that key with a proof that was accepted at the level or above. -/
theorem gates_sound (server : Server Digest) (collisionFree : Function.Injective server.sha256)
    (policy : GatePolicy) (state : GateState Digest)
    (reached : Machine.Reaches (GateState.act server) GateState.AtOwnHosts
      (GateState.start policy) state) :
    state.GatesSound server := by
  have sound := reached.preserves (GateState.sound_start server policy)
    fun _ _ sound own => sound.act collisionFree own
  refine ⟨sound.admissions, fun key => ?_⟩
  calc (state.passes.map Solved.key).count key
    _ ≤ state.claims key := Nat.le_add_right _ _
    _ ≤ PendingRun.redemptions state.run.history key := sound.claims key
    _ ≤ PendingRun.issues state.run.history key := sound.kept.spent key

/-! ### A sample gate -/

namespace SampleGate

/-- A server whose digest of some bytes is these bytes. -/
def server : Server (List Nat) where
  sha256 bytes := bytes.map UInt8.toNat
  keyFingerprint := List.replicate 32 7
  pkcs8Seed := List.replicate 32 9
  verify _ _ _ _ := true

def web : Text := ⟨"web", Server.web_fits⟩

def web1 : Text := ⟨"web1", by decide⟩

def challenge : Text := ⟨"proof", Server.proof_fits⟩

/-- An hour for a proof of work at level ten. -/
def registration : ChallengeRegistration where
  duration := 3600
  gpuDuration := none
  runtime := .pow ⟨.scratch, 10, 13, none, Server.ten_fits, Server.no_gpu_difficulty_fits⟩
  durationFits := hour_fits
  gpuDurationFits := no_gpu_fits

/-- Every request has to solve the proof of work. -/
def policy : GatePolicy where
  revision := 0
  challenges name := if name = challenge then some registration else none
  actions := [⟨[challenge], none, false⟩]
  valid := by
    intro action listed name asked
    obtain rfl := List.mem_singleton.mp listed
    obtain rfl := List.mem_singleton.mp asked
    exact ⟨registration, if_pos rfl, nofun, nofun⟩

/-- 192.0.2.3 -/
def home : IpAddr := .v4 0xC0000203#32

/-- 92.0.2.3 -/
def away : IpAddr := .v4 0x5C000203#32

/-- What a check is answered. The key is drawn once. -/
def answers : ChallengeAnswers (List Nat) :=
  ⟨some (Vector.replicate 32 1), ⟨1, 1⟩, 10, [[5]], .skip⟩

/-- A client at home asks for `web1` and gets a key, redeems it for `web1` from an address, and
then asks for a host with the new cookie. -/
def solveThenAsk (redeemer : IpAddr) (host : Text) : List (GateAction (List Nat)) :=
  [.arrive none ⟨web1, some home, [], none⟩ 3600, .rule 0 0, .next 0 3600 answers, .leave 0,
    .admitRequest (some 0) ⟨web1, redeemer, none⟩ [] challenge 3610, .redeem 0 20 ⟨[5], 77, 10, 0⟩,
    .finish 0 3620, .arrive (some 1) ⟨host, some home, [], none⟩ 3630, .rule 0 0,
    .next 0 3630 answers]

def run (actions : List (GateAction (List Nat))) : GateState (List Nat) :=
  actions.foldl (GateState.act server) (GateState.start policy)

theorem collisionFree : Function.Injective server.sha256 := by
  refine List.map_injective_iff.mpr fun first second same => ?_
  exact UInt8.toNat_inj.mp same

end SampleGate

open SampleGate in
/-- Whoever redeems the key at home is let through at the same host. -/
theorem gates_sound_same_host :
    (run (solveThenAsk home web1)).admissions.map Admission.host = [web1] ∧
      (run (solveThenAsk home web1)).GatesSound server := by
  refine ⟨by decide +kernel, ?_⟩
  exact gates_sound server collisionFree policy _ (Machine.reaches_of_along (by decide +kernel))

open SampleGate in
/-- A key is issued for `web1` at home and redeemed for `web1` from another network. The cookie of
the pass then opens for `web` at home, where no key was issued for. -/
theorem gate_passed_at_another_host :
    Machine.Reaches (GateState.act server) (fun _ _ => True) (GateState.start policy)
        (run (solveThenAsk away web)) ∧
      ¬ (run (solveThenAsk away web)).GatesSound server := by
  refine ⟨Machine.reaches_of_along (Machine.along_of_forall (fun _ _ => trivial) _ _), ?_⟩
  rintro ⟨admitted, -⟩
  have elsewhere : ∀ issue ∈ (run (solveThenAsk away web)).issues, issue.host ≠ web := by
    decide +kernel
  have passed : ∃ admission ∈ (run (solveThenAsk away web)).admissions, admission.host = web := by
    decide +kernel
  obtain ⟨admission, known, here⟩ := passed
  obtain ⟨issue, issued, -, -, hosts, -⟩ := admitted admission known
  exact elsewhere issue issued (hosts.trans here)

end Bagel
