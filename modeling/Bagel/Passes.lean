/-
This file settles how long a pass is good for, and when solving another challenge takes a
pass away.

The key of a pass names the time bucket in which its challenge was issued, and the gate
accepts the keys of the current bucket and of the one before. A pass is therefore good
until its own expiry or until two buckets after the beginning of its own, whichever is
first. A new pass replaces the earlier one of the same challenge, even where that one had
a higher level, was bound to fewer stacks or would have lasted longer.
-/

import Bagel.Challenge
import Mathlib.Tactic.Ring

namespace Bagel

/-! ### Buckets -/

/-- What the system clock shows. The kernel counts nanoseconds in 64 bits, so the seconds stay
far below the ends of an `i64`. -/
structure UnixTime where
  seconds : Int
  nonneg : 0 ≤ seconds
  fits : seconds ≤ 9223372036

theorem saturateI64_of_nonneg {value : Int} (nonneg : 0 ≤ value) :
    saturateI64 value = min value (2 ^ 63 - 1) := by
  unfold saturateI64
  omega

theorem bucketExpiry_eq_min {now step : Int} (nonneg : 0 ≤ now) (positive : 1 ≤ step) :
    bucketExpiry now step = min ((now / step + 1) * step) (2 ^ 63 - 1) := by
  have quotient : 0 ≤ now / step := Int.ediv_nonneg nonneg (by omega)
  have scaled {factor : Int} (nonneg : 0 ≤ factor) : factor ≤ factor * step := by
    have grows := Int.mul_le_mul_of_nonneg_left positive nonneg
    omega
  simp only [bucketExpiry, max_eq_left positive]
  rw [saturateI64_of_nonneg (by omega : 0 ≤ now / step + 1)]
  rcases le_or_gt (now / step + 1) (2 ^ 63 - 1) with small | large
  · have whole := scaled (by omega : 0 ≤ now / step + 1)
    rw [min_eq_left small, saturateI64_of_nonneg (by omega)]
  · -- Both products are beyond the last value.
    have whole := scaled (by omega : 0 ≤ now / step + 1)
    have last := scaled (by omega : (0 : Int) ≤ 2 ^ 63 - 1)
    rw [min_eq_right (by omega : (2 : Int) ^ 63 - 1 ≤ now / step + 1),
      saturateI64_of_nonneg (by omega), min_eq_right last, min_eq_right (by omega)]

/-- The keys of the current and the previous bucket of a time, told from the side of a bucket
that is not at the very end of time. -/
theorem bucketExpiry_reaches_iff {now step bucket : Int} (nonneg : 0 ≤ now) (positive : 1 ≤ step)
    (early : bucket + 2 * step ≤ 2 ^ 63 - 1) :
    (bucketExpiry now step = bucket ∨ bucketExpiry now step - step = bucket) ↔
      step ∣ bucket ∧ bucket - step ≤ now ∧ now < bucket + step := by
  have lower : now / step * step ≤ now := Int.ediv_mul_le now (by omega)
  have upper : now < (now / step + 1) * step := Int.lt_ediv_add_one_mul_self now (by omega)
  have expanded : (now / step + 1) * step = now / step * step + step := by ring
  rw [bucketExpiry_eq_min nonneg positive]
  constructor
  · intro named
    have unsaturated : (now / step + 1) * step = bucket ∨ now / step * step = bucket := by omega
    rcases unsaturated with current | previous
    · exact ⟨⟨now / step + 1, by rw [← current]; ring⟩, by omega, by omega⟩
    · exact ⟨⟨now / step, by rw [← previous]; ring⟩, by omega, by omega⟩
  · rintro ⟨⟨count, rfl⟩, after, before⟩
    have above : count - 1 < now / step + 1 := by
      refine Int.lt_of_mul_lt_mul_right ?_ (show 0 ≤ step by omega)
      have shifted : (count - 1) * step = step * count - step := by ring
      omega
    have below : now / step < count + 1 := by
      refine Int.lt_of_mul_lt_mul_right ?_ (show 0 ≤ step by omega)
      have shifted : (count + 1) * step = step * count + step := by ring
      omega
    have either : now / step + 1 = count ∨ now / step = count := by omega
    rcases either with current | previous
    · left
      rw [current, mul_comm count]
      omega
    · right
      rw [expanded, previous, mul_comm count]
      omega

theorem ChallengeRegistration.maxDuration_fits (registration : ChallengeRegistration) :
    1 ≤ registration.maxDuration ∧ registration.maxDuration ≤ maxChallengeDurationSecs := by
  have base := registration.durationFits
  unfold maxDuration
  split
  · next gpu long =>
    have other := registration.gpuDurationFits gpu long
    exact ⟨Nat.le_trans base.1 (Nat.le_max_right _ _), Nat.max_le.mpr ⟨other.2, base.2⟩⟩
  · exact base

theorem ChallengeRegistration.durationFor_fits (registration : ChallengeRegistration)
    (level : Nat) :
    1 ≤ registration.durationFor level ∧
      registration.durationFor level ≤ maxChallengeDurationSecs := by
  unfold durationFor
  split
  · next pow gpu _ long =>
    split
    · exact registration.gpuDurationFits gpu long
    · exact registration.durationFits
  · exact registration.durationFits

/-- The bucket that the clock is in, far from the end of time. -/
theorem bucketExpiry_of_clock (time : UnixTime) {step : Nat} (positive : 1 ≤ step)
    (short : step ≤ maxChallengeDurationSecs) :
    bucketExpiry time.seconds step = (time.seconds / step + 1) * step ∧
      0 ≤ bucketExpiry time.seconds step ∧
      bucketExpiry time.seconds step ≤ time.seconds + step ∧
      time.seconds < bucketExpiry time.seconds step := by
  have early := time.fits
  have stepPositive : (1 : Int) ≤ step := by omega
  have stepShort : (step : Int) ≤ 31536000 := by
    rw [maxChallengeDurationSecs] at short
    omega
  have lower : time.seconds / step * step ≤ time.seconds := Int.ediv_mul_le _ (by omega)
  have upper : time.seconds < (time.seconds / step + 1) * step :=
    Int.lt_ediv_add_one_mul_self _ (by omega)
  have expanded : (time.seconds / step + 1) * step = time.seconds / step * step + step := by ring
  have value : bucketExpiry time.seconds step = (time.seconds / step + 1) * step := by
    rw [bucketExpiry_eq_min time.nonneg stepPositive]
    omega
  have nonneg := time.nonneg
  rw [value]
  exact ⟨rfl, by omega, by omega, upper⟩

/-- Nor does the expiry of a pass saturate. -/
theorem saturateI64_duration {time : UnixTime} {registration : ChallengeRegistration}
    {level : Nat} :
    saturateI64 (time.seconds + registration.durationFor level) =
      time.seconds + registration.durationFor level := by
  have clock := time.fits
  have nonneg := time.nonneg
  have short := (registration.durationFor_fits level).2
  rw [maxChallengeDurationSecs] at short
  rw [saturateI64_of_nonneg (by omega)]
  omega

/-! ### Gates -/

/-- What a gate asks of a pass apart from its key. -/
structure TokenChallenge.Admits {Digest : Type} (pass : TokenChallenge Digest) (level : Nat)
    (stack : Option String) (now : Int) : Prop where
  ok : pass.ok = true
  unexpired : now < pass.exp
  level : level ≤ pass.level
  stack : pass.stack = "" ∨ stackMatches pass.stack stack = true

namespace Server

variable {Digest : Type} [DecidableEq Digest] {server : Server Digest}

theorem isChallengePassed_iff {token : Token Digest} {name : Text} {key : Digest} {level : Nat}
    {stack : Option String} {now : Int} :
    token.isChallengePassed name key level stack now = true ↔
      ∃ pass, token.state name = some pass ∧ pass.Admits level stack now ∧ pass.key = key := by
  rw [Token.isChallengePassed]
  cases held : token.state name with
  | none => simp
  | some pass =>
    simp only [Bool.and_eq_true, Bool.or_eq_true, decide_eq_true_eq, beq_iff_eq, Option.some.injEq,
      exists_eq_left']
    constructor
    · rintro ⟨⟨⟨⟨ok, unexpired⟩, enough⟩, bound⟩, same⟩
      exact ⟨⟨ok, unexpired, enough, bound⟩, same⟩
    · rintro ⟨⟨ok, unexpired, enough, bound⟩, same⟩
      exact ⟨⟨⟨⟨ok, unexpired⟩, enough⟩, bound⟩, same⟩

theorem challengePassed_iff {registration : ChallengeRegistration} {name : Text}
    {ip : Option IpAddr} {level : Nat} {stack : Option String} {now : Int} {token : Token Digest} :
    server.challengePassed registration name ip level stack now (some token) = true ↔
      ∃ pass, token.state name = some pass ∧ pass.Admits level stack now ∧
        (pass.key = server.deriveChallengeKey name ip
            (bucketExpiry now registration.maxDuration) ∨
          pass.key = server.deriveChallengeKey name ip
            (bucketExpiry now registration.maxDuration - registration.maxDuration)) := by
  simp only [challengePassed, Option.any_some, Bool.or_eq_true, isChallengePassed_iff]
  constructor
  · rintro (⟨pass, held, admits, same⟩ | ⟨pass, held, admits, same⟩)
    · exact ⟨pass, held, admits, Or.inl same⟩
    · exact ⟨pass, held, admits, Or.inr same⟩
  · rintro ⟨pass, held, admits, same | same⟩
    · exact Or.inl ⟨pass, held, admits, same⟩
    · exact Or.inr ⟨pass, held, admits, same⟩

omit [DecidableEq Digest] in
/-- The key of a bucket is accepted from its network, during its bucket and the next one. -/
theorem key_accepted_iff (collisionFree : Function.Injective server.sha256) {name : Text}
    {address ip : IpAddr} {now step bucket : Int} (nonneg : 0 ≤ now) (positive : 1 ≤ step)
    (known : 0 ≤ bucket) (early : bucket + 2 * step ≤ 2 ^ 63 - 1) :
    (server.deriveChallengeKey name (some address) bucket =
        server.deriveChallengeKey name (some ip) (bucketExpiry now step) ∨
      server.deriveChallengeKey name (some address) bucket =
        server.deriveChallengeKey name (some ip) (bucketExpiry now step - step)) ↔
      SourceNetwork.fromIp address = SourceNetwork.fromIp ip ∧
        step ∣ bucket ∧ bucket - step ≤ now ∧ now < bucket + step := by
  have range : 0 ≤ bucketExpiry now step ∧ bucketExpiry now step ≤ 2 ^ 63 - 1 := by
    have quotient : 0 ≤ now / step := Int.ediv_nonneg nonneg (by omega)
    have product : 0 ≤ (now / step + 1) * step :=
      Int.mul_nonneg (by omega) (by omega)
    rw [bucketExpiry_eq_min nonneg positive]
    omega
  have accepted {expiry : Int} (close : |expiry - bucket| < 2 ^ 64) :
      server.deriveChallengeKey name (some address) bucket =
        server.deriveChallengeKey name (some ip) expiry ↔
      SourceNetwork.fromIp address = SourceNetwork.fromIp ip ∧ expiry = bucket := by
    constructor
    · intro same
      obtain ⟨networks, bytes⟩ := deriveChallengeKey_inj collisionFree same
      exact ⟨Option.some.inj networks, (Bytes.ofInt_inj bytes close).symm⟩
    · rintro ⟨networks, rfl⟩
      exact deriveChallengeKey_congr expiry networks
  rw [accepted (by rw [abs_lt]; omega), accepted (by rw [abs_lt]; omega), ← and_or_left,
    bucketExpiry_reaches_iff nonneg positive early]

/-- When a pass under the key of a bucket lets a request through. -/
theorem challengePassed_keyed_iff (collisionFree : Function.Injective server.sha256)
    {registration : ChallengeRegistration} {name : Text} {address ip : IpAddr} {level : Nat}
    {stack : Option String} {now bucket : Int} {token : Token Digest} {pass : TokenChallenge Digest}
    (held : token.state name = some pass)
    (keyed : pass.key = server.deriveChallengeKey name (some address) bucket) (nonneg : 0 ≤ now)
    (known : 0 ≤ bucket) (early : bucket + 2 * registration.maxDuration ≤ 2 ^ 63 - 1) :
    server.challengePassed registration name (some ip) level stack now (some token) = true ↔
      pass.Admits level stack now ∧ SourceNetwork.fromIp address = SourceNetwork.fromIp ip ∧
        (registration.maxDuration : Int) ∣ bucket ∧ bucket - registration.maxDuration ≤ now ∧
        now < bucket + registration.maxDuration := by
  have positive : (1 : Int) ≤ registration.maxDuration := by
    have fits := registration.maxDuration_fits.1
    omega
  have accepted := @key_accepted_iff _ _ collisionFree name address ip now _ bucket nonneg positive
    known early
  rw [challengePassed_iff, ← accepted, ← keyed]
  constructor
  · rintro ⟨other, found, admits, same⟩
    obtain rfl := Option.some.inj (held.symm.trans found)
    exact ⟨admits, same⟩
  · rintro ⟨admits, same⟩
    exact ⟨pass, held, admits, same⟩

/-! ### Redeemed passes -/

section Redeemed

variable {registration : ChallengeRegistration} {name : Text} {client : Client}
  {token : Token Digest} {issuedTo : IpAddr} {issuedAt redeemedAt : UnixTime} {level : Nat}
  {result : List UInt8}

/-- The pass of a redemption, as `seal_pass` makes it. -/
def redeemedPass (server : Server Digest) (registration : ChallengeRegistration) (name : Text)
    (client : Client) (issuedTo : IpAddr) (issuedAt redeemedAt : UnixTime) (result : List UInt8)
    (level : Nat) : TokenChallenge Digest :=
  passOf client (server.deriveChallengeKey name (some issuedTo)
    (bucketExpiry issuedAt.seconds registration.maxDuration)) result level
    (registration.durationFor level) redeemedAt.seconds

/-- When a gate of the challenge lets the new pass through, from its redemption on. -/
theorem challengePassed_redeemed_iff (collisionFree : Function.Injective server.sha256)
    (ordered : issuedAt.seconds ≤ redeemedAt.seconds) {required : Nat} {stack : Option String}
    {now : Int} (after : redeemedAt.seconds ≤ now) :
    server.challengePassed registration name (some client.ip) required stack now
        (some (token.withPass name (server.redeemedPass registration name client issuedTo issuedAt
          redeemedAt result level))) = true ↔
      SourceNetwork.fromIp issuedTo = SourceNetwork.fromIp client.ip ∧ required ≤ level ∧
        (client.stack.getD "" = "" ∨ stackMatches (client.stack.getD "") stack = true) ∧
        now < min (redeemedAt.seconds + registration.durationFor level)
          (bucketExpiry issuedAt.seconds registration.maxDuration + registration.maxDuration) := by
  obtain ⟨stepPositive, stepShort⟩ := registration.maxDuration_fits
  obtain ⟨value, known, near, later⟩ := bucketExpiry_of_clock issuedAt stepPositive stepShort
  rw [maxChallengeDurationSecs] at stepShort
  have issuedFits := issuedAt.fits
  have nonneg := issuedAt.nonneg
  have whole : (registration.maxDuration : Int) ∣
      bucketExpiry issuedAt.seconds registration.maxDuration := by
    rw [value]
    exact Int.dvd_mul_left _ _
  rw [challengePassed_keyed_iff collisionFree (Function.update_self _ _ _) rfl (by omega) known
    (by omega)]
  constructor
  · rintro ⟨admits, network, -, -, reached⟩
    have unexpired : now < saturateI64 (redeemedAt.seconds + registration.durationFor level) :=
      admits.unexpired
    rw [saturateI64_duration] at unexpired
    exact ⟨network, admits.level, admits.stack, lt_min unexpired reached⟩
  · rintro ⟨network, enough, accepted, early⟩
    obtain ⟨unexpired, reached⟩ := lt_min_iff.mp early
    refine ⟨⟨rfl, ?_, enough, accepted⟩, network, whole, by omega, reached⟩
    show now < saturateI64 (redeemedAt.seconds + registration.durationFor level)
    rwa [saturateI64_duration]

end Redeemed

/-! ### How long a pass lasts -/

theorem openToken_eq_some_iff {cookie : SealedCookie Digest} {key : Digest} {now : Int}
    {token : Token Digest} :
    server.openToken cookie key now = some token ↔
      token = cookie.token ∧ server.deriveCookieKey cookie.host.value cookie.suffix = key ∧
        now ≤ cookie.token.exp ∧ cookie.token.nbf ≤ now := by
  rw [openToken]
  split
  · next fits =>
    constructor
    · intro same
      exact ⟨(Option.some.inj same).symm, fits⟩
    · rintro ⟨rfl, -⟩
      rfl
  · next fails =>
    constructor
    · intro same
      exact nomatch same
    · rintro ⟨-, fits⟩
      exact absurd fits fails

/-- A token opens as the one that was sealed, and not before its time. -/
theorem fromHeaders_eq_some {carried : Option (SealedCookie Digest)} {host : Text}
    {ip : Option IpAddr} {now : Int} {token : Token Digest}
    (opened : server.fromHeaders carried host ip now = some token) :
    ∃ cookie, carried = some cookie ∧ token = cookie.token ∧ token.nbf ≤ now ∧
      (server.deriveCookieKey cookie.host.value cookie.suffix =
          server.deriveCookieKey host.value ((ip.map ipNetworkPrefix).getD "") ∨
        token.pending = true) := by
  unfold fromHeaders at opened
  obtain ⟨cookie, carries, opened⟩ := Option.bind_eq_some_iff.mp opened
  refine ⟨cookie, carries, ?_⟩
  simp only [Option.orElse_eq_orElse, Option.orElse_eq_or, Option.or_eq_some_iff] at opened
  rcases opened with bound | ⟨-, pending⟩
  · obtain ⟨rfl, same, -, begun⟩ := openToken_eq_some_iff.mp bound
    exact ⟨rfl, begun, Or.inl same⟩
  · obtain ⟨found, waits⟩ := Option.filter_eq_some_iff.mp pending
    obtain ⟨rfl, -, -, begun⟩ := openToken_eq_some_iff.mp found
    exact ⟨rfl, begun, Or.inr waits⟩

omit [DecidableEq Digest] in
/-- A token lives as long as its newest pass. -/
theorem exp_le_exp_withPass (token : Token Digest) (name : Text) (pass : TokenChallenge Digest) :
    pass.exp ≤ (token.withPass name pass).exp := by
  show pass.exp ≤ if token.exp < pass.exp then pass.exp else token.exp
  split
  · exact Int.le_refl _
  · next longer => exact Int.not_lt.mp longer

/-- A sealed pass is carried back by the client it was sealed for until it expires. -/
theorem fromHeaders_sealPass {client : Client} {carried : Option (SealedCookie Digest)}
    {name : Text} {key : Digest} {result : List UInt8} {level duration : Nat} {now later : Int}
    {cookie : SealedCookie Digest}
    (seals : server.sealPass client carried name key result level duration now = some cookie)
    (after : now ≤ later) (unexpired : later ≤ saturateI64 (now + duration)) :
    server.fromHeaders (some cookie) client.host (some client.ip) later = some cookie.token := by
  unfold sealPass at seals
  obtain ⟨token, opened, rfl⟩ := Option.map_eq_some_iff.mp seals
  obtain ⟨-, -, -, begun, -⟩ := fromHeaders_eq_some opened
  have extended := exp_le_exp_withPass token name (passOf client key result level duration now)
  unfold fromHeaders
  simp only [Option.bind_eq_bind, Option.bind_some, Option.orElse_eq_orElse, Option.orElse_eq_or,
    Option.or_eq_some_iff]
  refine Or.inl (openToken_eq_some_iff.mpr ⟨rfl, rfl, ?_, ?_⟩)
  · exact Int.le_trans unexpired extended
  · exact Int.le_trans begun after

theorem stackMatches_iff {bound current : String} :
    stackMatches bound (some current) = true ↔
      ∃ part ∈ bound.toList.splitOn ',', part ∈ current.toList.splitOn ',' := by
  simp [stackMatches]

/-- The stack that a pass was sealed under is accepted. -/
theorem stack_accepted (client : Client) :
    client.stack.getD "" = "" ∨ stackMatches (client.stack.getD "") client.stack = true := by
  cases client.stack with
  | none => exact Or.inl rfl
  | some stack =>
    right
    obtain ⟨part, member⟩ := List.exists_mem_of_ne_nil _ (List.splitOn_ne_nil ',' stack.toList)
    exact stackMatches_iff.mpr ⟨part, member, member⟩

/-- Until the expiry of a pass the client is let through at every level up to that of the pass. -/
def LastsUntilExpiry (server : Server Digest) (registration : ChallengeRegistration) (name : Text)
    (client : Client) (cookie : SealedCookie Digest) (verifiedAt : Int) (level : Nat) : Prop :=
  ∀ later, verifiedAt ≤ later → later < verifiedAt + registration.durationFor level →
    ∀ required ≤ level,
      server.challengePassed registration name (some client.ip) required client.stack later
        (server.fromHeaders (some cookie) client.host (some client.ip) later) = true

/-- A pass lasts until its own expiry exactly when that comes no later than two buckets after
the beginning of the one in which its challenge was issued. -/
theorem pass_lasts_until_expiry_iff (server : Server Digest)
    (collisionFree : Function.Injective server.sha256) (registration : ChallengeRegistration)
    (name : Text) (client : Client) (carried : Option (SealedCookie Digest))
    (issuedAt verifiedAt : UnixTime) (ordered : issuedAt.seconds ≤ verifiedAt.seconds)
    (result : List UInt8) (level : Nat) (cookie : SealedCookie Digest)
    (seals : server.sealPass client carried name
      (server.deriveChallengeKey name (some client.ip)
        (bucketExpiry issuedAt.seconds registration.maxDuration))
      result level (registration.durationFor level) verifiedAt.seconds = some cookie) :
    server.LastsUntilExpiry registration name client cookie verifiedAt.seconds level ↔
      verifiedAt.seconds + registration.durationFor level ≤
        (issuedAt.seconds / registration.maxDuration + 2) * registration.maxDuration := by
  obtain ⟨stepPositive, stepShort⟩ := registration.maxDuration_fits
  obtain ⟨durationPositive, -⟩ := registration.durationFor_fits level
  obtain ⟨value, -, -, -⟩ := bucketExpiry_of_clock issuedAt stepPositive stepShort
  have bucketEnds : (issuedAt.seconds / registration.maxDuration + 2) * registration.maxDuration =
      bucketExpiry issuedAt.seconds registration.maxDuration + registration.maxDuration := by
    rw [value]
    ring
  -- What the gate says at a later time is whether the bucket is still reached.
  have gate (later : Int) (after : verifiedAt.seconds ≤ later)
      (before : later < verifiedAt.seconds + registration.durationFor level) (required : Nat)
      (enough : required ≤ level) :
      server.challengePassed registration name (some client.ip) required client.stack later
        (server.fromHeaders (some cookie) client.host (some client.ip) later) = true ↔
        later < bucketExpiry issuedAt.seconds registration.maxDuration +
          registration.maxDuration := by
    have unexpired : later ≤ saturateI64 (verifiedAt.seconds + registration.durationFor level) := by
      rw [saturateI64_duration]
      exact Int.le_of_lt before
    rw [fromHeaders_sealPass seals after unexpired]
    obtain ⟨token, -, same⟩ := Option.map_eq_some_iff.mp seals
    rw [← same]
    refine (challengePassed_redeemed_iff collisionFree ordered after).trans ?_
    constructor
    · exact fun passes => (lt_min_iff.mp passes.2.2.2).2
    · exact fun reached => ⟨rfl, enough, stack_accepted client, lt_min before reached⟩
  rw [bucketEnds]
  constructor
  · intro lasts
    by_contra late
    have after : verifiedAt.seconds ≤ max verifiedAt.seconds
        (bucketExpiry issuedAt.seconds registration.maxDuration + registration.maxDuration) :=
      le_max_left _ _
    have reached := (gate _ after (by omega) 0 (Nat.zero_le _)).mp
      (lasts _ after (by omega) 0 (Nat.zero_le _))
    omega
  · intro early later after before required enough
    exact (gate later after before required enough).mpr (by omega)

/-! ### Solving another challenge -/

/-- Every request that a pass bound to the one stack lets through is let through by a pass bound
to the other. -/
def StackCovers (old new : String) : Prop :=
  new = "" ∨ old ≠ "" ∧ ∀ part ∈ old.toList.splitOn ',', part ∈ new.toList.splitOn ','

/-- Some stack is accepted by every pass. -/
theorem exists_stack_accepted (bound : String) :
    ∃ stack, bound = "" ∨ stackMatches bound stack = true := by
  obtain ⟨part, member⟩ := List.exists_mem_of_ne_nil _ (List.splitOn_ne_nil ',' bound.toList)
  exact ⟨some bound, Or.inr (stackMatches_iff.mpr ⟨part, member, member⟩)⟩

theorem stackCovers_iff {old new : String} :
    StackCovers old new ↔ ∀ stack, old = "" ∨ stackMatches old stack = true →
      new = "" ∨ stackMatches new stack = true := by
  constructor
  · rintro (unbound | ⟨bound, covered⟩) stack accepted
    · exact Or.inl unbound
    · have matched := accepted.resolve_left bound
      cases stack with
      | none => exact nomatch matched
      | some current =>
        obtain ⟨part, member, shown⟩ := stackMatches_iff.mp matched
        exact Or.inr (stackMatches_iff.mpr ⟨part, covered part member, shown⟩)
  · intro covers
    by_cases unbound : new = ""
    · exact Or.inl unbound
    · refine Or.inr ⟨fun empty => ?_, fun part member => ?_⟩
      · exact nomatch (covers none (Or.inl empty)).resolve_left unbound
      · -- A request that shows this part alone.
        have alone : (String.ofList part).toList.splitOn ',' = [part] := by
          rw [String.toList_ofList]
          exact List.splitOn_eq_singleton (Lines.notMem_of_mem_splitOn member)
        have matched := (covers (some (String.ofList part)) (Or.inr (stackMatches_iff.mpr
          ⟨part, member, by rw [alone]; exact List.mem_singleton_self _⟩))).resolve_left unbound
        obtain ⟨other, found, shown⟩ := stackMatches_iff.mp matched
        rw [alone, List.mem_singleton] at shown
        exact shown ▸ found

/-- Every gate that the old token passes is passed by the new one at the same time. -/
def KeepsAccess (server : Server Digest) (registry : Text → Option ChallengeRegistration)
    (ip : IpAddr) (since : Int) (old new : Token Digest) : Prop :=
  ∀ name registration, registry name = some registration → ∀ level stack now, since ≤ now →
    server.challengePassed registration name (some ip) level stack now (some old) = true →
    server.challengePassed registration name (some ip) level stack now (some new) = true

/-- The passes of a challenge in a token have keys that the server derived at some time. -/
def Keyed (server : Server Digest) (name : Text) (token : Token Digest) : Prop :=
  ∀ pass, token.state name = some pass → ∃ (address : IpAddr) (time : UnixTime) (step : Nat),
    1 ≤ step ∧ step ≤ maxChallengeDurationSecs ∧
    pass.key = server.deriveChallengeKey name (some address) (bucketExpiry time.seconds step)

/-- If the old pass would still be accepted at some time, the new one is for the network of the
client, at least of the same level, bound to no other stack, and lasts at least as long. -/
def Improves (server : Server Digest) (registration : ChallengeRegistration) (name : Text)
    (client : Client) (token : Token Digest) (issuedTo : IpAddr) (issuedAt redeemedAt : Int)
    (level : Nat) : Prop :=
  ∀ old bucket, token.state name = some old → old.ok = true → 0 ≤ bucket → bucket ≤ 2 ^ 62 →
    old.key = server.deriveChallengeKey name (some client.ip) bucket →
    (registration.maxDuration : Int) ∣ bucket →
    max redeemedAt (bucket - registration.maxDuration) <
      min old.exp (bucket + registration.maxDuration) →
    SourceNetwork.fromIp issuedTo = SourceNetwork.fromIp client.ip ∧ old.level ≤ level ∧
      StackCovers old.stack (client.stack.getD "") ∧
      min old.exp (bucket + registration.maxDuration) ≤
        min (redeemedAt + registration.durationFor level)
          (bucketExpiry issuedAt registration.maxDuration + registration.maxDuration)

section Redeemed

variable {registration : ChallengeRegistration} {name : Text} {client : Client}
  {token : Token Digest} {issuedTo : IpAddr} {issuedAt redeemedAt : UnixTime} {level : Nat}
  {result : List UInt8}

/-- The last second that counts: what the old pass still opens then, the new one has to open. -/
theorem Improves.of_keepsAccess {registry : Text → Option ChallengeRegistration}
    (collisionFree : Function.Injective server.sha256)
    (registered : registry name = some registration)
    (ordered : issuedAt.seconds ≤ redeemedAt.seconds)
    (keeps : server.KeepsAccess registry client.ip redeemedAt.seconds token
      (token.withPass name (server.redeemedPass registration name client issuedTo issuedAt
        redeemedAt result level))) :
    server.Improves registration name client token issuedTo issuedAt.seconds redeemedAt.seconds
      level := by
  intro old bucket held ok known early keyed whole usable
  have stepShort := registration.maxDuration_fits.2
  rw [maxChallengeDurationSecs] at stepShort
  have nonneg := redeemedAt.nonneg
  have last : ∃ now, now + 1 = min old.exp (bucket + registration.maxDuration) :=
    ⟨min old.exp (bucket + registration.maxDuration) - 1, by omega⟩
  obtain ⟨now, lastIs⟩ := last
  have opens (stack : Option String)
      (accepted : old.stack = "" ∨ stackMatches old.stack stack = true) :
      SourceNetwork.fromIp issuedTo = SourceNetwork.fromIp client.ip ∧ old.level ≤ level ∧
        (client.stack.getD "" = "" ∨ stackMatches (client.stack.getD "") stack = true) ∧
        now < min (redeemedAt.seconds + registration.durationFor level)
          (bucketExpiry issuedAt.seconds registration.maxDuration + registration.maxDuration) := by
    have after : redeemedAt.seconds ≤ now := by omega
    have before := keeps name registration registered old.level stack now after
      ((challengePassed_keyed_iff collisionFree held keyed (by omega) known (by omega)).mpr
        ⟨⟨ok, by omega, Nat.le_refl _, accepted⟩, rfl, whole, by omega, by omega⟩)
    exact (challengePassed_redeemed_iff collisionFree ordered after).mp before
  obtain ⟨stack, accepted⟩ := exists_stack_accepted old.stack
  obtain ⟨network, enough, -, reached⟩ := opens stack accepted
  refine ⟨network, enough, stackCovers_iff.mpr fun stack accepted => ?_, ?_⟩
  · exact (opens stack accepted).2.2.1
  · rw [← lastIs]
    exact Int.add_one_le_of_lt reached

/-- A new pass that improves on the old one keeps every gate open. -/
theorem Improves.keepsAccess {registry : Text → Option ChallengeRegistration}
    (collisionFree : Function.Injective server.sha256)
    (registered : registry name = some registration)
    (ordered : issuedAt.seconds ≤ redeemedAt.seconds) (keyed : server.Keyed name token)
    (improves : server.Improves registration name client token issuedTo issuedAt.seconds
      redeemedAt.seconds level) :
    server.KeepsAccess registry client.ip redeemedAt.seconds token
      (token.withPass name (server.redeemedPass registration name client issuedTo issuedAt
        redeemedAt result level)) := by
  intro gate other listed required stack now after passed
  by_cases same : gate = name
  · subst same
    obtain rfl := Option.some.inj (registered.symm.trans listed)
    obtain ⟨old, held, -, -⟩ := challengePassed_iff.mp passed
    obtain ⟨address, time, step, stepPositive, stepShort, keyIs⟩ := keyed old held
    obtain ⟨-, known, near, -⟩ := bucketExpiry_of_clock time stepPositive stepShort
    have clock := time.fits
    have nonneg := redeemedAt.nonneg
    have long := registration.maxDuration_fits.2
    rw [maxChallengeDurationSecs] at stepShort long
    obtain ⟨admits, network, whole, begun, reached⟩ :=
      (challengePassed_keyed_iff collisionFree held keyIs (by omega) known (by omega)).mp passed
    have local' := keyIs.trans (deriveChallengeKey_congr _ network)
    have unexpired := admits.unexpired
    obtain ⟨here, enough, covers, longer⟩ := improves old _ held admits.ok known (by omega) local'
      whole (by omega)
    refine (challengePassed_redeemed_iff collisionFree ordered after).mpr
      ⟨here, Nat.le_trans admits.level enough, ?_, by omega⟩
    exact stackCovers_iff.mp covers stack admits.stack
  · -- The passes of other challenges are left alone.
    obtain ⟨pass, held, admits, key⟩ := challengePassed_iff.mp passed
    refine challengePassed_iff.mpr ⟨pass, ?_, admits, key⟩
    exact (Function.update_of_ne same _ _).trans held

end Redeemed

/-- Solving a challenge takes no access away exactly when the new pass improves on the earlier
one of the challenge, as far as that would still be accepted. -/
theorem solving_keeps_access_iff (server : Server Digest)
    (collisionFree : Function.Injective server.sha256)
    (registry : Text → Option ChallengeRegistration) (registration : ChallengeRegistration)
    (name : Text) (registered : registry name = some registration) (client : Client)
    (carried : Option (SealedCookie Digest)) (token : Token Digest)
    (keyed : server.Keyed name token) (issuedTo : IpAddr) (issuedAt redeemedAt : UnixTime)
    (ordered : issuedAt.seconds ≤ redeemedAt.seconds) (result : List UInt8) (level : Nat)
    (opened : server.fromHeaders carried client.host (some client.ip) redeemedAt.seconds =
      some token)
    (cookie : SealedCookie Digest)
    (seals : server.sealPass client carried name
      (server.deriveChallengeKey name (some issuedTo)
        (bucketExpiry issuedAt.seconds registration.maxDuration))
      result level (registration.durationFor level) redeemedAt.seconds = some cookie) :
    server.KeepsAccess registry client.ip redeemedAt.seconds token cookie.token ↔
      server.Improves registration name client token issuedTo issuedAt.seconds redeemedAt.seconds
        level := by
  rw [sealPass, opened, Option.map_some] at seals
  rw [← Option.some.inj seals]
  constructor
  · exact Improves.of_keepsAccess collisionFree registered ordered
  · exact Improves.keepsAccess collisionFree registered ordered keyed

/-! ### A sample challenge -/

/-- A server whose digest of some bytes is these bytes. -/
def sampleServer : Server (List UInt8) where
  sha256 bytes := bytes
  keyFingerprint := List.replicate 32 7
  pkcs8Seed := List.replicate 32 9
  verify _ _ _ _ := true

/-- An hour for a proof of work at level ten. -/
theorem ten_fits : 1 ≤ 10 ∧ 10 ≤ 32 := by decide

theorem no_gpu_difficulty_fits : ∀ gpu ∈ (none : Option Nat), 10 < gpu ∧ gpu ≤ 32 :=
  fun _ absent => absurd absent (Option.not_mem_none _)

def hourly : ChallengeRegistration where
  duration := 3600
  gpuDuration := none
  runtime := .pow ⟨.scratch, 10, 13, none, ten_fits, no_gpu_difficulty_fits⟩
  durationFits := hour_fits
  gpuDurationFits := no_gpu_fits

theorem proof_fits : "proof".utf8ByteSize < 2 ^ 64 := by decide

def proof : Text := ⟨"proof", proof_fits⟩

theorem web_fits : "web".utf8ByteSize < 2 ^ 64 := by decide

def sampleClient : Client := ⟨⟨"web", web_fits⟩, .v4 0xC0000203#32, none⟩

/-- The cookie of a session without passes. -/
def sampleSession : SealedCookie (List UInt8) :=
  ⟨⟨"web", by decide⟩, "pending", ⟨Vector.replicate 32 1, fun _ => none, true, 100000, 0, 0⟩⟩

/-- The cookie after a redemption at a level. -/
def sampleSeal (carried : SealedCookie (List UInt8)) (issuedAt redeemedAt : Int) (level : Nat) :
    Option (SealedCookie (List UInt8)) :=
  sampleServer.sealPass sampleClient (some carried) proof
    (sampleServer.deriveChallengeKey proof (some sampleClient.ip) (bucketExpiry issuedAt 3600)) []
    level 3600 redeemedAt

/-- Issued at the beginning of an hour, a pass lasts as long as it says. -/
theorem pass_lasts_until_expiry_early :
    ∃ cookie, sampleSeal sampleSession 3600 3650 10 = some cookie ∧
      sampleServer.LastsUntilExpiry hourly proof sampleClient cookie 3650 10 := by
  refine ⟨_, rfl, ?_⟩
  refine (pass_lasts_until_expiry_iff sampleServer Function.injective_id hourly proof sampleClient
    (some sampleSession) ⟨3600, by decide, by decide⟩ ⟨3650, by decide, by decide⟩ (by decide) [] 10
    _ rfl).mpr ?_
  decide

/-- Issued in the last second of an hour and verified within the lifetime of a pending challenge,
a pass is refused when two more hours have begun, fifty seconds before its own expiry. -/
theorem pass_refused_before_expiry :
    ∃ cookie, sampleSeal sampleSession 3599 3700 10 = some cookie ∧
      3700 < 3599 + min hourly.duration 300 ∧
      ¬ sampleServer.LastsUntilExpiry hourly proof sampleClient cookie 3700 10 := by
  refine ⟨_, rfl, by decide, fun lasts => ?_⟩
  have passed := lasts 7250 (by decide) (by decide) 10 (Nat.le_refl _)
  revert passed
  decide

/-- The cookie with a first pass of a level. -/
def sampleFirst (level : Nat) : SealedCookie (List UInt8) :=
  ⟨sampleClient.host, ipNetworkPrefix sampleClient.ip, sampleSession.token.withPass proof
    (passOf sampleClient (sampleServer.deriveChallengeKey proof (some sampleClient.ip) 7200) []
      level 3600 3650)⟩

/-- Solving the challenge again at a higher level keeps what the first pass opened. -/
theorem solving_keeps_access_higher :
    ∃ second, sampleSeal sampleSession 3600 3650 10 = some (sampleFirst 10) ∧
      sampleSeal (sampleFirst 10) 3700 3720 12 = some second ∧
      sampleServer.KeepsAccess (fun _ => some hourly) sampleClient.ip 3720 (sampleFirst 10).token
        second.token := by
  refine ⟨_, rfl, rfl, ?_⟩
  refine (solving_keeps_access_iff sampleServer Function.injective_id (fun _ => some hourly) hourly
    proof rfl sampleClient (some (sampleFirst 10)) _ ?_ sampleClient.ip
    ⟨3700, by decide, by decide⟩ ⟨3720, by decide, by decide⟩ (by decide) [] 12 rfl _ rfl).mpr ?_
  · intro pass held
    obtain rfl := Option.some.inj held
    exact ⟨sampleClient.ip, ⟨3600, by decide, by decide⟩, 3600, by decide, by decide, rfl⟩
  · intro old bucket held ok known early keyed whole usable
    obtain rfl := Option.some.inj held
    have bytes := (@deriveChallengeKey_inj _ sampleServer Function.injective_id _ _ _ _ _ keyed).2
    obtain rfl : (7200 : Int) = bucket := Bytes.ofInt_inj bytes (by rw [abs_lt]; omega)
    exact ⟨rfl, by decide, Or.inl rfl, by decide⟩

/-- Solving the challenge again at a lower level closes the gates of the higher one. -/
theorem solving_closes_a_gate :
    ∃ second, sampleSeal sampleSession 3600 3650 12 = some (sampleFirst 12) ∧
      sampleSeal (sampleFirst 12) 3640 3720 10 = some second ∧
      ¬ sampleServer.KeepsAccess (fun _ => some hourly) sampleClient.ip 3720 (sampleFirst 12).token
        second.token := by
  refine ⟨_, rfl, rfl, fun keeps => ?_⟩
  have passed := keeps proof hourly rfl 12 none 3720 (by decide) (by decide)
  revert passed
  decide

end Server

end Bagel
