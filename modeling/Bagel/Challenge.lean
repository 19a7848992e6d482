/-
This file models what a client proves by solving a challenge and carries along: the keys
of `challenge/key.rs` and `challenge/token.rs`, the registrations and passes of
`challenge/mod.rs`, and `seal_pass` of `routes.rs`.

Sealing is ideal: a cookie is the token that the server sealed, together with the host and
the network the key was derived for, and it opens under that key only. The digest and the
check of a proof of work are given from outside. All times are seconds of the Unix clock.
-/

import Bagel.Network
import Bagel.Library.Bytes
import Bagel.Library.Decimal
import Bagel.Library.Lines

namespace Bagel

/-- A text that fits into memory. -/
structure Text where
  value : String
  fits : value.utf8ByteSize < 2 ^ 64
  deriving DecidableEq

/-! ### Networks -/

/-- The network part of a client address: /24 of IPv4 and /64 of IPv6. -/
inductive SourceNetwork where
  | v4 (bits : BitVec 24)
  | v6 (bits : BitVec 64)
  deriving DecidableEq

namespace SourceNetwork

def fromIp : IpAddr → SourceNetwork
  | .v4 address => v4 (address.extractLsb' 8 24)
  | .v6 address => v6 (address.extractLsb' 64 64)

def octet (bits : BitVec 24) (start : Nat) : String :=
  toString (bits.extractLsb' start 8).toNat

def segment (bits : BitVec 64) (start : Nat) : String :=
  String.ofList (Nat.toDigits 16 (bits.extractLsb' start 16).toNat)

/-- The `Display` of a network. -/
def text : SourceNetwork → String
  | v4 bits => octet bits 16 ++ "." ++ octet bits 8 ++ "." ++ octet bits 0 ++ ".0/24"
  | v6 bits =>
    segment bits 48 ++ ":" ++ segment bits 32 ++ ":" ++ segment bits 16 ++ ":" ++
      segment bits 0 ++ "::/64"

theorem dot_notMem_octet (bits : BitVec 24) (start : Nat) : '.' ∉ (octet bits start).toList := by
  intro member
  exact absurd (Decimal.isDigit_of_mem member) (by decide)

theorem colon_notMem_segment (bits : BitVec 64) (start : Nat) :
    ':' ∉ (segment bits start).toList := by
  intro member
  rw [segment, String.toList_ofList] at member
  obtain ⟨digit, small, same⟩ := Decimal.exists_of_mem_toDigits (by decide) member
  have never : ∀ digit : Fin 16, ':' ≠ digit.val.digitChar := by decide
  exact never ⟨digit, small⟩ same

theorem octet_inj {first second : BitVec 24} {start : Nat}
    (same : (octet first start).toList = (octet second start).toList) :
    (first.extractLsb' start 8).toNat = (second.extractLsb' start 8).toNat :=
  Decimal.toString_inj (String.toList_inj.mp same)

theorem segment_inj {first second : BitVec 64} {start : Nat}
    (same : (segment first start).toList = (segment second start).toList) :
    (first.extractLsb' start 16).toNat = (second.extractLsb' start 16).toNat := by
  rw [segment, segment, String.toList_ofList, String.toList_ofList] at same
  exact Decimal.toDigits_inj (by decide) (by decide) same

theorem v4_text_inj {first second : BitVec 24} (same : (v4 first).text = (v4 second).text) :
    first = second := by
  have characters := congrArg String.toList same
  simp only [text, String.toList_append, List.append_assoc] at characters
  obtain ⟨high, rest⟩ := Lines.append_mark_inj (dot_notMem_octet first 16)
    (dot_notMem_octet second 16) characters
  obtain ⟨middle, rest⟩ := Lines.append_mark_inj (dot_notMem_octet first 8)
    (dot_notMem_octet second 8) rest
  obtain ⟨low, -⟩ := Lines.append_mark_inj (dot_notMem_octet first 0)
    (dot_notMem_octet second 0) rest
  have highs := octet_inj high
  have middles := octet_inj middle
  have lows := octet_inj low
  simp only [BitVec.extractLsb'_toNat, Nat.shiftRight_eq_div_pow] at highs middles lows
  apply BitVec.eq_of_toNat_eq
  omega

theorem v6_text_inj {first second : BitVec 64} (same : (v6 first).text = (v6 second).text) :
    first = second := by
  have characters := congrArg String.toList same
  simp only [text, String.toList_append, List.append_assoc] at characters
  obtain ⟨one, rest⟩ := Lines.append_mark_inj (colon_notMem_segment first 48)
    (colon_notMem_segment second 48) characters
  obtain ⟨two, rest⟩ := Lines.append_mark_inj (colon_notMem_segment first 32)
    (colon_notMem_segment second 32) rest
  obtain ⟨three, rest⟩ := Lines.append_mark_inj (colon_notMem_segment first 16)
    (colon_notMem_segment second 16) rest
  obtain ⟨four, -⟩ := Lines.append_mark_inj (colon_notMem_segment first 0)
    (colon_notMem_segment second 0) rest
  have ones := segment_inj one
  have twos := segment_inj two
  have threes := segment_inj three
  have fours := segment_inj four
  simp only [BitVec.extractLsb'_toNat, Nat.shiftRight_eq_div_pow] at ones twos threes fours
  apply BitVec.eq_of_toNat_eq
  omega

/-- The text of a network tells it from every other one. -/
theorem text_injective : Function.Injective text := by
  intro first second same
  have different {one : BitVec 24} {other : BitVec 64} (same : (v4 one).text = (v6 other).text) :
      False := by
    -- They end in different lengths.
    have characters := congrArg String.toList same
    simp only [text, String.toList_append] at characters
    have ends := congrArg (fun text => text.reverse.take 2) characters
    simp at ends
  cases first with
  | v4 bits =>
    cases second with
    | v4 bits' => rw [v4_text_inj same]
    | v6 bits' => exact (different same).elim
  | v6 bits =>
    cases second with
    | v4 bits' => exact (different same.symm).elim
    | v6 bits' => rw [v6_text_inj same]

theorem text_ne_empty (network : SourceNetwork) : network.text ≠ "" := by
  intro empty
  have characters := congrArg String.toList empty
  cases network <;> simp [text] at characters

end SourceNetwork

/-- `ip_network_prefix` -/
def ipNetworkPrefix (ip : IpAddr) : String :=
  (SourceNetwork.fromIp ip).text

/-! ### Registrations -/

inductive PowKind where
  | sha256
  | scratch
  deriving DecidableEq

/-- A proof of work that `ChallengeRegistry::build` accepts. -/
structure PowChallenge where
  kind : PowKind
  difficulty : Nat
  blocksLog2 : Nat
  gpuDifficulty : Option Nat
  inRange : 1 ≤ difficulty ∧ difficulty ≤ 32
  gpuInRange : ∀ gpu ∈ gpuDifficulty, difficulty < gpu ∧ gpu ≤ 32

namespace PowChallenge

/-- `difficulty_range`, the same for both kinds. -/
def DifficultyRange (level : Nat) : Prop := 1 ≤ level ∧ level ≤ 32

instance (level : Nat) : Decidable (DifficultyRange level) := inferInstanceAs (Decidable (_ ∧ _))

def gpuLevel (pow : PowChallenge) (level : Nat) : Option Nat :=
  pow.gpuDifficulty.filter fun gpu => level < gpu

def reachedGpu (pow : PowChallenge) (level : Nat) : Bool :=
  pow.gpuDifficulty.any fun gpu => gpu ≤ level

end PowChallenge

inductive ChallengeRuntime where
  | cookie
  | refresh
  | dnsbl
  | pow (pow : PowChallenge)

inductive Redemption where
  | redirect
  | solution
  | none
  deriving DecidableEq

def ChallengeRuntime.redemption : ChallengeRuntime → Redemption
  | cookie => .redirect
  | refresh => .redirect
  | dnsbl => .none
  | pow _ => .solution

def maxChallengeDurationSecs : Nat := 365 * 24 * 60 * 60

/-- A registered challenge. -/
structure ChallengeRegistration where
  duration : Nat
  /-- How long a pass at the GPU level lasts, if not as long as any other. -/
  gpuDuration : Option Nat
  runtime : ChallengeRuntime
  durationFits : 1 ≤ duration ∧ duration ≤ maxChallengeDurationSecs
  gpuDurationFits : ∀ gpu ∈ gpuDuration, 1 ≤ gpu ∧ gpu ≤ maxChallengeDurationSecs

theorem hour_fits : 1 ≤ 3600 ∧ 3600 ≤ maxChallengeDurationSecs := by decide

theorem no_gpu_fits : ∀ gpu ∈ (none : Option Nat), 1 ≤ gpu ∧ gpu ≤ maxChallengeDurationSecs :=
  fun _ absent => absurd absent (Option.not_mem_none _)

namespace ChallengeRegistration

variable (registration : ChallengeRegistration)

/-- How long a pass sealed at a level stays valid. -/
def durationFor (level : Nat) : Nat :=
  match registration.runtime, registration.gpuDuration with
  | .pow pow, some gpu => if pow.reachedGpu level then gpu else registration.duration
  | _, _ => registration.duration

/-- The longest life of a pass, which is the step of its key buckets. -/
def maxDuration : Nat :=
  match registration.gpuDuration with
  | some gpu => max gpu registration.duration
  | none => registration.duration

end ChallengeRegistration

/-! ### Keys -/

/-- The nearest value of an `i64`. -/
def saturateI64 (value : Int) : Int :=
  max (-2 ^ 63) (min value (2 ^ 63 - 1))

/-- The end of the time bucket of `now`. -/
def bucketExpiry (now durationSecs : Int) : Int :=
  let step := max durationSecs 1
  saturateI64 (saturateI64 (now / step + 1) * step)

/-- The keys of the server, and what it takes from elsewhere. -/
structure Server (Digest : Type) where
  /-- The SHA-256 digest. -/
  sha256 : List UInt8 → Digest
  keyFingerprint : List UInt8
  pkcs8Seed : List UInt8
  /-- `PowChallenge::verify` of a key, a nonce and a difficulty. -/
  verify : PowChallenge → Digest → Nat → Nat → Bool

namespace Server

variable {Digest : Type} (server : Server Digest)

def deriveChallengeKey (challengeName : Text) (clientIp : Option IpAddr) (expiry : Int) : Digest :=
  server.sha256 (Bytes.ofText "challenge\x00" ++ Bytes.ofText challengeName.value ++
    Bytes.ofText ((clientIp.map ipNetworkPrefix).getD "") ++ Bytes.ofInt 8 expiry ++
    server.keyFingerprint)

def deriveCookieKey (host networkPrefix : String) : Digest :=
  server.sha256 (Bytes.ofText host ++ Bytes.ofText networkPrefix ++ server.pkcs8Seed ++
    Bytes.ofText "1.0/DEFLATE")

/-- The key for a token that holds no pass yet. -/
def derivePendingKey (host : String) : Digest :=
  server.deriveCookieKey host "pending"

variable {server}

/-- The keys of one challenge differ for different networks and for different buckets. -/
theorem deriveChallengeKey_inj (collisionFree : Function.Injective server.sha256) {name : Text}
    {ip ip' : Option IpAddr} {expiry expiry' : Int}
    (same : server.deriveChallengeKey name ip expiry = server.deriveChallengeKey name ip' expiry') :
    ip.map SourceNetwork.fromIp = ip'.map SourceNetwork.fromIp ∧
      Bytes.ofInt 8 expiry = Bytes.ofInt 8 expiry' := by
  have bytes := List.append_cancel_right (collisionFree same)
  obtain ⟨front, ends⟩ :=
    List.append_inj' bytes (by rw [Bytes.length_ofInt, Bytes.length_ofInt])
  refine ⟨?_, ends⟩
  have texts := Bytes.ofText_inj (List.append_cancel_left front)
  cases ip with
  | none =>
    cases ip' with
    | none => rfl
    | some address => exact absurd texts.symm (SourceNetwork.text_ne_empty _)
  | some address =>
    cases ip' with
    | none => exact absurd texts (SourceNetwork.text_ne_empty _)
    | some address' => exact congrArg some (SourceNetwork.text_injective texts)

/-- A key does not depend on the address within its network. -/
theorem deriveChallengeKey_congr {name : Text} {address address' : IpAddr} (expiry : Int)
    (same : SourceNetwork.fromIp address = SourceNetwork.fromIp address') :
    server.deriveChallengeKey name (some address) expiry =
      server.deriveChallengeKey name (some address') expiry := by
  unfold deriveChallengeKey ipNetworkPrefix
  simp only [Option.map_some, Option.getD_some, same]

/-- A cookie key tells the host and what was appended to it only as one text. -/
theorem deriveCookieKey_inj (collisionFree : Function.Injective server.sha256)
    {host host' suffix suffix' : String}
    (same : server.deriveCookieKey host suffix = server.deriveCookieKey host' suffix') :
    host ++ suffix = host' ++ suffix' := by
  have bytes := List.append_cancel_right (List.append_cancel_right (collisionFree same))
  rw [← Bytes.ofText_append, ← Bytes.ofText_append] at bytes
  exact Bytes.ofText_inj bytes

end Server

/-! ### Tokens -/

/-- The pass of one challenge. -/
structure TokenChallenge (Digest : Type) where
  key : Digest
  result : List UInt8
  level : Nat
  stack : String
  ok : Bool
  exp : Int
  nbf : Int
  iat : Int

/-- What the cookie of a client holds. -/
structure Token (Digest : Type) where
  session : Vector UInt8 32
  state : Text → Option (TokenChallenge Digest)
  pending : Bool
  exp : Int
  nbf : Int
  iat : Int

/-- A token as the server sealed it, for a host and the text that was appended to it. -/
structure SealedCookie (Digest : Type) where
  host : Text
  suffix : String
  token : Token Digest

/-- `TlsFingerprint::stack_matches` -/
def stackMatches (bound : String) : Option String → Bool
  | none => false
  | some current =>
    (bound.toList.splitOn ',').any fun solved => (current.toList.splitOn ',').any (· == solved)

namespace Token

variable {Digest : Type} [DecidableEq Digest]

/-- `is_challenge_passed` with a carried token. -/
def isChallengePassed (token : Token Digest) (challengeName : Text) (expectedKey : Digest)
    (level : Nat) (stack : Option String) (now : Int) : Bool :=
  match token.state challengeName with
  | some pass =>
    pass.ok && decide (now < pass.exp) && decide (level ≤ pass.level) &&
      (pass.stack == "" || stackMatches pass.stack stack) && decide (pass.key = expectedKey)
  | none => false

end Token

namespace Server

variable {Digest : Type} [DecidableEq Digest] (server : Server Digest)

/-- `open_token` -/
def openToken (cookie : SealedCookie Digest) (key : Digest) (now : Int) : Option (Token Digest) :=
  if server.deriveCookieKey cookie.host.value cookie.suffix = key ∧ now ≤ cookie.token.exp ∧
    cookie.token.nbf ≤ now
  then some cookie.token
  else none

/-- `from_headers`: the token of the carried cookie, if it opens for the host and the network or,
while it is pending, for the host alone. -/
def fromHeaders (carried : Option (SealedCookie Digest)) (host : Text) (clientIp : Option IpAddr)
    (now : Int) : Option (Token Digest) := do
  let cookie ← carried
  let cookieKey := server.deriveCookieKey host.value ((clientIp.map ipNetworkPrefix).getD "")
  server.openToken cookie cookieKey now <|>
    (server.openToken cookie (server.derivePendingKey host.value) now).filter Token.pending

/-- The check of one challenge in `evaluate_challenge_action`: a pass counts under the key of
the current bucket and of the one before. -/
def challengePassed (registration : ChallengeRegistration) (challengeName : Text)
    (clientIp : Option IpAddr) (level : Nat) (stack : Option String) (now : Int)
    (token : Option (Token Digest)) : Bool :=
  let step : Int := registration.maxDuration
  let expiry := bucketExpiry now step
  token.any fun token =>
    token.isChallengePassed challengeName
        (server.deriveChallengeKey challengeName clientIp expiry) level stack now ||
      token.isChallengePassed challengeName
        (server.deriveChallengeKey challengeName clientIp (expiry - step)) level stack now

end Server

/-- Who asks: the canonical host, the address and the TLS stack of a request. -/
structure Client where
  host : Text
  ip : IpAddr
  stack : Option String

/-- The pass that a solved challenge is worth. -/
def passOf {Digest : Type} (client : Client) (challengeKey : Digest) (result : List UInt8)
    (level duration : Nat) (now : Int) : TokenChallenge Digest :=
  ⟨challengeKey, result, level, client.stack.getD "", true, saturateI64 (now + duration), now, now⟩

/-- The token with one more pass, which replaces an earlier one of the same challenge. -/
def Token.withPass {Digest : Type} (token : Token Digest) (challengeName : Text)
    (pass : TokenChallenge Digest) : Token Digest :=
  { token with
    pending := false
    state := Function.update token.state challengeName (some pass)
    exp := if token.exp < pass.exp then pass.exp else token.exp }

/-- `seal_pass`: add a pass to the carried token and seal it for the host and the network. -/
def Server.sealPass {Digest : Type} [DecidableEq Digest] (server : Server Digest)
    (client : Client) (carried : Option (SealedCookie Digest)) (challengeName : Text)
    (challengeKey : Digest) (result : List UInt8) (level duration : Nat) (now : Int) :
    Option (SealedCookie Digest) :=
  (server.fromHeaders carried client.host (some client.ip) now).map fun token =>
    ⟨client.host, ipNetworkPrefix client.ip,
      token.withPass challengeName (passOf client challengeKey result level duration now)⟩

end Bagel
