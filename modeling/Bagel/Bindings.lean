/-
This file settles when the two ends of a challenge see the same client.

A challenge is bound to the session, the host, the network and the user agent of the request it
is issued to. The pipeline reads these from one request and the verify endpoint reads them from
the next one, each with code of its own. The pipeline looks for the host and the address before
the headers of a proxy are taken out, the endpoint afterwards, and a user agent that cannot be
read is `unknown` to the pipeline and a string of bytes to the endpoint. The last difference
matters for every client, the others for a proxy whose headers double as something else.
-/

import Bagel.Backends
import Bagel.Forwarding
import Bagel.GateSoundness

namespace Bagel

/-! ### The address of a client -/

/-- `TrustedProxies` -/
structure TrustedProxies where
  networks : List IpNetwork

namespace TrustedProxies

variable (trusted : TrustedProxies)

def contains (ip : IpAddr) : Bool := trusted.networks.any fun network => network.contains ip

/-- The loop of `peel`, over the entries from the last to the first: the first address that is
not trusted, or else the first one at all. -/
def nearest (peer : IpAddr) (firstValid : Option IpAddr) : List (List Char) → IpAddr
  | [] => firstValid.getD peer
  | entry :: rest =>
    match parseIp (trim entry) with
    | none => nearest peer firstValid rest
    | some ip => if trusted.contains ip then nearest peer (firstValid <|> some ip) rest else ip

/-- `peel` -/
def peel (peer : IpAddr) : Option String → IpAddr
  | none => peer
  | some header => trusted.nearest peer none (header.toList.splitOn ',').reverse

/-- `TrustedProxies::client_ip` -/
def clientIp (peer : IpAddr) (forwardedFor : Option String) : IpAddr :=
  if trusted.contains peer then trusted.peel peer forwardedFor else peer

end TrustedProxies

/-- `ClientIpPolicy` -/
structure ClientIpPolicy where
  header : Option String
  trusted : Option TrustedProxies

namespace ClientIpPolicy

/-- `resolve` -/
def resolve (policy : ClientIpPolicy) (peer : IpAddr) (headerValue : Option String) : IpAddr :=
  match policy.header, policy.trusted with
  | some _, some trusted => trusted.clientIp peer headerValue
  | _, _ => peer

theorem resolve_none (policy : ClientIpPolicy) (peer : IpAddr) :
    policy.resolve peer none = peer := by
  unfold resolve
  split
  · unfold TrustedProxies.clientIp TrustedProxies.peel
    exact ite_self peer
  · rfl

end ClientIpPolicy

/-- The values of a header that is given by its text. A text that is no name has none. -/
def valuesOf (headers : HeaderMap) (name : String) : List HeaderValue :=
  match HeaderName.parse name.toList with
  | some name => headers.getAll name
  | none => []

/-- `ConnectionPeer`: the source that a PROXY protocol header named. -/
structure ConnectionPeer where
  forwarded : Option IpAddr

/-- A request as it comes in, with what its connection knows. -/
structure InboundRequest where
  /-- The authority of the URI. -/
  authority : Option String
  headers : HeaderMap
  peer : IpAddr
  connection : Option ConnectionPeer
  /-- The stack of the TLS fingerprint. -/
  stack : Option String

namespace InboundRequest

/-- The source that the connection was opened for by a proxy. -/
def forwarded (request : InboundRequest) : Option IpAddr :=
  request.connection.bind ConnectionPeer.forwarded

/-- `StateInner::client_ip`, over the headers that are left. -/
def clientIp (request : InboundRequest) (policy : ClientIpPolicy) (headers : HeaderMap) : IpAddr :=
  match request.forwarded with
  | some source => source
  | none =>
    match policy.header with
    | none => policy.resolve request.peer none
    | some name =>
      let joined := ", ".intercalate ((valuesOf headers name).filterMap HeaderValue.toStr)
      policy.resolve request.peer (if joined = "" then none else some joined)

/-- The address depends on the values of the named header only. -/
theorem clientIp_congr {request again : InboundRequest} {policy : ClientIpPolicy}
    {headers headers' : HeaderMap} (peer : again.peer = request.peer)
    (connection : again.connection = request.connection)
    (same : ∀ name, policy.header = some name → request.forwarded = none →
      valuesOf headers' name = valuesOf headers name) :
    again.clientIp policy headers' = request.clientIp policy headers := by
  have source : again.forwarded = request.forwarded := by rw [forwarded, connection, forwarded]
  unfold clientIp
  rw [source, peer]
  cases forwarded : request.forwarded with
  | some source => rfl
  | none =>
    cases named : policy.header with
    | none => rfl
    | some name => simp only [same name named forwarded]

/-- Without values the address is the peer. -/
theorem clientIp_of_no_values {request : InboundRequest} {policy : ClientIpPolicy}
    {headers : HeaderMap} (direct : request.forwarded = none) {name : String}
    (named : policy.header = some name) (none : valuesOf headers name = []) :
    request.clientIp policy headers = request.peer := by
  unfold clientIp
  rw [direct, named]
  simp only [none, List.filterMap_nil]
  exact policy.resolve_none request.peer

end InboundRequest

/-! ### Bindings -/

/-- A text that fits into memory, as every text of the server does. -/
def Text.ofString (value : String) : Option Text :=
  if fits : value.utf8ByteSize < 2 ^ 64 then some ⟨value, fits⟩ else none

/-- `ChallengeBinding` -/
structure ChallengeBinding (Digest : Type) where
  host : Text
  network : SourceNetwork
  digest : Digest

/-- `ChallengeBinding::new` -/
def ChallengeBinding.new {Digest : Type} (server : Server Digest) (session : Vector UInt8 32)
    (host : Text) (clientIp : IpAddr) (challenge : Text) (userAgent : List UInt8)
    (revision : Nat) : ChallengeBinding Digest :=
  ⟨host, .fromIp clientIp, server.challengeBinding session host challenge userAgent revision⟩

/-- The user agent as `handle_request` reads it. -/
def readUserAgent (headers : HeaderMap) : String :=
  ((headers.get .userAgent).bind HeaderValue.toStr).getD "unknown"

/-- The user agent as `admit` reads it. -/
def rawUserAgent (headers : HeaderMap) : List UInt8 :=
  match headers.get .userAgent with
  | some value => value.bytes
  | none => Bytes.ofText "unknown"

/-- Both readings agree exactly on what can be read. -/
theorem rawUserAgent_eq_iff (headers : HeaderMap) :
    rawUserAgent headers = Bytes.ofText (readUserAgent headers) ↔
      ∀ value ∈ headers.get .userAgent, value.Readable := by
  unfold rawUserAgent readUserAgent
  cases headers.get .userAgent with
  | none => simp
  | some value =>
    simp only [Option.bind_some, Option.mem_some_iff, forall_eq']
    by_cases readable : value.Readable
    · have read := HeaderValue.toStr_of_readable readable
      obtain ⟨-, -, written⟩ := HeaderValue.toStr_eq_some read
      rw [read, Option.getD_some, written]
      exact iff_of_true rfl readable
    · rw [HeaderValue.toStr_of_not_readable readable, Option.getD_none]
      refine iff_of_false (fun same => readable ?_) readable
      unfold HeaderValue.Readable
      rw [same]
      decide

/-- A binding tells the user agent. -/
theorem Server.challengeBinding_userAgent_inj {Digest : Type} {server : Server Digest}
    (collisionFree : Function.Injective server.sha256) {session : Vector UInt8 32}
    {host challenge : Text} {userAgent userAgent' : List UInt8} {revision : Nat}
    (same : server.challengeBinding session host challenge userAgent revision =
      server.challengeBinding session host challenge userAgent' revision) :
    userAgent = userAgent' := by
  have bytes := collisionFree same
  rw [List.append_right_inj, List.append_right_inj, List.append_right_inj,
    List.append_left_inj] at bytes
  exact Bytes.frame_inj bytes

/-! ### The two ends -/

/-- What one snapshot of the server takes requests in with. -/
structure Frontend (Digest : Type) where
  server : Server Digest
  policy : GatePolicy
  clientIp : ClientIpPolicy
  clientTlsHeader : Option HeaderName
  backends : BackendPool
  /-- The digest that names the cookie. -/
  sha256 : List UInt8 → Vector UInt8 32
  /-- What a text of a cookie was sealed from, if the server sealed it. -/
  sealed : List Char → Option (SealedCookie Digest)

namespace Frontend

variable {Digest : Type} [LinearOrder Digest] (frontend : Frontend Digest)

/-- The headers that `capture_client_tls` leaves. -/
def captured (request : InboundRequest) : HeaderMap :=
  captureClientTls frontend.clientTlsHeader request.headers

/-- The sealed cookie that headers carry for a host. -/
def carried (headers : HeaderMap) (host : Text) : Option (SealedCookie Digest) :=
  (carriedCookie headers (cookieName frontend.sha256 host.value)).bind frontend.sealed

/-- The request as `handle_request` hands it to the gates. -/
def visit (request : InboundRequest) : Option Visit :=
  match canonicalizeAuthority request.authority (headerHost request.headers) with
  | .error _ => none
  | .ok canonical =>
    (Text.ofString canonical.text).bind fun host =>
      if (frontend.backends.select host.value).isNone then none
      else some ⟨host, some (request.clientIp frontend.clientIp request.headers),
        Bytes.ofText (readUserAgent (frontend.captured request)), request.stack⟩

/-- `Client::admit`, with the answer of the tracker of verifications. Errors are statuses. -/
def admitClient (headers : HeaderMap) (host : Text) (ip : IpAddr) (rate : IssueRate)
    (challenge : Text) (now : Int) : Except Nat (ChallengeBinding Digest) :=
  if (frontend.backends.select host.value).isNone then .error 400
  else if rate.Limited then .error 429
  else
    match frontend.server.fromHeaders (frontend.carried headers host) host (some ip) now with
    | none => .error 403
    | some token => .ok (.new frontend.server token.session host ip challenge (rawUserAgent headers)
        frontend.policy.revision)

/-- What `dispatch` and the verify endpoints make of a request, up to `admit`. -/
def verifyBinding (request : InboundRequest) (rate : IssueRate) (challenge : Text) (now : Int) :
    Except Nat (ChallengeBinding Digest) :=
  let headers := frontend.captured request
  match (canonicalRequestHost request.authority headers).bind fun canonical =>
      Text.ofString canonical.text with
  | none => .error 400
  | some host =>
    frontend.admitClient headers host (request.clientIp frontend.clientIp headers) rate challenge
      now

/-- A verify request of the client that the challenge was issued to. -/
structure SameClient (request again : InboundRequest) : Prop where
  authority : again.authority = request.authority
  peer : again.peer = request.peer
  connection : again.connection = request.connection
  host : again.headers.getAll .host = request.headers.getAll .host
  userAgent : again.headers.getAll .userAgent = request.headers.getAll .userAgent
  forwarding : ∀ name, frontend.clientIp.header = some name →
    valuesOf again.headers name = valuesOf request.headers name

/-- The request carries the cookie that was sealed for a visit and a session, at a time when it
is valid. -/
structure CarriesSession (again : InboundRequest) (visit : Visit) (session : Vector UInt8 32)
    (now : Int) (token : Token Digest) : Prop where
  cookie : frontend.carried again.headers visit.host = some (GateState.sealCookie visit token)
  session : token.session = session
  begun : token.nbf ≤ now
  unexpired : now ≤ token.exp

/-- The endpoint computes the binding of the issue, and with it the key is redeemed wherever the
challenge is still held. -/
def Agrees (again : InboundRequest) (rate : IssueRate) (now : Int) (issue : Issue Digest) : Prop :=
  ∃ binding, frontend.verifyBinding again rate issue.challenge now = .ok binding ∧
    binding = ⟨issue.host, .fromIp issue.address, issue.entry.binding⟩ ∧
    ∀ (table : PendingTable Digest) (instant level : Nat),
      (table.expire instant).entries.lookup issue.key = some issue.entry →
      issue.entry.Offered level →
      (table.redeem instant issue.key binding.digest level).2 = some issue.entry.passKey

/-- The header is taken out of the requests. -/
def Takes (name : String) : Prop :=
  ∃ header, HeaderName.parse name.toList = some header ∧
    (frontend.clientTlsHeader = some header ∨ header = .originToken)

/-- What the two ends read in the same way: no header that they need is taken out in between, or
it does not matter, and the user agent can be read. -/
structure ReadsAlike (request : InboundRequest) : Prop where
  cookie : frontend.clientTlsHeader ≠ some .cookie
  host : frontend.clientTlsHeader = some .host → request.authority ≠ none
  address : ∀ name, frontend.clientIp.header = some name → frontend.Takes name →
    request.forwarded = none →
    SourceNetwork.fromIp (request.clientIp frontend.clientIp request.headers) =
      SourceNetwork.fromIp request.peer
  userAgent : frontend.clientTlsHeader ≠ some .userAgent →
    ∀ value ∈ request.headers.get .userAgent, value.Readable

variable {frontend}

/-! ### The verify endpoint -/

/-- A cookie that was sealed for a visit opens for its host and its network while it is valid. -/
theorem fromHeaders_sealCookie {server : Server Digest} {visit : Visit} {ip address : IpAddr}
    {token : Token Digest} {now : Int} (here : visit.ip = some address)
    (near : SourceNetwork.fromIp ip = SourceNetwork.fromIp address) (begun : token.nbf ≤ now)
    (unexpired : now ≤ token.exp) :
    server.fromHeaders (some (GateState.sealCookie visit token)) visit.host (some ip) now =
      some token := by
  have opens : ∀ {cookie : SealedCookie Digest} {key : Digest}, cookie.token = token →
      server.deriveCookieKey cookie.host.value cookie.suffix = key →
      server.openToken cookie key now = some token := by
    rintro cookie key rfl bound
    exact Server.openToken_eq_some_iff.mpr ⟨rfl, bound, unexpired, begun⟩
  have prefixes : ipNetworkPrefix ip = ipNetworkPrefix address := congrArg SourceNetwork.text near
  unfold Server.fromHeaders
  rw [Option.bind_eq_bind, Option.bind_some]
  dsimp only
  by_cases waits : token.pending = true
  · -- A pending token opens for the host alone, if not for the network.
    have pending : server.openToken (GateState.sealCookie visit token)
        (server.derivePendingKey visit.host.value) now = some token :=
      opens rfl (by simp [GateState.sealCookie, waits, Server.derivePendingKey])
    cases bound : server.openToken (GateState.sealCookie visit token)
      (server.deriveCookieKey visit.host.value (((some ip).map ipNetworkPrefix).getD "")) now with
    | none =>
      rw [pending, Option.filter_some, if_pos waits]
      rfl
    | some opened =>
      rw [(Server.openToken_eq_some_iff.mp bound).1]
      rfl
  · rw [opens rfl (by simp [GateState.sealCookie, waits, here, prefixes])]
    rfl

/-- What the endpoint needs to come to a binding. -/
theorem verifyBinding_eq_ok_iff {request : InboundRequest} {rate : IssueRate} {challenge : Text}
    {now : Int} {binding : ChallengeBinding Digest} :
    frontend.verifyBinding request rate challenge now = .ok binding ↔
      ∃ canonical host token,
        canonicalRequestHost request.authority (frontend.captured request) = some canonical ∧
        Text.ofString canonical.text = some host ∧
        frontend.backends.select host.value ≠ none ∧ ¬ rate.Limited ∧
        frontend.server.fromHeaders (frontend.carried (frontend.captured request) host) host
          (some (request.clientIp frontend.clientIp (frontend.captured request))) now =
            some token ∧
        binding = .new frontend.server token.session host
          (request.clientIp frontend.clientIp (frontend.captured request)) challenge
          (rawUserAgent (frontend.captured request)) frontend.policy.revision := by
  unfold verifyBinding admitClient
  dsimp only
  constructor
  · intro computes
    split at computes
    · cases computes
    · next host found =>
      obtain ⟨canonical, canonicalHost, text⟩ := Option.bind_eq_some_iff.mp found
      split at computes
      · cases computes
      · next selected =>
        split at computes
        · cases computes
        · next room =>
          split at computes
          · cases computes
          · next token opened =>
            refine ⟨canonical, host, token, canonicalHost, text, ?_, room, opened,
              (Except.ok.inj computes).symm⟩
            exact fun missing => selected (by rw [missing]; rfl)
  · rintro ⟨canonical, host, token, canonicalHost, text, selected, room, opened, rfl⟩
    rw [canonicalHost, Option.bind_some, text]
    dsimp only
    rw [if_neg (by simpa using selected), if_neg room, opened]

omit [LinearOrder Digest] in
/-- What the pipeline needs to hand a request to the gates. -/
theorem visit_eq_some_iff {request : InboundRequest} {visit : Visit} :
    frontend.visit request = some visit ↔
      ∃ canonical host,
        canonicalizeAuthority request.authority (headerHost request.headers) = .ok canonical ∧
        Text.ofString canonical.text = some host ∧ frontend.backends.select host.value ≠ none ∧
        visit = ⟨host, some (request.clientIp frontend.clientIp request.headers),
          Bytes.ofText (readUserAgent (frontend.captured request)), request.stack⟩ := by
  unfold Frontend.visit
  constructor
  · intro visited
    split at visited
    · cases visited
    · next canonical accepted =>
      obtain ⟨host, text, rest⟩ := Option.bind_eq_some_iff.mp visited
      split at rest
      · cases rest
      · next selected =>
        refine ⟨canonical, host, accepted, text, ?_, (Option.some.inj rest).symm⟩
        exact fun missing => selected (by rw [missing]; rfl)
  · rintro ⟨canonical, host, accepted, text, selected, rfl⟩
    rw [accepted]
    dsimp only
    rw [text, Option.bind_some, if_neg (by simpa using selected)]

/-! ### The headers that are left -/

omit [LinearOrder Digest]

theorem getAll_captured_of_taken {request : InboundRequest} {name : HeaderName}
    (taken : frontend.clientTlsHeader = some name ∨ name = .originToken) :
    (frontend.captured request).getAll name = [] := by
  unfold captured captureClientTls
  dsimp only
  rw [Multimap.getAll_remove]
  split
  · rfl
  · next kept =>
    rw [taken.resolve_right kept]
    dsimp only
    rw [Multimap.getAll_remove, if_pos rfl]

theorem getAll_captured {request : InboundRequest} {name : HeaderName}
    (kept : frontend.clientTlsHeader ≠ some name) (notToken : name ≠ .originToken) :
    (frontend.captured request).getAll name = request.headers.getAll name :=
  Passage.getAll_captureClientTls request.headers kept notToken

theorem valuesOf_captured (request : InboundRequest) (name : String)
    [Decidable (frontend.Takes name)] :
    valuesOf (frontend.captured request) name =
      if frontend.Takes name then [] else valuesOf request.headers name := by
  unfold valuesOf
  cases parsed : HeaderName.parse name.toList with
  | none => exact (ite_self _).symm
  | some header =>
    dsimp only
    split
    · next takes =>
      obtain ⟨other, same, taken⟩ := takes
      obtain rfl : header = other := Option.some.inj (parsed.symm.trans same)
      exact getAll_captured_of_taken taken
    · next keeps =>
      refine getAll_captured (fun taken => keeps ⟨header, parsed, .inl taken⟩) fun token => ?_
      exact keeps ⟨header, parsed, .inr token⟩

theorem carried_captured {request : InboundRequest} (kept : frontend.clientTlsHeader ≠ some .cookie)
    (host : Text) :
    frontend.carried (frontend.captured request) host = frontend.carried request.headers host := by
  unfold carried carriedCookie
  rw [getAll_captured kept (by decide)]

theorem carried_captured_of_taken {request : InboundRequest}
    (taken : frontend.clientTlsHeader = some .cookie) (host : Text) :
    frontend.carried (frontend.captured request) host = none := by
  unfold carried carriedCookie
  rw [getAll_captured_of_taken (.inl taken)]
  rfl

section SameClient

variable {request again : InboundRequest} (same : frontend.SameClient request again)

include same

/-- The endpoint sees the host that the pipeline saw, unless the only host there was is taken. -/
theorem canonicalRequestHost_captured {canonical : CanonicalHost}
    (accepted : canonicalizeAuthority request.authority (headerHost request.headers) =
      .ok canonical)
    (named : frontend.clientTlsHeader = some .host → request.authority ≠ none) :
    canonicalRequestHost again.authority (frontend.captured again) = some canonical := by
  rw [same.authority]
  apply canonicalRequestHost_of_accepted
  by_cases taken : frontend.clientTlsHeader = some .host
  · obtain ⟨uri, present⟩ := Option.ne_none_iff_exists'.mp (named taken)
    have missing : headerHost (frontend.captured again) = none := by
      unfold headerHost Multimap.get
      rw [getAll_captured_of_taken (.inl taken)]
      rfl
    rw [present] at accepted ⊢
    rw [missing]
    exact parse_of_accepted accepted
  · have kept : headerHost (frontend.captured again) = headerHost request.headers := by
      unfold headerHost Multimap.get
      rw [getAll_captured taken (by decide), same.host]
    rw [kept]
    exact accepted

/-- The endpoint sees an address of the same network exactly where the header that names it is
not taken, or does not matter. -/
theorem fromIp_captured_iff :
    SourceNetwork.fromIp (again.clientIp frontend.clientIp (frontend.captured again)) =
        SourceNetwork.fromIp (request.clientIp frontend.clientIp request.headers) ↔
      ∀ name, frontend.clientIp.header = some name → frontend.Takes name →
        request.forwarded = none →
        SourceNetwork.fromIp (request.clientIp frontend.clientIp request.headers) =
          SourceNetwork.fromIp request.peer := by
  classical
  by_cases matters : ∃ name, frontend.clientIp.header = some name ∧ frontend.Takes name ∧
      request.forwarded = none
  · obtain ⟨name, named, takes, direct⟩ := matters
    have source : again.forwarded = none := by
      rw [← direct, InboundRequest.forwarded, same.connection, InboundRequest.forwarded]
    have peer : again.clientIp frontend.clientIp (frontend.captured again) = request.peer := by
      rw [← same.peer]
      refine InboundRequest.clientIp_of_no_values source named ?_
      rw [valuesOf_captured, if_pos takes]
    rw [peer]
    constructor
    · exact fun near _ _ _ _ => near.symm
    · exact fun near => (near name named takes direct).symm
  · have unchanged : again.clientIp frontend.clientIp (frontend.captured again) =
        request.clientIp frontend.clientIp request.headers := by
      refine InboundRequest.clientIp_congr same.peer same.connection fun name named direct => ?_
      rw [valuesOf_captured, if_neg fun takes => matters ⟨name, named, takes, direct⟩]
      exact same.forwarding name named
    rw [unchanged]
    refine iff_of_true rfl fun name named takes direct => ?_
    exact absurd ⟨name, named, takes, direct⟩ matters

/-- The endpoint reads the user agent that the pipeline read exactly where it can be read. -/
theorem rawUserAgent_captured_iff :
    rawUserAgent (frontend.captured again) =
        Bytes.ofText (readUserAgent (frontend.captured request)) ↔
      (frontend.clientTlsHeader ≠ some .userAgent →
        ∀ value ∈ request.headers.get .userAgent, value.Readable) := by
  by_cases taken : frontend.clientTlsHeader = some .userAgent
  · have missing : ∀ request, (frontend.captured request).get .userAgent = none := by
      intro request
      unfold Multimap.get
      rw [getAll_captured_of_taken (.inl taken)]
      rfl
    unfold rawUserAgent readUserAgent
    rw [missing, missing]
    exact iff_of_true rfl fun kept => absurd taken kept
  · have kept : ∀ request : InboundRequest,
        (frontend.captured request).getAll .userAgent = request.headers.getAll .userAgent :=
      fun request => getAll_captured taken (by decide)
    have alike : rawUserAgent (frontend.captured again) =
        rawUserAgent (frontend.captured request) := by
      unfold rawUserAgent Multimap.get
      rw [kept, kept, same.userAgent]
    rw [alike, rawUserAgent_eq_iff, imp_iff_right taken]
    unfold Multimap.get
    rw [kept]

/-- Without a host of its own a request whose header is taken has no host at the endpoint. -/
theorem canonicalRequestHost_captured_of_taken (taken : frontend.clientTlsHeader = some .host)
    (unnamed : request.authority = none) :
    canonicalRequestHost again.authority (frontend.captured again) = none := by
  unfold canonicalRequestHost headerHost Multimap.get
  rw [getAll_captured_of_taken (.inl taken), same.authority, unnamed]
  rfl

end SameClient

/-! ### Redeeming with the same binding -/

variable [LinearOrder Digest]

/-- What was issued is bound to the request that it was issued for. -/
theorem issued_spec {server : Server Digest} {policy : GatePolicy} {action : ChallengeAction}
    {visit : Visit} {now : Int} {answers : ChallengeAnswers Digest} {name : Text}
    {run : PendingRun Digest} {token : Option (Token Digest)} {modified : Bool}
    {issue : Issue Digest}
    (issued : (evaluateChallenge server policy action visit now answers name run token
      modified).issued = some issue) :
    issue.host = visit.host ∧ issue.challenge = name ∧ visit.ip = some issue.address ∧
      issue.entry.binding = server.challengeBinding issue.session visit.host name
        visit.userAgent policy.revision := by
  have step := evaluateChallenge_step server policy action visit now answers name run token modified
  revert issued
  generalize evaluateChallenge server policy action visit now answers name run token modified =
    checked at step
  intro issued
  cases step with
  | issued random duration session extended ensures address here bucket later key entry binds =>
    obtain rfl := Option.some.inj issued
    exact ⟨rfl, rfl, here, binds⟩
  | _ => cases issued

/-- The binding of the issue redeems its key wherever the table holds the challenge. -/
theorem redeem_of_held {table : PendingTable Digest} {issue : Issue Digest} {instant level : Nat}
    (held : (table.expire instant).entries.lookup issue.key = some issue.entry)
    (offered : issue.entry.Offered level) :
    (table.redeem instant issue.key issue.entry.binding level).2 = some issue.entry.passKey := by
  unfold PendingTable.redeem
  simp only [held]
  rw [if_pos ⟨trivial, offered⟩]

/-- A challenge is issued for a request, and its client comes back with the same headers, from the
same address and with the session of the challenge. The endpoint computes the binding of the issue,
and so redeems the key wherever the challenge is still held, exactly when the user agent can be
read and the header of a proxy that is taken out of the requests is neither the cookie, nor the
only host, nor the one that names another address than the peer. -/
theorem agrees_iff (collisionFree : Function.Injective frontend.server.sha256)
    {request again : InboundRequest} {visit : Visit} (visited : frontend.visit request = some visit)
    (action : ChallengeAction) (now : Int) (answers : ChallengeAnswers Digest) (name : Text)
    (run : PendingRun Digest) (token : Option (Token Digest)) (modified : Bool)
    {issue : Issue Digest}
    (issued : (evaluateChallenge frontend.server frontend.policy action visit now answers name run
      token modified).issued = some issue)
    (same : frontend.SameClient request again) {rate : IssueRate} (room : ¬ rate.Limited)
    {later : Int} {session : Token Digest}
    (carries : frontend.CarriesSession again visit issue.session later session) :
    frontend.Agrees again rate later issue ↔ frontend.ReadsAlike request := by
  obtain ⟨canonical, host, accepted, text, selected, rfl⟩ := visit_eq_some_iff.mp visited
  obtain ⟨hosts, challenges, here, binds⟩ := issued_spec issued
  have address : issue.address = request.clientIp frontend.clientIp request.headers :=
    (Option.some.inj here).symm
  unfold Agrees
  rw [hosts, challenges, address]
  constructor
  · rintro ⟨binding, computes, rfl, -⟩
    obtain ⟨seen, host', opened, found, text', -, -, opens, bindings⟩ :=
      verifyBinding_eq_ok_iff.mp computes
    have cookie : frontend.clientTlsHeader ≠ some .cookie := by
      intro taken
      rw [carried_captured_of_taken taken] at opens
      cases opens
    have named : frontend.clientTlsHeader = some .host → request.authority ≠ none := by
      intro taken unnamed
      rw [canonicalRequestHost_captured_of_taken same taken unnamed] at found
      cases found
    obtain rfl : canonical = seen :=
      Option.some.inj ((canonicalRequestHost_captured same accepted named).symm.trans found)
    obtain rfl : host = host' := Option.some.inj (text.symm.trans text')
    obtain ⟨-, networks, digests⟩ := ChallengeBinding.mk.inj bindings
    have near := (fromIp_captured_iff same).mp networks.symm
    refine ⟨cookie, named, near, ?_⟩
    rw [carried_captured cookie, carries.cookie,
      fromHeaders_sealCookie rfl networks.symm carries.begun carries.unexpired] at opens
    rw [← Option.some.inj opens, carries.session, binds] at digests
    refine (rawUserAgent_captured_iff same).mp ?_
    exact (Server.challengeBinding_userAgent_inj collisionFree digests).symm
  · intro alike
    have networks := (fromIp_captured_iff same).mpr alike.address
    have agents := (rawUserAgent_captured_iff same).mpr alike.userAgent
    refine ⟨⟨host, .fromIp (request.clientIp frontend.clientIp request.headers),
      issue.entry.binding⟩, ?_, rfl, fun table instant level held offered =>
        redeem_of_held held offered⟩
    refine verifyBinding_eq_ok_iff.mpr ⟨canonical, host, session,
      canonicalRequestHost_captured same accepted alike.host, text, selected, room, ?_, ?_⟩
    · rw [carried_captured alike.cookie, carries.cookie]
      exact fromHeaders_sealCookie rfl networks carries.begun carries.unexpired
    · rw [ChallengeBinding.new, networks, agents, carries.session, binds]

end Frontend

/-! ### A sample client -/

namespace SampleClient

open SampleGate Frontend

theorem site_fits : "example.com".utf8ByteSize < 2 ^ 64 := by decide

def site : Text := ⟨"example.com", site_fits⟩

/-- A session that was begun with the challenge. -/
def session : Token (List Nat) := ⟨Vector.replicate 32 1, fun _ => none, true, 7200, 3600, 3600⟩

/-- A server with one backend and no proxy in front of it, which has sealed the session. -/
def frontend : Frontend (List Nat) where
  server := server
  policy := policy
  clientIp := ⟨none, none⟩
  clientTlsHeader := none
  backends := ⟨[], [], some ⟨⟨"*", "http://origin.internal", none, none⟩, none, none⟩⟩
  sha256 := exampleDigest
  sealed text := if text = "sealed".toList then some ⟨site, "pending", session⟩ else none

/-- A request from home. -/
def request (userAgent : HeaderValue) : InboundRequest :=
  ⟨none, (Multimap.empty.insert .host ⟨Bytes.ofText "example.com", by decide⟩).insert
    .userAgent userAgent, home, none, none⟩

def sealedCookie : HeaderValue := ⟨Bytes.ofText ".bagel-a379a6-state=sealed", by decide⟩

/-- The verify request, with the cookie that came with the challenge. -/
def again (userAgent : HeaderValue) : InboundRequest :=
  { request userAgent with
    headers := (request userAgent).headers.insert .cookie sealedCookie }

def plainAgent : HeaderValue := ⟨Bytes.ofText "agent", by decide⟩

/-- The name of a browser that is written in Latin-1. -/
def latinAgent : HeaderValue := ⟨[0xe9], by decide⟩

def visit (userAgent : HeaderValue) : Visit :=
  ⟨site, some home, Bytes.ofText (readUserAgent (frontend.captured (request userAgent))), none⟩

theorem visited (userAgent : HeaderValue) :
    frontend.visit (request userAgent) = some (visit userAgent) := by
  refine visit_eq_some_iff.mpr ⟨⟨"example.com", none⟩, site, ?_, by decide, by decide, rfl⟩
  have named : headerHost (request userAgent).headers = some "example.com" := by
    unfold headerHost request Multimap.get
    dsimp only
    rw [Multimap.getAll_insert, if_neg (by decide)]
    decide
  have parsed : canonicalizeAuthority none (some "example.com") = .ok ⟨"example.com", none⟩ := by
    decide
  rw [named]
  exact parsed

theorem sameClient (userAgent : HeaderValue) :
    frontend.SameClient (request userAgent) (again userAgent) where
  authority := rfl
  peer := rfl
  connection := rfl
  host := (Multimap.getAll_insert _ _ _ _).trans (if_neg (by decide))
  userAgent := (Multimap.getAll_insert _ _ _ _).trans (if_neg (by decide))
  forwarding := by
    intro name named
    cases named

theorem carriesSession (userAgent : HeaderValue) :
    frontend.CarriesSession (again userAgent) (visit userAgent) session.session 3610 session where
  cookie := by
    have only : (again userAgent).headers.getAll .cookie = [sealedCookie] :=
      (Multimap.getAll_insert _ _ _ _).trans (if_pos rfl)
    have found : (([sealedCookie].filterMap HeaderValue.toStr).flatMap
        fun text => (text.toList.splitOn ';').map trim).findSome?
          (cookieValue (cookieName exampleDigest "example.com")) = some "sealed".toList := by
      decide
    unfold carried carriedCookie
    rw [only]
    exact congrArg (·.bind frontend.sealed) found
  session := rfl
  begun := by decide
  unexpired := by decide

/-- The challenge that is issued for a request. -/
def check (userAgent : HeaderValue) : Checked (List Nat) :=
  evaluateChallenge server policy ⟨[challenge], none, false⟩ (visit userAgent) 3600 answers
    challenge .start none false

/-- The challenge of a request is issued to its session. -/
theorem exists_issue (userAgent : HeaderValue)
    (sessions : (check userAgent).issued.map Issue.session = some session.session) :
    ∃ issue, (check userAgent).issued = some issue ∧ issue.session = session.session :=
  Option.map_eq_some_iff.mp sessions

/-- A client whose user agent can be read redeems its challenge. -/
theorem agrees_plainAgent :
    ∃ issue, (check plainAgent).issued = some issue ∧
      frontend.Agrees (again plainAgent) ⟨1, 1⟩ 3610 issue := by
  obtain ⟨issue, issued, sessions⟩ := exists_issue plainAgent (by decide)
  refine ⟨issue, issued, ?_⟩
  refine (agrees_iff SampleGate.collisionFree (visited plainAgent) _ _ _ _ _ _ _ issued
    (sameClient plainAgent) (by decide) (sessions ▸ carriesSession plainAgent)).mpr ?_
  exact ⟨nofun, nofun, nofun, fun _ => by decide⟩

/-- A client whose user agent cannot be read is bound as `unknown` and does not come back as
that. -/
theorem disagrees_latinAgent :
    frontend.visit (request latinAgent) = some (visit latinAgent) ∧
      frontend.SameClient (request latinAgent) (again latinAgent) ∧
      ∃ issue, (check latinAgent).issued = some issue ∧
        frontend.CarriesSession (again latinAgent) (visit latinAgent) issue.session 3610 session ∧
        ¬ frontend.Agrees (again latinAgent) ⟨1, 1⟩ 3610 issue := by
  refine ⟨visited latinAgent, sameClient latinAgent, ?_⟩
  obtain ⟨issue, issued, sessions⟩ := exists_issue latinAgent (by decide)
  refine ⟨issue, issued, sessions ▸ carriesSession latinAgent, ?_⟩
  rintro ⟨binding, computes, rfl, -⟩
  have differ : (check latinAgent).issued.map (fun issue => issue.entry.binding) ≠
      (frontend.verifyBinding (again latinAgent) ⟨1, 1⟩ challenge 3610).toOption.map
        ChallengeBinding.digest := by
    decide +kernel
  refine differ ?_
  rw [issued, ← (issued_spec issued).2.1, computes]
  rfl

end SampleClient

end Bagel
