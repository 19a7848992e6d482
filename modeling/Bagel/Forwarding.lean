/-
This file models the headers that the proxy forwards: what `capture_client_tls` and
`finalize_response` of `server/pipeline.rs` do to the request, what `proxy_request` of
`proxy/mod.rs` sends to the backend, and what `finish` keeps of its answer.

The proxy sets its own headers before it removes those that the Connection header names, so
everything it sets is subject to the tokens of the client. What is said here about a header
is said for names that no token names.
-/

import Bagel.Backends
import Bagel.Cookies
import Bagel.Pipeline

namespace Bagel

namespace HeaderName

def upgrade : HeaderName := ⟨"upgrade", by decide⟩

def keepAlive : HeaderName := ⟨"keep-alive", by decide⟩

def proxyConnection : HeaderName := ⟨"proxy-connection", by decide⟩

def proxyAuthenticate : HeaderName := ⟨"proxy-authenticate", by decide⟩

def proxyAuthorization : HeaderName := ⟨"proxy-authorization", by decide⟩

def te : HeaderName := ⟨"te", by decide⟩

def trailer : HeaderName := ⟨"trailer", by decide⟩

def transferEncoding : HeaderName := ⟨"transfer-encoding", by decide⟩

def acceptEncoding : HeaderName := ⟨"accept-encoding", by decide⟩

def via : HeaderName := ⟨"via", by decide⟩

def bagelId : HeaderName := ⟨"x-bagel-id", by decide⟩

def bagelJa4 : HeaderName := ⟨"x-bagel-ja4", by decide⟩

/-- `ORIGIN_TOKEN_HEADER` -/
def originToken : HeaderName := ⟨"x-bagel-origin-token", by decide⟩

end HeaderName

/-! ### Hop by hop -/

/-- The names that the readable Connection fields list. -/
def connectionHeaders (headers : HeaderMap) : List HeaderName :=
  (headers.getAll .connection).flatMap fun value =>
    ((value.toStr.getD "").toList.splitOn ',').filterMap fun token => HeaderName.parse (trim token)

/-- The headers that end at a proxy, whatever the Connection header says. -/
def hopByHopHeaders : List HeaderName :=
  [.keepAlive, .proxyConnection, .proxyAuthenticate, .proxyAuthorization, .te, .trailer,
    .transferEncoding]

/-- `strip_hop_by_hop_headers` -/
def stripHopByHopHeaders (headers : HeaderMap) (preserveUpgrade : Bool) : HeaderMap :=
  let named := (connectionHeaders headers).filter fun name =>
    !(preserveUpgrade && (name = .connection || name = .upgrade))
  let stripped := (headers.removeAll named).removeAll hopByHopHeaders
  if preserveUpgrade then stripped else (stripped.remove .connection).remove .upgrade

/-- A name that ends at the proxy. -/
def HopByHop (preserveUpgrade : Bool) (name : HeaderName) : Prop :=
  name ∈ hopByHopHeaders ∨ preserveUpgrade = false ∧ (name = .connection ∨ name = .upgrade)

instance (preserveUpgrade : Bool) (name : HeaderName) : Decidable (HopByHop preserveUpgrade name) :=
  inferInstanceAs (Decidable (_ ∨ _))

/-- A name that a Connection token removes. -/
def Named (headers : HeaderMap) (preserveUpgrade : Bool) (name : HeaderName) : Prop :=
  name ∈ connectionHeaders headers ∧
    ¬ (preserveUpgrade = true ∧ (name = .connection ∨ name = .upgrade))

instance (headers : HeaderMap) (preserveUpgrade : Bool) (name : HeaderName) :
    Decidable (Named headers preserveUpgrade name) := inferInstanceAs (Decidable (_ ∧ _))

/-- What is left are the headers that neither end at the proxy nor are named. -/
theorem getAll_stripHopByHopHeaders (headers : HeaderMap) (preserveUpgrade : Bool)
    (name : HeaderName) :
    (stripHopByHopHeaders headers preserveUpgrade).getAll name =
      if HopByHop preserveUpgrade name ∨ Named headers preserveUpgrade name then []
      else headers.getAll name := by
  have removed : (((headers.removeAll ((connectionHeaders headers).filter fun name =>
      !(preserveUpgrade && (name = .connection || name = .upgrade)))).removeAll
        hopByHopHeaders).getAll name) =
      if name ∈ hopByHopHeaders ∨ Named headers preserveUpgrade name then []
      else headers.getAll name := by
    rw [Multimap.getAll_removeAll, Multimap.getAll_removeAll, ← ite_or]
    refine if_congr (or_congr_right ?_) rfl rfl
    unfold Named
    cases preserveUpgrade <;> simp [List.mem_filter]
  unfold stripHopByHopHeaders HopByHop
  cases preserveUpgrade with
  | true =>
    dsimp only
    rw [if_pos rfl, removed]
    simp
  | false =>
    dsimp only
    rw [if_neg Bool.false_ne_true, Multimap.getAll_remove, Multimap.getAll_remove, removed,
      ← ite_or, ← ite_or]
    refine if_congr ?_ rfl rfl
    simp only [true_and]
    tauto

/-! ### The request -/

/-- `requested_upgrade` -/
def requestedUpgrade (headers : HeaderMap) : Option HeaderValue :=
  match (headers.get .connection).bind HeaderValue.toStr with
  | none => none
  | some connection =>
    if (connection.toList.splitOn ',').any fun token =>
        eqIgnoreAsciiCase (String.ofList (trim token)) "upgrade" then
      headers.get .upgrade
    else none

/-- What the proxy knows when it forwards a request. -/
structure Delivery where
  backend : Backend
  /-- The authority of the URI. -/
  authority : Option String
  /-- The resolved address of the client. -/
  client : IpAddr
  /-- Eight random bytes in hexadecimal. -/
  id : HeaderValue
  /-- The fingerprint of a TLS handshake that was captured completely. -/
  ja4 : Option HeaderValue

namespace Delivery

variable (delivery : Delivery)

/-- The part of `proxy_request` that sets the host and the address of the client. -/
def address (headers : HeaderMap) : HeaderMap :=
  let hosted := match delivery.backend.host with
    | some host => headers.insert .host host
    | none =>
      if headers.getAll .host = [] then
        match delivery.authority.bind HeaderValue.fromStr with
        | some authority => headers.insert .host authority
        | none => headers
      else headers
  match delivery.backend.ipHeader with
  | some name => hosted.insert name (.ofIp delivery.client)
  | none => hosted

/-- The headers that `proxy_request` sends. -/
def proxyRequest (headers : HeaderMap) : HeaderMap :=
  let upgrade := requestedUpgrade headers
  let stripped := stripHopByHopHeaders (delivery.address headers) upgrade.isSome
  let identified := (stripped.insert .bagelId delivery.id).remove .bagelJa4
  match delivery.ja4 with
  | some ja4 => identified.insert .bagelJa4 ja4
  | none => identified

/-- The headers that the proxy sets to what it knows itself. -/
def Own (name : HeaderName) : Prop := name = .bagelId ∨ name = .bagelJa4

instance (name : HeaderName) : Decidable (Own name) := inferInstanceAs (Decidable (_ ∨ _))

theorem getAll_proxyRequest (headers : HeaderMap) (name : HeaderName) (own : ¬ Own name) :
    (delivery.proxyRequest headers).getAll name =
      if HopByHop (requestedUpgrade headers).isSome name ∨
          Named (delivery.address headers) (requestedUpgrade headers).isSome name then []
      else (delivery.address headers).getAll name := by
  unfold Own at own
  push Not at own
  rw [← getAll_stripHopByHopHeaders]
  unfold proxyRequest
  dsimp only
  split
  · rw [Multimap.getAll_insert, if_neg own.2, Multimap.getAll_remove, if_neg own.2,
      Multimap.getAll_insert, if_neg own.1]
  · rw [Multimap.getAll_remove, if_neg own.2, Multimap.getAll_insert, if_neg own.1]

end Delivery

/-! ### From the client to the backend -/

/-- The headers that `capture_client_tls` leaves. -/
def captureClientTls (clientTlsHeader : Option HeaderName) (headers : HeaderMap) : HeaderMap :=
  let captured := match clientTlsHeader with
    | some name => headers.remove name
    | none => headers
  captured.remove .originToken

/-- What `finalize_response` knows when it prepares a request for a backend. -/
structure Preparation where
  sha256 : List UInt8 → Vector UInt8 32
  host : String
  /-- There are fragments to inject. -/
  injected : Bool
  /-- `PendingRequestHeaders` -/
  contextHeaders : Option HeaderMap

/-- The headers that the contexts set. -/
def Preparation.set (preparation : Preparation) : HeaderMap :=
  preparation.contextHeaders.getD Multimap.empty

/-- What `finalize_response` does to the headers of a request. -/
def Preparation.finalizeRequest (preparation : Preparation) (headers : HeaderMap) : HeaderMap :=
  let cleaned := stripBagelCookies preparation.sha256 headers preparation.host
  let plain := if preparation.injected then cleaned.remove .acceptEncoding else cleaned
  match preparation.contextHeaders with
  | some contextHeaders => plain.overlay contextHeaders
  | none => plain

/-- A request on its way to a backend. -/
structure Passage where
  clientTlsHeader : Option HeaderName
  preparation : Preparation
  delivery : Delivery
  /-- The headers of the client. -/
  client : HeaderMap

namespace Passage

variable (passage : Passage)

/-- The headers that are given to `proxy_request`. -/
def given : HeaderMap :=
  passage.preparation.finalizeRequest (captureClientTls passage.clientTlsHeader passage.client)

/-- The headers that the backend receives. -/
def sent : HeaderMap := passage.delivery.proxyRequest passage.given

/-- The request asks for an upgrade. -/
def upgrades : Bool := (requestedUpgrade passage.given).isSome

/-- The Connection header that reaches the proxy names a header. -/
def Names (name : HeaderName) : Prop :=
  Named (passage.delivery.address passage.given) passage.upgrades name

/-- The proxy or a context sets a header. -/
def Sets (name : HeaderName) : Prop :=
  passage.delivery.backend.ipHeader = some name ∨
    name = .host ∧ (passage.delivery.backend.host ≠ none ∨ passage.given.getAll .host = []) ∨
    passage.preparation.set.getAll name ≠ []

instance (name : HeaderName) : Decidable (passage.Names name) :=
  inferInstanceAs (Decidable (Named _ _ _))

/-- The headers of the client that end at the server: the fingerprint that a proxy in front of it
passed on, and the encodings it accepts when the page is to be extended. -/
def Taken (name : HeaderName) : Prop :=
  passage.clientTlsHeader = some name ∨ name = .originToken ∨
    passage.preparation.injected = true ∧ name = .acceptEncoding

/-- A header that neither ends at the proxy, nor is one of its own, nor is named. -/
def Free (name : HeaderName) : Prop :=
  ¬ HopByHop passage.upgrades name ∧ ¬ Delivery.Own name ∧ ¬ passage.Names name

theorem getAll_sent_of_free {name : HeaderName} (free : passage.Free name) :
    passage.sent.getAll name = (passage.delivery.address passage.given).getAll name := by
  obtain ⟨passes, foreign, unnamed⟩ := free
  exact (passage.delivery.getAll_proxyRequest _ name foreign).trans
    (if_neg (not_or.mpr ⟨passes, unnamed⟩))

/-- What a context sets is given to the proxy. -/
theorem getAll_given_of_set {name : HeaderName} {value : HeaderValue}
    (set : (passage.preparation.set.getAll name).getLast? = some value) :
    passage.given.getAll name = [value] := by
  unfold given Preparation.finalizeRequest
  unfold Preparation.set at set
  dsimp only
  cases context : passage.preparation.contextHeaders with
  | none =>
    rw [context] at set
    cases set
  | some contextHeaders =>
    rw [context, Option.getD_some] at set
    simp only [Multimap.overlay, set]

/-- What no context sets is given as the cookies and the encodings leave it. -/
theorem getAll_given_of_unset {name : HeaderName}
    (unset : passage.preparation.set.getAll name = [])
    (encodings : ¬ (passage.preparation.injected = true ∧ name = .acceptEncoding)) :
    passage.given.getAll name = (stripBagelCookies passage.preparation.sha256
      (captureClientTls passage.clientTlsHeader passage.client)
      passage.preparation.host).getAll name := by
  have plain : ∀ headers : HeaderMap,
      (if passage.preparation.injected then headers.remove .acceptEncoding else headers).getAll
        name = headers.getAll name := by
    intro headers
    split
    · next injected =>
      rw [Multimap.getAll_remove, if_neg fun same => encodings ⟨injected, same⟩]
    · rfl
  unfold given Preparation.finalizeRequest
  unfold Preparation.set at unset
  dsimp only
  cases context : passage.preparation.contextHeaders with
  | none => exact plain _
  | some contextHeaders =>
    rw [context, Option.getD_some] at unset
    exact (Multimap.getAll_overlay_of_nil unset).trans (plain _)

theorem getAll_captureClientTls {clientTlsHeader : Option HeaderName} (headers : HeaderMap)
    {name : HeaderName} (other : clientTlsHeader ≠ some name) (notToken : name ≠ .originToken) :
    (captureClientTls clientTlsHeader headers).getAll name = headers.getAll name := by
  unfold captureClientTls
  dsimp only
  rw [Multimap.getAll_remove, if_neg notToken]
  split
  · rw [Multimap.getAll_remove, if_neg fun same => other (congrArg some same.symm)]
  · rfl

/-- What reaches the backend by design. A header that a token names is left out wherever the proxy
or a context sets it. -/
structure Delivered : Prop where
  address : ∀ name, passage.delivery.backend.ipHeader = some name → passage.Free name →
    passage.sent.getAll name = [.ofIp passage.delivery.client]
  host : ∀ value, passage.delivery.backend.host = some value →
    passage.delivery.backend.ipHeader ≠ some .host → passage.Free .host →
    passage.sent.getAll .host = [value]
  context : ∀ name value, (passage.preparation.set.getAll name).getLast? = some value →
    passage.delivery.backend.ipHeader ≠ some name →
    (name = .host → passage.delivery.backend.host = none) → passage.Free name →
    passage.sent.getAll name = [value]
  hopByHop : ∀ name, HopByHop passage.upgrades name → passage.sent.getAll name = []
  named : ∀ name, passage.Names name → ¬ passage.Sets name → ¬ Delivery.Own name →
    passage.sent.getAll name = []
  cookies : ¬ passage.Sets .cookie → passage.clientTlsHeader ≠ some .cookie →
    passage.Free .cookie → passage.sent.getAll .cookie =
      (stripBagelCookies passage.preparation.sha256
        (captureClientTls passage.clientTlsHeader passage.client)
        passage.preparation.host).getAll .cookie
  unchanged : ∀ name, ¬ passage.Sets name → ¬ passage.Taken name → name ≠ .cookie →
    passage.Free name → passage.sent.getAll name = passage.client.getAll name

theorem notOwn_of_hopByHop {upgrades : Bool} {name : HeaderName} (ends : HopByHop upgrades name) :
    ¬ Delivery.Own name := by
  rintro (rfl | rfl)
  · revert upgrades
    decide
  · revert upgrades
    decide

/-- What the proxy does not set arrives as it was given. -/
theorem getAll_address {name : HeaderName}
    (notAddress : passage.delivery.backend.ipHeader ≠ some name)
    (notHost : name = .host → passage.delivery.backend.host = none ∧
      passage.given.getAll .host ≠ []) :
    (passage.delivery.address passage.given).getAll name = passage.given.getAll name := by
  have hosted : (match passage.delivery.backend.host with
      | some host => passage.given.insert .host host
      | none =>
        if passage.given.getAll .host = [] then
          match passage.delivery.authority.bind HeaderValue.fromStr with
          | some authority => passage.given.insert .host authority
          | none => passage.given
        else passage.given).getAll name = passage.given.getAll name := by
    by_cases isHost : name = .host
    · obtain ⟨noOverride, present⟩ := notHost isHost
      rw [noOverride]
      dsimp only
      rw [if_neg present]
    · split
      · rw [Multimap.getAll_insert, if_neg isHost]
      · split
        · split
          · rw [Multimap.getAll_insert, if_neg isHost]
          · rfl
        · rfl
  unfold Delivery.address
  dsimp only
  split
  · next other same =>
    rw [Multimap.getAll_insert, if_neg fun equal => notAddress (by rw [same, equal])]
    exact hosted
  · exact hosted

/-- The removal of cookies touches no other header. -/
theorem getAll_stripBagelCookies (sha256 : List UInt8 → Vector UInt8 32) (headers : HeaderMap)
    (host : String) {name : HeaderName} (other : name ≠ .cookie) :
    (stripBagelCookies sha256 headers host).getAll name = headers.getAll name := by
  unfold stripBagelCookies stripCookies
  split
  · rfl
  · split
    · rfl
    · dsimp only
      split
      · rw [Multimap.getAll_remove, if_neg other]
      · split
        · rw [Multimap.getAll_insert, if_neg other]
        · rfl

/-- Every request reaches its backend as it should, apart from what its Connection header names. -/
theorem delivered : passage.Delivered where
  address := by
    intro name same free
    rw [passage.getAll_sent_of_free free]
    unfold Delivery.address
    rw [same]
    dsimp only
    rw [Multimap.getAll_insert, if_pos rfl]
  host := by
    intro value same notAddress free
    rw [passage.getAll_sent_of_free free]
    unfold Delivery.address
    rw [same]
    dsimp only
    split
    · next other found =>
      rw [Multimap.getAll_insert, if_neg fun equal => notAddress (by rw [found, equal]),
        Multimap.getAll_insert, if_pos rfl]
    · rw [Multimap.getAll_insert, if_pos rfl]
  context := by
    intro name value set notAddress notHost free
    have given := passage.getAll_given_of_set set
    rw [passage.getAll_sent_of_free free, passage.getAll_address notAddress ?_, given]
    intro isHost
    refine ⟨notHost isHost, ?_⟩
    rw [← isHost, given]
    exact List.cons_ne_nil _ _
  hopByHop := by
    intro name ends
    exact (passage.delivery.getAll_proxyRequest _ name (notOwn_of_hopByHop ends)).trans
      (if_pos (.inl ends))
  named := by
    intro name names _ foreign
    exact (passage.delivery.getAll_proxyRequest _ name foreign).trans (if_pos (.inr names))
  cookies := by
    intro unset other free
    unfold Sets at unset
    push Not at unset
    rw [passage.getAll_sent_of_free free, passage.getAll_address unset.1 unset.2.1]
    exact passage.getAll_given_of_unset unset.2.2 fun encodings => absurd encodings.2 (by decide)
  unchanged := by
    intro name unset kept notCookie free
    unfold Sets at unset
    unfold Taken at kept
    push Not at unset kept
    rw [passage.getAll_sent_of_free free, passage.getAll_address unset.1 unset.2.1,
      passage.getAll_given_of_unset unset.2.2 fun encodings => kept.2.2 encodings.1 encodings.2,
      getAll_stripBagelCookies _ _ _ notCookie, getAll_captureClientTls _ kept.1 kept.2.1]

/-- A client that claims a fingerprint, on its way to a backend with no headers of its own. -/
def claimedFingerprint : Passage where
  clientTlsHeader := none
  preparation := ⟨exampleDigest, "example.com", false, none⟩
  delivery := ⟨⟨⟨"*", "http://origin.internal", none, none⟩, none, none⟩, none, .v4 0#32, .ofNat 0,
    none⟩
  client := Multimap.empty.insert .bagelJa4 (.ofNat 13)

/-- The header `x-bagel-ja4` of a client does not reach the backend, though nothing that is set,
named or ends at the proxy is the reason. -/
theorem claimedFingerprint_removed :
    ¬ ∀ (passage : Passage) (name : HeaderName), ¬ passage.Sets name →
      ¬ HopByHop passage.upgrades name → ¬ passage.Names name →
      passage.sent.getAll name = passage.client.getAll name := by
  intro unchanged
  have unset : ¬ claimedFingerprint.Sets .bagelJa4 := by
    rintro (address | ⟨host, -⟩ | set)
    · cases address
    · exact absurd host (by decide)
    · exact set rfl
  have kept := unchanged claimedFingerprint .bagelJa4 unset (by decide) (by decide)
  revert kept
  decide

end Passage

end Bagel
