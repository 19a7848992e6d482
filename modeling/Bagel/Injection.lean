/-
This file models what `finalize_response` of `server/pipeline.rs` does to a response: where it
comes from, the headers of the contexts, and the fragments that are appended to it. It proves
when the fragments go into proxied pages only, and go in whole.

The source looks at the response alone when it appends fragments, so it takes a page that an
action answered for one of the origin, it recognises the type of a page by the way it is
spelled, and it appends after the last frame, whatever that frame is.
-/

import Bagel.Forwarding
import Bagel.Sequences

namespace Bagel

namespace HeaderName

def vary : HeaderName := ⟨"vary", by decide⟩

def setCookie : HeaderName := ⟨"set-cookie", by decide⟩

end HeaderName

namespace HeaderValue

def viaBagel : HeaderValue := ⟨Bytes.ofText "bagel/0.1", by decide⟩

def privateNoStore : HeaderValue := ⟨Bytes.ofText "private, no-store", by decide⟩

end HeaderValue

/-! ### The answer of the backend -/

/-- What an origin answers. -/
structure OriginAnswer where
  status : Nat
  headers : HeaderMap
  data : List (List UInt8)
  trailers : Option HeaderMap

namespace OriginAnswer

variable (answer : OriginAnswer)

/-- Trailers end a body. -/
def frames : List Frame := answer.data.map .data ++ answer.trailers.toList.map .trailers

/-- `finish` -/
def finish : Response :=
  { Response.bare answer.status .empty with
    headers := (stripHopByHopHeaders answer.headers false).insert .via .viaBagel
    frames := answer.frames }

end OriginAnswer

/-- What becomes of a request that is forwarded. -/
inductive Upstream where
  | answered (answer : OriginAnswer)
  /-- The origin agreed to an upgrade. -/
  | switched (headers : HeaderMap)
  | failed

def Upstream.response : Upstream → Response
  | answered answer => answer.finish
  | switched headers => { Response.bare 101 .empty with headers := headers }
  | failed => .withType 502 .plain (Bytes.ofText "bad gateway") .empty

/-! ### Fragments -/

/-- The type that `inject_fragments` takes for HTML. -/
def startsLikeHtml (headers : HeaderMap) : Bool :=
  ((headers.get .contentType).bind HeaderValue.toStr).any fun type =>
    "text/html".toList.isPrefixOf type.toList

/-- The responses that `inject_fragments` appends to. -/
def takesFragments (response : Response) : Bool :=
  response.status = 200 && startsLikeHtml response.headers &&
    (response.headers.getAll .contentEncoding).isEmpty

/-- The bytes of the fragments, in the order they were queued. -/
def fragmentBytes (fragments : List Fragment) : List UInt8 :=
  fragments.flatMap fun fragment => Bytes.ofText fragment.text

/-- The length that a response declares. -/
def declaredLength (value : HeaderValue) : Option Nat := value.toStr.bind parseU64

/-- The declared length with that of a tail, unless the sum does not fit. -/
def extendLength (headers : HeaderMap) (tail : Nat) : HeaderMap :=
  match (headers.get .contentLength).bind declaredLength with
  | none => headers
  | some length =>
    if length + tail < 2 ^ 64 then headers.insert .contentLength (.ofNat (length + tail))
    else headers.remove .contentLength

/-- `inject_fragments`, with the body of `Appended`. -/
def injectFragments (response : Response) (fragments : List Fragment) : Response :=
  if takesFragments response then
    { response with
      headers := extendLength response.headers (fragmentBytes fragments).length
      frames := response.frames ++ [.data (fragmentBytes fragments)] }
  else response

/-! ### The end of a request -/

def varyFields : List String :=
  ["Cookie", "Accept", "Accept-Encoding", "Accept-Language", "User-Agent"]

/-- The fields that an origin varies on. -/
def existingVary (headers : HeaderMap) : List String :=
  (((headers.getAll .vary).filterMap HeaderValue.toStr).flatMap fun text =>
    (text.toList.splitOn ',').map fun field => String.ofList (trim field)).filter (· ≠ "")

/-- `merge_vary` -/
def mergeVary (headers : HeaderMap) : HeaderMap :=
  let existing := existingVary headers
  if existing.contains "*" then headers
  else
    let merged := existing ++ varyFields.filter fun field =>
      !existing.any fun present => eqIgnoreAsciiCase present field
    match HeaderValue.fromStr (", ".intercalate merged) with
    | some value => headers.insert .vary value
    | none => headers

/-- The request goes to a backend. -/
def Evaluation.Terminal.proxied : Evaluation.Terminal → Bool
  | .none => true
  | .handled response => response.marker.isSome
  | .dropped _ => false

/-- The headers of the contexts for the response. -/
def Evaluation.Terminal.pending : Evaluation.Terminal → HeaderMap
  | .handled response => response.responseHeaders.getD Multimap.empty
  | _ => Multimap.empty

/-- The response before the fragments, or nothing when the connection is dropped. -/
def answerOf (terminal : Evaluation.Terminal) (upstream : Upstream) : Option Response :=
  match terminal with
  | .dropped _ => none
  | .none => some upstream.response
  | .handled response =>
    let answered := if response.marker.isSome then upstream.response else response
    some { answered with headers := answered.headers.overlay terminal.pending }

/-- `finalize_response`, given the cookie that was sealed for the client, if any. -/
def finalizeResponse (terminal : Evaluation.Terminal) (injections : List Fragment)
    (upstream : Upstream) (cookie : Option HeaderValue) : Option Response :=
  (answerOf terminal upstream).map fun response =>
    let injected := if injections = [] then response
      else
        let extended := injectFragments response injections
        { extended with headers := extended.headers.insert .cacheControl .privateNoStore }
    let varied := { injected with headers := mergeVary injected.headers }
    match cookie with
    | none => varied
    | some cookie =>
      { varied with headers :=
          (varied.headers.append .setCookie cookie).insert .cacheControl .privateNoStore }

/-! ### What should be sent -/

/-- The media type of a response, without its parameters. -/
def mediaType (value : HeaderValue) : List Char :=
  (trim (value.characters.takeWhile (· ≠ ';'))).map Char.toLower

/-- An origin answered a page that fragments belong into. -/
def OriginAnswer.isPage (answer : OriginAnswer) : Bool :=
  answer.status = 200 &&
    (answer.headers.get .contentType).any (fun type => mediaType type = "text/html".toList) &&
    (answer.headers.getAll .contentEncoding).isEmpty

/-- The page that a request ends with, if it was proxied and the origin answered one. -/
def pageOf (terminal : Evaluation.Terminal) : Upstream → Option OriginAnswer
  | .answered answer => if terminal.proxied && answer.isPage then some answer else none
  | _ => none

/-- The body and the headers that the origin produced. -/
def Upstream.own : Upstream → List Frame × HeaderMap
  | answered answer => (answer.frames, answer.headers)
  | switched headers => ([], headers)
  | failed => (failed.response.frames, failed.response.headers)

/-- The body and the headers that the deciding action or the origin produced. -/
def ownOf (terminal : Evaluation.Terminal) (upstream : Upstream) : List Frame × HeaderMap :=
  match terminal with
  | .handled response =>
    if response.marker.isSome then upstream.own else (response.frames, response.headers)
  | _ => upstream.own

/-- The body that was produced, and the Content-Length, which a context may set. -/
def producedBy (terminal : Evaluation.Terminal) (upstream : Upstream) :
    List Frame × List HeaderValue :=
  ((ownOf terminal upstream).1,
    ((ownOf terminal upstream).2.overlay terminal.pending).getAll .contentLength)

/-- The bytes of a body. -/
def bodyBytes (frames : List Frame) : List UInt8 :=
  frames.flatMap fun frame =>
    match frame with
    | .data bytes => bytes
    | .trailers _ => []

/-- A page is sent with the fragments at its end, before any trailers and with its length; anything
else is sent as it was produced. -/
def SentWhole (terminal : Evaluation.Terminal) (injections : List Fragment) (upstream : Upstream)
    (sent : Response) : Prop :=
  match pageOf terminal upstream with
  | some page =>
    (∃ data : List (List UInt8),
      sent.frames = data.map .data ++ page.trailers.toList.map .trailers ∧
        data.flatten = page.data.flatten ++ fragmentBytes injections) ∧
      ∀ value ∈ sent.headers.getAll .contentLength,
        declaredLength value = some (bodyBytes sent.frames).length
  | none => (sent.frames, sent.headers.getAll .contentLength) = producedBy terminal upstream

/-! ### What is sent -/

theorem getAll_mergeVary (headers : HeaderMap) {name : HeaderName} (other : name ≠ .vary) :
    (mergeVary headers).getAll name = headers.getAll name := by
  unfold mergeVary
  dsimp only
  split
  · rfl
  · split
    · rw [Multimap.getAll_insert, if_neg other]
    · rfl

/-- The response with its fragments. -/
def extended (injections : List Fragment) (response : Response) : Response :=
  if injections = [] then response else injectFragments response injections

/-- What comes after the fragments changes neither the body nor its length. -/
theorem sent_of_answerOf {terminal : Evaluation.Terminal} {injections : List Fragment}
    {upstream : Upstream} {cookie : Option HeaderValue} {response sent : Response}
    (reaches : answerOf terminal upstream = some response)
    (sends : finalizeResponse terminal injections upstream cookie = some sent) :
    sent.frames = (extended injections response).frames ∧
      sent.headers.getAll .contentLength =
        (extended injections response).headers.getAll .contentLength := by
  have notVary : HeaderName.contentLength ≠ .vary := by decide
  have notCache : HeaderName.contentLength ≠ .cacheControl := by decide
  have notCookie : HeaderName.contentLength ≠ .setCookie := by decide
  unfold finalizeResponse at sends
  rw [reaches, Option.map_some] at sends
  cases sends
  unfold extended
  constructor
  · cases cookie <;> split <;> rfl
  · cases cookie <;> split <;>
      simp only [Multimap.getAll_insert, Multimap.getAll_append, if_neg notCache,
        if_neg notCookie, getAll_mergeVary _ notVary]

theorem extended_of_left {injections : List Fragment} {response : Response}
    (left : injections = [] ∨ takesFragments response = false) :
    extended injections response = response := by
  unfold extended injectFragments
  rcases left with none | refused
  · rw [if_pos none]
  · rw [refused]
    split <;> rfl

theorem frames_extended_of_takes {injections : List Fragment} {response : Response}
    (queued : injections ≠ []) (takes : takesFragments response = true) :
    (extended injections response).frames =
      response.frames ++ [.data (fragmentBytes injections)] := by
  unfold extended injectFragments
  rw [if_neg queued, if_pos takes]

theorem headers_extended_of_takes {injections : List Fragment} {response : Response}
    (queued : injections ≠ []) (takes : takesFragments response = true) :
    (extended injections response).headers =
      extendLength response.headers (fragmentBytes injections).length := by
  unfold extended injectFragments
  rw [if_neg queued, if_pos takes]

/-- Fragments are not empty. -/
theorem fragmentBytes_ne_nil {injections : List Fragment} (queued : injections ≠ []) :
    fragmentBytes injections ≠ [] := by
  obtain ⟨fragment, rest, rfl⟩ := List.exists_cons_of_ne_nil queued
  unfold fragmentBytes
  rw [List.flatMap_cons]
  intro empty
  obtain ⟨first, -⟩ := List.append_eq_nil_iff.mp empty
  exact fragment.nonempty (Bytes.ofText_inj (first.trans (by rfl : [] = Bytes.ofText "")))

/-! ### Lengths -/

theorem declaredLength_ofNat {number : Nat} (fits : number < 2 ^ 64) :
    declaredLength (.ofNat number) = some number := by
  unfold declaredLength
  rw [HeaderValue.toStr_ofNat, Option.bind_some]
  exact parseU64_toString (Nat.le_pred_of_lt fits)

theorem lt_of_declaredLength {value : HeaderValue} {number : Nat}
    (declared : declaredLength value = some number) : number < 2 ^ 64 := by
  obtain ⟨text, -, parsed⟩ := Option.bind_eq_some_iff.mp declared
  unfold parseU64 at parsed
  exact of_decide_eq_true (Option.filter_eq_some_iff.mp parsed).2

theorem getAll_extendLength (headers : HeaderMap) (tail : Nat) :
    (extendLength headers tail).getAll .contentLength =
      match (headers.get .contentLength).bind declaredLength with
      | none => headers.getAll .contentLength
      | some length => if length + tail < 2 ^ 64 then [.ofNat (length + tail)] else [] := by
  unfold extendLength
  split
  · rfl
  · split
    · rw [Multimap.getAll_insert, if_pos rfl]
    · rw [Multimap.getAll_remove, if_pos rfl]

/-- The length that is declared fits the body, or is left out once there is a tail. -/
def LengthKept (values : List HeaderValue) (total tail : Nat) : Prop :=
  ∀ value ∈ values, ∃ length, declaredLength value = some length ∧
    (length = total ∨ 2 ^ 64 ≤ length + tail)

theorem lengthKept_nil_tail (values : List HeaderValue) (total : Nat) :
    LengthKept values total 0 ↔ ∀ value ∈ values, declaredLength value = some total := by
  refine forall₂_congr fun value _ => ?_
  constructor
  · rintro ⟨length, declared, rfl | long⟩
    · exact declared
    · exact absurd (lt_of_declaredLength declared) (Nat.not_lt.mpr long)
  · intro declared
    exact ⟨total, declared, .inl rfl⟩

/-- With a tail the length that is sent is right exactly when the one declared before was. -/
theorem extendLength_iff {headers : HeaderMap} {total tail : Nat}
    (uniform : (∃ value, headers.getAll .contentLength = [value]) ∨
      ∀ value ∈ headers.getAll .contentLength, declaredLength value = some total) :
    (∀ value ∈ (extendLength headers tail).getAll .contentLength,
        declaredLength value = some (total + tail)) ↔
      LengthKept (headers.getAll .contentLength) total tail := by
  rw [getAll_extendLength]
  unfold Multimap.get
  cases values : headers.getAll .contentLength with
  | nil =>
    exact iff_of_true (fun _ none => absurd none List.not_mem_nil)
      fun _ none => absurd none List.not_mem_nil
  | cons first rest =>
    rw [values] at uniform
    rw [List.head?_cons, Option.bind_some]
    cases declared : declaredLength first with
    | none =>
      refine iff_of_false (fun every => ?_) fun kept => ?_
      · exact nomatch declared.symm.trans (every first List.mem_cons_self)
      · obtain ⟨length, found, -⟩ := kept first List.mem_cons_self
        exact nomatch declared.symm.trans found
    | some length =>
      dsimp only
      have others : LengthKept (first :: rest) total tail ↔
          length = total ∨ 2 ^ 64 ≤ length + tail := by
        constructor
        · intro kept
          obtain ⟨length', found, right⟩ := kept first List.mem_cons_self
          cases declared.symm.trans found
          exact right
        · intro right value member
          rcases uniform with ⟨single, one⟩ | all
          · rw [one] at member
            cases one
            cases List.mem_singleton.mp member
            exact ⟨length, declared, right⟩
          · exact ⟨total, all value member, .inl rfl⟩
      rw [others]
      by_cases fits : length + tail < 2 ^ 64
      · rw [if_pos fits, List.forall_mem_singleton, declaredLength_ofNat fits, Option.some_inj,
          or_iff_left (Nat.not_le.mpr fits)]
        omega
      · rw [if_neg fits]
        exact iff_of_true (fun _ none => absurd none List.not_mem_nil)
          (.inr (Nat.not_lt.mp fits))

/-! ### Frames -/

theorem bodyBytes_frames (data : List (List UInt8)) (trailers : Option HeaderMap) :
    bodyBytes (data.map .data ++ trailers.toList.map .trailers) = data.flatten := by
  unfold bodyBytes
  rw [List.flatMap_append, List.flatMap_map, List.flatMap_map]
  cases trailers with
  | none => simp [List.flatMap_id']
  | some headers => simp [List.flatMap_id']

/-- The data before the same trailers is the same. -/
theorem data_inj {data data' : List (List UInt8)} {trailers : Option HeaderMap}
    (same : data.map Frame.data ++ trailers.toList.map .trailers =
      data'.map .data ++ trailers.toList.map .trailers) : data = data' :=
  List.map_injective_iff.mpr (fun _ _ equal => Frame.data.inj equal) (List.append_cancel_right same)

/-- A body with trailers does not end in data. -/
theorem ends_in_trailers {data : List (List UInt8)} {headers : HeaderMap} {frames : List Frame}
    {bytes : List UInt8}
    (same : frames ++ [.data bytes] = data.map Frame.data ++ [.trailers headers]) : False := by
  have last := congrArg List.getLast? same
  rw [List.getLast?_concat, List.getLast?_concat] at last
  cases last

/-! ### Pages -/

/-- A length that an origin declares, if any, is not taken off: the Connection header does not name
it, or a context sets another one. -/
def LengthForwarded (terminal : Evaluation.Terminal) (answer : OriginAnswer) : Prop :=
  answer.headers.getAll .contentLength = [] ∨
    .contentLength ∉ connectionHeaders answer.headers ∨
    terminal.pending.getAll .contentLength ≠ []

/-- The branches on which the fragments end up where they belong. `response` is what they are
appended to. -/
structure InjectsRightly (terminal : Evaluation.Terminal) (injections : List Fragment)
    (upstream : Upstream) (response : Response) : Prop where
  recognised : injections ≠ [] →
    (takesFragments response = true ↔ (pageOf terminal upstream).isSome)
  trailers : injections ≠ [] → ∀ page, pageOf terminal upstream = some page → page.trailers = none
  pageLength : ∀ page, pageOf terminal upstream = some page →
    LengthKept (response.headers.getAll .contentLength) page.data.flatten.length
      (fragmentBytes injections).length
  otherLength : pageOf terminal upstream = none → terminal.proxied = true →
    ∀ answer, upstream = .answered answer → LengthForwarded terminal answer

theorem pageOf_eq_some {terminal : Evaluation.Terminal} {upstream : Upstream} {page : OriginAnswer}
    (found : pageOf terminal upstream = some page) :
    upstream = .answered page ∧ terminal.proxied = true := by
  unfold pageOf at found
  split at found
  · next answer =>
    split at found
    · next both =>
      cases found
      exact ⟨rfl, (Bool.and_eq_true_iff.mp both).1⟩
    · cases found
  · cases found

/-- What reaches the fragments of a request that was proxied: the frames of the origin, with the
headers that it and the contexts set. -/
theorem answerOf_proxied {terminal : Evaluation.Terminal} {upstream : Upstream}
    (proxied : terminal.proxied = true) {response : Response}
    (reaches : answerOf terminal upstream = some response) :
    response.frames = upstream.response.frames ∧
      ∀ name, response.headers.getAll name =
        (upstream.response.headers.overlay terminal.pending).getAll name := by
  unfold answerOf at reaches
  cases terminal with
  | none =>
    cases reaches
    exact ⟨rfl, fun name => (Multimap.getAll_overlay_of_nil rfl).symm⟩
  | dropped rule => cases proxied
  | handled decided =>
    have marked : decided.marker.isSome = true := proxied
    dsimp only at reaches
    rw [if_pos marked] at reaches
    cases reaches
    exact ⟨rfl, fun name => rfl⟩

/-- Every Content-Length that reaches a page is that of the contexts or that of the origin. -/
theorem uniform_of_page {headers pending : HeaderMap} {total : Nat}
    (right : ∀ value ∈ headers.getAll .contentLength, declaredLength value = some total) :
    let values := (((stripHopByHopHeaders headers false).insert .via .viaBagel).overlay
      pending).getAll .contentLength
    (∃ value, values = [value]) ∨ ∀ value ∈ values, declaredLength value = some total := by
  intro values
  have notVia : HeaderName.contentLength ≠ .via := by decide
  cases set : (pending.getAll .contentLength).getLast? with
  | some value =>
    refine .inl ⟨value, ?_⟩
    simp only [values, Multimap.overlay, set]
  | none =>
    refine .inr ?_
    have own : values = (stripHopByHopHeaders headers false).getAll .contentLength := by
      simp only [values, Multimap.overlay, set, Multimap.getAll_insert, if_neg notVia]
    rw [own, getAll_stripHopByHopHeaders]
    split
    · exact fun value none => absurd none List.not_mem_nil
    · exact right

/-- What is left of the length of an origin, with that of the contexts. -/
theorem contentLength_finish_iff (answer : OriginAnswer) (terminal : Evaluation.Terminal) :
    (answer.finish.headers.overlay terminal.pending).getAll .contentLength =
        (answer.headers.overlay terminal.pending).getAll .contentLength ↔
      LengthForwarded terminal answer := by
  have notVia : HeaderName.contentLength ≠ .via := by decide
  have left : answer.finish.headers.getAll .contentLength =
      if .contentLength ∈ connectionHeaders answer.headers then []
      else answer.headers.getAll .contentLength := by
    unfold OriginAnswer.finish
    rw [Multimap.getAll_insert, if_neg notVia, getAll_stripHopByHopHeaders]
    have notHopByHop : ¬ HopByHop false .contentLength := by decide
    simp [notHopByHop, Named]
  unfold LengthForwarded Multimap.overlay
  dsimp only
  cases set : (terminal.pending.getAll .contentLength).getLast? with
  | some value =>
    refine iff_of_true rfl (.inr (.inr fun empty => ?_))
    rw [empty] at set
    cases set
  | none =>
    have empty := List.getLast?_eq_none_iff.mp set
    dsimp only
    rw [left, empty]
    by_cases named : .contentLength ∈ connectionHeaders answer.headers
    · rw [if_pos named]
      refine ⟨fun none => .inl none.symm, ?_⟩
      rintro (none | other | other)
      · exact none.symm
      · exact absurd named other
      · exact absurd rfl other
    · rw [if_neg named]
      exact iff_of_true rfl (.inr (.inl named))

/-- The length that reaches the fragments is the one that was produced, unless it was taken off. -/
theorem contentLength_answerOf_iff {terminal : Evaluation.Terminal} {upstream : Upstream}
    {response : Response} (reaches : answerOf terminal upstream = some response) :
    response.headers.getAll .contentLength = (producedBy terminal upstream).2 ↔
      (terminal.proxied = true → ∀ answer, upstream = .answered answer →
        LengthForwarded terminal answer) := by
  by_cases proxied : terminal.proxied = true
  · obtain ⟨-, headers⟩ := answerOf_proxied proxied reaches
    have own : ownOf terminal upstream = upstream.own := by
      unfold ownOf
      cases terminal with
      | handled decided => exact if_pos proxied
      | _ => rfl
    rw [headers, imp_iff_right proxied, producedBy, own]
    cases upstream with
    | answered answer =>
      refine (contentLength_finish_iff answer terminal).trans ⟨fun forwarded other same => ?_,
        fun forwarded => forwarded answer rfl⟩
      cases same
      exact forwarded
    | switched headers => exact iff_of_true rfl fun _ same => by cases same
    | failed => exact iff_of_true rfl fun _ same => by cases same
  · refine iff_of_true ?_ fun marked => absurd marked proxied
    cases terminal with
    | none => exact absurd rfl proxied
    | dropped rule => cases reaches
    | handled decided =>
      have direct : ¬ decided.marker.isSome = true := proxied
      unfold answerOf at reaches
      dsimp only at reaches
      rw [if_neg direct] at reaches
      cases reaches
      unfold producedBy ownOf
      dsimp only
      rw [if_neg direct]

/-- The body that reaches the fragments is the one that was produced. -/
theorem frames_answerOf {terminal : Evaluation.Terminal} {upstream : Upstream}
    {response : Response} (reaches : answerOf terminal upstream = some response) :
    response.frames = (producedBy terminal upstream).1 := by
  have own : upstream.response.frames = upstream.own.1 := by cases upstream <;> rfl
  unfold answerOf at reaches
  unfold producedBy ownOf
  cases terminal with
  | none =>
    cases reaches
    exact own
  | dropped rule => cases reaches
  | handled decided =>
    cases reaches
    dsimp only
    split
    · exact own
    · rfl

/-- What is sent of a page. -/
theorem sentWhole_page_iff {page : OriginAnswer} {injections : List Fragment}
    {response sent : Response} (whole : response.frames = page.frames)
    (uniform : (∃ value, response.headers.getAll .contentLength = [value]) ∨
      ∀ value ∈ response.headers.getAll .contentLength,
        declaredLength value = some page.data.flatten.length)
    (frames : sent.frames = (extended injections response).frames)
    (lengths : sent.headers.getAll .contentLength =
      (extended injections response).headers.getAll .contentLength) :
    ((∃ data : List (List UInt8),
        sent.frames = data.map .data ++ page.trailers.toList.map .trailers ∧
          data.flatten = page.data.flatten ++ fragmentBytes injections) ∧
        ∀ value ∈ sent.headers.getAll .contentLength,
          declaredLength value = some (bodyBytes sent.frames).length) ↔
      (injections ≠ [] → takesFragments response = true ∧ page.trailers = none) ∧
        LengthKept (response.headers.getAll .contentLength) page.data.flatten.length
          (fragmentBytes injections).length := by
  by_cases queued : injections = []
  · have same : extended injections response = response := extended_of_left (.inl queued)
    have empty : fragmentBytes injections = [] := by rw [queued]; rfl
    rw [same, whole] at frames
    rw [same] at lengths
    rw [frames, lengths, empty, List.length_nil, lengthKept_nil_tail, OriginAnswer.frames,
      bodyBytes_frames, and_iff_right (fun other => absurd queued other)]
    exact and_iff_right ⟨page.data, rfl, (List.append_nil _).symm⟩
  · have nonempty := fragmentBytes_ne_nil queued
    cases takes : takesFragments response with
    | false =>
      have same : extended injections response = response := extended_of_left (.inr takes)
      rw [same, whole] at frames
      refine iff_of_false ?_ fun right => nomatch (right.1 queued).1
      rintro ⟨⟨data, shape, longer⟩, -⟩
      cases data_inj (frames.symm.trans shape)
      exact nonempty (List.append_right_eq_self.mp longer.symm)
    | true =>
      rw [frames_extended_of_takes queued takes, whole] at frames
      rw [headers_extended_of_takes queued takes] at lengths
      cases trailers : page.trailers with
      | some headers =>
        refine iff_of_false ?_ fun right => nomatch (right.1 queued).2
        rintro ⟨⟨data, shape, -⟩, -⟩
        exact ends_in_trailers (frames.symm.trans shape)
      | none =>
        have all : sent.frames = (page.data ++ [fragmentBytes injections]).map .data ++
            (none : Option HeaderMap).toList.map .trailers := by
          rw [frames, OriginAnswer.frames, trailers]
          simp
        have total : (bodyBytes sent.frames).length =
            page.data.flatten.length + (fragmentBytes injections).length := by
          rw [all, bodyBytes_frames]
          simp
        rw [lengths, total, extendLength_iff uniform,
          and_iff_right (fun _ => ⟨rfl, rfl⟩ : injections ≠ [] → true = true ∧ _ = none)]
        refine and_iff_right ⟨_, all, ?_⟩
        simp

/-- Whatever was queued, and wherever a request ends: fragments go into proxied pages only, and go
in whole, exactly when the response is recognised for what it is, a page that takes fragments has
no trailers, and a length that the origin declared is not taken off. -/
theorem sentWhole_iff {terminal : Evaluation.Terminal} {injections : List Fragment}
    {upstream : Upstream} {cookie : Option HeaderValue} {response sent : Response}
    (right : ∀ answer, upstream = .answered answer →
      ∀ value ∈ answer.headers.getAll .contentLength,
        declaredLength value = some answer.data.flatten.length)
    (reaches : answerOf terminal upstream = some response)
    (sends : finalizeResponse terminal injections upstream cookie = some sent) :
    SentWhole terminal injections upstream sent ↔
      InjectsRightly terminal injections upstream response := by
  obtain ⟨frames, lengths⟩ := sent_of_answerOf reaches sends
  unfold SentWhole
  cases found : pageOf terminal upstream with
  | some page =>
    obtain ⟨answered, proxied⟩ := pageOf_eq_some found
    obtain ⟨whole, headers⟩ := answerOf_proxied proxied reaches
    rw [answered] at whole headers
    have uniform : (∃ value, response.headers.getAll .contentLength = [value]) ∨
        ∀ value ∈ response.headers.getAll .contentLength,
          declaredLength value = some page.data.flatten.length := by
      rw [headers .contentLength]
      exact uniform_of_page (right page answered)
    dsimp only
    rw [sentWhole_page_iff whole uniform frames lengths]
    constructor
    · rintro ⟨takes, kept⟩
      refine ⟨fun queued => ?_, ?_, ?_, fun none => nomatch found.symm.trans none⟩
      · rw [found]
        exact iff_of_true (takes queued).1 rfl
      · intro queued other same
        cases found.symm.trans same
        exact (takes queued).2
      · intro other same
        cases found.symm.trans same
        exact kept
    · intro rightly
      refine ⟨fun queued => ⟨?_, rightly.trailers queued page found⟩,
        rightly.pageLength page found⟩
      exact (rightly.recognised queued).mpr (by rw [found]; rfl)
  | none =>
    dsimp only
    have whole := frames_answerOf reaches
    by_cases left : injections = [] ∨ takesFragments response = false
    · rw [extended_of_left left] at frames lengths
      rw [frames, lengths, whole]
      constructor
      · intro same
        refine ⟨fun queued => ?_, ?_, ?_, fun _ =>
          (contentLength_answerOf_iff reaches).mp (congrArg Prod.snd same)⟩
        · rw [found, left.resolve_left queued]
          exact iff_of_false Bool.false_ne_true Bool.false_ne_true
        · exact fun _ page other => nomatch found.symm.trans other
        · exact fun page other => nomatch found.symm.trans other
      · intro rightly
        exact Prod.ext rfl ((contentLength_answerOf_iff reaches).mpr (rightly.otherLength found))
    · push Not at left
      obtain ⟨queued, takes⟩ := left
      have taken : takesFragments response = true := by simpa using takes
      refine iff_of_false ?_ fun rightly => ?_
      · intro same
        have bodies := congrArg Prod.fst same
        dsimp only at bodies
        rw [frames, frames_extended_of_takes queued taken, whole] at bodies
        exact List.cons_ne_nil _ _ (List.append_right_eq_self.mp bodies)
      · have page := (rightly.recognised queued).mp taken
        rw [found] at page
        cases page

/-- A page of an origin, with its length. -/
def plainPage : OriginAnswer where
  status := 200
  headers := (Multimap.empty.insert .contentType .html).insert .contentLength (.ofNat 3)
  data := [Bytes.ofText "<p>"]
  trailers := none

theorem div_nonempty : "<div>" ≠ "" := by decide

def plainFragment : Fragment := ⟨"<div>", div_nonempty⟩

theorem sentWhole_iff_plainPage :
    ∃ response sent, answerOf .none (.answered plainPage) = some response ∧
      finalizeResponse .none [plainFragment] (.answered plainPage) none = some sent ∧
      (SentWhole .none [plainFragment] (.answered plainPage) sent ↔
        InjectsRightly .none [plainFragment] (.answered plainPage) response) := by
  have right : ∀ answer, Upstream.answered plainPage = .answered answer →
      ∀ value ∈ answer.headers.getAll .contentLength,
        declaredLength value = some answer.data.flatten.length := by
    intro answer same
    cases same
    intro value member
    cases List.mem_singleton.mp member
    decide
  obtain ⟨sent, sends⟩ : ∃ sent, finalizeResponse .none [plainFragment] (.answered plainPage) none =
      some sent := ⟨_, rfl⟩
  exact ⟨_, sent, rfl, sends, sentWhole_iff right rfl sends⟩

/-- A page of a maze that a rule answers with is extended by the fragments of a rule before it. -/
theorem mazePage_extended :
    ¬ ∀ (terminal : Evaluation.Terminal) (injections : List Fragment) (upstream : Upstream)
      (cookie : Option HeaderValue) (sent : Response),
      (∀ answer, upstream = .answered answer → ∀ value ∈ answer.headers.getAll .contentLength,
        declaredLength value = some answer.data.flatten.length) →
      finalizeResponse terminal injections upstream cookie = some sent →
      SentWhole terminal injections upstream sent := by
  intro always
  have whole := always (.handled (Evaluation.mazeEnvelope "cellar" [])) [plainFragment] .failed none
    _ (fun answer other => nomatch other) rfl
  have frames := congrArg (fun produced => produced.1.length) whole
  revert frames
  decide

end Bagel
