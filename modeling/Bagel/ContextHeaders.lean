/-
This file proves where the headers of `context` rules go.

A context hands its request headers down, laid over those of the contexts around it, and what
decides the request below it sees them. On the way up the innermost context notes what it handed
down for the backend, and every context adds its response headers, the outermost last. So the
innermost context wins for the request and the outermost one for the response, and it makes no
difference for the response whether a backend or the server answers.

A context that went on is not on the path to the rule that decides, so what it had set is gone.
Every condition that is evaluated sees the contexts above the place of its own rule and no others.
-/

import Bagel.ContextBindings
import Bagel.DecidingRules
import Bagel.Forwarding
import Bagel.Injection

namespace Bagel

/-! ### Maps laid over each other -/

/-- The value of the first map that sets a header. -/
def firstSet (maps : List HeaderMap) (name : HeaderName) : Option HeaderValue :=
  maps.findSome? fun map => (map.getAll name).getLast?

/-- The values of a header where some maps come before others. -/
def valuesFrom (maps : List HeaderMap) (otherwise : List HeaderValue) (name : HeaderName) :
    List HeaderValue :=
  match firstSet maps name with
  | some value => [value]
  | none => otherwise

theorem getAll_overlay (map entries : HeaderMap) (name : HeaderName) :
    (map.overlay entries).getAll name = valuesFrom [entries] (map.getAll name) name := by
  unfold valuesFrom firstSet Multimap.overlay
  rw [List.findSome?_singleton]
  dsimp only
  cases (entries.getAll name).getLast? <;> rfl

theorem firstSet_append (first second : List HeaderMap) (name : HeaderName) :
    firstSet (first ++ second) name = (firstSet first name).or (firstSet second name) :=
  List.findSome?_append

theorem valuesFrom_append (first second : List HeaderMap) (otherwise : List HeaderValue)
    (name : HeaderName) :
    valuesFrom (first ++ second) otherwise name =
      valuesFrom first (valuesFrom second otherwise name) name := by
  unfold valuesFrom
  rw [firstSet_append]
  cases firstSet first name <;> rfl

/-- Of maps laid over each other the last one wins. -/
theorem getAll_foldl_overlay (maps : List HeaderMap) (base : HeaderMap) (name : HeaderName) :
    (maps.foldl Multimap.overlay base).getAll name =
      valuesFrom maps.reverse (base.getAll name) name := by
  induction maps generalizing base with
  | nil => rfl
  | cons map rest inductionHypothesis =>
    rw [List.foldl_cons, inductionHypothesis, getAll_overlay, List.reverse_cons, valuesFrom_append]

/-- What was laid over nothing wins as a whole. -/
theorem getAll_overlay_foldl (maps : List HeaderMap) (base : HeaderMap) (name : HeaderName) :
    (base.overlay (maps.foldl Multimap.overlay Multimap.empty)).getAll name =
      valuesFrom maps.reverse (base.getAll name) name := by
  have laid := getAll_foldl_overlay maps Multimap.empty name
  rw [getAll_overlay]
  unfold valuesFrom firstSet at laid ⊢
  rw [List.findSome?_singleton, laid]
  cases maps.reverse.findSome? fun map => (map.getAll name).getLast? <;> rfl

variable {Digest Condition Regex Facts : Type}

namespace Evaluation

variable [LinearOrder Digest]

/-! ### Answers before any context -/

/-- No context has added to the response yet. -/
def Unwrapped : RuleOutcome → Prop
  | .handled response => response.requestHeaders = none ∧ response.responseHeaders = none
  | _ => True

section Unwrapped

omit [LinearOrder Digest]

variable (evaluation : Evaluation Digest Condition Regex Facts)

theorem Unwrapped.tagged {outcome : RuleOutcome} (unwrapped : Unwrapped outcome)
    (rule action : String) : Unwrapped (outcome.tagged rule action) := by
  unfold RuleOutcome.tagged
  split
  · split
    · exact unwrapped
    · exact unwrapped
  · exact unwrapped

theorem unwrapped_tarpitResponse (maze : String) (state : EvalState Digest Facts) :
    Unwrapped (.handled (evaluation.tarpitResponse maze state).1) := by
  unfold tarpitResponse
  dsimp only
  split <;> exact ⟨rfl, rfl⟩

theorem unwrapped_smearResponse (state : EvalState Digest Facts) :
    Unwrapped (evaluation.smearResponse state).1 := by
  unfold smearResponse
  split
  · exact ⟨rfl, rfl⟩
  · exact trivial

theorem unwrapped_dispatchSubAction (action : RuleAction Regex) (state : EvalState Digest Facts) :
    Unwrapped (evaluation.dispatchSubAction action state).1 := by
  unfold dispatchSubAction
  split
  · exact evaluation.unwrapped_tarpitResponse _ state
  · exact ⟨rfl, rfl⟩
  · exact ⟨rfl, rfl⟩
  · exact trivial
  · exact evaluation.unwrapped_smearResponse state
  · exact ⟨rfl, rfl⟩

theorem unwrapped_challengeResponse (name : Text) (httpCode moment : Nat) :
    Unwrapped (.handled (evaluation.challengeResponse name httpCode moment)) := by
  unfold challengeResponse
  split <;> exact ⟨rfl, rfl⟩

end Unwrapped

section Runs

variable (evaluation : Evaluation Digest Condition Regex Facts)

theorem unwrapped_evaluateChallenges (context : ConditionContext Facts) (rule : String)
    (challenge : RuleChallenge) (check : Bool) (now : Int) (names : List Text)
    (state : EvalState Digest Facts) :
    Unwrapped (evaluation.evaluateChallenges context rule challenge check now names state).1 := by
  induction names generalizing state with
  | nil =>
    rw [evaluateChallenges]
    split
    · exact trivial
    · exact evaluation.unwrapped_dispatchSubAction _ _
  | cons name rest inductionHypothesis =>
    rw [evaluateChallenges]
    split
    · exact inductionHypothesis _
    · exact inductionHypothesis _
    · exact ⟨rfl, rfl⟩
    · exact evaluation.unwrapped_challengeResponse _ _ _
    · exact evaluation.unwrapped_dispatchSubAction _ _

theorem unwrapped_evaluateAction (context : ConditionContext Facts) (name : String)
    (action : RuleAction Regex) (state : EvalState Digest Facts) :
    Unwrapped (evaluation.evaluateAction context name action state).1 := by
  cases action with
  | none => exact trivial
  | pass =>
    have own : Unwrapped (.handled .passed) := ⟨rfl, rfl⟩
    exact own.tagged name "pass"
  | deny code =>
    have own : Unwrapped (evaluation.denyResponse code) := ⟨rfl, rfl⟩
    exact own.tagged name "deny"
  | block code =>
    have own : Unwrapped (evaluation.blockResponse code) := ⟨rfl, rfl⟩
    exact own.tagged name "block"
  | code code =>
    have own : Unwrapped (.handled (.bare (statusOf code 403) .empty)) := ⟨rfl, rfl⟩
    exact own.tagged name "code"
  | drop => exact trivial
  | tarpit maze => exact (evaluation.unwrapped_tarpitResponse maze state).tagged name "tarpit"
  | smear => exact (evaluation.unwrapped_smearResponse state).tagged name "smear"
  | lure maze => exact trivial
  | beacon => exact trivial
  | report kind => exact trivial
  | context responseHeaders requestHeaders => exact trivial
  | proxy matchRe rewrite backend =>
    have own : Unwrapped (evaluation.proxyOutcome matchRe rewrite backend) := ⟨rfl, rfl⟩
    exact own.tagged name "proxy"
  | challenge challenge =>
    exact (evaluation.unwrapped_evaluateChallenges context name challenge false _ _ _).tagged name
      "challenge"
  | check challenge =>
    exact (evaluation.unwrapped_evaluateChallenges context name challenge true _ _ _).tagged name
      "check"

/-- Nothing is added to what the deciding rule answers before it goes up. -/
theorem Decides.unwrapped {scope : EvalScope Facts} {rules : List (RuleState Condition Regex)}
    {state final : EvalState Digest Facts} {above : List (RuleState Condition Regex)}
    {deciding : Deciding Condition Regex Facts}
    (decides : Decides evaluation scope rules state above deciding final) :
    Unwrapped deciding.outcome := by
  induction decides with
  | pass _ _ inductionHypothesis => exact inductionHypothesis
  | action holds outer answers ends =>
    have outcome := congrArg Prod.fst answers
    dsimp only at outcome
    rw [← outcome]
    exact evaluation.unwrapped_evaluateAction _ _ _ _
  | group _ _ inductionHypothesis => exact inductionHypothesis
  | context _ _ inductionHypothesis => exact inductionHypothesis

end Runs

/-! ### What the contexts add -/

section Wrap

omit [LinearOrder Digest]

variable (headers : HeaderMap) (contexts : List ContextHeaders) (own : Response)

theorem marker_wrap : (wrap headers contexts own).marker = own.marker :=
  (sameLabel_wrap headers contexts own).marker

/-- The innermost context notes the headers of all of them for the backend. -/
theorem requestHeaders_wrap (proxied : own.marker.isSome = true)
    (unwrapped : own.requestHeaders = none) :
    (wrap headers contexts own).requestHeaders =
      if contexts = [] then none
      else some ((contexts.map ContextHeaders.request).foldl Multimap.overlay headers) := by
  induction contexts generalizing headers with
  | nil => exact unwrapped
  | cons context rest inductionHypothesis =>
    have marked : (wrap (headers.overlay context.request) rest own).marker.isSome = true := by
      rw [marker_wrap]
      exact proxied
    rw [wrap, applyPending]
    rw [if_pos marked, inductionHypothesis, if_neg (List.cons_ne_nil _ _)]
    split
    · next last =>
      rw [last]
      rfl
    · rfl

/-- Each context lays its headers over what is noted for the response of a backend. -/
theorem responseHeaders_wrap (proxied : own.marker.isSome = true)
    (unwrapped : own.responseHeaders = none) :
    (wrap headers contexts own).responseHeaders.getD Multimap.empty =
      (contexts.map ContextHeaders.response).reverse.foldl Multimap.overlay Multimap.empty := by
  induction contexts generalizing headers with
  | nil =>
    rw [wrap, unwrapped]
    rfl
  | cons context rest inductionHypothesis =>
    have marked : (wrap (headers.overlay context.request) rest own).marker.isSome = true := by
      rw [marker_wrap]
      exact proxied
    rw [wrap, applyPending]
    rw [if_pos marked, inductionHypothesis, List.map_cons, List.reverse_cons, List.foldl_append]
    rfl

/-- Each context lays its headers over those of an answer of the server. -/
theorem headers_wrap (direct : own.marker.isSome = false) :
    (wrap headers contexts own).headers =
      (contexts.map ContextHeaders.response).reverse.foldl Multimap.overlay own.headers := by
  induction contexts generalizing headers with
  | nil => rfl
  | cons context rest inductionHypothesis =>
    have unmarked : (wrap (headers.overlay context.request) rest own).marker.isSome = false := by
      rw [marker_wrap]
      exact direct
    rw [wrap, applyPending]
    rw [if_neg (by simp [unmarked]), inductionHypothesis, List.map_cons, List.reverse_cons,
      List.foldl_append]
    rfl

theorem responseHeaders_wrap_direct (direct : own.marker.isSome = false)
    (unwrapped : own.responseHeaders = none) :
    (wrap headers contexts own).responseHeaders = none := by
  induction contexts generalizing headers with
  | nil => exact unwrapped
  | cons context rest inductionHypothesis =>
    have unmarked : (wrap (headers.overlay context.request) rest own).marker.isSome = false := by
      rw [marker_wrap]
      exact direct
    rw [wrap, applyPending]
    rw [if_neg (by simp [unmarked])]
    exact inductionHypothesis _

end Wrap

/-! ### What is applied -/

/-- The headers that the contexts set for the backend. -/
def Terminal.contextHeaders : Terminal → Option HeaderMap
  | .handled response => response.requestHeaders
  | _ => Option.none

/-- The response headers of the contexts among some rules. -/
def responsesOf (rules : List (RuleState Condition Regex)) : List HeaderMap :=
  (contextsOf rules).map ContextHeaders.response

/-- The headers that the server sets itself on the way out. -/
def isServerHeader (name : HeaderName) : Prop :=
  name = .cacheControl ∨ name = .contentLength ∨ name = .vary ∨ name = .setCookie

/-- A rule below others saw some bindings and answered a request. `base` is what conditions outside
of every context see. -/
structure HeadersScoped (base : ConditionContext Facts) (above : List (RuleState Condition Regex))
    (saw : ConditionContext Facts) (own : Response) (terminal : Terminal) : Prop where
  /-- The rule saw the request headers of the contexts above it, the innermost first. -/
  seen : ∀ name, saw.headers name =
    ((firstSet (requestsOf above).reverse name).map fun value => value.toStr.getD "").or
      (base.headers name)
  proxied : terminal.proxied = own.marker.isSome
  /-- A backend is given these headers besides those of the client. -/
  request : ∀ preparation : Preparation, preparation.contextHeaders = terminal.contextHeaders →
    own.marker.isSome = true → ∀ headers name,
      (preparation.finalizeRequest headers).getAll name = valuesFrom (requestsOf above).reverse
        (({ preparation with contextHeaders := none } : Preparation).finalizeRequest
          headers |>.getAll name) name
  /-- Whoever answers, the response has their response headers, the outermost first. -/
  response : ∀ upstream answer, answerOf terminal upstream = some answer → ∀ name,
    answer.headers.getAll name = valuesFrom (responsesOf above)
      ((if own.marker.isSome then upstream.response else own).headers.getAll name) name
  /-- What is sent differs only in the headers that the server sets itself. -/
  sent : ∀ upstream injections cookie answer sent, answerOf terminal upstream = some answer →
    finalizeResponse terminal injections upstream cookie = some sent → ∀ name,
      ¬ isServerHeader name → sent.headers.getAll name = answer.headers.getAll name

section Scoped

omit [LinearOrder Digest]

theorem headers_foldl_withRequestHeaders (maps : List HeaderMap) (base : ConditionContext Facts)
    (name : HeaderName) :
    (maps.foldl ConditionContext.withRequestHeaders base).headers name =
      ((firstSet maps.reverse name).map fun value => value.toStr.getD "").or
        (base.headers name) := by
  induction maps generalizing base with
  | nil => rfl
  | cons map rest inductionHypothesis =>
    have first : (base.withRequestHeaders map).headers name =
        ((firstSet [map] name).map fun value => value.toStr.getD "").or (base.headers name) := by
      unfold firstSet
      rw [List.findSome?_singleton]
      show (boundText (map.getAll name) <|> base.headers name) = _
      unfold boundText
      cases (map.getAll name).getLast? <;> rfl
    rw [List.foldl_cons, inductionHypothesis, first, List.reverse_cons, firstSet_append]
    cases firstSet rest.reverse name <;> rfl

theorem getAll_finalizeRequest (preparation : Preparation) (headers : HeaderMap)
    (name : HeaderName) :
    (preparation.finalizeRequest headers).getAll name = valuesFrom [preparation.set]
      (({ preparation with contextHeaders := none } : Preparation).finalizeRequest
        headers |>.getAll name) name := by
  rw [← getAll_overlay]
  unfold Preparation.finalizeRequest Preparation.set
  cases preparation.contextHeaders with
  | none =>
    rw [Option.getD_none, getAll_overlay]
    rfl
  | some contextHeaders => rfl

theorem getAll_finalizeResponse {terminal : Terminal} {injections : List Fragment}
    {upstream : Upstream} {cookie : Option HeaderValue} {answer sent : Response}
    (answers : answerOf terminal upstream = some answer)
    (sends : finalizeResponse terminal injections upstream cookie = some sent) {name : HeaderName}
    (foreign : ¬ isServerHeader name) : sent.headers.getAll name = answer.headers.getAll name := by
  unfold isServerHeader at foreign
  push Not at foreign
  obtain ⟨notCache, notLength, notVary, notCookie⟩ := foreign
  have extended (headers : HeaderMap) (tail : Nat) :
      (extendLength headers tail).getAll name = headers.getAll name := by
    unfold extendLength
    split
    · rfl
    · split
      · rw [Multimap.getAll_insert, if_neg notLength]
      · rw [Multimap.getAll_remove, if_neg notLength]
  have injected : (injectFragments answer injections).headers.getAll name =
      answer.headers.getAll name := by
    unfold injectFragments
    split
    · exact extended _ _
    · rfl
  unfold finalizeResponse at sends
  rw [answers, Option.map_some] at sends
  cases sends
  cases cookie <;> split <;>
    simp only [Multimap.getAll_insert, Multimap.getAll_append, if_neg notCache, if_neg notCookie,
      getAll_mergeVary _ notVary, injected]

end Scoped

variable (evaluation : Evaluation Digest Condition Regex Facts)

/-- The headers of the contexts above a deciding rule go where they should. -/
theorem Decides.headersScoped {base : ConditionContext Facts}
    {rules : List (RuleState Condition Regex)} {state final : EvalState Digest Facts}
    {above : List (RuleState Condition Regex)} {deciding : Deciding Condition Regex Facts}
    (decides : Decides evaluation ⟨base, Multimap.empty, [], []⟩ rules state above deciding final)
    {own : Response} (answers : deciding.outcome = .handled own) :
    HeadersScoped base above deciding.context own
      (.handled (wrap Multimap.empty (contextsOf above) own)) := by
  have unwrapped : Unwrapped (.handled own) := answers ▸ decides.unwrapped
  refine ⟨fun name => ?_, congrArg Option.isSome (marker_wrap _ _ _), ?_, ?_,
    fun _ _ _ _ _ answers sends _ foreign => getAll_finalizeResponse answers sends foreign⟩
  · obtain ⟨place, -, saw, -⟩ := decides.located
    rw [saw]
    exact headers_foldl_withRequestHeaders _ _ _
  · intro preparation given proxied headers name
    have set : preparation.set = (requestsOf above).foldl Multimap.overlay Multimap.empty := by
      unfold Preparation.set
      rw [given, Terminal.contextHeaders, requestHeaders_wrap _ _ _ proxied unwrapped.1, requestsOf]
      split
      · next outside =>
        rw [outside]
        rfl
      · rfl
    rw [getAll_finalizeRequest, set, ← getAll_overlay, getAll_overlay_foldl]
  · intro upstream answer answers name
    cases proxied : own.marker.isSome with
    | true =>
      have marked : (wrap Multimap.empty (contextsOf above) own).marker.isSome = true := by
        rw [marker_wrap, proxied]
      unfold answerOf Terminal.pending at answers
      dsimp only at answers
      rw [if_pos marked, responseHeaders_wrap _ _ _ proxied unwrapped.2] at answers
      cases answers
      rw [if_pos rfl, getAll_overlay_foldl, List.reverse_reverse]
      rfl
    | false =>
      have unmarked : ¬ (wrap Multimap.empty (contextsOf above) own).marker.isSome = true := by
        rw [marker_wrap, proxied]
        exact Bool.false_ne_true
      unfold answerOf Terminal.pending at answers
      dsimp only at answers
      rw [if_neg unmarked, responseHeaders_wrap_direct _ _ _ proxied unwrapped.2] at answers
      cases answers
      rw [if_neg Bool.false_ne_true, Option.getD_none]
      show ((wrap Multimap.empty (contextsOf above) own).headers.overlay Multimap.empty).getAll
        name = _
      rw [Multimap.getAll_overlay_of_nil rfl, headers_wrap _ _ _ proxied, getAll_foldl_overlay,
        List.reverse_reverse]
      rfl

/-! ### The whole request -/

/-- For every tree of rules and every request: what answers is a rule with some contexts above it,
whose headers, and no others, are applied to what is forwarded and to what is answered, and which
that rule saw, as its condition did. Every condition that is evaluated sees the headers of the
contexts above the place of its own rule: not those of a context that was passed, whatever the
rules below it did. -/
theorem context_headers_scoped (context : ConditionContext Facts) (token : Option (Token Digest)) :
    (∀ response final, evaluation.evaluateRules ⟨context, Multimap.empty, [], []⟩
        evaluation.snapshot.rules (.start token) = (.handled response, final) →
      ∃ above deciding own, Decides evaluation ⟨context, Multimap.empty, [], []⟩
        evaluation.snapshot.rules (.start token) above deciding final ∧
          deciding.outcome = .handled own) ∧
    (∀ above deciding own final, Decides evaluation ⟨context, Multimap.empty, [], []⟩
        evaluation.snapshot.rules (.start token) above deciding final →
      deciding.outcome = .handled own →
      HeadersScoped context above deciding.context own
          (evaluation.handleRequest context token).terminal ∧
        ∃ place, ruleAt evaluation.snapshot.rules place = some (above, deciding.rule) ∧
          (deciding.rule.condition ≠ none →
            ∃ entry ∈ (evaluation.handleRequest context token).state.seen,
              entry.place = place ∧ entry.context = deciding.context)) ∧
    ∀ entry ∈ (evaluation.handleRequest context token).state.seen, ∃ above rule,
      ruleAt evaluation.snapshot.rules entry.place = some (above, rule) ∧
      rule.condition ≠ none ∧
      ∀ name, entry.context.headers name =
        ((firstSet (requestsOf above).reverse name).map fun value => value.toStr.getD "").or
          (context.headers name) := by
  refine ⟨fun response final answers => ?_, fun above deciding own final decides answers => ?_,
    fun entry member => ?_⟩
  · obtain ⟨above, deciding, decides⟩ := evaluation.exists_decides answers fun none => by cases none
    have terminal := congrArg Prod.fst (answers.symm.trans decides.evaluateRules)
    cases outcome : deciding.outcome with
    | handled own => exact ⟨above, deciding, own, decides, outcome⟩
    | «continue» => exact absurd outcome decides.ends
    | drop =>
      rw [outcome] at terminal
      cases terminal
  · have follows := decides.evaluateRules
    rw [answers] at follows
    have seen := evaluation.seen_handleRequest context token
    rw [follows] at seen
    refine ⟨?_, ?_⟩
    · rw [evaluation.handleRequest_of_ended follows fun none => by cases none]
      exact decides.headersScoped evaluation answers
    · obtain ⟨place, found, saw, listed⟩ := decides.located
      refine ⟨place, found, fun conditional => ?_⟩
      refine ⟨_, ?_, List.nil_append place, saw.symm⟩
      rw [seen]
      exact listed conditional
  · rw [evaluation.seen_handleRequest, evaluateRules_snd] at member
    rcases evaluation.seesAbove_evalChildren _ none _ _ entry member with
      none | ⟨place, above, rule, found, conditional, saw⟩
    · cases none
    · rw [saw]
      exact ⟨above, rule, found, conditional,
        headers_foldl_withRequestHeaders (requestsOf above) context⟩

end Evaluation

end Bagel
