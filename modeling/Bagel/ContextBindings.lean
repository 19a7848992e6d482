/-
This file settles which host and which user agent the conditions of a rule tree see.

`request_context` binds the canonical host once, next to the headers of the request as they
came. Every `context` rule computes both bindings anew from the headers, so below one of them
a condition sees the `Host` header as the client wrote it. The canonical host survives exactly
when the client wrote it that way or not at all. The user agent is taken from the headers from
the start and never changes.
-/

import Bagel.Hosts
import Bagel.RuleInvariants

namespace Bagel

variable {Digest Condition Regex Facts : Type}

/-! ### The context of a request -/

/-- `from_request` and `request_context`: what conditions outside of any context see. -/
def requestContext (headers : HeaderMap) (canonical : CanonicalHost) (remoteIp : Option IpAddr)
    (stack : Option String) (rendered : Bool) (facts : Facts) : ConditionContext Facts where
  host := canonical.text
  userAgent := (boundText (headers.getAll .userAgent)).getD ""
  headers := fun name => boundText (headers.getAll name)
  remoteIp := remoteIp
  stack := stack
  rendered := rendered
  facts := facts

/-- A context sets a header. -/
def Sets (requestHeaders : HeaderMap) (name : HeaderName) : Prop := requestHeaders.getAll name ≠ []

/-- The client wrote no host, or wrote it in its canonical form. -/
def HostSpelled (headers : HeaderMap) (canonical : CanonicalHost) : Prop :=
  ∀ text, boundText (headers.getAll .host) = some text → text = canonical.text

/-- What a condition should see: the canonical host and the user agent of the request, where no
context around it sets them. -/
def SeesRequest (base : ConditionContext Facts) (entry : Seen Facts) : Prop :=
  ((∀ requestHeaders ∈ entry.contexts, ¬ Sets requestHeaders .host) →
    entry.context.host = base.host) ∧
  ((∀ requestHeaders ∈ entry.contexts, ¬ Sets requestHeaders .userAgent) →
    entry.context.userAgent = base.userAgent)

/-! ### One context after the other -/

theorem headers_withRequestHeaders {context : ConditionContext Facts} {requestHeaders : HeaderMap}
    {name : HeaderName} (unset : ¬ Sets requestHeaders name) :
    (context.withRequestHeaders requestHeaders).headers name = context.headers name := by
  have absent : requestHeaders.getAll name = [] := Classical.not_not.mp unset
  simp [ConditionContext.withRequestHeaders, absent, boundText]

theorem host_withRequestHeaders {context : ConditionContext Facts} {requestHeaders : HeaderMap}
    (unset : ¬ Sets requestHeaders .host) :
    (context.withRequestHeaders requestHeaders).host =
      (context.headers .host).getD context.host := by
  rw [← headers_withRequestHeaders unset]
  rfl

theorem userAgent_withRequestHeaders {context : ConditionContext Facts}
    {requestHeaders : HeaderMap} (unset : ¬ Sets requestHeaders .userAgent) :
    (context.withRequestHeaders requestHeaders).userAgent =
      (context.headers .userAgent).getD context.userAgent := by
  rw [← headers_withRequestHeaders unset]
  rfl

/-- Below contexts that do not set it the host is what the client wrote. -/
theorem host_foldl {contexts : List HeaderMap} (some : contexts ≠ [])
    (unset : ∀ requestHeaders ∈ contexts, ¬ Sets requestHeaders .host)
    (base : ConditionContext Facts) :
    (contexts.foldl ConditionContext.withRequestHeaders base).host =
      (base.headers .host).getD base.host := by
  induction contexts generalizing base with
  | nil => exact absurd rfl some
  | cons requestHeaders rest inductionHypothesis =>
    have first := unset requestHeaders List.mem_cons_self
    rw [List.foldl_cons]
    by_cases last : rest = []
    · rw [last, List.foldl_nil, host_withRequestHeaders first]
    · rw [inductionHypothesis last fun other member => unset other (List.mem_cons_of_mem _ member),
        headers_withRequestHeaders first, host_withRequestHeaders first]
      cases base.headers .host <;> rfl

theorem userAgent_foldl {contexts : List HeaderMap}
    (unset : ∀ requestHeaders ∈ contexts, ¬ Sets requestHeaders .userAgent)
    {base : ConditionContext Facts}
    (bound : base.userAgent = (base.headers .userAgent).getD base.userAgent) :
    (contexts.foldl ConditionContext.withRequestHeaders base).userAgent = base.userAgent := by
  induction contexts generalizing base with
  | nil => rfl
  | cons requestHeaders rest inductionHypothesis =>
    have first := unset requestHeaders List.mem_cons_self
    have same : (base.withRequestHeaders requestHeaders).userAgent = base.userAgent := by
      rw [userAgent_withRequestHeaders first, ← bound]
    rw [List.foldl_cons, inductionHypothesis, same]
    · exact fun other member => unset other (List.mem_cons_of_mem _ member)
    · rw [headers_withRequestHeaders first, same]
      exact bound

/-! ### Every condition of a tree -/

/-- The bindings of a condition are those of the request, changed by each context around it. -/
def Layered (base : ConditionContext Facts) (entry : Seen Facts) : Prop :=
  entry.context = entry.contexts.foldl ConditionContext.withRequestHeaders base

theorem ruleInvariant_layered [LinearOrder Digest]
    (evaluation : Evaluation Digest Condition Regex Facts) (base : ConditionContext Facts) :
    evaluation.RuleInvariant
      (fun scope => Layered base ⟨scope.context, scope.contexts, scope.place⟩) (fun _ => True)
      (fun _ state => ∀ entry ∈ state.seen, Layered base entry) where
  condition := by
    intro scope condition state layered before
    unfold Evaluation.conditionHolds
    split
    · exact before
    · intro entry member
      rcases List.mem_append.mp member with older | new
      · exact before entry older
      · rw [List.mem_singleton.mp new]
        exact layered
  action := by
    intro scope name action state _ _ before
    rcases evaluation.evaluateAction_quiet_or_report scope.context name action state with
      quiet | ⟨kind, groupKey, reported⟩
    · rw [quiet.seen]
      exact before
    · rw [reported]
      exact before
  visit := fun _ _ layered => layered
  enter := by
    intro scope _ requestHeaders layered _
    simp only [Layered, Evaluation.EvalScope.enter] at layered ⊢
    rw [List.foldl_append, ← layered]
    rfl
  pending := fun _ _ _ holds => holds

/-- A condition sees what it should exactly when no context is around it, one of them sets the
host, or the client wrote the canonical host. -/
theorem seesRequest_iff {headers : HeaderMap} {canonical : CanonicalHost}
    {remoteIp : Option IpAddr} {stack : Option String} {rendered : Bool} {facts : Facts}
    {entry : Seen Facts}
    (layered : Layered (requestContext headers canonical remoteIp stack rendered facts) entry) :
    SeesRequest (requestContext headers canonical remoteIp stack rendered facts) entry ↔
      (entry.contexts = [] ∨ (∃ requestHeaders ∈ entry.contexts, Sets requestHeaders .host) ∨
        HostSpelled headers canonical) := by
  unfold SeesRequest
  rw [layered]
  have agents : (∀ requestHeaders ∈ entry.contexts, ¬ Sets requestHeaders .userAgent) →
      (entry.contexts.foldl ConditionContext.withRequestHeaders
        (requestContext headers canonical remoteIp stack rendered facts)).userAgent =
      (requestContext headers canonical remoteIp stack rendered facts).userAgent := by
    intro unset
    refine userAgent_foldl unset ?_
    simp only [requestContext]
    cases boundText (headers.getAll .userAgent) <;> rfl
  rw [and_iff_left agents]
  by_cases outside : entry.contexts = []
  · rw [outside]
    simp
  · by_cases set : ∃ requestHeaders ∈ entry.contexts, Sets requestHeaders .host
    · refine iff_of_true (fun unset => ?_) (.inr (.inl set))
      obtain ⟨requestHeaders, member, sets⟩ := set
      exact absurd sets (unset requestHeaders member)
    · have unset : ∀ requestHeaders ∈ entry.contexts, ¬ Sets requestHeaders .host :=
        fun requestHeaders member sets => set ⟨requestHeaders, member, sets⟩
      rw [imp_iff_right unset, host_foldl outside unset, or_iff_right outside, or_iff_right set]
      unfold HostSpelled
      simp only [requestContext]
      cases boundText (headers.getAll .host) with
      | none => simp
      | some text => simp

/-- In every tree of rules, on every request that the pipeline accepts: a condition sees the
canonical host and the user agent of the request, where no context around it sets them, exactly
when it is outside of every context, a context sets the host, or the client wrote the host in its
canonical form or not at all. -/
theorem conditions_see_request_iff [LinearOrder Digest]
    (evaluation : Evaluation Digest Condition Regex Facts) (headers : HeaderMap)
    (canonical : CanonicalHost) (remoteIp : Option IpAddr) (stack : Option String) (rendered : Bool)
    (facts : Facts) (token : Option (Token Digest)) :
    let context := requestContext headers canonical remoteIp stack rendered facts
    ∀ entry ∈ (evaluation.handleRequest context token).state.seen,
      SeesRequest context entry ↔
        (entry.contexts = [] ∨ (∃ requestHeaders ∈ entry.contexts, Sets requestHeaders .host) ∨
          HostSpelled headers canonical) := by
  intro context entry member
  refine seesRequest_iff ?_
  rw [evaluation.seen_handleRequest] at member
  have holds := (ruleInvariant_layered evaluation context).evaluateRules
    ⟨context, Multimap.empty, [], []⟩ rfl evaluation.snapshot.rules (fun _ _ => trivial)
    (.start token) (fun _ none => absurd none List.not_mem_nil)
  exact holds entry member

/-- The headers of a request for `EXAMPLE.com`. -/
def shoutedHost : HeaderMap :=
  Multimap.empty.insert .host ⟨Bytes.ofText "EXAMPLE.com", by decide⟩

/-- A context that sets nothing, with a condition below it. -/
def bareContext : List (RuleState Bool Unit) :=
  [.mk "site" none (.context Multimap.empty Multimap.empty) [.mk "site/page" (some true) .none []]]

/-- Below a context that sets nothing, the host of a request for `EXAMPLE.com`, which the pipeline
accepts as `example.com`, is not `example.com`. -/
theorem host_below_bare_context :
    canonicalizeAuthority none (headerHost shoutedHost) = .ok ⟨"example.com", none⟩ ∧
      ¬ ∀ entry ∈ ((plainEvaluation bareContext "/").handleRequest
          (requestContext shoutedHost ⟨"example.com", none⟩ none none false ()) none).state.seen,
        SeesRequest (requestContext shoutedHost ⟨"example.com", none⟩ none none false ())
          entry := by
  refine ⟨by decide, fun every => ?_⟩
  have below := (every _ List.mem_cons_self).1
  have host := below fun requestHeaders member => by
    rw [List.mem_singleton.mp member]
    exact fun sets => sets rfl
  revert host
  decide

end Bagel
