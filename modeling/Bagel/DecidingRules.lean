/-
This file follows an evaluation down the tree to the rule that decides it.

The rules of a list are tried one after the other, and the first one that does not go on ends the
request. Where that rule leaves it to its children, one of them decides. So whatever ends a request
is the action of one rule, with some rules above it, and every response is that of the action but
for what the contexts above add to its headers. A drop carries no name: the loop over the list adds
the name of the rule at the top.

The place of a rule says for every rule on the way down how many of its list come after it.
-/

import Bagel.RuleInvariants

namespace Bagel

variable {Digest Condition Regex Facts : Type}

/-! ### Places in a tree -/

/-- The rules above the rule at a place below some rule, that rule included, and the rule there. -/
def RuleState.find (rule : RuleState Condition Regex) :
    List Nat → Option (List (RuleState Condition Regex) × RuleState Condition Regex)
  | [] => some ([], rule)
  | after :: place =>
    rule.children.reverse[after]?.bind fun child =>
      (child.find place).map fun found => (rule :: found.1, found.2)

/-- The rule at a place of a tree, and the rules above it. -/
def ruleAt (rules : List (RuleState Condition Regex)) :
    List Nat → Option (List (RuleState Condition Regex) × RuleState Condition Regex)
  | [] => none
  | after :: place => rules.reverse[after]?.bind fun rule => rule.find place

theorem RuleState.find_of_ruleAt {rule : RuleState Condition Regex} {place : List Nat}
    {above : List (RuleState Condition Regex)} {other : RuleState Condition Regex}
    (found : ruleAt rule.children place = some (above, other)) :
    rule.find place = some (rule :: above, other) := by
  cases place with
  | nil => cases found
  | cons after place =>
    obtain ⟨child, listed, lower⟩ := Option.bind_eq_some_iff.mp found
    rw [find, listed, Option.bind_some, lower]
    rfl

theorem ruleAt_first (rule : RuleState Condition Regex) (rest : List (RuleState Condition Regex))
    (place : List Nat) : ruleAt (rule :: rest) (rest.length :: place) = rule.find place := by
  have last : (rule :: rest).reverse[rest.length]? = some rule := by
    rw [List.reverse_cons, ← List.length_reverse, List.getElem?_concat_length]
  rw [ruleAt, last, Option.bind_some]

theorem ruleAt_later (rule : RuleState Condition Regex) {rest : List (RuleState Condition Regex)}
    {place : List Nat} {above : List (RuleState Condition Regex)}
    {other : RuleState Condition Regex} (found : ruleAt rest place = some (above, other)) :
    ruleAt (rule :: rest) place = some (above, other) := by
  cases place with
  | nil => cases found
  | cons after place =>
    obtain ⟨first, listed, lower⟩ := Option.bind_eq_some_iff.mp found
    obtain ⟨bound, -⟩ := List.getElem?_eq_some_iff.mp listed
    rw [ruleAt, List.reverse_cons, List.getElem?_append_left bound, listed, Option.bind_some]
    exact lower

namespace Evaluation

/-! ### The path to the rule that decides -/

/-- What decides a request: a rule, what its condition saw, and what its action leads to. -/
structure Deciding (Condition Regex Facts : Type) where
  rule : RuleState Condition Regex
  context : ConditionContext Facts
  outcome : RuleOutcome

/-- The action is left to the children of a rule. -/
def isInner : RuleAction Regex → Bool
  | .none => true
  | .context _ _ => true
  | _ => false

variable [LinearOrder Digest]

/-- The path of an evaluation to the rule that ends it, with the rules above that one from the
outermost on. -/
inductive Decides (evaluation : Evaluation Digest Condition Regex Facts) :
    EvalScope Facts → List (RuleState Condition Regex) → EvalState Digest Facts →
      List (RuleState Condition Regex) → Deciding Condition Regex Facts →
      EvalState Digest Facts → Prop where
  /-- A rule that the evaluation goes on after is passed, and its scope with it. -/
  | pass {scope rule rest state after above deciding final}
      (continues : evaluation.evaluateRule (scope.visit rest.length) rule state =
        (.continue, after))
      (decides : Decides evaluation scope rest after above deciding final) :
      Decides evaluation scope (rule :: rest) state above deciding final
  | action {scope name condition action children rest state outcome final}
      (holds : (evaluation.conditionHolds (scope.visit rest.length) condition state).1 = true)
      (outer : isInner action = false)
      (answers : evaluation.evaluateAction scope.context name action
        (evaluation.conditionHolds (scope.visit rest.length) condition state).2 =
          (outcome, final))
      (ends : outcome ≠ .continue) :
      Decides evaluation scope (.mk name condition action children :: rest) state []
        ⟨.mk name condition action children, scope.context, outcome⟩ final
  | group {scope name condition children rest state above deciding final}
      (holds : (evaluation.conditionHolds (scope.visit rest.length) condition state).1 = true)
      (decides : Decides evaluation (scope.visit rest.length) children
        (evaluation.conditionHolds (scope.visit rest.length) condition state).2 above deciding
          final) :
      Decides evaluation scope (.mk name condition .none children :: rest) state
        (.mk name condition .none children :: above) deciding final
  | context {scope name condition request response children rest state above deciding final}
      (holds : (evaluation.conditionHolds (scope.visit rest.length) condition state).1 = true)
      (decides : Decides evaluation ((scope.visit rest.length).enter request) children
        (evaluation.conditionHolds (scope.visit rest.length) condition state).2 above deciding
          final) :
      Decides evaluation scope (.mk name condition (.context response request) children :: rest)
        state (.mk name condition (.context response request) children :: above) deciding final

variable (evaluation : Evaluation Digest Condition Regex Facts)

/-! ### One rule -/

section Rule

variable {scope : EvalScope Facts} {name : String} {condition : Option Condition}
  {children : List (RuleState Condition Regex)} {state : EvalState Digest Facts}

theorem evaluateRule_of_outer {action : RuleAction Regex}
    (holds : (evaluation.conditionHolds scope condition state).1 = true)
    (outer : isInner action = false) :
    evaluation.evaluateRule scope (.mk name condition action children) state =
      evaluation.evaluateAction scope.context name action
        (evaluation.conditionHolds scope condition state).2 := by
  rw [evaluateRule]
  dsimp only
  rw [if_pos holds]
  split
  · cases outer
  · cases outer
  · rfl

theorem evaluateRule_of_group
    (holds : (evaluation.conditionHolds scope condition state).1 = true) :
    evaluation.evaluateRule scope (.mk name condition .none children) state =
      evaluation.evalChildren scope none children
        (evaluation.conditionHolds scope condition state).2 := by
  rw [evaluateRule]
  dsimp only
  rw [if_pos holds]

theorem evaluateRule_of_context {request response : HeaderMap}
    (holds : (evaluation.conditionHolds scope condition state).1 = true) :
    evaluation.evaluateRule scope (.mk name condition (.context response request) children) state =
      evaluation.evalChildren (scope.enter request)
        (some (scope.headers.overlay request, response)) children
        (evaluation.conditionHolds scope condition state).2 := by
  rw [evaluateRule]
  dsimp only
  rw [if_pos holds]

end Rule

/-! ### Every end has a path -/

mutual

/-- Whenever a rule ends a request there is a path to what decided. -/
theorem exists_decides_of_rule (scope : EvalScope Facts) :
    ∀ (rule : RuleState Condition Regex) (rest : List (RuleState Condition Regex))
      (state : EvalState Digest Facts) (outcome : RuleOutcome) (final : EvalState Digest Facts),
      evaluation.evaluateRule (scope.visit rest.length) rule state = (outcome, final) →
      outcome ≠ .continue →
      ∃ above deciding, Decides evaluation scope (rule :: rest) state above deciding final
  | .mk name condition action children, rest, state, outcome, final, answers, ends => by
    cases holds : (evaluation.conditionHolds (scope.visit rest.length) condition state).1 with
    | false =>
      rw [evaluateRule] at answers
      dsimp only at answers
      rw [if_neg (by simp [holds])] at answers
      cases answers
      exact absurd rfl ends
    | true =>
      cases inner : isInner action with
      | false =>
        rw [evaluation.evaluateRule_of_outer holds inner] at answers
        exact ⟨[], _, .action holds inner answers ends⟩
      | true =>
        cases action with
        | none =>
          rw [evaluation.evaluateRule_of_group holds] at answers
          obtain ⟨above, deciding, decides⟩ :=
            exists_decides_of_children _ none children _ outcome final answers ends
          exact ⟨_, deciding, .group holds decides⟩
        | context responseHeaders requestHeaders =>
          rw [evaluation.evaluateRule_of_context holds] at answers
          obtain ⟨above, deciding, decides⟩ :=
            exists_decides_of_children _ _ children _ outcome final answers ends
          exact ⟨_, deciding, .context holds decides⟩
        | _ => cases inner

theorem exists_decides_of_children (scope : EvalScope Facts)
    (pending : Option (HeaderMap × HeaderMap)) :
    ∀ (rules : List (RuleState Condition Regex)) (state : EvalState Digest Facts)
      (outcome : RuleOutcome) (final : EvalState Digest Facts),
      evaluation.evalChildren scope pending rules state = (outcome, final) →
      outcome ≠ .continue →
      ∃ above deciding, Decides evaluation scope rules state above deciding final
  | [], state, outcome, final, answers, ends => by
    rw [Evaluation.evalChildren] at answers
    cases answers
    exact absurd rfl ends
  | rule :: rest, state, outcome, final, answers, ends => by
    rw [Evaluation.evalChildren] at answers
    split at answers
    · next after continues =>
      obtain ⟨above, deciding, decides⟩ :=
        exists_decides_of_children scope pending rest after outcome final answers ends
      exact ⟨above, deciding, .pass continues decides⟩
    · next after dropped =>
      cases answers
      exact exists_decides_of_rule scope rule rest state .drop final dropped ends
    · next own after handled =>
      cases answers
      exact exists_decides_of_rule scope rule rest state _ final handled fun none => by cases none

end

theorem Decides.ends {scope : EvalScope Facts} {rules : List (RuleState Condition Regex)}
    {state final : EvalState Digest Facts} {above : List (RuleState Condition Regex)}
    {deciding : Deciding Condition Regex Facts}
    (decides : Decides evaluation scope rules state above deciding final) :
    deciding.outcome ≠ .continue := by
  induction decides with
  | pass _ _ inductionHypothesis => exact inductionHypothesis
  | action _ _ _ ends => exact ends
  | group _ _ inductionHypothesis => exact inductionHypothesis
  | context _ _ inductionHypothesis => exact inductionHypothesis

/-! ### The way up -/

/-- The headers of one context. -/
structure ContextHeaders where
  request : HeaderMap
  response : HeaderMap

/-- The headers that a rule sets for the rules below it. -/
def contextOf : RuleState Condition Regex → Option ContextHeaders
  | .mk _ _ (.context response request) _ => some ⟨request, response⟩
  | _ => none

/-- The contexts among some rules. -/
def contextsOf (rules : List (RuleState Condition Regex)) : List ContextHeaders :=
  rules.filterMap contextOf

/-- What the contexts of a path make of a response. -/
def wrap (headers : HeaderMap) : List ContextHeaders → Response → Response
  | [], own => own
  | context :: rest, own =>
    applyPending (some (headers.overlay context.request, context.response))
      (wrap (headers.overlay context.request) rest own)

/-- What is made of a response, if there is one. -/
def mapResponse (change : Response → Response) : RuleOutcome → RuleOutcome
  | .handled own => .handled (change own)
  | other => other

/-- Two responses that differ in their headers only. -/
structure SameLabel (first second : Response) : Prop where
  info : second.info = first.info
  marker : second.marker = first.marker
  page : second.page = first.page

theorem sameLabel_applyPending (pending : Option (HeaderMap × HeaderMap)) (response : Response) :
    SameLabel response (applyPending pending response) := by
  unfold applyPending
  split
  · exact ⟨rfl, rfl, rfl⟩
  · split <;> exact ⟨rfl, rfl, rfl⟩

theorem sameLabel_wrap (headers : HeaderMap) (contexts : List ContextHeaders) (own : Response) :
    SameLabel own (wrap headers contexts own) := by
  induction contexts generalizing headers with
  | nil => exact ⟨rfl, rfl, rfl⟩
  | cons context rest inductionHypothesis =>
    have inner := inductionHypothesis (headers.overlay context.request)
    have outer := sameLabel_applyPending
      (some (headers.overlay context.request, context.response))
      (wrap (headers.overlay context.request) rest own)
    exact ⟨outer.info.trans inner.info, outer.marker.trans inner.marker,
      outer.page.trans inner.page⟩

/-- What a request ends with after an outcome. A drop is under some name, or under none. -/
def RuleOutcome.terminal (rule : Option String) : RuleOutcome → Terminal
  | .continue => .none
  | .handled response => .handled response
  | .drop => .dropped rule

section Ended

variable {scope : EvalScope Facts} {rule : RuleState Condition Regex}
  {rest : List (RuleState Condition Regex)} {state final : EvalState Digest Facts}
  {outcome : RuleOutcome}

theorem evalChildren_of_ended (pending : Option (HeaderMap × HeaderMap))
    (ended : evaluation.evaluateRule (scope.visit rest.length) rule state = (outcome, final))
    (ends : outcome ≠ .continue) :
    evaluation.evalChildren scope pending (rule :: rest) state =
      (mapResponse (applyPending pending) outcome, final) := by
  rw [Evaluation.evalChildren, ended]
  cases outcome with
  | «continue» => exact absurd rfl ends
  | drop => rfl
  | handled own => rfl

theorem evaluateRules_of_ended
    (ended : evaluation.evaluateRule (scope.visit rest.length) rule state = (outcome, final))
    (ends : outcome ≠ .continue) :
    evaluation.evaluateRules scope (rule :: rest) state =
      (RuleOutcome.terminal (some rule.name) outcome, final) := by
  rw [Evaluation.evaluateRules, ended]
  cases outcome with
  | «continue» => exact absurd rfl ends
  | drop => rfl
  | handled own => rfl

end Ended

omit [LinearOrder Digest] in
theorem mapResponse_mapResponse (first second : Response → Response) (outcome : RuleOutcome) :
    mapResponse second (mapResponse first outcome) =
      mapResponse (fun own => second (first own)) outcome := by
  cases outcome <;> rfl

omit [LinearOrder Digest] in
theorem mapResponse_ne_continue {change : Response → Response} {outcome : RuleOutcome}
    (ends : outcome ≠ .continue) : mapResponse change outcome ≠ .continue := by
  cases outcome with
  | «continue» => exact absurd rfl ends
  | drop => exact ends
  | handled own => exact fun none => by cases none

section Follow

variable {evaluation}
variable {scope : EvalScope Facts} {rules : List (RuleState Condition Regex)}
  {state final : EvalState Digest Facts} {above : List (RuleState Condition Regex)}
  {deciding : Deciding Condition Regex Facts}

/-- The evaluation follows its path: what comes of it is the outcome of the deciding rule, with
what the contexts above it add. -/
theorem Decides.evalChildren
    (decides : Decides evaluation scope rules state above deciding final)
    (pending : Option (HeaderMap × HeaderMap)) :
    evaluation.evalChildren scope pending rules state =
      (mapResponse (fun own => applyPending pending (wrap scope.headers (contextsOf above) own))
        deciding.outcome, final) := by
  induction decides generalizing pending with
  | pass continues _ inductionHypothesis =>
    rw [Evaluation.evalChildren, continues]
    exact inductionHypothesis pending
  | action holds outer answers ends =>
    exact evaluation.evalChildren_of_ended pending
      ((evaluation.evaluateRule_of_outer holds outer).trans answers) ends
  | group holds decides inductionHypothesis =>
    rw [evaluation.evalChildren_of_ended pending
      ((evaluation.evaluateRule_of_group holds).trans (inductionHypothesis none))
      (mapResponse_ne_continue decides.ends), mapResponse_mapResponse]
    rfl
  | context holds decides inductionHypothesis =>
    rw [evaluation.evalChildren_of_ended pending
      ((evaluation.evaluateRule_of_context holds).trans (inductionHypothesis _))
      (mapResponse_ne_continue decides.ends), mapResponse_mapResponse]
    rfl

/-- So does the loop over the rules. A drop gets the name of the rule of the list. -/
theorem Decides.evaluateRules
    (decides : Decides evaluation scope rules state above deciding final) :
    evaluation.evaluateRules scope rules state =
      (RuleOutcome.terminal (some (above.headD deciding.rule).name)
        (mapResponse (wrap scope.headers (contextsOf above)) deciding.outcome), final) := by
  induction decides with
  | pass continues _ inductionHypothesis =>
    rw [Evaluation.evaluateRules, continues]
    exact inductionHypothesis
  | @action _ _ _ _ _ _ _ outcome _ holds outer answers ends =>
    rw [evaluation.evaluateRules_of_ended
      ((evaluation.evaluateRule_of_outer holds outer).trans answers) ends]
    cases outcome <;> rfl
  | group holds decides _ =>
    rw [evaluation.evaluateRules_of_ended
      ((evaluation.evaluateRule_of_group holds).trans (decides.evalChildren none))
      (mapResponse_ne_continue decides.ends)]
    rfl
  | context holds decides _ =>
    rw [evaluation.evaluateRules_of_ended
      ((evaluation.evaluateRule_of_context holds).trans (decides.evalChildren _))
      (mapResponse_ne_continue decides.ends)]
    rfl

end Follow

/-- Whenever the loop over the rules ends a request there is a path to what decided. -/
theorem exists_decides {scope : EvalScope Facts} {rules : List (RuleState Condition Regex)}
    {state final : EvalState Digest Facts} {terminal : Terminal}
    (answers : evaluation.evaluateRules scope rules state = (terminal, final))
    (ends : terminal ≠ .none) :
    ∃ above deciding, Decides evaluation scope rules state above deciding final := by
  induction rules generalizing state with
  | nil =>
    rw [Evaluation.evaluateRules] at answers
    cases answers
    exact absurd rfl ends
  | cons rule rest inductionHypothesis =>
    rw [Evaluation.evaluateRules] at answers
    split at answers
    · next after continues =>
      obtain ⟨above, deciding, decides⟩ := inductionHypothesis answers
      exact ⟨above, deciding, .pass continues decides⟩
    · next own after handled =>
      cases answers
      exact evaluation.exists_decides_of_rule scope rule rest state _ final handled
        fun none => by cases none
    · next after dropped =>
      cases answers
      exact evaluation.exists_decides_of_rule scope rule rest state _ final dropped
        fun none => by cases none

/-! ### What the conditions see -/

/-- The request headers of the contexts among some rules. -/
def requestsOf (rules : List (RuleState Condition Regex)) : List HeaderMap :=
  (contextsOf rules).map ContextHeaders.request

/-- What the condition of a rule sees, for the rules above it and its place. -/
def EvalScope.seeing (scope : EvalScope Facts) (above : List (RuleState Condition Regex))
    (place : List Nat) : Seen Facts :=
  ⟨(requestsOf above).foldl ConditionContext.withRequestHeaders scope.context,
    scope.contexts ++ requestsOf above, scope.place ++ place⟩

omit [LinearOrder Digest] in
theorem seeing_nil (scope : EvalScope Facts) :
    scope.seeing ([] : List (RuleState Condition Regex)) [] =
      ⟨scope.context, scope.contexts, scope.place⟩ := by
  simp [EvalScope.seeing, requestsOf, contextsOf]

omit [LinearOrder Digest] in
theorem seeing_visit (scope : EvalScope Facts) (after : Nat)
    (above : List (RuleState Condition Regex)) (place : List Nat) :
    (scope.visit after).seeing above place = scope.seeing above (after :: place) := by
  unfold EvalScope.seeing EvalScope.visit
  rw [List.append_assoc]
  rfl

omit [LinearOrder Digest] in
theorem seeing_enter (scope : EvalScope Facts) (name : String) (condition : Option Condition)
    (request response : HeaderMap) (children above : List (RuleState Condition Regex))
    (place : List Nat) :
    (scope.enter request).seeing above place =
      scope.seeing (.mk name condition (.context response request) children :: above) place := by
  have first : requestsOf (.mk name condition (.context response request) children :: above) =
      request :: requestsOf above := rfl
  unfold EvalScope.seeing EvalScope.enter
  rw [first, List.foldl_cons, List.append_assoc]
  rfl

/-- Every condition that is evaluated anew is that of a rule that `find` gives, and sees what the
rules above that very rule make it see. -/
def SeesAbove (scope : EvalScope Facts)
    (find : List Nat → Option (List (RuleState Condition Regex) × RuleState Condition Regex))
    (state final : EvalState Digest Facts) : Prop :=
  ∀ entry ∈ final.seen, entry ∈ state.seen ∨ ∃ place above rule, find place = some (above, rule) ∧
    rule.condition ≠ none ∧ entry = scope.seeing above place

omit [LinearOrder Digest] in
theorem SeesAbove.mono {scope : EvalScope Facts}
    {find other : List Nat → Option (List (RuleState Condition Regex) × RuleState Condition Regex)}
    {state final : EvalState Digest Facts} (sees : SeesAbove scope find state final)
    (known : ∀ place above rule, find place = some (above, rule) →
      other place = some (above, rule)) : SeesAbove scope other state final :=
  fun entry member => (sees entry member).imp_right fun ⟨place, above, rule, found, rest⟩ =>
    ⟨place, above, rule, known place above rule found, rest⟩

omit [LinearOrder Digest] in
theorem SeesAbove.trans {scope : EvalScope Facts}
    {find : List Nat → Option (List (RuleState Condition Regex) × RuleState Condition Regex)}
    {state middle final : EvalState Digest Facts} (one : SeesAbove scope find state middle)
    (two : SeesAbove scope find middle final) : SeesAbove scope find state final := by
  intro entry member
  rcases two entry member with before | new
  · exact one entry before
  · exact .inr new

omit [LinearOrder Digest] in
/-- The rules of a list are visited one by one. -/
theorem SeesAbove.visit {scope : EvalScope Facts} {rule : RuleState Condition Regex}
    {rest : List (RuleState Condition Regex)} {state final : EvalState Digest Facts}
    (sees : SeesAbove (scope.visit rest.length) rule.find state final) :
    SeesAbove scope (ruleAt (rule :: rest)) state final := by
  intro entry member
  refine (sees entry member).imp_right ?_
  rintro ⟨place, above, other, found, conditional, saw⟩
  refine ⟨rest.length :: place, above, other, (ruleAt_first rule rest place).trans found,
    conditional, ?_⟩
  rw [saw, seeing_visit]

omit [LinearOrder Digest] in
theorem seesAbove_conditionHolds (scope : EvalScope Facts) (rule : RuleState Condition Regex)
    (state : EvalState Digest Facts) :
    SeesAbove scope rule.find state (evaluation.conditionHolds scope rule.condition state).2 := by
  unfold conditionHolds
  split
  · exact fun entry member => .inl member
  · next condition conditional =>
    intro entry member
    rcases List.mem_append.mp member with older | new
    · exact .inl older
    · refine .inr ⟨[], [], rule, rfl, by simp [conditional], ?_⟩
      rw [List.mem_singleton.mp new, seeing_nil]

mutual

theorem seesAbove_evaluateRule (scope : EvalScope Facts) :
    ∀ (rule : RuleState Condition Regex) (state : EvalState Digest Facts),
      SeesAbove scope rule.find state (evaluation.evaluateRule scope rule state).2
  | .mk name condition action children, state => by
    have checked := evaluation.seesAbove_conditionHolds scope
      (.mk name condition action children) state
    rw [evaluateRule]
    dsimp only
    split
    · split
      · refine checked.trans ?_
        intro entry member
        refine (seesAbove_evalChildren scope none children _ entry member).imp_right ?_
        rintro ⟨place, above, other, found, conditional, saw⟩
        exact ⟨place, _, other, RuleState.find_of_ruleAt found, conditional, saw⟩
      · refine checked.trans ?_
        intro entry member
        refine (seesAbove_evalChildren _ _ children _ entry member).imp_right ?_
        rintro ⟨place, above, other, found, conditional, saw⟩
        exact ⟨place, _, other, RuleState.find_of_ruleAt found, conditional,
          saw.trans (seeing_enter _ _ _ _ _ _ _ _)⟩
      · rcases evaluation.evaluateAction_quiet_or_report scope.context name _ _ with
          quiet | ⟨kind, groupKey, reported⟩
        · intro entry member
          rw [quiet.seen] at member
          exact checked entry member
        · intro entry member
          rw [reported] at member
          exact checked entry member
    · exact checked

theorem seesAbove_evalChildren (scope : EvalScope Facts)
    (pending : Option (HeaderMap × HeaderMap)) :
    ∀ (rules : List (RuleState Condition Regex)) (state : EvalState Digest Facts),
      SeesAbove scope (ruleAt rules) state (evaluation.evalChildren scope pending rules state).2
  | [], state => fun entry member => by
    rw [Evaluation.evalChildren] at member
    exact .inl member
  | rule :: rest, state => by
    have first := (seesAbove_evaluateRule (scope.visit rest.length) rule state).visit
    rw [Evaluation.evalChildren]
    split
    · next after continues =>
      rw [continues] at first
      exact first.trans ((seesAbove_evalChildren scope pending rest after).mono
        fun _ _ _ found => ruleAt_later rule found)
    · next after dropped =>
      rw [dropped] at first
      exact first
    · next own after handled =>
      rw [handled] at first
      exact first

end

/-- The loop over the rules evaluates what it would below a rule without an action. -/
theorem evaluateRules_snd (scope : EvalScope Facts) (rules : List (RuleState Condition Regex))
    (state : EvalState Digest Facts) :
    (evaluation.evaluateRules scope rules state).2 =
      (evaluation.evalChildren scope none rules state).2 := by
  induction rules generalizing state with
  | nil => rw [Evaluation.evaluateRules, Evaluation.evalChildren]
  | cons rule rest inductionHypothesis =>
    rw [Evaluation.evaluateRules, Evaluation.evalChildren]
    obtain ⟨outcome, after⟩ := evaluation.evaluateRule (scope.visit rest.length) rule state
    cases outcome with
    | «continue» => exact inductionHypothesis after
    | handled own => rfl
    | drop => rfl

/-- The rule that decides is at some place of the tree, below the rules of the path, and its
condition saw what the deciding action saw. -/
theorem Decides.located {scope : EvalScope Facts} {rules : List (RuleState Condition Regex)}
    {state final : EvalState Digest Facts} {above : List (RuleState Condition Regex)}
    {deciding : Deciding Condition Regex Facts}
    (decides : Decides evaluation scope rules state above deciding final) :
    ∃ place, ruleAt rules place = some (above, deciding.rule) ∧
      deciding.context = (scope.seeing above place).context ∧
      (deciding.rule.condition ≠ none → scope.seeing above place ∈ final.seen) := by
  induction decides with
  | pass continues _ inductionHypothesis =>
    obtain ⟨place, found, saw, listed⟩ := inductionHypothesis
    exact ⟨place, ruleAt_later _ found, saw, listed⟩
  | @action scope name condition action children rest state outcome final holds outer answers
      ends =>
    refine ⟨[rest.length], ruleAt_first _ rest [], rfl, fun conditional => ?_⟩
    have kept : final.seen = (evaluation.conditionHolds (scope.visit rest.length) condition
        state).2.seen := by
      rcases evaluation.evaluateAction_quiet_or_report scope.context name action
        (evaluation.conditionHolds (scope.visit rest.length) condition state).2 with
          quiet | ⟨kind, groupKey, reported⟩
      · rw [answers] at quiet
        exact quiet.seen
      · rw [answers] at reported
        cases reported
        rfl
    rw [kept]
    cases condition with
    | none => exact absurd rfl conditional
    | some condition =>
      refine List.mem_append_right _ (List.mem_singleton.mpr ?_)
      rw [← seeing_visit, seeing_nil]
  | group holds _ inductionHypothesis =>
    obtain ⟨place, found, saw, listed⟩ := inductionHypothesis
    refine ⟨_ :: place, (ruleAt_first _ _ place).trans (RuleState.find_of_ruleAt found), saw, ?_⟩
    rw [seeing_visit] at listed
    exact listed
  | context holds _ inductionHypothesis =>
    obtain ⟨place, found, saw, listed⟩ := inductionHypothesis
    refine ⟨_ :: place, (ruleAt_first _ _ place).trans (RuleState.find_of_ruleAt found), saw, ?_⟩
    rw [seeing_enter, seeing_visit] at listed
    exact listed

/-! ### What comes of the rules -/

/-- A request that the rules end: no threshold comes after them. -/
theorem handleRequest_of_ended {context : ConditionContext Facts} {token : Option (Token Digest)}
    {terminal : Terminal} {final : EvalState Digest Facts}
    (answers : evaluation.evaluateRules ⟨context, Multimap.empty, [], []⟩
      evaluation.snapshot.rules (.start token) = (terminal, final)) (ends : terminal ≠ .none) :
    evaluation.handleRequest context token = ⟨terminal, none, terminalInfo terminal,
      report terminal (none : Option (ScoreResult Condition Regex)) (terminalInfo terminal)
        final⟩ := by
  have suppressed (score : Option (ScoreResult Condition Regex)) :
      candidateStatus score terminal ≠ .applied := by
    cases score with
    | none => simp [candidateStatus]
    | some result =>
      cases terminal with
      | none => exact absurd rfl ends
      | _ => cases found : result.candidate <;> simp [candidateStatus, found]
  unfold handleRequest
  dsimp only
  rw [answers]
  dsimp only
  rw [if_neg (suppressed _)]

/-- No rule ended the request, and the threshold that the score came to is applied. -/
structure Applies (context : ConditionContext Facts) (token : Option (Token Digest))
    (result : ScoreResult Condition Regex) (threshold : ThresholdState Regex)
    (state : EvalState Digest Facts) : Prop where
  passed : evaluation.evaluateRules ⟨context, Multimap.empty, [], []⟩ evaluation.snapshot.rules
    (.start token) = (.none, state)
  scored : (evaluation.snapshot.scoring.bind fun scoring => scoring.evaluate fun condition =>
    evaluation.surroundings.condition condition context) = some result
  candidate : result.candidate = some threshold
  enforced : result.scorecard.mode = .enforce

variable {evaluation}

theorem Applies.handleRequest {context : ConditionContext Facts} {token : Option (Token Digest)}
    {result : ScoreResult Condition Regex} {threshold : ThresholdState Regex}
    {state after : EvalState Digest Facts} {outcome : RuleOutcome}
    (applies : evaluation.Applies context token result threshold state)
    (leads : evaluation.applyCandidateAction context threshold.action state = (outcome, after)) :
    evaluation.handleRequest context token =
      ⟨RuleOutcome.terminal none outcome, some result, (none, none),
        report (RuleOutcome.terminal none outcome) (some result) (none, none) after⟩ := by
  have status : candidateStatus (some result) .none = .applied := by
    simp [candidateStatus, applies.candidate, applies.enforced]
  have applied : evaluation.applyCandidate context result state =
      (RuleOutcome.terminal none outcome, after) := by
    unfold applyCandidate
    rw [applies.candidate]
    dsimp only
    rw [leads]
    cases outcome <;> rfl
  unfold Evaluation.handleRequest
  dsimp only
  rw [applies.scored, applies.passed]
  dsimp only
  rw [if_pos status]
  dsimp only
  rw [applied]
  rfl

/-- A request is ended by the rules, or by a threshold, or by neither. -/
theorem ended_or_applies_or_idle (context : ConditionContext Facts)
    (token : Option (Token Digest)) :
    (∃ above deciding final, Decides evaluation ⟨context, Multimap.empty, [], []⟩
      evaluation.snapshot.rules (.start token) above deciding final) ∨
    (∃ result threshold state, evaluation.Applies context token result threshold state) ∨
    ∃ state, evaluation.evaluateRules ⟨context, Multimap.empty, [], []⟩ evaluation.snapshot.rules
        (.start token) = (.none, state) ∧
      evaluation.handleRequest context token = ⟨.none, none, (none, none), state⟩ := by
  cases answers : evaluation.evaluateRules ⟨context, Multimap.empty, [], []⟩
    evaluation.snapshot.rules (.start token) with
  | mk terminal state =>
    by_cases ends : terminal = .none
    · subst ends
      by_cases applied : candidateStatus (evaluation.snapshot.scoring.bind fun scoring =>
        scoring.evaluate fun condition => evaluation.surroundings.condition condition context)
          .none = .applied
      · refine .inr (.inl ?_)
        cases scored : (evaluation.snapshot.scoring.bind fun scoring => scoring.evaluate
          fun condition => evaluation.surroundings.condition condition context) with
        | none =>
          rw [scored] at applied
          cases applied
        | some result =>
          rw [scored] at applied
          unfold candidateStatus at applied
          dsimp only at applied
          cases candidate : result.candidate with
          | none =>
            rw [candidate] at applied
            cases applied
          | some threshold =>
            rw [candidate] at applied
            cases mode : result.scorecard.mode with
            | observe =>
              rw [mode] at applied
              cases applied
            | enforce => exact ⟨result, threshold, state, answers, scored, candidate, mode⟩
      · refine .inr (.inr ⟨state, rfl, ?_⟩)
        unfold Evaluation.handleRequest
        dsimp only
        rw [answers]
        dsimp only
        rw [if_neg applied]
        rfl
    · exact .inl ((evaluation.exists_decides answers ends).imp fun _ =>
        fun ⟨deciding, decides⟩ => ⟨deciding, state, decides⟩)

end Evaluation

end Bagel
