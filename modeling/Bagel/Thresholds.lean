/-
This file compares the action of a threshold with the same action of a rule. The source
interprets actions in three places: for a rule, for an enforced threshold, and for what
follows a challenge. What `ScoringState::build` accepts at a threshold means the same as in a
rule, except for `code`, which the last place takes for a pass, and for `report`, which a
threshold ignores.
-/

import Bagel.RuleInvariants

namespace Bagel

variable {Digest Condition Regex Facts : Type}

/-! ### What a threshold accepts -/

section

variable {compilers : Compilers Condition Regex} {settings : RuleSettings}
  {action : RuleAction Regex}

theorem label_of_parseReport (parsed : RuleAction.parseReport settings = .ok action) :
    action.label = "report" := by
  rw [RuleAction.parseReport, Transaction.bind_eq_ok_iff] at parsed
  obtain ⟨kind, -, parsed⟩ := parsed
  split at parsed
  · cases parsed
    rfl
  · cases parsed

theorem label_of_parseProxy (parsed : RuleAction.parseProxy compilers settings = .ok action) :
    action.label = "proxy" := by
  rw [RuleAction.parseProxy, Transaction.bind_eq_ok_iff] at parsed
  obtain ⟨backend, -, parsed⟩ := parsed
  dsimp only [bind, Except.bind] at parsed
  split at parsed
  · split at parsed
    · cases parsed
    · cases parsed
      rfl
  · split at parsed
    · split at parsed
      · cases parsed
      · cases parsed
        rfl
    · cases parsed

/-- Apart from a check, an action is named by the keyword it was parsed from. -/
theorem label_of_parseKeyword {keyword : String} {challenges : List Text} {defaultHttpCode : Nat}
    (parsed : RuleAction.parseKeyword compilers keyword settings challenges defaultHttpCode =
      .ok action)
    (notCheck : toLowercase keyword ≠ "check") : action.label = toLowercase keyword := by
  unfold RuleAction.parseKeyword at parsed
  split at parsed
  case h_7 same =>
    obtain ⟨maze, -, rfl⟩ := Transaction.map_eq_ok_iff.mp parsed
    exact same.symm
  case h_8 same =>
    obtain ⟨maze, -, rfl⟩ := Transaction.map_eq_ok_iff.mp parsed
    exact same.symm
  case h_10 same =>
    split at parsed
    · cases parsed
      exact same.symm
    · cases parsed
  case h_11 same => rw [label_of_parseReport parsed, same]
  case h_12 same => rw [label_of_parseProxy parsed, same]
  case h_13 same =>
    simp only [Transaction.bind_eq_ok_iff] at parsed
    obtain ⟨responseHeaders, -, requestHeaders, -, parsed⟩ := parsed
    cases parsed
    exact same.symm
  case h_14 same =>
    obtain ⟨challenge, -, rfl⟩ := Transaction.map_eq_ok_iff.mp parsed
    exact same.symm
  case h_15 same => exact absurd same notCheck
  case h_16 => cases parsed
  all_goals
    next same =>
    cases parsed
    exact same.symm

theorem label_of_parse {keyword : String} {challenges : List Text} {defaultHttpCode : Nat}
    (parsed : RuleAction.parse compilers keyword settings challenges defaultHttpCode = .ok action)
    (notCheck : toLowercase keyword ≠ "check") : action.label = toLowercase keyword := by
  unfold RuleAction.parse at parsed
  split at parsed
  · cases parsed
  · split at parsed
    · cases parsed
    · exact label_of_parseKeyword parsed notCheck

theorem ok_of_inPlace {Value : Type} {place : String} {result : Except String Value}
    {value : Value} (placed : inPlace place result = .ok value) : result = .ok value := by
  cases result with
  | ok other =>
    cases placed
    rfl
  | error message => cases placed

/-- An accepted threshold has the action of its keyword, and none of the forbidden ones. -/
theorem label_of_buildThreshold {card : String} {defaultHttpCode : Nat}
    {threshold : ThresholdConfig} {built : ThresholdState Regex}
    (accepted : buildThreshold compilers card defaultHttpCode threshold = .ok built) :
    built.kind = actionKind built.action.label ∧
      built.action.label ∉ forbiddenThresholdActions := by
  unfold buildThreshold at accepted
  dsimp only at accepted
  split at accepted
  · cases accepted
  · next allowed =>
    rw [Transaction.bind_eq_ok_iff] at accepted
    obtain ⟨action, parsed, accepted⟩ := accepted
    have notForbidden : toLowercase threshold.action ∉ forbiddenThresholdActions := by
      simpa using allowed
    have notCheck : toLowercase threshold.action ≠ "check" := by
      intro check
      rw [check] at notForbidden
      exact notForbidden (by decide)
    have label : action.label = toLowercase threshold.action :=
      label_of_parse (ok_of_inPlace parsed) notCheck
    split at accepted
    · cases accepted
    · cases accepted
      rw [label]
      exact ⟨rfl, notForbidden⟩

/-- A threshold under the kind of its action. -/
def ThresholdState.Named (threshold : ThresholdState Regex) : Prop :=
  threshold.kind = actionKind threshold.action.label

theorem named_of_buildThresholds {card : String} {defaultHttpCode : Nat} {values : List Nat}
    {thresholds : List ThresholdConfig} {built : List (ThresholdState Regex)}
    (accepted : buildThresholds compilers card defaultHttpCode values thresholds = .ok built) :
    ∀ threshold ∈ built, threshold.Named := by
  induction thresholds generalizing values built with
  | nil =>
    cases accepted
    exact fun threshold member => absurd member List.not_mem_nil
  | cons first rest inductionHypothesis =>
    rw [buildThresholds] at accepted
    dsimp only at accepted
    split at accepted
    · cases accepted
    · simp only [Transaction.bind_eq_ok_iff] at accepted
      obtain ⟨single, one, others, later, accepted⟩ := accepted
      cases accepted
      intro threshold member
      rcases List.mem_cons.mp member with rfl | member
      · exact (label_of_buildThreshold one).1
      · exact inductionHypothesis later threshold member

theorem named_of_buildScorecard {defaultHttpCode : Nat} {card : ScorecardConfig}
    {built : ScorecardState Condition Regex}
    (accepted : buildScorecard compilers defaultHttpCode card = .ok built) :
    ∀ threshold ∈ built.thresholds, threshold.Named := by
  simp only [buildScorecard, Transaction.bind_eq_ok_iff] at accepted
  obtain ⟨mode, -, condition, -, signals, -, thresholds, sorted, accepted⟩ := accepted
  cases accepted
  intro threshold member
  exact named_of_buildThresholds sorted threshold (List.mem_mergeSort.mp member)

theorem named_of_buildScorecards {defaultHttpCode : Nat} {names : List String}
    {unconditional : Option String} {cards : List ScorecardConfig}
    {built : List (ScorecardState Condition Regex)}
    (accepted : buildScorecards compilers defaultHttpCode names unconditional cards = .ok built) :
    ∀ card ∈ built, ∀ threshold ∈ card.thresholds, threshold.Named := by
  induction cards generalizing names unconditional built with
  | nil =>
    cases accepted
    exact fun card member => absurd member List.not_mem_nil
  | cons first rest inductionHypothesis =>
    unfold buildScorecards at accepted
    dsimp only at accepted
    split at accepted
    · cases accepted
    · split at accepted
      · cases accepted
      · simp only [Transaction.bind_eq_ok_iff] at accepted
        obtain ⟨single, one, others, later, accepted⟩ := accepted
        cases accepted
        intro card member
        rcases List.mem_cons.mp member with rfl | member
        · exact named_of_buildScorecard one
        · exact inductionHypothesis later card member

/-- Every threshold of the scorecards is under the kind of its action. -/
theorem named_of_build {defaultHttpCode : Nat} {config : ScoringConfig}
    {scoring : ScoringState Condition Regex}
    (accepted : ScoringState.build compilers defaultHttpCode config = .ok scoring) :
    ∀ card ∈ scoring.scorecards, ∀ threshold ∈ card.thresholds, threshold.Named := by
  unfold ScoringState.build at accepted
  dsimp only at accepted
  split at accepted
  · cases accepted
  · rw [Transaction.bind_eq_ok_iff] at accepted
    obtain ⟨scorecards, built, accepted⟩ := accepted
    cases accepted
    exact named_of_buildScorecards built

end

/-! ### The same effect -/

/-- An outcome without the label of a rule. -/
def RuleOutcome.untagged : RuleOutcome → RuleOutcome
  | handled response => .handled { response with info := none }
  | other => other

theorem RuleOutcome.untagged_tagged (outcome : RuleOutcome) (rule action : String) :
    (outcome.tagged rule action).untagged = outcome.untagged := by
  cases outcome with
  | handled response =>
    unfold RuleOutcome.tagged
    dsimp only
    split <;> rfl
  | _ => rfl

/-- A state without the books on who decided. -/
def EvalState.undecided (state : EvalState Digest Facts) : EvalState Digest Facts :=
  { state with decider := none }

/-- Two steps do the same, apart from the label of a rule and the books on who decided. -/
structure SameEffect (first second : RuleStep Digest Facts) : Prop where
  outcome : first.1.untagged = second.1.untagged
  state : first.2.undecided = second.2.undecided

theorem SameEffect.refl (step : RuleStep Digest Facts) : SameEffect step step := ⟨rfl, rfl⟩

/-- A label and a name in the books make no difference. -/
theorem SameEffect.labelled {first second : RuleStep Digest Facts}
    (same : SameEffect first second) (rule action : String) :
    SameEffect first (second.1.tagged rule action, second.2) :=
  ⟨same.outcome.trans (RuleOutcome.untagged_tagged _ _ _).symm, same.state⟩

theorem sameEffect_decide (outcome : RuleOutcome) (state : EvalState Digest Facts)
    (rule rule' : String) :
    SameEffect (outcome, state.decide rule) (outcome, state.decide rule') := ⟨rfl, rfl⟩

namespace Evaluation

variable (evaluation : Evaluation Digest Condition Regex Facts)

/-- A deceptive page does not depend on who decided. -/
theorem smearResponse_decide (state : EvalState Digest Facts) (rule : String) :
    evaluation.smearResponse (state.decide rule) =
      ((evaluation.smearResponse state).1,
        (evaluation.smearResponse state).2.decide rule) := by
  unfold smearResponse
  by_cases free : (evaluation.moments state.moment).slotFree
  · rw [if_pos free,
      if_pos (show (evaluation.moments (state.decide _).moment).slotFree from free)]
    rfl
  · rw [if_neg free,
      if_neg (show ¬ (evaluation.moments (state.decide _).moment).slotFree from free)]
    rfl

/-- What follows a challenge does not depend on who decided. -/
theorem sameEffect_dispatchSubAction (action : RuleAction Regex) (state : EvalState Digest Facts)
    (rule rule' : String) :
    SameEffect (evaluation.dispatchSubAction action (state.decide rule))
      (evaluation.dispatchSubAction action (state.decide rule')) := by
  cases action with
  | tarpit maze =>
    simp only [dispatchSubAction, tarpitResponse, EvalState.decide]
    split <;> exact ⟨rfl, rfl⟩
  | smear =>
    simp only [dispatchSubAction, smearResponse_decide]
    exact sameEffect_decide _ _ _ _
  | _ => exact ⟨rfl, rfl⟩

variable [LinearOrder Digest]

/-- The challenges of an action go the same way whoever they are asked for. -/
theorem sameEffect_evaluateChallenges (context : ConditionContext Facts) (rule rule' : String)
    (challenge : RuleChallenge) (check : Bool) (now : Int) (names : List Text)
    (state : EvalState Digest Facts) :
    SameEffect (evaluation.evaluateChallenges context rule challenge check now names state)
      (evaluation.evaluateChallenges context rule' challenge check now names state) := by
  induction names generalizing state with
  | nil =>
    rw [evaluateChallenges, evaluateChallenges]
    split
    · exact .refl _
    · exact evaluation.sameEffect_dispatchSubAction _ state rule rule'
  | cons name rest inductionHypothesis =>
    rw [evaluateChallenges, evaluateChallenges]
    split
    · exact inductionHypothesis _
    · exact inductionHypothesis _
    · exact sameEffect_decide _ _ rule rule'
    · exact sameEffect_decide _ _ rule rule'
    · exact evaluation.sameEffect_dispatchSubAction _ _ rule rule'

/-- A rule without a condition and without children does what its action does. -/
theorem evaluateRule_of_leaf (scope : EvalScope Facts) (name : String) (action : RuleAction Regex)
    (allowed : action.label ∉ forbiddenThresholdActions) (state : EvalState Digest Facts) :
    evaluation.evaluateRule scope (.mk name none action []) state =
      evaluation.evaluateAction scope.context name action state := by
  rw [evaluateRule]
  cases action with
  | none => exact absurd (show "none" ∈ forbiddenThresholdActions by decide) allowed
  | context responseHeaders requestHeaders =>
    exact absurd (show "context" ∈ forbiddenThresholdActions by decide) allowed
  | _ => rfl

/-- A challenge at a threshold is that of a rule. -/
theorem sameEffect_challenge (context : ConditionContext Facts) (name : String)
    (challenge : RuleChallenge) (state : EvalState Digest Facts) :
    SameEffect (evaluation.applyCandidateAction context (.challenge challenge) state)
      (evaluation.evaluateAction context name (.challenge challenge) state) :=
  (evaluation.sameEffect_evaluateChallenges context "scorecard" name challenge false _ _
    state.tick).labelled name "challenge"

/-- A threshold passes what a rule answers with a bare status. -/
theorem not_sameEffect_code (context : ConditionContext Facts) (name : String) (code : Nat)
    (state : EvalState Digest Facts) :
    ¬ SameEffect (evaluation.applyCandidateAction context (.code code) state)
      (evaluation.evaluateAction context name (.code code) state) := by
  intro same
  have responses := RuleOutcome.handled.inj same.outcome
  exact nomatch congrArg Response.marker responses

/-- A threshold does not hand on what a rule reports. -/
theorem not_sameEffect_report (context : ConditionContext Facts) (name kind : String)
    (state : EvalState Digest Facts) :
    ¬ SameEffect (evaluation.applyCandidateAction context (.report kind) state)
      (evaluation.evaluateAction context name (.report kind) state) := by
  intro same
  have offenses := congrArg (fun state => state.offenses.length) same.state
  simp [applyCandidateAction, evaluateAction, EvalState.undecided, EvalState.emit] at offenses

/-- Every other action that may stand at a threshold does what it does in a rule. -/
theorem sameEffect_applyCandidateAction (context : ConditionContext Facts) (name : String)
    (action : RuleAction Regex) (allowed : action.label ∉ forbiddenThresholdActions)
    (notCode : action.label ≠ "code") (notReport : action.label ≠ "report")
    (state : EvalState Digest Facts) :
    SameEffect (evaluation.applyCandidateAction context action state)
      (evaluation.evaluateAction context name action state) := by
  cases action with
  | none => exact absurd (show "none" ∈ forbiddenThresholdActions by decide) allowed
  | pass => exact absurd (show "pass" ∈ forbiddenThresholdActions by decide) allowed
  | lure maze => exact absurd (show "lure" ∈ forbiddenThresholdActions by decide) allowed
  | beacon => exact absurd (show "beacon" ∈ forbiddenThresholdActions by decide) allowed
  | context responseHeaders requestHeaders =>
    exact absurd (show "context" ∈ forbiddenThresholdActions by decide) allowed
  | check challenge => exact absurd (show "check" ∈ forbiddenThresholdActions by decide) allowed
  | code code => exact absurd rfl notCode
  | report kind => exact absurd rfl notReport
  | challenge challenge => exact evaluation.sameEffect_challenge context name challenge state
  | deny code => exact (sameEffect_decide _ state _ _).labelled name "deny"
  | block code => exact (sameEffect_decide _ state _ _).labelled name "block"
  | drop => exact sameEffect_decide _ state _ _
  | tarpit maze => exact (sameEffect_decide _ _ _ _).labelled name "tarpit"
  | smear =>
    have decided := evaluation.smearResponse_decide state "scorecard"
    simp only [applyCandidateAction, dispatchSubAction, decided]
    exact (sameEffect_decide _ _ _ _).labelled name "smear"
  | proxy matchRe rewrite backend =>
    exact (sameEffect_decide _ state _ _).labelled name "proxy"

end Evaluation

/-! ### Thresholds and rules -/

theorem RuleAction.eq_code_of_label {action : RuleAction Regex} (label : action.label = "code") :
    ∃ code, action = .code code := by
  cases action with
  | code code => exact ⟨code, rfl⟩
  | _ => simp [RuleAction.label] at label

theorem RuleAction.eq_report_of_label {action : RuleAction Regex}
    (label : action.label = "report") : ∃ kind, action = .report kind := by
  cases action with
  | report kind => exact ⟨kind, rfl⟩
  | _ => simp [RuleAction.label] at label

/-- Whatever a configuration accepts at a threshold has the effect it has in a rule, exactly when
it is neither `code` nor `report`. -/
theorem applyCandidateAction_sameEffect_iff [LinearOrder Digest]
    {compilers : Compilers Condition Regex} {card : String} {defaultHttpCode : Nat}
    {threshold : ThresholdConfig} {built : ThresholdState Regex}
    (accepted : buildThreshold compilers card defaultHttpCode threshold = .ok built)
    (evaluation : Evaluation Digest Condition Regex Facts) (scope : Evaluation.EvalScope Facts)
    (name : String) (state : EvalState Digest Facts) :
    SameEffect (evaluation.applyCandidateAction scope.context built.action state)
        (evaluation.evaluateRule scope (.mk name none built.action []) state) ↔
      built.action.label ≠ "code" ∧ built.action.label ≠ "report" := by
  have allowed := (label_of_buildThreshold accepted).2
  rw [evaluation.evaluateRule_of_leaf scope name built.action allowed]
  constructor
  · intro same
    refine ⟨fun label => ?_, fun label => ?_⟩
    · obtain ⟨code, action⟩ := RuleAction.eq_code_of_label label
      rw [action] at same
      exact evaluation.not_sameEffect_code scope.context name code state same
    · obtain ⟨kind, action⟩ := RuleAction.eq_report_of_label label
      rw [action] at same
      exact evaluation.not_sameEffect_report scope.context name kind state same
  · rintro ⟨notCode, notReport⟩
    exact evaluation.sameEffect_applyCandidateAction scope.context name built.action allowed
      notCode notReport state

/-- A threshold with an action that needs no settings. -/
def plainThreshold (action : String) : ThresholdConfig :=
  ⟨10, action, [], ⟨none, none, none, [], [], none, none, none, none, none, none⟩⟩

def plainCompilers : Compilers Bool Unit := ⟨fun _ => .ok true, fun _ => .ok ()⟩

def plainScope : Evaluation.EvalScope Unit :=
  ⟨⟨"example.com", "unknown", fun _ => none, none, none, false, ()⟩, Multimap.empty, [], []⟩

theorem applyCandidateAction_sameEffect_deny :
    SameEffect
        ((plainEvaluation [] "/").applyCandidateAction plainScope.context (.deny 403) (.start none))
        ((plainEvaluation [] "/").evaluateRule plainScope (.mk "bar" none (.deny 403) [])
          (.start none)) ↔
      (RuleAction.deny 403 : RuleAction Unit).label ≠ "code" ∧
        (RuleAction.deny 403 : RuleAction Unit).label ≠ "report" := by
  have accepted : buildThreshold plainCompilers "bots" 418 (plainThreshold "deny") =
      .ok ⟨10, .deny 403, "deny"⟩ := rfl
  exact applyCandidateAction_sameEffect_iff accepted (plainEvaluation [] "/") plainScope "bar"
    (.start none)

/-- A threshold that should answer with a bare 403 passes the request on to the backend. -/
theorem applyCandidateAction_code :
    ¬ ∀ (threshold : ThresholdConfig) (built : ThresholdState Unit),
      buildThreshold plainCompilers "bots" 418 threshold = .ok built →
      SameEffect
        ((plainEvaluation [] "/").applyCandidateAction plainScope.context built.action
          (.start none))
        ((plainEvaluation [] "/").evaluateRule plainScope (.mk "bar" none built.action [])
          (.start none)) := by
  intro always
  exact (plainEvaluation [] "/").not_sameEffect_code plainScope.context "bar" 403 (.start none)
    (always (plainThreshold "code") ⟨10, .code 403, "code"⟩ rfl)

end Bagel
