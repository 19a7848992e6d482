/-
This file proves the rule that every result about the tree of rules rests on: what holds of
the state before a rule, and is kept by every condition, by every action of the tree and by
the headers of a context, holds of the outcome and of the state after it.

It also says once what the actions leave alone.
-/

import Bagel.Pipeline

namespace Bagel

variable {Digest Condition Regex Facts : Type}

/-! ### The actions of a tree -/

mutual

/-- Every action of a rule and of the rules below it. -/
def RuleState.actions : RuleState Condition Regex → List (RuleAction Regex)
  | .mk _ _ action children => action :: actionsOf children

def actionsOf : List (RuleState Condition Regex) → List (RuleAction Regex)
  | [] => []
  | rule :: rest => rule.actions ++ actionsOf rest

end

namespace Evaluation

variable [LinearOrder Digest]

/-! ### The rule for trees -/

/-- A property of outcomes and states that conditions, actions and contexts keep, in the scopes
that are good and for the actions that are allowed. -/
structure RuleInvariant (evaluation : Evaluation Digest Condition Regex Facts)
    (Good : EvalScope Facts → Prop) (Allowed : RuleAction Regex → Prop)
    (Holds : RuleOutcome → EvalState Digest Facts → Prop) : Prop where
  condition : ∀ scope condition state, Good scope → Holds .continue state →
    Holds .continue (evaluation.conditionHolds scope condition state).2
  action : ∀ scope name action state, Good scope → Allowed action → Holds .continue state →
    Holds (evaluation.evaluateAction scope.context name action state).1
      (evaluation.evaluateAction scope.context name action state).2
  visit : ∀ scope after, Good scope → Good (scope.visit after)
  enter : ∀ scope responseHeaders requestHeaders, Good scope →
    Allowed (.context responseHeaders requestHeaders) → Good (scope.enter requestHeaders)
  pending : ∀ pending response state, Holds (.handled response) state →
    Holds (.handled (applyPending pending response)) state

variable {evaluation : Evaluation Digest Condition Regex Facts} {Good : EvalScope Facts → Prop}
  {Allowed : RuleAction Regex → Prop} {Holds : RuleOutcome → EvalState Digest Facts → Prop}

mutual

theorem RuleInvariant.evaluateRule (invariant : RuleInvariant evaluation Good Allowed Holds)
    (scope : EvalScope Facts) (good : Good scope) :
    ∀ (rule : RuleState Condition Regex), (∀ action ∈ rule.actions, Allowed action) →
      ∀ state, Holds .continue state →
      Holds (evaluation.evaluateRule scope rule state).1
        (evaluation.evaluateRule scope rule state).2
  | .mk name condition action children, allowed, state, before => by
    have own : Allowed action := allowed action (by simp [RuleState.actions])
    have below : ∀ action ∈ actionsOf children, Allowed action := fun other member =>
      allowed other (by simp [RuleState.actions, member])
    have checked := invariant.condition scope condition state good before
    rw [Evaluation.evaluateRule]
    dsimp only
    split
    · split
      · exact invariant.evalChildren scope good none children below _ checked
      · exact invariant.evalChildren _ (invariant.enter scope _ _ good own) _ children below _
          checked
      · exact invariant.action scope name _ _ good own checked
    · exact checked

theorem RuleInvariant.evalChildren (invariant : RuleInvariant evaluation Good Allowed Holds)
    (scope : EvalScope Facts) (good : Good scope) (pending : Option (HeaderMap × HeaderMap)) :
    ∀ (rules : List (RuleState Condition Regex)), (∀ action ∈ actionsOf rules, Allowed action) →
      ∀ state, Holds .continue state →
      Holds (evaluation.evalChildren scope pending rules state).1
        (evaluation.evalChildren scope pending rules state).2
  | [], _, state, before => before
  | rule :: rest, allowed, state, before => by
    have first := invariant.evaluateRule _ (invariant.visit scope rest.length good) rule
      (fun action member => allowed action (by simp [actionsOf, member])) state before
    have later : ∀ action ∈ actionsOf rest, Allowed action := fun action member =>
      allowed action (by simp [actionsOf, member])
    rw [Evaluation.evalChildren]
    split
    · next after outcome =>
      rw [outcome] at first
      exact invariant.evalChildren scope good pending rest later after first
    · next after outcome =>
      rw [outcome] at first
      exact first
    · next response after outcome =>
      rw [outcome] at first
      exact invariant.pending pending response after first

end

/-- What the terminal outcome of the rules says about the outcome of the rule that ended them. -/
def Terminal.outcome : Terminal → RuleOutcome
  | .none => .continue
  | .handled response => .handled response
  | .dropped _ => .drop

theorem RuleInvariant.evaluateRules (invariant : RuleInvariant evaluation Good Allowed Holds)
    (scope : EvalScope Facts) (good : Good scope) (rules : List (RuleState Condition Regex))
    (allowed : ∀ action ∈ actionsOf rules, Allowed action) (state : EvalState Digest Facts)
    (before : Holds .continue state) :
    Holds (evaluation.evaluateRules scope rules state).1.outcome
      (evaluation.evaluateRules scope rules state).2 := by
  induction rules generalizing state with
  | nil => exact before
  | cons rule rest inductionHypothesis =>
    have first := invariant.evaluateRule _ (invariant.visit scope rest.length good) rule
      (fun action member => allowed action (by simp [actionsOf, member])) state before
    rw [Evaluation.evaluateRules]
    split
    · next after outcome =>
      rw [outcome] at first
      exact inductionHypothesis (fun action member => allowed action (by simp [actionsOf, member]))
        after first
    · next response after outcome =>
      rw [outcome] at first
      exact first
    · next after outcome =>
      rw [outcome] at first
      exact first

/-! ### Answers -/

omit [LinearOrder Digest] in
@[simp] theorem challengeResponse_marker (evaluation : Evaluation Digest Condition Regex Facts)
    (name : Text) (httpCode moment : Nat) :
    (evaluation.challengeResponse name httpCode moment).marker = none := by
  unfold challengeResponse
  split <;> rfl

omit [LinearOrder Digest] in
@[simp] theorem challengeResponse_info (evaluation : Evaluation Digest Condition Regex Facts)
    (name : Text) (httpCode moment : Nat) :
    (evaluation.challengeResponse name httpCode moment).info = none := by
  unfold challengeResponse
  split <;> rfl

/-! ### What the actions leave alone -/

/-- Nothing was evaluated or reported in between. -/
structure Quiet (before after : EvalState Digest Facts) : Prop where
  seen : after.seen = before.seen
  offenses : after.offenses = before.offenses

omit [LinearOrder Digest] in
theorem Quiet.trans {first second third : EvalState Digest Facts} (one : Quiet first second)
    (two : Quiet second third) : Quiet first third :=
  ⟨two.seen.trans one.seen, two.offenses.trans one.offenses⟩

omit [LinearOrder Digest] in
theorem quiet_decide (state : EvalState Digest Facts) (rule : String) :
    Quiet state (state.decide rule) := ⟨rfl, rfl⟩

omit [LinearOrder Digest] in
theorem quiet_tick (state : EvalState Digest Facts) : Quiet state state.tick := ⟨rfl, rfl⟩

omit [LinearOrder Digest] in
theorem quiet_inject (state : EvalState Digest Facts) (fragment : Fragment) :
    Quiet state (state.inject fragment) := ⟨rfl, rfl⟩

variable (evaluation)

omit [LinearOrder Digest] in
theorem quiet_tarpitResponse (maze : String) (state : EvalState Digest Facts) :
    Quiet state (evaluation.tarpitResponse maze state).2 := by
  unfold tarpitResponse
  dsimp only
  split <;> exact ⟨rfl, rfl⟩

omit [LinearOrder Digest] in
theorem quiet_smearResponse (state : EvalState Digest Facts) :
    Quiet state (evaluation.smearResponse state).2 := by
  unfold smearResponse
  split <;> exact ⟨rfl, rfl⟩

omit [LinearOrder Digest] in
theorem quiet_lureFragment (maze : String) (state : EvalState Digest Facts) :
    Quiet state (evaluation.lureFragment maze state) := by
  unfold lureFragment
  dsimp only
  split <;> exact ⟨rfl, rfl⟩

omit [LinearOrder Digest] in
theorem quiet_beaconFragment (context : ConditionContext Facts) (state : EvalState Digest Facts) :
    Quiet state (evaluation.beaconFragment context state) := by
  unfold beaconFragment
  split
  · split <;> exact ⟨rfl, rfl⟩
  · exact ⟨rfl, rfl⟩

omit [LinearOrder Digest] in
theorem quiet_dispatchSubAction (action : RuleAction Regex) (state : EvalState Digest Facts) :
    Quiet state (evaluation.dispatchSubAction action state).2 := by
  unfold dispatchSubAction
  split
  · exact evaluation.quiet_tarpitResponse _ state
  · exact ⟨rfl, rfl⟩
  · exact ⟨rfl, rfl⟩
  · exact ⟨rfl, rfl⟩
  · exact evaluation.quiet_smearResponse state
  · exact ⟨rfl, rfl⟩

theorem quiet_afterChallenge (context : ConditionContext Facts) (action : ChallengeAction)
    (now : Int) (name : Text) (state : EvalState Digest Facts) :
    Quiet state (evaluation.afterChallenge context action now name state) := by
  unfold afterChallenge
  dsimp only
  split <;> exact ⟨rfl, rfl⟩

theorem quiet_evaluateChallenges (context : ConditionContext Facts) (rule : String)
    (challenge : RuleChallenge) (check : Bool) (now : Int) (names : List Text)
    (state : EvalState Digest Facts) :
    Quiet state (evaluation.evaluateChallenges context rule challenge check now names state).2 := by
  induction names generalizing state with
  | nil =>
    rw [evaluateChallenges]
    split
    · exact ⟨rfl, rfl⟩
    · exact (quiet_decide state rule).trans (evaluation.quiet_dispatchSubAction _ _)
  | cons name rest inductionHypothesis =>
    rw [evaluateChallenges]
    have checked := evaluation.quiet_afterChallenge context
      ⟨challenge.challenges, challenge.difficulty, check⟩ now name state
    split
    · exact checked.trans (inductionHypothesis _)
    · exact (checked.trans (quiet_inject _ _)).trans (inductionHypothesis _)
    · exact checked.trans (quiet_decide _ rule)
    · exact checked.trans (quiet_decide _ rule)
    · exact (checked.trans (quiet_decide _ rule)).trans
        (evaluation.quiet_dispatchSubAction _ _)

theorem quiet_evaluateChallengeAction (context : ConditionContext Facts) (rule : String)
    (challenge : RuleChallenge) (check : Bool) (state : EvalState Digest Facts) :
    Quiet state (evaluation.evaluateChallengeAction context rule challenge check state).2 :=
  (quiet_tick state).trans
    (evaluation.quiet_evaluateChallenges context rule challenge check _ _ state.tick)

/-- No action but a report hands an offense on, and no action evaluates a condition. -/
theorem evaluateAction_quiet_or_report (context : ConditionContext Facts) (name : String)
    (action : RuleAction Regex) (state : EvalState Digest Facts) :
    Quiet state (evaluation.evaluateAction context name action state).2 ∨
      ∃ kind groupKey, evaluation.evaluateAction context name action state =
        (.continue, state.emit ⟨some name, name, .report kind, groupKey⟩) := by
  unfold evaluateAction
  split
  case h_7 maze =>
    exact .inl ((evaluation.quiet_tarpitResponse maze state).trans (quiet_decide _ name))
  case h_8 => exact .inl ((evaluation.quiet_smearResponse state).trans (quiet_decide _ name))
  case h_9 maze => exact .inl (evaluation.quiet_lureFragment maze state)
  case h_10 => exact .inl (evaluation.quiet_beaconFragment context state)
  case h_11 kind => exact .inr ⟨kind, _, rfl⟩
  case h_14 challenge =>
    exact .inl (evaluation.quiet_evaluateChallengeAction context name challenge false state)
  case h_15 challenge =>
    exact .inl (evaluation.quiet_evaluateChallengeAction context name challenge true state)
  all_goals exact .inl ⟨rfl, rfl⟩

/-- No threshold evaluates a condition or hands an offense on by itself. -/
theorem quiet_applyCandidateAction (context : ConditionContext Facts) (action : RuleAction Regex)
    (state : EvalState Digest Facts) :
    Quiet state (evaluation.applyCandidateAction context action state).2 := by
  unfold applyCandidateAction
  split
  · exact quiet_decide state _
  · exact evaluation.quiet_evaluateChallengeAction context _ _ _ state
  · exact (evaluation.quiet_tarpitResponse _ state).trans (quiet_decide _ _)
  · exact ⟨rfl, rfl⟩
  · exact ⟨rfl, rfl⟩
  · exact ⟨rfl, rfl⟩
  · exact (quiet_decide state _).trans (evaluation.quiet_dispatchSubAction _ _)

theorem quiet_applyCandidate (context : ConditionContext Facts)
    (result : ScoreResult Condition Regex) (state : EvalState Digest Facts) :
    Quiet state (evaluation.applyCandidate context result state).2 := by
  unfold applyCandidate
  split
  · exact ⟨rfl, rfl⟩
  · next threshold candidate =>
    have quiet := evaluation.quiet_applyCandidateAction context threshold.action state
    split
    all_goals
      next outcome =>
      rw [outcome] at quiet
      exact quiet

omit [LinearOrder Digest] in
theorem seen_report (terminal : Terminal) (applied : Option (ScoreResult Condition Regex))
    (info : Option String × Option String) (state : EvalState Digest Facts) :
    (report terminal applied info state).seen = state.seen := by
  unfold report
  dsimp only
  split <;> rfl

/-- The conditions of a request are those of its rules. -/
theorem seen_handleRequest (context : ConditionContext Facts) (token : Option (Token Digest)) :
    (evaluation.handleRequest context token).state.seen =
      (evaluation.evaluateRules ⟨context, Multimap.empty, [], []⟩ evaluation.snapshot.rules
        (.start token)).2.seen := by
  unfold handleRequest
  dsimp only
  rw [seen_report]
  split
  · exact (evaluation.quiet_applyCandidate context _ _).seen
  · rfl

end Evaluation

end Bagel
