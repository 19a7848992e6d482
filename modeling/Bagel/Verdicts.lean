/-
This file proves when a hostile verdict is reported under the right rule. What is reported is
derived from a label that is attached on the way up from the action that decided: the label
of the action, with the name of its rule, on a response, and the name of the rule at the top
on a drop. So a deceptive page that follows a challenge goes unreported, as its label is that
of the challenge, and a drop below the top names the wrong rule. In every other case exactly
one offense is handed on, and it names the rule that decided.

The rules of a compiled policy have full names: that of a rule below another one is longer, unless
the one above has no name at all. So the name at the top is never that of a rule below it.
-/

import Bagel.DecidingRules
import Bagel.References
import Bagel.Thresholds

namespace Bagel

variable {Digest Condition Regex Facts : Type}

/-! ### Verdicts -/

/-- The offense that a page is. -/
def Page.verdict : Page → Option OffenseKind
  | smear => some .smear
  | maze _ => some .tarpit
  | _ => none

namespace Evaluation

/-- The offense that the end of a request is. -/
def Terminal.verdict : Terminal → Option OffenseKind
  | .none => Option.none
  | .dropped _ => some .drop
  | .handled response => response.page.verdict

end Evaluation

/-- An offense that stands for a verdict, and not for a `report` rule. -/
def OffenseKind.isVerdict : OffenseKind → Bool
  | report _ => false
  | _ => true

namespace Evaluation.Decision

variable (decision : Decision Digest Condition Regex Facts)

/-- The name of who decided: the scorecard of an applied threshold, or the rule. -/
def culprit : Option String :=
  match decision.applied with
  | some result => some result.scorecard.name
  | none => decision.state.decider

/-- The kind under which a verdict is handed on. -/
def reportedKind (kind : OffenseKind) : OffenseKind :=
  match decision.applied with
  | some result => .score result.score
  | none => kind

/-- The rules and the kinds of the verdicts that were handed on. -/
def verdicts : List (Option String × OffenseKind) :=
  (decision.state.offenses.filter fun offense => offense.kind.isVerdict).map
    fun offense => (offense.rule, offense.kind)

/-- A hostile end is reported once and under the name of who decided, which is also the rule of
the trace, and any other end is not reported. -/
structure Reported : Prop where
  verdicts : decision.verdicts = decision.terminal.verdict.toList.map
    fun kind => (decision.culprit, decision.reportedKind kind)
  traced : decision.terminal.verdict ≠ none → decision.applied.isNone →
    decision.info.1 = decision.culprit

end Evaluation.Decision

/-! ### Full names -/

/-- A full name below another one is longer, unless the other one is empty. -/
def Extends (outer inner : String) : Prop := outer = "" ∨ outer.length < inner.length

theorem extends_fullName (parentName name : String) :
    Extends parentName (fullName parentName name) := by
  unfold Extends fullName
  by_cases nameless : parentName = ""
  · exact .inl nameless
  · rw [if_neg nameless, String.length_append, String.length_append]
    exact .inr (by have slash : "/".length = 1 := rfl; omega)

theorem Extends.trans {outer middle inner : String} (first : Extends outer middle)
    (second : Extends middle inner) : Extends outer inner := by
  rcases first with nameless | longer
  · exact .inl nameless
  · rcases second with nameless | longer'
    · rw [nameless] at longer
      exact absurd longer (Nat.not_lt_zero _)
    · exact .inr (longer.trans longer')

/-- The two are the same only where both are empty. -/
theorem Extends.eq_iff {outer inner : String} (extends' : Extends outer inner) :
    outer = inner ↔ inner = "" := by
  rcases extends' with nameless | longer
  · rw [nameless]
    exact eq_comm
  · constructor
    · intro same
      rw [same] at longer
      exact absurd longer (lt_irrefl _)
    · intro nameless
      rw [nameless] at longer
      exact absurd longer (Nat.not_lt_zero _)

/-- The names of the rules below a rule extend its own. -/
inductive RuleState.Nested : RuleState Condition Regex → Prop where
  | mk {name condition action children}
      (longer : ∀ child ∈ children, Extends name child.name)
      (nested : ∀ child ∈ children, RuleState.Nested child) :
      RuleState.Nested (.mk name condition action children)

mutual

theorem nested_of_buildRule (compilers : Compilers Condition Regex) (defaultHttpCode : Nat)
    (parentName : String) :
    ∀ (config : RuleConfig) (rule : RuleState Condition Regex),
      buildRule compilers defaultHttpCode parentName config = .ok rule →
      Extends parentName rule.name ∧ rule.Nested
  | .mk name condition action challenges settings children, rule, built => by
    simp only [buildRule, Transaction.bind_eq_ok_iff] at built
    obtain ⟨_, -, _, -, below, builtChildren, done⟩ := built
    cases done
    have lower := nested_of_buildRules compilers defaultHttpCode (fullName parentName name)
      children below builtChildren
    exact ⟨extends_fullName parentName name,
      .mk (fun child member => (lower child member).1) fun child member => (lower child member).2⟩

theorem nested_of_buildRules (compilers : Compilers Condition Regex) (defaultHttpCode : Nat)
    (parentName : String) :
    ∀ (configs : List RuleConfig) (rules : List (RuleState Condition Regex)),
      buildRules compilers defaultHttpCode parentName configs = .ok rules →
      ∀ rule ∈ rules, Extends parentName rule.name ∧ rule.Nested
  | [], rules, built, rule, member => by
    rw [buildRules] at built
    cases built
    cases member
  | config :: rest, rules, built, rule, member => by
    simp only [buildRules, Transaction.bind_eq_ok_iff] at built
    obtain ⟨first, builtFirst, later, builtLater, done⟩ := built
    cases done
    rcases List.mem_cons.mp member with rfl | member
    · exact nested_of_buildRule compilers defaultHttpCode parentName config rule builtFirst
    · exact nested_of_buildRules compilers defaultHttpCode parentName rest later builtLater rule
        member

end

/-- A rule is found at its own place or below itself, under a name that extends its own. -/
theorem RuleState.Nested.extends_of_find {rule other : RuleState Condition Regex}
    {above : List (RuleState Condition Regex)} {place : List Nat} (nested : rule.Nested)
    (found : rule.find place = some (above, other)) :
    above = [] ∧ other = rule ∨ above.head? = some rule ∧ Extends rule.name other.name := by
  induction place generalizing rule above with
  | nil =>
    cases found
    exact .inl ⟨rfl, rfl⟩
  | cons after place inductionHypothesis =>
    obtain ⟨child, listed, lower⟩ := Option.bind_eq_some_iff.mp found
    obtain ⟨⟨above', other'⟩, foundBelow, same⟩ := Option.map_eq_some_iff.mp lower
    cases same
    have member : child ∈ rule.children :=
      List.mem_reverse.mp (List.mem_of_getElem? listed)
    cases nested with
    | mk longer nestedBelow =>
      refine .inr ⟨rfl, ?_⟩
      rcases inductionHypothesis (nestedBelow child member) foundBelow with
        ⟨-, rfl⟩ | ⟨-, further⟩
      · exact longer _ member
      · exact (longer child member).trans further

/-- The name at the top is that of a rule of the list itself, or of no name at all. -/
theorem name_headD_iff {rules : List (RuleState Condition Regex)}
    (nested : ∀ rule ∈ rules, rule.Nested) {place : List Nat}
    {above : List (RuleState Condition Regex)} {rule : RuleState Condition Regex}
    (found : ruleAt rules place = some (above, rule)) :
    (above.headD rule).name = rule.name ↔ above = [] ∨ rule.name = "" := by
  cases place with
  | nil => cases found
  | cons after place =>
    obtain ⟨first, listed, lower⟩ := Option.bind_eq_some_iff.mp found
    have member : first ∈ rules := List.mem_reverse.mp (List.mem_of_getElem? listed)
    rcases (nested first member).extends_of_find lower with ⟨rfl, rfl⟩ | ⟨head, further⟩
    · exact iff_of_true rfl (.inl rfl)
    · cases above with
      | nil => cases head
      | cons top rest =>
        cases head
        rw [List.headD_cons, further.eq_iff]
        exact (or_iff_right (List.cons_ne_nil _ _)).symm

/-! ### Labels -/

/-- The effective action of a response whose label is given. -/
def Response.effectiveAction (response : Response) (label : String) : String :=
  match response.marker with
  | some .pass => "pass"
  | some (.proxy _ _) => "proxy"
  | none => label

namespace Evaluation

/-- The rule decided, and the label of a response is reported as what it is, unless the response
is that of a challenge. Nothing is attached to it yet. -/
structure Labelled (rule label : String) (challenge : Bool) (outcome : RuleOutcome)
    (state : EvalState Digest Facts) : Prop where
  decided : outcome ≠ .continue → state.decider = some rule
  handled : ∀ response, outcome = .handled response → response.info = none ∧
    offenseKind (response.effectiveAction label) =
      if challenge then none else response.page.verdict

variable {evaluation : Evaluation Digest Condition Regex Facts} {state : EvalState Digest Facts}
  {rule label : String}

theorem Labelled.continue (rule label : String) (challenge : Bool) :
    Labelled rule label challenge .continue state :=
  ⟨fun ends => absurd rfl ends, fun _ handled => by cases handled⟩

theorem Labelled.drop (label : String) (challenge : Bool) (decided : state.decider = some rule) :
    Labelled rule label challenge .drop state :=
  ⟨fun _ => decided, fun _ handled => by cases handled⟩

theorem Labelled.direct {response : Response} (decided : state.decider = some rule)
    (bare : response.info = none)
    (kind : offenseKind (response.effectiveAction label) = response.page.verdict) :
    Labelled rule label false (.handled response) state := by
  refine ⟨fun _ => decided, fun other same => ?_⟩
  cases same
  exact ⟨bare, kind⟩

/-- The label of a challenge is never reported. -/
theorem Labelled.afterChallenge (silent : offenseKind label = none) {response : Response}
    (decided : state.decider = some rule) (bare : response.info = none) :
    Labelled rule label true (.handled response) state := by
  refine ⟨fun _ => decided, fun other same => ?_⟩
  cases same
  refine ⟨bare, ?_⟩
  unfold Response.effectiveAction
  split
  · rfl
  · rfl
  · exact silent

/-! ### Actions -/

theorem decider_tarpitResponse (maze : String) (state : EvalState Digest Facts) :
    (evaluation.tarpitResponse maze state).2.decider = state.decider := by
  unfold tarpitResponse
  dsimp only
  split <;> rfl

theorem info_tarpitResponse (maze : String) (state : EvalState Digest Facts) :
    (evaluation.tarpitResponse maze state).1.info = none := by
  unfold tarpitResponse
  dsimp only
  split <;> rfl

/-- What follows a challenge. -/
theorem labelled_dispatchSubAction (silent : offenseKind label = none) (action : SubAction)
    (decided : state.decider = some rule) :
    Labelled rule label true (evaluation.dispatchSubAction action.action state).1
      (evaluation.dispatchSubAction action.action state).2 := by
  cases action with
  | pass => exact .afterChallenge silent decided rfl
  | deny code => exact .afterChallenge silent decided rfl
  | block code => exact .afterChallenge silent decided rfl
  | drop => exact .drop label true decided
  | tarpit maze =>
    exact .afterChallenge silent ((decider_tarpitResponse maze _).trans decided)
      (info_tarpitResponse maze _)
  | smear =>
    simp only [SubAction.action, dispatchSubAction]
    unfold smearResponse
    split
    · exact .afterChallenge silent decided rfl
    · exact .drop label true decided

theorem labelled_smearResponse (rule : String) :
    Labelled rule "smear" false (evaluation.smearResponse state).1
      ((evaluation.smearResponse state).2.decide rule) := by
  unfold smearResponse
  split
  · exact .direct rfl rfl rfl
  · exact .drop "smear" false rfl

theorem labelled_tarpitResponse (finds : evaluation.FindsMazes) (rule : String) {name : String}
    (known : ∃ maze ∈ evaluation.snapshot.mazes.mazes, maze.name = name) :
    Labelled rule "tarpit" false (.handled (evaluation.tarpitResponse name state).1)
      ((evaluation.tarpitResponse name state).2.decide rule) := by
  obtain ⟨maze, listed, rfl⟩ := known
  obtain ⟨runtime, lookup⟩ := finds state.moment maze listed
  unfold tarpitResponse
  simp only [lookup]
  exact .direct rfl rfl rfl

variable [LinearOrder Digest]

theorem labelled_evaluateChallenges (silent : offenseKind label = none)
    (context : ConditionContext Facts) (rule : String) (challenge : RuleChallenge) (check : Bool)
    (now : Int) (names : List Text) (state : EvalState Digest Facts) :
    Labelled rule label true
      (evaluation.evaluateChallenges context rule challenge check now names state).1
      (evaluation.evaluateChallenges context rule challenge check now names state).2 := by
  induction names generalizing state with
  | nil =>
    rw [evaluateChallenges]
    split
    · exact .continue rule label true
    · exact labelled_dispatchSubAction silent challenge.passAction rfl
  | cons name rest inductionHypothesis =>
    rw [evaluateChallenges]
    split
    · exact inductionHypothesis _
    · exact inductionHypothesis _
    · exact .afterChallenge silent rfl rfl
    · exact .afterChallenge silent rfl (challengeResponse_info evaluation name _ _)
    · exact labelled_dispatchSubAction silent challenge.failAction rfl

/-- What a threshold does, under the kind that it was accepted with. -/
theorem labelled_applyCandidateAction (finds : evaluation.FindsMazes)
    (context : ConditionContext Facts) (action : RuleAction Regex)
    (resolved : Resolved evaluation.snapshot action) :
    Labelled "scorecard" (actionKind action.label) action.challenge?.isSome
      (evaluation.applyCandidateAction context action state).1
      (evaluation.applyCandidateAction context action state).2 := by
  cases action with
  | tarpit maze =>
    exact labelled_tarpitResponse finds _ (resolved.mazes maze (by simp [mazeReferences]))
  | smear =>
    simp only [applyCandidateAction, dispatchSubAction, smearResponse_decide]
    exact labelled_smearResponse _
  | challenge challenge =>
    exact labelled_evaluateChallenges rfl context _ challenge false _ _ _
  | drop => exact .drop _ _ rfl
  | report kind => exact .continue _ _ _
  | lure maze => exact .continue _ _ _
  | beacon => exact .continue _ _ _
  | check challenge => exact .afterChallenge rfl rfl rfl
  | _ => exact .direct rfl rfl rfl

/-! ### Rules -/

/-- The rule decided, and the label of a response names it and is reported as what the response is,
unless the response is that of a challenge. -/
structure Traceable (rule : String) (challenge : Bool) (outcome : RuleOutcome)
    (state : EvalState Digest Facts) : Prop where
  decided : outcome ≠ .continue → state.decider = some rule
  handled : ∀ response, outcome = .handled response → ∃ label,
    response.info = some ⟨rule, label⟩ ∧
      offenseKind (response.effectiveAction label) =
        if challenge then none else response.page.verdict

omit [LinearOrder Digest] in
theorem Traceable.continue (rule : String) (challenge : Bool) :
    Traceable rule challenge .continue state :=
  ⟨fun ends => absurd rfl ends, fun _ handled => by cases handled⟩

omit [LinearOrder Digest] in
theorem Labelled.tagged {challenge : Bool} {outcome : RuleOutcome}
    (labelled : Labelled rule label challenge outcome state) :
    Traceable rule challenge (outcome.tagged rule label) state := by
  cases outcome with
  | «continue» => exact .continue rule challenge
  | drop => exact ⟨labelled.decided, fun _ handled => by cases handled⟩
  | handled response =>
    obtain ⟨bare, kind⟩ := labelled.handled response rfl
    have attached : (RuleOutcome.handled response).tagged rule label =
        .handled { response with info := some ⟨rule, label⟩ } := by
      unfold RuleOutcome.tagged
      dsimp only
      rw [bare]
      rfl
    rw [attached]
    refine ⟨fun _ => labelled.decided fun none => (by cases none), fun other same => ?_⟩
    cases same
    exact ⟨label, rfl, kind⟩

omit [LinearOrder Digest] in
theorem Traceable.direct (rule label : String) (response : Response) (bare : response.info = none)
    (kind : offenseKind (response.effectiveAction label) = response.page.verdict) :
    Traceable rule false ((RuleOutcome.handled response).tagged rule label) (state.decide rule) :=
  Labelled.tagged (.direct rfl bare kind)

/-- What an action of a rule leads to can be traced to the rule. -/
theorem traceable_evaluateAction (finds : evaluation.FindsMazes) (context : ConditionContext Facts)
    (name : String) (action : RuleAction Regex) (resolved : Resolved evaluation.snapshot action) :
    Traceable name action.challenge?.isSome
      (evaluation.evaluateAction context name action state).1
      (evaluation.evaluateAction context name action state).2 := by
  cases action with
  | none => exact .continue name false
  | pass => exact .direct name "pass" .passed rfl rfl
  | deny code =>
    exact .direct name "deny"
      (.withType _ .html (evaluation.surroundings.errorPage .denied code) .denied) rfl rfl
  | block code =>
    exact .direct name "block"
      (.withType _ .html (evaluation.surroundings.errorPage .blocked code) .blocked) rfl rfl
  | code code => exact .direct name "code" (.bare (statusOf code 403) .empty) rfl rfl
  | drop => exact (Labelled.drop "drop" false rfl).tagged
  | tarpit maze =>
    have defined := resolved.mazes maze (by simp [mazeReferences])
    exact (labelled_tarpitResponse finds name defined).tagged
  | smear => exact (labelled_smearResponse name).tagged
  | lure maze => exact .continue name false
  | beacon => exact .continue name false
  | report kind => exact .continue name false
  | context responseHeaders requestHeaders => exact .continue name false
  | proxy matchRe rewrite backend =>
    exact .direct name "proxy"
      { Response.bare 200 .empty with marker := some (.proxy backend _) } rfl rfl
  | challenge challenge =>
    exact (labelled_evaluateChallenges rfl context name challenge false _ _ _).tagged
  | check challenge =>
    exact (labelled_evaluateChallenges rfl context name challenge true _ _ _).tagged

/-- No verdict was handed on yet. -/
def Innocent (state : EvalState Digest Facts) : Prop :=
  ∀ offense ∈ state.offenses, offense.kind.isVerdict = false

/-- The rules hand on what `report` rules report and no verdict. -/
theorem innocent_invariant :
    RuleInvariant evaluation (fun _ => True) (fun _ => True) fun _ state => Innocent state where
  condition := by
    intro scope condition state _ innocent
    unfold conditionHolds
    split <;> exact innocent
  action := by
    intro scope name action state _ _ innocent
    rcases evaluation.evaluateAction_quiet_or_report scope.context name action state with
      quiet | ⟨kind, groupKey, reported⟩
    · unfold Innocent
      rw [quiet.offenses]
      exact innocent
    · rw [reported]
      intro offense member
      rcases List.mem_append.mp member with member | member
      · exact innocent offense member
      · rw [List.mem_singleton.mp member]
        rfl
  visit := fun _ _ _ => trivial
  enter := fun _ _ _ _ _ => trivial
  pending := fun _ _ _ innocent => innocent

theorem innocent_evaluateRules {context : ConditionContext Facts} {token : Option (Token Digest)}
    {terminal : Terminal} {final : EvalState Digest Facts}
    (answers : evaluation.evaluateRules ⟨context, Multimap.empty, [], []⟩
      evaluation.snapshot.rules (.start token) = (terminal, final)) : Innocent final := by
  have invariant : RuleInvariant evaluation (fun _ => True) (fun _ => True)
    fun _ state => Innocent state := innocent_invariant
  have innocent := invariant.evaluateRules ⟨context, Multimap.empty, [], []⟩ trivial
    evaluation.snapshot.rules (fun _ _ => trivial) (.start token)
    fun offense none => absurd none List.not_mem_nil
  rw [answers] at innocent
  exact innocent

/-! ### The report -/

/-- The kind of the offense of a decision, if it is one. -/
def emittedKind (terminal : Terminal) (applied : Option (ScoreResult Condition Regex))
    (info : Option String × Option String) : Option OffenseKind :=
  offenseKind (effectiveAction terminal
    (applied.bind fun result => result.candidate.map ThresholdState.kind) info.2)

omit [LinearOrder Digest] in
theorem isVerdict_of_offenseKind {action : String} {kind : OffenseKind}
    (offense : offenseKind action = some kind) : kind.isVerdict = true := by
  unfold offenseKind at offense
  split at offense
  · cases offense
    rfl
  · split at offense
    · cases offense
      rfl
    · split at offense
      · cases offense
        rfl
      · cases offense

omit [LinearOrder Digest] in
theorem decider_report (terminal : Terminal) (applied : Option (ScoreResult Condition Regex))
    (info : Option String × Option String) (state : EvalState Digest Facts) :
    (report terminal applied info state).decider = state.decider := by
  unfold report
  dsimp only
  split <;> rfl

/-- The name under which an offense of a decision is handed on. -/
def emittedRule (applied : Option (ScoreResult Condition Regex))
    (info : Option String × Option String) : Option String :=
  match applied with
  | some result => some result.scorecard.name
  | none => info.1

/-- The kind under which it is handed on. -/
def emittedAs (applied : Option (ScoreResult Condition Regex)) (kind : OffenseKind) :
    OffenseKind :=
  match applied with
  | some result => .score result.score
  | none => kind

omit [LinearOrder Digest] in
/-- A report adds at most one offense. -/
theorem offenses_report (terminal : Terminal) (applied : Option (ScoreResult Condition Regex))
    (info : Option String × Option String) (state : EvalState Digest Facts) :
    ∃ detail, (report terminal applied info state).offenses = state.offenses ++
      (emittedKind terminal applied info).toList.map fun kind =>
        ⟨emittedRule applied info, detail, emittedAs applied kind, none⟩ := by
  unfold report emittedKind
  dsimp only
  generalize effectiveAction terminal
    (applied.bind fun result => result.candidate.map ThresholdState.kind) info.2 = action
  refine ⟨action, ?_⟩
  cases offenseKind action with
  | none => simp
  | some kind =>
    cases applied with
    | none => rfl
    | some result => rfl

omit [LinearOrder Digest] in
/-- The verdicts of a request are what its report adds. -/
theorem verdicts_report (terminal : Terminal) (applied : Option (ScoreResult Condition Regex))
    (info : Option String × Option String)
    (innocent : Innocent state) :
    (⟨terminal, applied, info, report terminal applied info state⟩ :
        Decision Digest Condition Regex Facts).verdicts =
      (emittedKind terminal applied info).toList.map fun kind =>
        (emittedRule applied info, emittedAs applied kind) := by
  have before : state.offenses.filter (fun offense => offense.kind.isVerdict) = [] :=
    List.filter_eq_nil_iff.mpr fun offense member => by simp [innocent offense member]
  obtain ⟨detail, offenses⟩ := offenses_report terminal applied info state
  unfold Decision.verdicts
  simp only [offenses, List.filter_append, before, List.nil_append]
  cases emitted : emittedKind terminal applied info with
  | none => rfl
  | some kind =>
    have verdict : (emittedAs applied kind).isVerdict = true := by
      cases applied with
      | none => exact isVerdict_of_offenseKind emitted
      | some result => rfl
    simp [verdict]

/-! ### Who decided -/

omit [LinearOrder Digest] in
/-- The effective action of a response is its marker, or its label. -/
theorem effectiveAction_handled (response : Response) (kind action : Option String) :
    effectiveAction (.handled response) kind action =
      response.effectiveAction ((kind <|> action).getD "unknown") := by
  unfold effectiveAction Response.effectiveAction
  dsimp only
  cases response.marker with
  | none => cases kind <;> rfl
  | some marker => cases marker <;> rfl

omit [LinearOrder Digest] in
/-- A response is reported rightly, unless it is a deceptive page after a challenge. -/
theorem reported_iff_of_response {decision : Decision Digest Condition Regex Facts}
    {response : Response} (handled : decision.terminal = .handled response) {challenge : Bool}
    (verdicts : decision.verdicts = (if challenge then none else response.page.verdict).toList.map
      fun kind => (decision.culprit, decision.reportedKind kind))
    (traced : decision.applied.isNone → decision.info.1 = decision.culprit) :
    decision.Reported ↔ (response.page.verdict ≠ none → challenge = false) := by
  have verdict : decision.terminal.verdict = response.page.verdict := by rw [handled]; rfl
  constructor
  · intro reported hostile
    cases challenge with
    | false => rfl
    | true =>
      have none := reported.verdicts.symm.trans verdicts
      rw [verdict] at none
      exact absurd (by simpa using none) hostile
  · intro direct
    refine ⟨?_, fun _ => traced⟩
    rw [verdicts, verdict]
    cases challenge with
    | false => rfl
    | true =>
      have innocent : response.page.verdict = none := by
        by_contra hostile
        exact Bool.noConfusion (direct hostile)
      rw [innocent]
      rfl

/-- The deciding rule is named in the books and on its response. -/
theorem Decides.traceable (finds : evaluation.FindsMazes) {scope : EvalScope Facts}
    {rules : List (RuleState Condition Regex)} {state final : EvalState Digest Facts}
    {above : List (RuleState Condition Regex)} {deciding : Deciding Condition Regex Facts}
    (decides : Decides evaluation scope rules state above deciding final)
    (resolved : ∀ action ∈ actionsOf rules, Resolved evaluation.snapshot action) :
    Traceable deciding.rule.name deciding.rule.action.challenge?.isSome deciding.outcome final := by
  induction decides with
  | pass _ _ inductionHypothesis =>
    exact inductionHypothesis fun action member =>
      resolved action (by simp [actionsOf, member])
  | @action scope name condition action children rest state outcome final holds outer answers =>
    obtain rfl : _ = outcome := congrArg Prod.fst answers
    obtain rfl : _ = final := congrArg Prod.snd answers
    exact traceable_evaluateAction finds scope.context name action
      (resolved action (by simp [actionsOf, RuleState.actions]))
  | group _ _ inductionHypothesis =>
    exact inductionHypothesis fun action member =>
      resolved action (by simp [actionsOf, RuleState.actions, member])
  | context _ _ inductionHypothesis =>
    exact inductionHypothesis fun action member =>
      resolved action (by simp [actionsOf, RuleState.actions, member])

/-- A rule of the list drops the request, or one without a name, and a deceptive page is not what
follows the challenge of a rule. -/
structure Deciding.Directly (deciding : Deciding Condition Regex Facts)
    (above : List (RuleState Condition Regex)) : Prop where
  dropped : deciding.outcome = .drop → above = [] ∨ deciding.rule.name = ""
  page : ∀ own, deciding.outcome = .handled own → own.page.verdict ≠ none →
    deciding.rule.action.challenge? = none

section Ends

omit [LinearOrder Digest]

variable {decision : Decision Digest Condition Regex Facts} {top name : String}

/-- A drop by a rule is reported rightly exactly when the rule has the name at the top. -/
theorem reported_iff_of_dropped (innocent : Innocent state) (who : state.decider = some name)
    (decided : decision = ⟨.dropped (some top), none, (some top, some "drop"),
      report (.dropped (some top)) (none : Option (ScoreResult Condition Regex))
        (some top, some "drop") state⟩) :
    decision.culprit = some name ∧ (decision.Reported ↔ top = name) := by
  have verdicts : decision.verdicts = [(some top, .drop)] := by
    rw [decided]
    exact verdicts_report (.dropped (some top)) none (some top, some "drop") innocent
  have culprit : decision.culprit = some name := by
    rw [decided]
    exact (decider_report _ _ _ state).trans who
  have expected : decision.terminal.verdict.toList.map
      (fun kind => (decision.culprit, decision.reportedKind kind)) = [(some name, .drop)] := by
    rw [culprit, decided]
    rfl
  refine ⟨culprit, fun reported => ?_, fun same => ⟨?_, fun _ _ => ?_⟩⟩
  · have named := verdicts.symm.trans (reported.verdicts.trans expected)
    simpa using named
  · rw [verdicts, expected, same]
  · rw [culprit, decided, same]

/-- An answer of a rule is reported rightly, unless it is a deceptive page after a challenge. -/
theorem reported_iff_of_handled {response : Response} {challenge : Bool}
    (innocent : Innocent state) (who : state.decider = some name)
    (labelled : response.info = some ⟨name, label⟩)
    (kind : offenseKind (response.effectiveAction label) =
      if challenge then none else response.page.verdict)
    (decided : decision = ⟨.handled response, none, terminalInfo (.handled response),
      report (.handled response) (none : Option (ScoreResult Condition Regex))
        (terminalInfo (.handled response)) state⟩) :
    decision.culprit = some name ∧
      (decision.Reported ↔ (response.page.verdict ≠ none → challenge = false)) := by
  have labels : terminalInfo (.handled response) = (some name, some label) := by
    rw [terminalInfo, labelled]
    rfl
  rw [labels] at decided
  have culprit : decision.culprit = some name := by
    rw [decided]
    exact (decider_report _ _ _ state).trans who
  have kinds : ∀ kind, decision.reportedKind kind = kind := by
    intro kind
    rw [decided]
    rfl
  refine ⟨culprit, reported_iff_of_response (by rw [decided]) ?_ fun _ => ?_⟩
  · have verdicts : decision.verdicts = (emittedKind (.handled response)
        (none : Option (ScoreResult Condition Regex)) (some name, some label)).toList.map
          fun kind => (some name, kind) := by
      rw [decided]
      exact verdicts_report (.handled response) none (some name, some label) innocent
    simp only [verdicts, culprit, kinds, emittedKind, effectiveAction_handled, ← kind]
    rfl
  · rw [culprit, decided]

end Ends

/-- Where a rule decides, the report is right exactly when the rule does so directly. -/
theorem Decides.reported_iff_directly (finds : evaluation.FindsMazes)
    (resolved : ∀ action ∈ actionsOf evaluation.snapshot.rules, Resolved evaluation.snapshot action)
    (nested : ∀ rule ∈ evaluation.snapshot.rules, rule.Nested)
    {context : ConditionContext Facts} {token : Option (Token Digest)}
    {final : EvalState Digest Facts} {above : List (RuleState Condition Regex)}
    {deciding : Deciding Condition Regex Facts}
    (decides : Decides evaluation ⟨context, Multimap.empty, [], []⟩ evaluation.snapshot.rules
      (.start token) above deciding final) :
    (evaluation.handleRequest context token).culprit = some deciding.rule.name ∧
      ((evaluation.handleRequest context token).Reported ↔ deciding.Directly above) := by
  have traceable := decides.traceable finds resolved
  have who := traceable.decided decides.ends
  have answers := decides.evaluateRules
  have innocent := innocent_evaluateRules answers
  cases outcome : deciding.outcome with
  | «continue» => exact absurd outcome decides.ends
  | drop =>
    rw [outcome] at answers
    obtain ⟨place, found, -, -⟩ := decides.located
    obtain ⟨culprit, reported⟩ := reported_iff_of_dropped innocent who
      (evaluation.handleRequest_of_ended answers fun none => by cases none)
    refine ⟨culprit, reported.trans ((name_headD_iff nested found).trans ?_)⟩
    refine ⟨fun direct => ⟨fun _ => direct, fun own handled => ?_⟩, fun direct =>
      direct.dropped outcome⟩
    rw [outcome] at handled
    cases handled
  | handled own =>
    obtain ⟨label, named, kind⟩ := traceable.handled own outcome
    have same := sameLabel_wrap Multimap.empty (contextsOf above) own
    rw [outcome] at answers
    have wrapped : offenseKind ((wrap Multimap.empty (contextsOf above) own).effectiveAction
        label) = if deciding.rule.action.challenge?.isSome then none
          else (wrap Multimap.empty (contextsOf above) own).page.verdict := by
      unfold Response.effectiveAction at kind ⊢
      rw [same.marker, same.page]
      exact kind
    obtain ⟨culprit, reported⟩ := reported_iff_of_handled innocent who (same.info.trans named)
      wrapped (evaluation.handleRequest_of_ended answers fun none => by cases none)
    refine ⟨culprit, reported.trans ?_⟩
    rw [same.page, Option.isSome_eq_false_iff, Option.isNone_iff_eq_none]
    refine ⟨fun direct => ⟨fun dropped => ?_, fun other handled => ?_⟩, fun direct =>
      direct.page own outcome⟩
    · rw [outcome] at dropped
      cases dropped
    · rw [outcome] at handled
      cases handled
      exact direct

/-- A deceptive page is not what follows the challenge of a threshold. -/
def ThresholdDirectly (evaluation : Evaluation Digest Condition Regex Facts)
    (context : ConditionContext Facts) (threshold : ThresholdState Regex)
    (state : EvalState Digest Facts) : Prop :=
  ∀ response after, evaluation.applyCandidateAction context threshold.action state =
      (.handled response, after) → response.page.verdict ≠ none →
    threshold.action.challenge? = none

/-- Where a threshold decides, the report is right exactly when the threshold does so directly. -/
theorem Applies.reported_iff_directly (finds : evaluation.FindsMazes)
    {context : ConditionContext Facts} {token : Option (Token Digest)}
    {result : ScoreResult Condition Regex} {threshold : ThresholdState Regex}
    (applies : evaluation.Applies context token result threshold state)
    (resolved : Resolved evaluation.snapshot threshold.action) (named : threshold.Named) :
    (evaluation.handleRequest context token).Reported ↔
      evaluation.ThresholdDirectly context threshold state := by
  have labelled : Labelled "scorecard" (actionKind threshold.action.label)
      threshold.action.challenge?.isSome
      (evaluation.applyCandidateAction context threshold.action state).1
      (evaluation.applyCandidateAction context threshold.action state).2 :=
    labelled_applyCandidateAction finds context threshold.action resolved
  have innocent : Innocent (evaluation.applyCandidateAction context threshold.action state).2 := by
    unfold Innocent
    rw [(evaluation.quiet_applyCandidateAction context threshold.action state).offenses]
    exact innocent_evaluateRules applies.passed
  unfold ThresholdDirectly
  rw [← named] at labelled
  cases leads : evaluation.applyCandidateAction context threshold.action state with
  | mk outcome after =>
    rw [leads] at labelled innocent
    have decided := applies.handleRequest leads
    have verdicts : (evaluation.handleRequest context token).verdicts =
        (emittedKind (RuleOutcome.terminal none outcome) (some result) (none, none)).toList.map
          fun _ => (some result.scorecard.name, .score result.score) := by
      rw [decided]
      exact verdicts_report _ (some result) (none, none) innocent
    have scored : ¬ (evaluation.handleRequest context token).applied.isNone := by
      rw [decided]
      exact Bool.false_ne_true
    cases outcome with
    | «continue» =>
      refine iff_of_true ⟨?_, fun _ none => absurd none scored⟩ fun _ _ same => by cases same
      rw [verdicts, decided]
      rfl
    | drop =>
      refine iff_of_true ⟨?_, fun _ none => absurd none scored⟩ fun _ _ same => by cases same
      rw [verdicts, decided]
      rfl
    | handled response =>
      obtain ⟨-, kind⟩ := labelled.handled response rfl
      have handled : (evaluation.handleRequest context token).terminal = .handled response := by
        rw [decided]
        rfl
      have emitted : (evaluation.handleRequest context token).verdicts =
          (if threshold.action.challenge?.isSome then none else response.page.verdict).toList.map
            fun kind => ((evaluation.handleRequest context token).culprit,
              (evaluation.handleRequest context token).reportedKind kind) := by
        rw [verdicts, ← kind, decided]
        simp only [RuleOutcome.terminal, emittedKind, effectiveAction_handled, Option.bind_some,
          applies.candidate]
        rfl
      rw [reported_iff_of_response handled emitted fun none => absurd none scored,
        Option.isSome_eq_false_iff, Option.isNone_iff_eq_none]
      refine ⟨fun page other after' same => ?_, fun page => page response after rfl⟩
      cases same
      exact page

/-- Who decides about a request, a rule or a threshold, does so directly. -/
structure DecidedDirectly (evaluation : Evaluation Digest Condition Regex Facts)
    (context : ConditionContext Facts) (token : Option (Token Digest)) : Prop where
  rules : ∀ above deciding final, evaluation.Decides ⟨context, Multimap.empty, [], []⟩
    evaluation.snapshot.rules (.start token) above deciding final → deciding.Directly above
  threshold : ∀ result threshold state, evaluation.Applies context token result threshold state →
    evaluation.ThresholdDirectly context threshold state

end Evaluation

/-- The thresholds of a policy that was compiled are under the kinds of their actions. -/
theorem Loaded.named_of_threshold {checks : CompileChecks Condition Regex} {config : WebConfig}
    {compiled : Compiled Condition Regex} {snapshot : Snapshot Digest Condition Regex}
    (loaded : Loaded checks config compiled snapshot) {scoring : ScoringState Condition Regex}
    (scored : snapshot.scoring = some scoring) {card : ScorecardState Condition Regex}
    (listed : card ∈ scoring.scorecards) {threshold : ThresholdState Regex}
    (member : threshold ∈ card.thresholds) : threshold.Named := by
  have accepted := loaded.accepted
  simp only [compile, Transaction.bind_eq_ok_iff] at accepted
  obtain ⟨-, -, compilers, -, rules, -, backends, -, -, -, built, scores, -, -, -, -, -, -, -, -,
    challenges, -, -, -, done⟩ := accepted
  have same : compiled.scoring = built := by
    cases done
    rfl
  rw [loaded.scoring, same] at scored
  rw [scored] at scores
  unfold buildScoring at scores
  split at scores
  · cases scores
  · obtain ⟨scoring', accepted, same'⟩ := Transaction.map_eq_ok_iff.mp scores
    cases same'
    exact named_of_build accepted card listed threshold member

/-- The rules of a policy that was compiled have full names. -/
theorem Loaded.nested {checks : CompileChecks Condition Regex} {config : WebConfig}
    {compiled : Compiled Condition Regex} {snapshot : Snapshot Digest Condition Regex}
    (loaded : Loaded checks config compiled snapshot) : ∀ rule ∈ snapshot.rules, rule.Nested := by
  have accepted := loaded.accepted
  simp only [compile, Transaction.bind_eq_ok_iff] at accepted
  obtain ⟨-, -, compilers, -, rules, built, backends, -, -, -, scoring, -, -, -, -, -, -, -, -, -,
    challenges, -, -, -, done⟩ := accepted
  cases done
  rw [loaded.rules]
  exact fun rule member => (nested_of_buildRules _ _ _ _ _ built rule member).2

/-- Under a policy that was compiled, and on a host that was not refused: a hostile end of a request
is reported once and under the name of who decided, and any other end is not, exactly when who
decided did so directly. Where a rule decided, it is that at the end of the path. -/
theorem Loaded.reported_iff [LinearOrder Digest] {checks : CompileChecks Condition Regex}
    {config : WebConfig} {compiled : Compiled Condition Regex}
    {evaluation : Evaluation Digest Condition Regex Facts}
    (loaded : Loaded checks config compiled evaluation.snapshot)
    (reached : ∀ position, evaluation.Reached (evaluation.moments position).mazeCache)
    {entry : MazeCache} (before : evaluation.Reached entry)
    (accepted : (evaluation.snapshot.mazes.mazeLookup entry evaluation.host.value).1 ≠ .refused)
    (context : ConditionContext Facts) (token : Option (Token Digest)) :
    (∀ above deciding final, evaluation.Decides ⟨context, Multimap.empty, [], []⟩
        evaluation.snapshot.rules (.start token) above deciding final →
      (evaluation.handleRequest context token).culprit = some deciding.rule.name) ∧
    ((evaluation.handleRequest context token).Reported ↔
      evaluation.DecidedDirectly context token) := by
  have finds := Evaluation.findsMazes_of_reached reached before accepted
  have ruled : ∀ above deciding final, evaluation.Decides ⟨context, Multimap.empty, [], []⟩
      evaluation.snapshot.rules (.start token) above deciding final → _ :=
    fun above deciding final decides =>
      decides.reported_iff_directly finds loaded.resolved_of_mem_rules loaded.nested
  have scored : ∀ result threshold state, evaluation.Applies context token result threshold state →
      ((evaluation.handleRequest context token).Reported ↔
        evaluation.ThresholdDirectly context threshold state) := by
    intro result threshold state applies
    obtain ⟨scoring, configured, evaluated⟩ := Option.bind_eq_some_iff.mp applies.scored
    obtain ⟨listed, member⟩ := ScoringState.threshold_of_evaluate evaluated applies.candidate
    exact applies.reported_iff_directly finds
      (loaded.resolved_of_threshold configured listed member)
      (loaded.named_of_threshold configured listed member)
  refine ⟨fun above deciding final decides => (ruled _ _ _ decides).1, fun reported =>
    ⟨fun above deciding final decides => (ruled _ _ _ decides).2.mp reported,
      fun result threshold state applies => (scored _ _ _ applies).mp reported⟩, fun direct => ?_⟩
  rcases Evaluation.ended_or_applies_or_idle context token with
    ⟨above, deciding, final, decides⟩ | ⟨result, threshold, state, applies⟩ | ⟨state, passed, idle⟩
  · exact (ruled _ _ _ decides).2.mpr (direct.rules _ _ _ decides)
  · exact (scored _ _ _ applies).mpr (direct.threshold _ _ _ applies)
  · have innocent := Evaluation.innocent_evaluateRules passed
    rw [idle]
    refine ⟨?_, fun hostile => absurd rfl hostile⟩
    show (state.offenses.filter _).map _ = []
    rw [List.filter_eq_nil_iff.mpr fun offense member => by simp [innocent offense member]]
    rfl

/-- The site of `referringConfig` with other rules. -/
def trapConfig (rules : List RuleConfig) : WebConfig := { referringConfig with rules := rules }

/-- That site, once it was compiled. -/
def trapEvaluation (rules : List RuleConfig) (compiled : Compiled Bool Unit) :
    Evaluation Nat Bool Unit Unit :=
  let referring := referringEvaluation compiled
  { referring with
    snapshot := { referring.snapshot with
      mazes := MazeSite.ofTables (fun _ name => name) (trapConfig rules) [] rfl } }

theorem trap_loaded {rules : List RuleConfig}
    (compiles : (compile referringChecks (trapConfig rules)).isOk = true) : ∃ compiled,
    Loaded referringChecks (trapConfig rules) compiled
      (trapEvaluation rules compiled).snapshot := by
  cases result : compile referringChecks (trapConfig rules) with
  | error problem =>
    rw [result] at compiles
    cases compiles
  | ok compiled => exact ⟨compiled, result, rfl, rfl, rfl, rfl, [], rfl, rfl⟩

/-- The verdict on a request to that site. -/
def trapVerdict (rules : List RuleConfig) : Option OffenseKind :=
  match compile referringChecks (trapConfig rules) with
  | .ok compiled =>
    ((trapEvaluation rules compiled).handleRequest plainScope.context none).terminal.verdict
  | .error _ => none

/-- A rule that drops, below a rule without an action. -/
def nestedDrop : List RuleConfig :=
  [.mk "site" none "none" [] ⟨none, none, none, [], [], none, none, none, none, none, none⟩
    [.mk "trap" none "drop" [] ⟨none, none, none, [], [], none, none, none, none, none, none⟩ []]]

/-- A rule that answers with a maze, in the same place. -/
def nestedTarpit : List RuleConfig :=
  [.mk "site" none "none" [] ⟨none, none, none, [], [], none, none, none, none, none, none⟩
    [.mk "trap" none "tarpit" []
      ⟨none, none, none, [], [], none, none, none, some "cellar", none, none⟩ []]]

theorem Loaded.reported_iff_trapped :
    trapVerdict nestedDrop = some .drop ∧ trapVerdict nestedTarpit = some .tarpit ∧
      ∀ rules ∈ [nestedDrop, nestedTarpit], ∃ compiled,
        compile referringChecks (trapConfig rules) = .ok compiled ∧
        (∀ above deciding final, (trapEvaluation rules compiled).Decides
            ⟨plainScope.context, Multimap.empty, [], []⟩
            (trapEvaluation rules compiled).snapshot.rules (.start none) above deciding final →
          ((trapEvaluation rules compiled).handleRequest plainScope.context none).culprit =
            some deciding.rule.name) ∧
        (((trapEvaluation rules compiled).handleRequest plainScope.context none).Reported ↔
          (trapEvaluation rules compiled).DecidedDirectly plainScope.context none) := by
  refine ⟨by decide +kernel, by decide +kernel, fun rules member => ?_⟩
  have compiles : (compile referringChecks (trapConfig rules)).isOk = true := by
    rcases List.mem_pair.mp member with rfl | rfl <;> decide +kernel
  obtain ⟨compiled, loaded⟩ := trap_loaded compiles
  exact ⟨compiled, loaded.accepted, loaded.reported_iff (fun _ => ⟨[], rfl⟩) ⟨[], rfl⟩
    (fun refused => by cases refused) plainScope.context none⟩

/-- A drop by the rule `site/trap` is reported under `site`. -/
theorem nestedDrop_misreported :
    ¬ ∀ rules : List (RuleState Bool Unit),
      buildRules plainCompilers 418 "" nestedDrop = .ok rules →
      ((plainEvaluation rules "/").handleRequest plainScope.context none).Reported := by
  intro always
  have reported := always [.mk "site" none .none [.mk "site/trap" none .drop []]] rfl
  have traced := reported.traced (fun none => nomatch none) rfl
  exact absurd (Option.some.inj traced) (by decide)

end Bagel
