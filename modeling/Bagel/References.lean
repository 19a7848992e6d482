/-
This file proves that a policy that `compile` accepted finds every name it asks for while a
request is evaluated: the challenges of its rules and thresholds are registered, the mazes of
tarpits, lures and sub-actions are found on every host that was not refused, whatever the
cache of maze tables went through, and the backends of its proxy actions are in the pool.

Each walk at load time gives one part of what it takes for an action to be resolved. The rest
is the invariant rule for trees.
-/

import Bagel.Compile
import Bagel.RuleInvariants

namespace Bagel

variable {Digest Condition Regex Facts : Type}

/-! ### What the walks check -/

mutual

theorem check_of_walkRule {check : String → RuleAction Regex → Except Error Unit} :
    ∀ {rule : RuleState Condition Regex}, walkRule check rule = .ok () →
      ∀ action ∈ rule.actions, ∃ name, check name action = .ok ()
  | .mk name condition action children, walked => by
    rw [walkRule, Transaction.bind_eq_ok_iff] at walked
    obtain ⟨_, own, below⟩ := walked
    intro other member
    rw [RuleState.actions, List.mem_cons] at member
    rcases member with rfl | member
    · exact ⟨name, own⟩
    · exact check_of_walkRules below other member

/-- A walk that succeeds has checked every action of the tree. -/
theorem check_of_walkRules {check : String → RuleAction Regex → Except Error Unit} :
    ∀ {rules : List (RuleState Condition Regex)}, walkRules check rules = .ok () →
      ∀ action ∈ actionsOf rules, ∃ name, check name action = .ok ()
  | [], _ => fun action member => absurd member List.not_mem_nil
  | rule :: rest, walked => by
    rw [walkRules, Transaction.bind_eq_ok_iff] at walked
    obtain ⟨_, first, later⟩ := walked
    intro action member
    rw [actionsOf, List.mem_append] at member
    rcases member with member | member
    · exact check_of_walkRule first action member
    · exact check_of_walkRules later action member

end

theorem check_of_walkThresholds {check : String → Nat → RuleAction Regex → Except Error Unit}
    {scoring : ScoringState Condition Regex}
    (walked : walkThresholds check (some scoring) = .ok ()) {card : ScorecardState Condition Regex}
    (listed : card ∈ scoring.scorecards) {threshold : ThresholdState Regex}
    (member : threshold ∈ card.thresholds) :
    check card.name threshold.value threshold.action = .ok () := by
  have cards := Transaction.forM_eq_ok_iff.mp walked card listed
  exact Transaction.forM_eq_ok_iff.mp cards threshold member

theorem backend_of_checkBackend {backends : BackendPool} {place : String}
    {action : RuleAction Regex} (checked : checkBackend backends place action = .ok ())
    {backend : String} (named : action.backend? = some backend) : backend ∈ backends.names := by
  unfold checkBackend at checked
  rw [named] at checked
  rw [BackendPool.mem_names_iff]
  by_contra unknown
  simp only [unknown] at checked
  cases checked

theorem maze_of_checkMazes {mazes : List MazeConfig} {site : String} {action : RuleAction Regex}
    (checked : checkMazes mazes site action = .ok ()) {name : String}
    (named : name ∈ mazeReferences action) : ∃ maze ∈ mazes, maze.name = name := by
  have known := Transaction.forM_eq_ok_iff.mp checked name named
  unfold tarpitMazeKnown at known
  split at known
  · next found =>
    obtain ⟨maze, listed, same⟩ := List.any_eq_true.mp found
    exact ⟨maze, listed, of_decide_eq_true same⟩
  · cases known

theorem registered_of_checkChallenges {registry : Text → Option ChallengeRegistration}
    {site : String} {action : RuleAction Regex}
    (checked : checkChallenges registry site action = .ok ()) {challenge : RuleChallenge}
    {check : Bool} (named : action.challenge? = some (challenge, check)) {name : Text}
    (listed : name ∈ challenge.challenges) : registry name ≠ none := by
  unfold checkChallenges at checked
  rw [named] at checked
  have single := Transaction.forM_eq_ok_iff.mp checked name listed
  intro unknown
  simp only [checkChallenge, registered, unknown] at single
  cases single

/-! ### Resolved actions -/

/-- Every name in an action is defined. -/
structure Resolved (snapshot : Snapshot Digest Condition Regex) (action : RuleAction Regex) :
    Prop where
  challenges : ∀ challenge check, action.challenge? = some (challenge, check) →
    ∀ name ∈ challenge.challenges, snapshot.challenges name ≠ none
  mazes : ∀ name ∈ mazeReferences action, ∃ maze ∈ snapshot.mazes.mazes, maze.name = name
  backend : ∀ backend, action.backend? = some backend → backend ∈ snapshot.backends

namespace Loaded

variable {checks : CompileChecks Condition Regex} {config : WebConfig}
  {compiled : Compiled Condition Regex} {snapshot : Snapshot Digest Condition Regex}

/-- What `compile` checked about the names in a configuration. -/
theorem validated (loaded : Loaded checks config compiled snapshot) :
    validateProxyBackends compiled.rules compiled.backends = .ok () ∧
      validateThresholdBackends compiled.scoring compiled.backends = .ok () ∧
      validateTarpitReferences compiled.rules compiled.scoring config.mazes = .ok () ∧
      validateChallengeReferences compiled.rules compiled.scoring compiled.challenges = .ok () := by
  have accepted := loaded.accepted
  simp only [compile, Transaction.bind_eq_ok_iff] at accepted
  obtain ⟨-, -, compilers, -, rules, -, backends, -, ⟨⟩, ruleBackends, scoring, -, ⟨⟩,
    thresholdBackends, -, -, -, -, ⟨⟩, mazes, challenges, -, ⟨⟩, challengeNames, done⟩ := accepted
  cases done
  exact ⟨ruleBackends, thresholdBackends, mazes, challengeNames⟩

theorem mazes_eq (loaded : Loaded checks config compiled snapshot) :
    snapshot.mazes.mazes = config.mazes := by
  obtain ⟨tables, built, same⟩ := loaded.mazes
  rw [same]
  rfl

theorem resolved_of_checks (loaded : Loaded checks config compiled snapshot)
    {action : RuleAction Regex} {place site site' : String}
    (backend : checkBackend compiled.backends place action = .ok ())
    (mazes : checkMazes config.mazes site action = .ok ())
    (challenges : checkChallenges compiled.challenges site' action = .ok ()) :
    Resolved snapshot action where
  challenges := by
    intro challenge check named name listed
    rw [loaded.challenges]
    exact registered_of_checkChallenges challenges named listed
  mazes := by
    intro name named
    rw [loaded.mazes_eq]
    exact maze_of_checkMazes mazes named
  backend := by
    intro name named
    rw [loaded.backends]
    exact backend_of_checkBackend backend named

/-- Every action of the rules is resolved. -/
theorem resolved_of_mem_rules (loaded : Loaded checks config compiled snapshot) :
    ∀ action ∈ actionsOf snapshot.rules, Resolved snapshot action := by
  obtain ⟨backends, -, mazes, challenges⟩ := loaded.validated
  simp only [validateTarpitReferences, validateChallengeReferences,
    Transaction.bind_eq_ok_iff] at mazes challenges
  obtain ⟨_, mazes, -⟩ := mazes
  obtain ⟨_, challenges, -⟩ := challenges
  intro action member
  rw [loaded.rules] at member
  obtain ⟨_, backend⟩ := check_of_walkRules backends action member
  obtain ⟨_, maze⟩ := check_of_walkRules mazes action member
  obtain ⟨_, challenge⟩ := check_of_walkRules challenges action member
  exact loaded.resolved_of_checks backend maze challenge

/-- The action of every threshold is resolved. -/
theorem resolved_of_threshold (loaded : Loaded checks config compiled snapshot)
    {scoring : ScoringState Condition Regex} (scored : snapshot.scoring = some scoring)
    {card : ScorecardState Condition Regex} (listed : card ∈ scoring.scorecards)
    {threshold : ThresholdState Regex} (member : threshold ∈ card.thresholds) :
    Resolved snapshot threshold.action := by
  obtain ⟨-, backends, mazes, challenges⟩ := loaded.validated
  simp only [validateTarpitReferences, validateChallengeReferences,
    Transaction.bind_eq_ok_iff] at mazes challenges
  obtain ⟨_, -, mazes⟩ := mazes
  obtain ⟨_, -, challenges⟩ := challenges
  rw [← loaded.scoring, scored] at backends mazes challenges
  exact loaded.resolved_of_checks (check_of_walkThresholds backends listed member)
    (check_of_walkThresholds mazes listed member)
    (check_of_walkThresholds challenges listed member)

end Loaded

/-! ### Lookups on the way -/

namespace Evaluation

/-- No name was missed so far, and a response that stands for a named backend names one of the
pool. -/
structure Found (evaluation : Evaluation Digest Condition Regex Facts) (outcome : RuleOutcome)
    (state : EvalState Digest Facts) : Prop where
  missing : state.missing = []
  backend : ∀ response backend path, outcome = .handled response →
    response.marker = some (.proxy backend path) → backend ∈ evaluation.snapshot.backends

/-- Every configured maze is found at every moment. -/
def FindsMazes (evaluation : Evaluation Digest Condition Regex Facts) : Prop :=
  ∀ position, ∀ maze ∈ evaluation.snapshot.mazes.mazes, ∃ runtime,
    evaluation.snapshot.mazes.mazeByName (evaluation.moments position).mazeCache
      evaluation.host.value maze.name = some runtime

variable {evaluation : Evaluation Digest Condition Regex Facts} {state : EvalState Digest Facts}

/-- An outcome without a marker needs no backend. -/
theorem Found.of_missing {outcome : RuleOutcome} (missing : state.missing = [])
    (unmarked : ∀ response, outcome = .handled response → ∀ backend path,
      response.marker ≠ some (.proxy backend path)) : evaluation.Found outcome state :=
  ⟨missing, fun response backend path handled marked =>
    absurd marked (unmarked response handled backend path)⟩

theorem Found.continue (missing : state.missing = []) : evaluation.Found .continue state :=
  .of_missing missing fun _ handled => nomatch handled

theorem Found.drop (missing : state.missing = []) : evaluation.Found .drop state :=
  .of_missing missing fun _ handled => nomatch handled

theorem Found.passed (missing : state.missing = []) : evaluation.Found (.handled .passed) state :=
  .of_missing missing fun _ same => by
    cases same
    exact fun _ _ marked => nomatch marked

theorem Found.answer {response : Response} (missing : state.missing = [])
    (unmarked : response.marker = none) : evaluation.Found (.handled response) state :=
  .of_missing missing fun _ same => by
    cases same
    exact fun _ _ marked => nomatch unmarked.symm.trans marked

theorem Found.tagged {outcome : RuleOutcome} (found : evaluation.Found outcome state)
    (rule action : String) : evaluation.Found (outcome.tagged rule action) state := by
  refine ⟨found.missing, ?_⟩
  intro response backend path handled marked
  cases outcome with
  | «continue» => cases handled
  | drop => cases handled
  | handled untagged =>
    refine found.backend untagged backend path rfl ?_
    unfold RuleOutcome.tagged at handled
    dsimp only at handled
    split at handled
    · cases handled
      exact marked
    · cases handled
      exact marked

theorem Found.decide {outcome : RuleOutcome} (found : evaluation.Found outcome state)
    (rule : String) : evaluation.Found outcome (state.decide rule) :=
  ⟨found.missing, found.backend⟩

theorem Found.applyPending {response : Response}
    (found : evaluation.Found (.handled response) state)
    (pending : Option (HeaderMap × HeaderMap)) :
    evaluation.Found (.handled (applyPending pending response)) state := by
  refine ⟨found.missing, ?_⟩
  intro changed backend path handled marked
  cases handled
  refine found.backend response backend path rfl ?_
  unfold Evaluation.applyPending at marked
  split at marked
  · exact marked
  · split at marked
    · exact marked
    · exact marked

theorem found_tarpitResponse (finds : evaluation.FindsMazes) {name : String}
    (known : ∃ maze ∈ evaluation.snapshot.mazes.mazes, maze.name = name)
    (missing : state.missing = []) :
    evaluation.Found (.handled (evaluation.tarpitResponse name state).1)
      (evaluation.tarpitResponse name state).2 := by
  obtain ⟨maze, listed, rfl⟩ := known
  obtain ⟨runtime, lookup⟩ := finds state.moment maze listed
  unfold tarpitResponse
  simp only [lookup]
  exact .answer missing rfl

theorem found_smearResponse (missing : state.missing = []) :
    evaluation.Found (evaluation.smearResponse state).1 (evaluation.smearResponse state).2 := by
  unfold smearResponse
  split
  · exact .answer missing rfl
  · exact .drop missing

theorem missing_lureFragment (finds : evaluation.FindsMazes) {name : String}
    (known : ∃ maze ∈ evaluation.snapshot.mazes.mazes, maze.name = name)
    (missing : state.missing = []) : (evaluation.lureFragment name state).missing = [] := by
  obtain ⟨maze, listed, rfl⟩ := known
  obtain ⟨runtime, lookup⟩ := finds state.moment maze listed
  unfold lureFragment
  simp only [lookup]
  exact missing

theorem missing_beaconFragment (context : ConditionContext Facts) (missing : state.missing = []) :
    (evaluation.beaconFragment context state).missing = [] := by
  unfold beaconFragment
  split
  · split <;> exact missing
  · exact missing

theorem found_proxyOutcome (matchRe : Option Regex) (rewrite : String) {backend : String}
    (known : backend ∈ evaluation.snapshot.backends) (missing : state.missing = []) :
    evaluation.Found (evaluation.proxyOutcome matchRe rewrite backend) state := by
  refine ⟨missing, ?_⟩
  intro response named path handled marked
  cases handled
  cases marked
  exact known

theorem found_dispatchSubAction (finds : evaluation.FindsMazes) (action : SubAction)
    (known : ∀ name ∈ action.maze?, ∃ maze ∈ evaluation.snapshot.mazes.mazes, maze.name = name)
    (missing : state.missing = []) :
    evaluation.Found (evaluation.dispatchSubAction action.action state).1
      (evaluation.dispatchSubAction action.action state).2 := by
  cases action with
  | pass => exact .passed missing
  | deny code => exact .answer missing rfl
  | block code => exact .answer missing rfl
  | drop => exact .drop missing
  | smear => exact found_smearResponse missing
  | tarpit name => exact found_tarpitResponse finds (known name rfl) missing

variable [LinearOrder Digest]

theorem missing_afterChallenge (context : ConditionContext Facts) (action : ChallengeAction)
    (now : Int) {name : Text} (known : evaluation.snapshot.challenges name ≠ none)
    (missing : state.missing = []) :
    (evaluation.afterChallenge context action now name state).missing = [] := by
  unfold afterChallenge
  dsimp only
  rw [if_neg (by simpa using known)]
  exact missing

theorem found_evaluateChallenges (finds : evaluation.FindsMazes)
    (context : ConditionContext Facts) (rule : String) (challenge : RuleChallenge) (check : Bool)
    (now : Int)
    (known : ∀ action ∈ [challenge.passAction, challenge.failAction], ∀ name ∈ action.maze?,
      ∃ maze ∈ evaluation.snapshot.mazes.mazes, maze.name = name)
    (names : List Text) (registered : ∀ name ∈ names, evaluation.snapshot.challenges name ≠ none)
    (state : EvalState Digest Facts) (missing : state.missing = []) :
    evaluation.Found (evaluation.evaluateChallenges context rule challenge check now names state).1
      (evaluation.evaluateChallenges context rule challenge check now names state).2 := by
  induction names generalizing state with
  | nil =>
    rw [evaluateChallenges]
    split
    · exact .continue missing
    · exact found_dispatchSubAction finds challenge.passAction (known _ (by simp)) missing
  | cons name rest inductionHypothesis =>
    have later : ∀ other ∈ rest, evaluation.snapshot.challenges other ≠ none :=
      fun other member => registered other (List.mem_cons_of_mem _ member)
    have after := missing_afterChallenge context
      ⟨challenge.challenges, challenge.difficulty, check⟩ now
      (registered name List.mem_cons_self) missing
    rw [evaluateChallenges]
    split
    · exact inductionHypothesis later _ after
    · exact inductionHypothesis later _ after
    · exact .answer after rfl
    · exact .answer after (challengeResponse_marker evaluation name _ _)
    · exact found_dispatchSubAction finds challenge.failAction (known _ (by simp)) after

omit [LinearOrder Digest] in
/-- The sub-actions of a resolved challenge are resolved. -/
theorem subActions_of_resolved {action : RuleAction Regex} {challenge : RuleChallenge}
    {check : Bool} (named : action.challenge? = some (challenge, check))
    (resolved : Resolved evaluation.snapshot action) :
    ∀ sub ∈ [challenge.passAction, challenge.failAction], ∀ name ∈ sub.maze?,
      ∃ maze ∈ evaluation.snapshot.mazes.mazes, maze.name = name := by
  intro sub member name maze
  refine resolved.mazes name ?_
  have references : mazeReferences action =
      [challenge.passAction, challenge.failAction].filterMap SubAction.maze? := by
    cases action with
    | challenge challenge' =>
      cases named
      rfl
    | check challenge' =>
      cases named
      rfl
    | _ => cases named
  rw [references]
  exact List.mem_filterMap.mpr ⟨sub, member, maze⟩

theorem found_evaluateChallengeAction (finds : evaluation.FindsMazes)
    (context : ConditionContext Facts) (rule : String) {action : RuleAction Regex}
    {challenge : RuleChallenge} {check : Bool}
    (named : action.challenge? = some (challenge, check))
    (resolved : Resolved evaluation.snapshot action) (missing : state.missing = []) :
    evaluation.Found (evaluation.evaluateChallengeAction context rule challenge check state).1
      (evaluation.evaluateChallengeAction context rule challenge check state).2 :=
  found_evaluateChallenges finds context rule challenge check _
    (subActions_of_resolved named resolved) challenge.challenges
    (resolved.challenges challenge check named) _ missing

/-- A resolved action of a rule finds its names. -/
theorem found_evaluateAction (finds : evaluation.FindsMazes) (context : ConditionContext Facts)
    (name : String) (action : RuleAction Regex) (resolved : Resolved evaluation.snapshot action)
    (missing : state.missing = []) :
    evaluation.Found (evaluation.evaluateAction context name action state).1
      (evaluation.evaluateAction context name action state).2 := by
  cases action with
  | none => exact .continue missing
  | pass => exact ((Found.passed missing).tagged name _).decide name
  | deny code =>
    have answered : evaluation.Found (evaluation.denyResponse code) state := .answer missing rfl
    exact (answered.tagged name _).decide name
  | block code =>
    have answered : evaluation.Found (evaluation.blockResponse code) state := .answer missing rfl
    exact (answered.tagged name _).decide name
  | code code =>
    have answered : evaluation.Found (.handled (.bare (statusOf code 403) .empty)) state :=
      .answer missing rfl
    exact (answered.tagged name _).decide name
  | drop => exact .drop missing
  | tarpit maze =>
    have known := resolved.mazes maze (by simp [mazeReferences])
    exact ((found_tarpitResponse finds known missing).tagged name _).decide name
  | smear => exact ((found_smearResponse missing).tagged name _).decide name
  | lure maze =>
    have known := resolved.mazes maze (by simp [mazeReferences])
    exact .continue (missing_lureFragment finds known missing)
  | beacon => exact .continue (missing_beaconFragment context missing)
  | proxy matchRe rewrite backend =>
    have known := resolved.backend backend rfl
    exact ((found_proxyOutcome matchRe rewrite known missing).tagged name _).decide name
  | context responseHeaders requestHeaders => exact .continue missing
  | challenge challenge =>
    exact (found_evaluateChallengeAction finds context name rfl resolved missing).tagged name _
  | check challenge =>
    exact (found_evaluateChallengeAction finds context name rfl resolved missing).tagged name _
  | report kind => exact .continue missing

/-- So does a resolved action of a threshold. -/
theorem found_applyCandidateAction (finds : evaluation.FindsMazes)
    (context : ConditionContext Facts) (action : RuleAction Regex)
    (resolved : Resolved evaluation.snapshot action) (missing : state.missing = []) :
    evaluation.Found (evaluation.applyCandidateAction context action state).1
      (evaluation.applyCandidateAction context action state).2 := by
  cases action with
  | tarpit maze =>
    have known := resolved.mazes maze (by simp [mazeReferences])
    exact (found_tarpitResponse finds known missing).decide _
  | proxy matchRe rewrite backend =>
    have known := resolved.backend backend rfl
    exact (found_proxyOutcome matchRe rewrite known missing).decide _
  | challenge challenge => exact found_evaluateChallengeAction finds context _ rfl resolved missing
  | smear => exact found_smearResponse missing
  | drop => exact .drop missing
  | lure maze => exact .continue missing
  | beacon => exact .continue missing
  | report kind => exact .continue missing
  | deny code => exact .answer missing rfl
  | block code => exact .answer missing rfl
  | _ => exact .passed missing

theorem found_invariant (finds : evaluation.FindsMazes) :
    RuleInvariant evaluation (fun _ => True) (Resolved evaluation.snapshot) evaluation.Found where
  condition := by
    intro scope condition state _ found
    unfold conditionHolds
    split <;> exact .continue found.missing
  action := by
    intro scope name action state _ resolved found
    exact found_evaluateAction finds scope.context name action resolved found.missing
  visit := fun _ _ _ => trivial
  enter := fun _ _ _ _ _ => trivial
  pending := fun pending _ _ found => found.applyPending pending

theorem found_applyCandidate (finds : evaluation.FindsMazes) (context : ConditionContext Facts)
    (result : ScoreResult Condition Regex)
    (resolved : ∀ threshold, result.candidate = some threshold →
      Resolved evaluation.snapshot threshold.action) (missing : state.missing = []) :
    evaluation.Found (evaluation.applyCandidate context result state).1.outcome
      (evaluation.applyCandidate context result state).2 := by
  unfold applyCandidate
  split
  · exact .continue missing
  · next threshold candidate =>
    have found := found_applyCandidateAction finds context threshold.action
      (resolved threshold candidate) missing
    split
    all_goals
      next outcome =>
      rw [outcome] at found
      exact found

omit [LinearOrder Digest] in
theorem missing_report (terminal : Terminal) (applied : Option (ScoreResult Condition Regex))
    (info : Option String × Option String) (state : EvalState Digest Facts) :
    (report terminal applied info state).missing = state.missing := by
  unfold report
  dsimp only
  split <;> rfl

end Evaluation

/-- The threshold that a score reached is one of the scorecard's. -/
theorem ScoringState.threshold_of_evaluate {scoring : ScoringState Condition Regex}
    {answer : Condition → Option Bool} {result : ScoreResult Condition Regex}
    (evaluated : scoring.evaluate answer = some result) {threshold : ThresholdState Regex}
    (candidate : result.candidate = some threshold) :
    result.scorecard ∈ scoring.scorecards ∧ threshold ∈ result.scorecard.thresholds := by
  unfold ScoringState.evaluate at evaluated
  obtain ⟨card, found, rfl⟩ := Option.map_eq_some_iff.mp evaluated
  refine ⟨List.mem_of_find?_eq_some found, ?_⟩
  exact List.mem_reverse.mp (List.mem_of_find?_eq_some candidate)

namespace Evaluation

variable {checks : CompileChecks Condition Regex} {config : WebConfig}
  {compiled : Compiled Condition Regex} {evaluation : Evaluation Digest Condition Regex Facts}

/-- The caches that the lookups of a policy can lead to. -/
def Reached (evaluation : Evaluation Digest Condition Regex Facts) (cache : MazeCache) : Prop :=
  ∃ hosts : List String, cache =
    hosts.foldl (fun cache host => (evaluation.snapshot.mazes.mazeLookup cache host).2) []

/-- On a host that was not refused every maze is found until the end of the request. -/
theorem findsMazes_of_reached
    (reached : ∀ position, evaluation.Reached (evaluation.moments position).mazeCache)
    {entry : MazeCache} (before : evaluation.Reached entry)
    (accepted : (evaluation.snapshot.mazes.mazeLookup entry evaluation.host.value).1 ≠ .refused) :
    evaluation.FindsMazes := by
  intro position maze configured
  obtain ⟨hosts, same⟩ := reached position
  obtain ⟨hosts', same'⟩ := before
  rw [same'] at accepted
  rw [same]
  exact MazeSite.mazeByName_of_sound (MazeSite.sound_foldl hosts') (MazeSite.sound_foldl hosts)
    accepted configured

variable [LinearOrder Digest]

theorem found_handleRequest (loaded : Loaded checks config compiled evaluation.snapshot)
    (finds : evaluation.FindsMazes) (context : ConditionContext Facts)
    (token : Option (Token Digest)) :
    evaluation.Found (evaluation.handleRequest context token).terminal.outcome
      (evaluation.handleRequest context token).state := by
  have ruled := (found_invariant finds).evaluateRules ⟨context, Multimap.empty, [], []⟩ trivial
    evaluation.snapshot.rules loaded.resolved_of_mem_rules (.start token) (.continue rfl)
  unfold handleRequest
  dsimp only
  split
  · next result applied =>
    have scored : (evaluation.snapshot.scoring.bind fun scoring =>
        scoring.evaluate fun condition => evaluation.surroundings.condition condition context) =
        some result := by
      split at applied
      · exact applied
      · cases applied
    obtain ⟨scoring, configured, evaluated⟩ := Option.bind_eq_some_iff.mp scored
    have threshold := found_applyCandidate finds context result
      (fun threshold candidate => by
        obtain ⟨listed, member⟩ := ScoringState.threshold_of_evaluate evaluated candidate
        exact loaded.resolved_of_threshold configured listed member) ruled.missing
    exact ⟨(missing_report _ _ _ _).trans threshold.missing, threshold.backend⟩
  · exact ⟨(missing_report _ _ _ _).trans ruled.missing, ruled.backend⟩

end Evaluation

/-! ### No name is missing -/

/-- Under a policy that was compiled, and on a host that was not refused, the evaluation of a
request misses no challenge and no maze, and the backend it ends with is found by its name. -/
theorem Loaded.no_missing_name [LinearOrder Digest] {checks : CompileChecks Condition Regex}
    {config : WebConfig} {compiled : Compiled Condition Regex}
    {evaluation : Evaluation Digest Condition Regex Facts}
    (loaded : Loaded checks config compiled evaluation.snapshot)
    (reached : ∀ position, evaluation.Reached (evaluation.moments position).mazeCache)
    {entry : MazeCache} (before : evaluation.Reached entry)
    (accepted : (evaluation.snapshot.mazes.mazeLookup entry evaluation.host.value).1 ≠ .refused)
    (context : ConditionContext Facts) (token : Option (Token Digest)) :
    (evaluation.handleRequest context token).state.missing = [] ∧
      ∀ response backend path,
        (evaluation.handleRequest context token).terminal = .handled response →
        response.marker = some (.proxy backend path) →
        (compiled.backends.byName backend).isSome := by
  have finds := Evaluation.findsMazes_of_reached reached before accepted
  have found := Evaluation.found_handleRequest loaded finds context token
  refine ⟨found.missing, ?_⟩
  intro response backend path handled marked
  rw [← BackendPool.mem_names_iff, ← loaded.backends]
  refine found.backend response backend path ?_ marked
  rw [handled]
  rfl

/-- A rule that checks a challenge and another one that sends what is left to a backend, below a
rule without an action, and a maze for those who fail. -/
def referringConfig : WebConfig where
  challengeHttpCode := 418
  rules :=
    [.mk "guard" none "none" [] ⟨none, none, none, [], [], none, none, none, none, none, none⟩
      [.mk "gate" none "challenge" [⟨"cookie", by decide⟩]
        ⟨none, none, some "tarpit", [], [], none, none, none, some "cellar", none, none⟩ [],
      .mk "site" none "proxy" []
        ⟨none, none, none, [], [], none, none, some "*", none, none, none⟩ []]]
  scoring := none
  backends := [⟨"*", "http://origin.internal", none, none⟩]
  mazes := [⟨"cellar", "builtin", 3600, 86400000000000, 4, 8, 2048, 4096⟩]

def referringChecks : CompileChecks Bool Unit where
  bind := .ok ()
  prelude := .ok ⟨fun _ => .ok true, fun _ => .ok ()⟩
  parseUri := fun _ => .ok ⟨true, some "origin.internal", "/", none⟩
  surroundings := .ok ()
  mazes := .ok ()
  registry := .ok fun name => if name.value = "cookie" then
    some ⟨3600, none, .cookie, hour_fits, no_gpu_fits⟩ else none

/-- The site of `referringConfig`, once it was compiled. -/
def referringEvaluation (compiled : Compiled Bool Unit) : Evaluation Nat Bool Unit Unit :=
  let plain := plainEvaluation compiled.rules "/"
  { plain with
    snapshot := { plain.snapshot with
      scoring := compiled.scoring
      challenges := compiled.challenges
      mazes := MazeSite.ofTables (fun _ name => name) referringConfig [] rfl
      backends := compiled.backends.names } }

theorem referring_loaded : ∃ compiled,
    Loaded referringChecks referringConfig compiled (referringEvaluation compiled).snapshot := by
  have compiles : (compile referringChecks referringConfig).isOk = true := by decide +kernel
  cases result : compile referringChecks referringConfig with
  | error problem =>
    rw [result] at compiles
    cases compiles
  | ok compiled => exact ⟨compiled, result, rfl, rfl, rfl, rfl, [], rfl, rfl⟩

theorem Loaded.no_missing_name_referring :
    ∃ compiled, compile referringChecks referringConfig = .ok compiled ∧
      ((referringEvaluation compiled).handleRequest
        ⟨"example.com", "unknown", fun _ => none, none, none, false, ()⟩ none).state.missing = [] ∧
      ∀ response backend path,
        ((referringEvaluation compiled).handleRequest
          ⟨"example.com", "unknown", fun _ => none, none, none, false, ()⟩ none).terminal =
          .handled response →
        response.marker = some (.proxy backend path) →
        (compiled.backends.byName backend).isSome := by
  obtain ⟨compiled, loaded⟩ := referring_loaded
  exact ⟨compiled, loaded.accepted, loaded.no_missing_name (fun _ => ⟨[], rfl⟩) ⟨[], rfl⟩
    (fun refused => nomatch refused) _ _⟩

end Bagel
