/-
This file models the scorecards of `rule/scoring.rs`: what `ScoringState::build` accepts, and
how `ScoringState::evaluate` picks the first matching scorecard, adds up the weights of its
signals and selects the threshold that the score reached.
-/

import Bagel.Rules

namespace Bagel

variable {Condition Regex : Type}

/-! ### Configuration -/

structure SignalConfig where
  name : String
  condition : String
  weight : Option Nat

structure ThresholdConfig where
  value : Nat
  action : String
  challenges : List Text
  settings : RuleSettings

structure ScorecardConfig where
  name : String
  condition : Option String
  mode : Option String
  signals : List SignalConfig
  thresholds : List ThresholdConfig

structure ScoringConfig where
  rateCapacity : Option Nat
  scorecards : List ScorecardConfig

/-! ### Scorecards -/

inductive ScoreMode where
  | observe
  | enforce
  deriving DecidableEq

structure SignalState (Condition : Type) where
  name : String
  condition : Condition
  weight : Nat

structure ThresholdState (Regex : Type) where
  value : Nat
  action : RuleAction Regex
  kind : String

structure ScorecardState (Condition Regex : Type) where
  name : String
  condition : Option Condition
  mode : ScoreMode
  signals : List (SignalState Condition)
  thresholds : List (ThresholdState Regex)

structure ScoringState (Condition Regex : Type) where
  rateCapacity : Nat
  scorecards : List (ScorecardState Condition Regex)

def forbiddenThresholdActions : List String :=
  ["none", "context", "check", "pass", "lure", "beacon"]

def actionKind (action : String) : String :=
  if ["challenge", "deny", "block", "code", "drop", "proxy", "tarpit", "smear"].contains action then
    action
  else "unknown"

/-! ### Building -/

def cardPlace (card : String) : String := "scorecard '" ++ card ++ "'"

/-- The body of the loop over the signals. -/
def buildSignal (compilers : Compilers Condition Regex) (card : String) (signal : SignalConfig) :
    Except Error (SignalState Condition) := do
  let condition ← inPlace (cardPlace card ++ ": signal '" ++ signal.name ++ "'")
    (compilers.condition signal.condition)
  return ⟨signal.name, condition, signal.weight.getD 0⟩

def buildSignals (compilers : Compilers Condition Regex) (card : String) (names : List String) :
    List SignalConfig → Except Error (List (SignalState Condition))
  | [] => .ok []
  | signal :: rest => do
    if names.contains signal.name then
      throw (.config (cardPlace card ++ ": duplicate signal '" ++ signal.name ++ "'"))
    let built ← buildSignal compilers card signal
    let others ← buildSignals compilers card (signal.name :: names) rest
    return built :: others

/-- The body of the loop over the thresholds. -/
def buildThreshold (compilers : Compilers Condition Regex) (card : String) (defaultHttpCode : Nat)
    (threshold : ThresholdConfig) : Except Error (ThresholdState Regex) := do
  let kind := toLowercase threshold.action
  let place := cardPlace card ++ ": threshold " ++ toString threshold.value
  if forbiddenThresholdActions.contains kind then
    throw (.config (place ++ " may not use action '" ++ kind ++ "'"))
  let action ← inPlace place
    (RuleAction.parse compilers threshold.action threshold.settings threshold.challenges
      defaultHttpCode)
  match action, threshold.challenges with
  | .challenge _, [] =>
    throw (.config (cardPlace card ++ ": challenge threshold " ++ toString threshold.value ++
      " has no challenges"))
  | _, _ => return ⟨threshold.value, action, actionKind kind⟩

def buildThresholds (compilers : Compilers Condition Regex) (card : String)
    (defaultHttpCode : Nat) (values : List Nat) :
    List ThresholdConfig → Except Error (List (ThresholdState Regex))
  | [] => .ok []
  | threshold :: rest => do
    if values.contains threshold.value then
      throw (.config (cardPlace card ++ ": duplicate threshold value " ++
        toString threshold.value))
    let built ← buildThreshold compilers card defaultHttpCode threshold
    let others ← buildThresholds compilers card defaultHttpCode (threshold.value :: values) rest
    return built :: others

def buildMode (card : String) : Option String → Except Error ScoreMode
  | .none => .ok .observe
  | some "observe" => .ok .observe
  | some "enforce" => .ok .enforce
  | some other => .error (.config (cardPlace card ++ ": unknown mode '" ++ other ++ "'"))

/-- The body of the loop over the scorecards. -/
def buildScorecard (compilers : Compilers Condition Regex) (defaultHttpCode : Nat)
    (card : ScorecardConfig) : Except Error (ScorecardState Condition Regex) := do
  let mode ← buildMode card.name card.mode
  let condition ← inPlace (cardPlace card.name) (compileCondition compilers card.condition)
  let signals ← buildSignals compilers card.name [] card.signals
  let thresholds ← buildThresholds compilers card.name defaultHttpCode [] card.thresholds
  return ⟨card.name, condition, mode, signals,
    thresholds.mergeSort fun first second => first.value ≤ second.value⟩

/-- `names` are the scorecards so far and `unconditional` the first one without a condition. -/
def buildScorecards (compilers : Compilers Condition Regex) (defaultHttpCode : Nat)
    (names : List String) (unconditional : Option String) :
    List ScorecardConfig → Except Error (List (ScorecardState Condition Regex))
  | [] => .ok []
  | card :: rest => do
    if names.contains card.name then
      throw (.config ("duplicate scorecard '" ++ card.name ++ "'"))
    match unconditional with
    | some first =>
      throw (.config (cardPlace card.name ++ " is unreachable after unconditional scorecard '" ++
        first ++ "'"))
    | .none =>
      let built ← buildScorecard compilers defaultHttpCode card
      let unconditional := if card.condition.isNone then some card.name else .none
      let others ← buildScorecards compilers defaultHttpCode (card.name :: names) unconditional
        rest
      return built :: others

def defaultRateCapacity : Nat := 65536

def minRateCapacity : Nat := 1024

def maxRateCapacity : Nat := 1048576

/-- `ScoringState::build` -/
def ScoringState.build (compilers : Compilers Condition Regex) (defaultHttpCode : Nat)
    (config : ScoringConfig) : Except Error (ScoringState Condition Regex) := do
  let rateCapacity := config.rateCapacity.getD defaultRateCapacity
  if rateCapacity < minRateCapacity ∨ maxRateCapacity < rateCapacity then
    throw (.config ("scoring rate-capacity " ++ toString rateCapacity ++ " is outside " ++
      toString minRateCapacity ++ "..=" ++ toString maxRateCapacity))
  let scorecards ← buildScorecards compilers defaultHttpCode [] .none config.scorecards
  return ⟨rateCapacity, scorecards⟩

/-! ### Evaluation -/

structure ScoreResult (Condition Regex : Type) where
  scorecard : ScorecardState Condition Regex
  score : Nat
  matched : List String
  errors : List String
  candidate : Option (ThresholdState Regex)

/-- One signal of `ScoringState::evaluate`, with what its condition answered: the score, the
matched signals and those that failed. -/
def addSignal (answer : Condition → Option Bool) (total : Nat × List String × List String)
    (signal : SignalState Condition) : Nat × List String × List String :=
  match answer signal.condition with
  | some true =>
    (min (total.1 + signal.weight) (2 ^ 32 - 1), total.2.1 ++ [signal.name], total.2.2)
  | some false => total
  | .none => (total.1, total.2.1, total.2.2 ++ [signal.name])

/-- `ScoringState::evaluate`, given what the conditions of the request answer. -/
def ScoringState.evaluate (scoring : ScoringState Condition Regex)
    (answer : Condition → Option Bool) : Option (ScoreResult Condition Regex) :=
  (scoring.scorecards.find? fun card =>
      card.condition.all fun condition => answer condition = some true).map fun card =>
    let total := card.signals.foldl (addSignal answer) (0, [], [])
    ⟨card, total.1, total.2.1, total.2.2,
      card.thresholds.reverse.find? fun threshold => threshold.value ≤ total.1⟩

end Bagel
