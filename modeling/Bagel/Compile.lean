/-
This file models how `state.rs` turns a configuration into the policy that requests are
evaluated under: `compile` with the three walks of `state_validation.rs` that look for names
nobody defined, and the tables of mazes for the exact hosts. The order of the checks is that
of the source, so the first problem is the one that is reported.

The checks that say nothing about names are given by what they answer.
-/

import Bagel.Backends
import Bagel.Pipeline

namespace Bagel

variable {Digest Condition Regex Facts : Type}

/-! ### Configuration -/

structure WebConfig where
  challengeHttpCode : Nat
  rules : List RuleConfig
  scoring : Option ScoringConfig
  backends : List BackendConfig
  mazes : List MazeConfig

/-- What `compile` finds in the parts of a configuration that are not modelled, in the order it
looks at them. -/
structure CompileChecks (Condition Regex : Type) where
  /-- `validate_bind` -/
  bind : Except Error Unit
  /-- `Prelude::new` -/
  prelude : Except Error (Compilers Condition Regex)
  parseUri : String → Except String TargetUri
  /-- The renderers, the trust in proxies, the crawlers, the deception and the smear slots. -/
  surroundings : Except Error Unit
  /-- `validate_mazes` -/
  mazes : Except Error Unit
  /-- `ChallengeRegistry::build` -/
  registry : Except Error (Text → Option ChallengeRegistration)

/-! ### Walks -/

mutual

/-- One rule of a walk: the rule itself, then the rules below it. -/
def walkRule (check : String → RuleAction Regex → Except Error Unit) :
    RuleState Condition Regex → Except Error Unit
  | .mk name _ action children => do
    check name action
    walkRules check children

/-- A walk that checks the action of every rule, at any depth. -/
def walkRules (check : String → RuleAction Regex → Except Error Unit) :
    List (RuleState Condition Regex) → Except Error Unit
  | [] => .ok ()
  | rule :: rest => do
    walkRule check rule
    walkRules check rest

end

/-- A walk that checks the action of every threshold, given its scorecard and its value. -/
def walkThresholds (check : String → Nat → RuleAction Regex → Except Error Unit)
    (scoring : Option (ScoringState Condition Regex)) : Except Error Unit :=
  match scoring with
  | none => .ok ()
  | some scoring => scoring.scorecards.forM fun card =>
      card.thresholds.forM fun threshold => check card.name threshold.value threshold.action

/-- The place of a rule in a message. -/
def ruleSite (rule : String) : String := "rule '" ++ rule ++ "'"

/-- The place of a threshold in a message. -/
def thresholdSite (card : String) (value : Nat) : String :=
  "scorecard '" ++ card ++ "' threshold " ++ toString value

/-! ### Backends -/

/-- The backend that an action names. -/
def RuleAction.backend? : RuleAction Regex → Option String
  | .proxy _ _ backend => some backend
  | _ => Option.none

/-- The backend of an action is known, or the message says that it is not. -/
def checkBackend (backends : BackendPool) (place : String) (action : RuleAction Regex) :
    Except Error Unit :=
  match action.backend? with
  | none => .ok ()
  | some backend =>
    if (backends.byName backend).isSome then .ok ()
    else .error (.config (place ++ " references unknown backend '" ++ backend ++ "'"))

/-- `validate_proxy_backends` -/
def validateProxyBackends (rules : List (RuleState Condition Regex)) (backends : BackendPool) :
    Except Error Unit :=
  walkRules (fun name => checkBackend backends ("rule '" ++ name ++ "': proxy action")) rules

/-- The loop of `compile` over the backends of the thresholds. -/
def validateThresholdBackends (scoring : Option (ScoringState Condition Regex))
    (backends : BackendPool) : Except Error Unit :=
  walkThresholds (fun card value => checkBackend backends
    ("scorecard '" ++ card ++ "': threshold " ++ toString value)) scoring

/-! ### Mazes -/

/-- The maze of a sub-action. -/
def SubAction.maze? : SubAction → Option String
  | tarpit maze => some maze
  | _ => none

/-- `maze_references` -/
def mazeReferences : RuleAction Regex → List String
  | .tarpit maze => [maze]
  | .lure maze => [maze]
  | .challenge challenge => [challenge.passAction, challenge.failAction].filterMap SubAction.maze?
  | .check challenge => [challenge.passAction, challenge.failAction].filterMap SubAction.maze?
  | _ => []

/-- `tarpit_maze_known` -/
def tarpitMazeKnown (mazes : List MazeConfig) (site name : String) : Except Error Unit :=
  if mazes.any fun maze => maze.name = name then .ok ()
  else .error (.config (site ++ ": references unknown maze '" ++ name ++ "'"))

def checkMazes (mazes : List MazeConfig) (site : String) (action : RuleAction Regex) :
    Except Error Unit :=
  (mazeReferences action).forM (tarpitMazeKnown mazes site)

/-- `validate_tarpit_references` -/
def validateTarpitReferences (rules : List (RuleState Condition Regex))
    (scoring : Option (ScoringState Condition Regex)) (mazes : List MazeConfig) :
    Except Error Unit := do
  walkRules (fun name => checkMazes mazes (ruleSite name)) rules
  walkThresholds (fun card value => checkMazes mazes (thresholdSite card value)) scoring

/-! ### Challenges -/

inductive ChallengeClass where
  | transparent
  | blocking
  deriving DecidableEq

/-- The class that `ChallengeRegistry::build` gives to a challenge. -/
def ChallengeRuntime.challengeClass : ChallengeRuntime → ChallengeClass
  | cookie => .blocking
  | refresh => .blocking
  | dnsbl => .transparent
  | pow _ => .blocking

def ChallengeRuntime.supportsBackground : ChallengeRuntime → Bool
  | pow _ => true
  | _ => false

/-- The challenges that an action names, its difficulty, and whether it is a check. -/
def RuleAction.challenge? : RuleAction Regex → Option (RuleChallenge × Bool)
  | .challenge action => some (action, false)
  | .check action => some (action, true)
  | _ => Option.none

/-- The difficulty that an action sets for a challenge. -/
def checkDifficulty (site name : String) (runtime : ChallengeRuntime) :
    Option Nat → Except Error Unit
  | none => .ok ()
  | some difficulty =>
    match runtime with
    | .pow _ =>
      if PowChallenge.DifficultyRange difficulty then .ok ()
      else .error (.config (site ++ " sets difficulty " ++ toString difficulty ++ " for '" ++
        name ++ "', outside 1..=32"))
    | _ => .error (.config (site ++ " sets a difficulty for '" ++ name ++
        "', which is not a proof of work"))

/-- The registration of a name. -/
def registered (registry : Text → Option ChallengeRegistration) (site : String) (name : Text) :
    Except Error ChallengeRegistration :=
  match registry name with
  | some registration => .ok registration
  | none => .error (.config (site ++ " references unknown challenge '" ++ name.value ++ "'"))

/-- One name of `validate_action` in `validate_challenge_references`. -/
def checkChallenge (registry : Text → Option ChallengeRegistration) (site : String)
    (challenge : RuleChallenge) (check : Bool) (name : Text) : Except Error Unit := do
  let registration ← registered registry site name
  if check && registration.runtime.challengeClass = .blocking &&
      !registration.runtime.supportsBackground then
    throw (.config (site ++ " uses blocking challenge '" ++ name.value ++ "' with check"))
  checkDifficulty site name.value registration.runtime challenge.difficulty

/-- `validate_action` in `validate_challenge_references` -/
def checkChallenges (registry : Text → Option ChallengeRegistration) (site : String)
    (action : RuleAction Regex) : Except Error Unit :=
  match action.challenge? with
  | none => .ok ()
  | some (challenge, check) =>
    challenge.challenges.forM (checkChallenge registry site challenge check)

/-- `validate_challenge_references` -/
def validateChallengeReferences (rules : List (RuleState Condition Regex))
    (scoring : Option (ScoringState Condition Regex))
    (registry : Text → Option ChallengeRegistration) : Except Error Unit := do
  walkRules (fun name => checkChallenges registry (ruleSite name)) rules
  walkThresholds (fun card value => checkChallenges registry (thresholdSite card value)) scoring

/-! ### Compilation -/

structure Compiled (Condition Regex : Type) where
  rules : List (RuleState Condition Regex)
  backends : BackendPool
  scoring : Option (ScoringState Condition Regex)
  challenges : Text → Option ChallengeRegistration

/-- The scorecards of a configuration, if it has any. -/
def buildScoring (compilers : Compilers Condition Regex) (defaultHttpCode : Nat) :
    Option ScoringConfig → Except Error (Option (ScoringState Condition Regex))
  | none => .ok none
  | some config => (ScoringState.build compilers defaultHttpCode config).map some

/-- `compile` -/
def compile (checks : CompileChecks Condition Regex) (config : WebConfig) :
    Except Error (Compiled Condition Regex) := do
  checks.bind
  let compilers ← checks.prelude
  let rules ← buildRules compilers config.challengeHttpCode "" config.rules
  let backends ← BackendPool.build checks.parseUri config.backends
  validateProxyBackends rules backends
  let scoring ← buildScoring compilers config.challengeHttpCode config.scoring
  validateThresholdBackends scoring backends
  checks.surroundings
  checks.mazes
  validateTarpitReferences rules scoring config.mazes
  let challenges ← checks.registry
  validateChallengeReferences rules scoring challenges
  return ⟨rules, backends, scoring, challenges⟩

/-! ### Tables of mazes -/

/-- The body of the loop of `build_maze_tables`. A later backend of the same host takes the place
of an earlier one. -/
def addMazeTable (routePrefixOf : String → String → String) (mazes : List MazeConfig)
    (tables : List (String × MazeTable)) (backend : BackendConfig) :
    Except Error (List (String × MazeTable)) :=
  if backend.name = "*" ∨ (BackendPool.wildcardHost backend.name).isSome then .ok tables
  else do
    let host ← inPlace ("backend '" ++ backend.name ++ "'") (CanonicalHost.parse backend.name)
    let table ← (buildTable routePrefixOf host.text mazes).mapError .config
    return (host.text, table) :: tables

/-- `build_maze_tables` -/
def buildMazeTables (routePrefixOf : String → String → String) (config : WebConfig) :
    Except Error (List (String × MazeTable)) :=
  if config.mazes.isEmpty then .ok []
  else config.backends.foldlM (addMazeTable routePrefixOf config.mazes) []

/-- The table of a host. -/
def TableOf (routePrefixOf : String → String → String) (mazes : List MazeConfig)
    (entry : String × MazeTable) : Prop :=
  buildTable routePrefixOf entry.1 mazes = .ok entry.2

theorem tableOf_addMazeTable {routePrefixOf : String → String → String} {mazes : List MazeConfig}
    {tables next : List (String × MazeTable)} {backend : BackendConfig}
    (sound : ∀ entry ∈ tables, TableOf routePrefixOf mazes entry)
    (added : addMazeTable routePrefixOf mazes tables backend = .ok next) :
    ∀ entry ∈ next, TableOf routePrefixOf mazes entry := by
  unfold addMazeTable at added
  split at added
  · cases added
    exact sound
  · simp only [Transaction.bind_eq_ok_iff] at added
    obtain ⟨host, -, table, single, added⟩ := added
    cases added
    intro entry member
    rcases List.mem_cons.mp member with rfl | older
    · cases result : buildTable routePrefixOf host.text mazes with
      | error message =>
        rw [result] at single
        cases single
      | ok found =>
        rw [result] at single
        cases single
        exact result
    · exact sound entry older

/-- Every table that was built is that of its host. -/
theorem tableOf_buildMazeTables {routePrefixOf : String → String → String} {config : WebConfig}
    {tables : List (String × MazeTable)}
    (built : buildMazeTables routePrefixOf config = .ok tables) :
    ∀ entry ∈ tables, TableOf routePrefixOf config.mazes entry := by
  have empty : ∀ entry ∈ ([] : List (String × MazeTable)),
      TableOf routePrefixOf config.mazes entry :=
    fun entry member => absurd member List.not_mem_nil
  unfold buildMazeTables at built
  split at built
  · cases built
    exact empty
  · exact Transaction.foldlM_preserves config.backends empty
      (fun _ _ _ _ sound added => tableOf_addMazeTable sound added) built

/-- The mazes of a policy that was loaded. -/
def MazeSite.ofTables (routePrefixOf : String → String → String) (config : WebConfig)
    (tables : List (String × MazeTable))
    (built : buildMazeTables routePrefixOf config = .ok tables) : MazeSite where
  mazes := config.mazes
  tables := fun host => tables.lookup host
  routePrefixOf := routePrefixOf
  built := fun host table found => by
    obtain ⟨before, after, whole, -⟩ := List.lookup_eq_some_iff.mp found
    have member : (host, table) ∈ tables := by
      rw [whole]
      exact List.mem_append_right before List.mem_cons_self
    exact tableOf_buildMazeTables built (host, table) member

/-- `snapshot` is a policy that was compiled from `config` with `checks`. -/
structure Loaded (checks : CompileChecks Condition Regex) (config : WebConfig)
    (compiled : Compiled Condition Regex) (snapshot : Snapshot Digest Condition Regex) : Prop where
  accepted : compile checks config = .ok compiled
  rules : snapshot.rules = compiled.rules
  scoring : snapshot.scoring = compiled.scoring
  challenges : snapshot.challenges = compiled.challenges
  backends : snapshot.backends = compiled.backends.names
  mazes : ∃ tables built, snapshot.mazes =
    MazeSite.ofTables snapshot.mazes.routePrefixOf config tables built

end Bagel
