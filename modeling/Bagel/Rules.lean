/-
This file models the policy that an operator writes and what `rule/mod.rs`, `rule/action.rs`
and `rule/scoring.rs` compile it to: the actions with their settings, the tree of rules, and
the scorecards with their thresholds.

Conditions and regular expressions belong to other crates. They are types of their own here,
and what compiles and runs them is given from outside.
-/

import Bagel.Challenge
import Bagel.Error
import Bagel.Headers
import Bagel.Library.Transaction

namespace Bagel

/-- A status code, as `StatusCode::from_u16` accepts it. -/
def statusOf (code fallback : Nat) : Nat := if 100 ≤ code ∧ code < 1000 then code else fallback

/-! ### Actions -/

/-- What a challenge leads to once it was passed or failed. -/
inductive SubAction where
  | pass
  | deny (code : Nat)
  | block (code : Nat)
  | drop
  | smear
  | tarpit (maze : String)
  deriving DecidableEq

/-- `ChallengeAction` with what happens after the challenges. -/
structure RuleChallenge where
  challenges : List Text
  httpCode : Nat
  difficulty : Option Nat
  passAction : SubAction
  failAction : SubAction

variable {Condition Regex : Type}

inductive RuleAction (Regex : Type) where
  | none
  | pass
  | deny (code : Nat)
  | block (code : Nat)
  | code (code : Nat)
  | drop
  | tarpit (maze : String)
  | smear
  | lure (maze : String)
  | beacon
  | proxy (matchRe : Option Regex) (rewrite backend : String)
  | context (responseHeaders requestHeaders : HeaderMap)
  | challenge (challenge : RuleChallenge)
  | check (challenge : RuleChallenge)
  | report (kind : String)

/-- The action that a sub-action is, as the source has no type of its own for it. -/
def SubAction.action : SubAction → RuleAction Regex
  | pass => .pass
  | deny code => .deny code
  | block code => .block code
  | drop => .drop
  | smear => .smear
  | tarpit maze => .tarpit maze

namespace RuleAction

/-- The stable spelling of an action. -/
def label : RuleAction Regex → String
  | none => "none"
  | pass => "pass"
  | deny _ => "deny"
  | block _ => "block"
  | code _ => "code"
  | drop => "drop"
  | tarpit _ => "tarpit"
  | smear => "smear"
  | lure _ => "lure"
  | beacon => "beacon"
  | proxy _ _ _ => "proxy"
  | context _ _ => "context"
  | challenge _ => "challenge"
  | check _ => "check"
  | report _ => "report"

end RuleAction

/-! ### Settings -/

structure RuleSettings where
  httpCode : Option Nat
  passAction : Option String
  failAction : Option String
  responseHeaders : List (String × String)
  requestHeaders : List (String × String)
  matchRe : Option String
  rewrite : Option String
  backend : Option String
  maze : Option String
  kind : Option String
  difficulty : Option Nat

/-- `str::to_lowercase` as far as an ASCII keyword can tell: apart from the ASCII letters only the
Kelvin sign becomes an ASCII letter. -/
def toLowercase (text : String) : String :=
  String.ofList (text.toList.map fun character =>
    if character = Char.ofNat 0x212a then 'k' else character.toLower)

def eqIgnoreAsciiCase (first second : String) : Bool :=
  first.toList.map Char.toLower == second.toList.map Char.toLower

/-- What compiles the conditions and the regular expressions of a policy. -/
structure Compilers (Condition Regex : Type) where
  condition : String → Except String Condition
  regex : String → Except String Regex

/-- `sub_action` -/
def subAction (setting maze : Option String) (default : SubAction) (kind : String) :
    Except String SubAction :=
  match setting with
  | .none => .ok default
  | some "pass" => .ok .pass
  | some "deny" => .ok (.deny 403)
  | some "block" => .ok (.block 403)
  | some "drop" => .ok .drop
  | some "smear" => .ok .smear
  | some "tarpit" =>
    match maze.filter (· ≠ "") with
    | some maze => .ok (.tarpit maze)
    | .none => .error ("tarpit " ++ kind ++ "-action requires a maze")
  | some other => .error ("unknown " ++ kind ++ "-action '" ++ other ++ "'")

/-- `parse_headers` -/
def parseHeaders (pairs : List (String × String)) (kind : String) : Except String HeaderMap :=
  pairs.foldlM (fun headers pair =>
    match HeaderName.parse pair.1.toList, HeaderValue.fromStr pair.2 with
    | .none, _ => .error ("invalid " ++ kind ++ " header name '" ++ pair.1 ++ "'")
    | some _, .none => .error ("invalid " ++ kind ++ " header value for '" ++ pair.1 ++ "'")
    | some name, some value => .ok (headers.insert name value)) Multimap.empty

/-- A name that a setting has to give. -/
def required (setting : Option String) (message : String) : Except String String :=
  match setting.filter (· ≠ "") with
  | some name => .ok name
  | .none => .error message

namespace RuleAction

/-- The settings that `challenge` and `check` share. -/
def parseChallenge (settings : RuleSettings) (challenges : List Text) (defaultHttpCode : Nat) :
    Except String RuleChallenge := do
  let passAction ← subAction settings.passAction settings.maze .pass "pass"
  let failAction ← subAction settings.failAction settings.maze (.deny 403) "fail"
  return ⟨challenges, settings.httpCode.getD defaultHttpCode, settings.difficulty, passAction,
    failAction⟩

def parseProxy (compilers : Compilers Condition Regex) (settings : RuleSettings) :
    Except String (RuleAction Regex) := do
  let backend ← required settings.backend "proxy action requires a backend"
  let matchRe ← match settings.matchRe with
    | .none => .ok Option.none
    | some pattern =>
      match compilers.regex pattern with
      | .ok regex => .ok (some regex)
      | .error message => .error ("invalid proxy match regex: " ++ message)
  if matchRe.isSome ≠ settings.rewrite.isSome then
    throw "proxy match and rewrite must be configured together"
  return .proxy matchRe (settings.rewrite.getD "") backend

def parseReport (settings : RuleSettings) : Except String (RuleAction Regex) := do
  let kind ← required settings.kind "report action requires a kind"
  if kind.toList.all fun character =>
      character.isLower || character.isDigit || character == '_' || character == '-' then
    return .report kind
  else throw "report kind must be lowercase ascii, digits, `-` or `_`"

def smearTakesNothing (settings : RuleSettings) : Bool :=
  !(settings.maze.any (· ≠ "") || settings.backend.any (· ≠ "") || settings.matchRe.isSome ||
    settings.rewrite.isSome)

/-- `Action::parse` once the settings that belong to single actions were checked. -/
def parseKeyword (compilers : Compilers Condition Regex) (actionStr : String)
    (settings : RuleSettings) (challenges : List Text) (defaultHttpCode : Nat) :
    Except String (RuleAction Regex) :=
  match toLowercase actionStr with
  | "none" => .ok .none
  | "pass" => .ok .pass
  | "deny" => .ok (.deny (settings.httpCode.getD 403))
  | "block" => .ok (.block (settings.httpCode.getD 403))
  | "code" => .ok (.code (settings.httpCode.getD 403))
  | "drop" => .ok .drop
  | "tarpit" => (required settings.maze "tarpit action requires a maze").map .tarpit
  | "lure" => (required settings.maze "lure action requires a maze").map .lure
  | "beacon" => .ok .beacon
  | "smear" =>
    if smearTakesNothing settings then .ok .smear
    else .error "smear action takes no maze, backend, match, or rewrite"
  | "report" => parseReport settings
  | "proxy" => parseProxy compilers settings
  | "context" => do
    let responseHeaders ← parseHeaders settings.responseHeaders "response"
    let requestHeaders ← parseHeaders settings.requestHeaders "request"
    return .context responseHeaders requestHeaders
  | "challenge" => (parseChallenge settings challenges defaultHttpCode).map .challenge
  -- A spelling with the Kelvin sign is lowered to `check` but is not equal to it up to ASCII case.
  | "check" => (parseChallenge settings challenges defaultHttpCode).map fun challenge =>
    if eqIgnoreAsciiCase actionStr "check" then .check challenge else .challenge challenge
  | other => .error ("unknown action '" ++ other ++ "'")

def parse (compilers : Compilers Condition Regex) (actionStr : String) (settings : RuleSettings)
    (challenges : List Text) (defaultHttpCode : Nat) : Except String (RuleAction Regex) :=
  if !eqIgnoreAsciiCase actionStr "report" && settings.kind.isSome then
    .error "kind is only valid on the report action"
  else if !(eqIgnoreAsciiCase actionStr "challenge" || eqIgnoreAsciiCase actionStr "check") &&
      settings.difficulty.isSome then
    .error "difficulty is only valid on the challenge and check actions"
  else parseKeyword compilers actionStr settings challenges defaultHttpCode

end RuleAction

/-! ### Rules -/

inductive RuleConfig where
  | mk (name : String) (condition : Option String) (action : String) (challenges : List Text)
      (settings : RuleSettings) (children : List RuleConfig)

/-- A compiled rule, with its full name. -/
inductive RuleState (Condition Regex : Type) where
  | mk (name : String) (condition : Option Condition) (action : RuleAction Regex)
      (children : List (RuleState Condition Regex))

namespace RuleState

def name : RuleState Condition Regex → String
  | mk name _ _ _ => name

def condition : RuleState Condition Regex → Option Condition
  | mk _ condition _ _ => condition

def action : RuleState Condition Regex → RuleAction Regex
  | mk _ _ action _ => action

def children : RuleState Condition Regex → List (RuleState Condition Regex)
  | mk _ _ _ children => children

end RuleState

/-- An error of a part of the configuration, with the place it comes from. -/
def inPlace {Value : Type} (place : String) : Except String Value → Except Error Value
  | .ok value => .ok value
  | .error message => .error (.config (place ++ ": " ++ message))

/-- The condition of a rule or scorecard, if it has one. -/
def compileCondition (compilers : Compilers Condition Regex) :
    Option String → Except String (Option Condition)
  | .none => .ok .none
  | some expression => (compilers.condition expression).map some

def fullName (parentName name : String) : String :=
  if parentName = "" then name else parentName ++ "/" ++ name

mutual

/-- The body of the loop of `RuleState::build_rules`. -/
def buildRule (compilers : Compilers Condition Regex) (defaultHttpCode : Nat)
    (parentName : String) : RuleConfig → Except Error (RuleState Condition Regex)
  | .mk name condition action challenges settings children => do
    let full := fullName parentName name
    let condition ← inPlace ("rule '" ++ full ++ "'") (compileCondition compilers condition)
    let action ← inPlace ("rule '" ++ full ++ "'")
      (RuleAction.parse compilers action settings challenges defaultHttpCode)
    let children ← buildRules compilers defaultHttpCode full children
    return .mk full condition action children

/-- `RuleState::build_rules` -/
def buildRules (compilers : Compilers Condition Regex) (defaultHttpCode : Nat)
    (parentName : String) : List RuleConfig → Except Error (List (RuleState Condition Regex))
  | [] => .ok []
  | config :: rest => do
    let rule ← buildRule compilers defaultHttpCode parentName config
    let rules ← buildRules compilers defaultHttpCode parentName rest
    return rule :: rules

end

end Bagel
