/-
This file models how `server/pipeline.rs` and `server/pipeline_evaluate.rs` lead a request
through the policy: the tree of rules with its contexts and challenges, the enforced
threshold of a scorecard, and the decision that is reported in the end.

Other requests run at the same time, so nothing that is shared stays as this request left
it. Each time the evaluation looks at the clock, the table of pending challenges, the smear
slots or the cache of maze tables, it sees the next of a sequence of moments, and every
sequence of moments is possible. What a page says is given from outside.

Next to what the code computes the state writes down which rule decided, which names were
not found, and what the conditions were evaluated on.
-/

import Bagel.Gates
import Bagel.Mazes
import Bagel.Scoring

namespace Bagel

/-! ### Responses -/

/-- A piece of a body. -/
inductive Frame where
  | data (bytes : List UInt8)
  | trailers (headers : HeaderMap)

/-- What a response is: nothing of its own, an error page, a page of a maze, a deceptive page, a
challenge, or the refusal of a maze that is not there. -/
inductive Page where
  | empty
  | denied
  | blocked
  | maze (name : String)
  | smear
  | challenge (name : Text)
  | unavailable
  deriving DecidableEq

/-- `PassMarker` and `ProxyMarker`: the response stands for a backend. -/
inductive Marker where
  | pass
  | proxy (backend : String) (rewrittenPath : Option String)
  deriving DecidableEq

structure TerminalRuleInfo where
  rule : String
  action : String
  deriving DecidableEq

structure Response where
  status : Nat
  headers : HeaderMap
  frames : List Frame
  marker : Option Marker
  info : Option TerminalRuleInfo
  /-- `PendingRequestHeaders` -/
  requestHeaders : Option HeaderMap
  /-- `PendingResponseHeaders` -/
  responseHeaders : Option HeaderMap
  page : Page

namespace HeaderName

def contentType : HeaderName := ⟨"content-type", by decide⟩

def contentLength : HeaderName := ⟨"content-length", by decide⟩

def contentEncoding : HeaderName := ⟨"content-encoding", by decide⟩

def cacheControl : HeaderName := ⟨"cache-control", by decide⟩

def referrerPolicy : HeaderName := ⟨"referrer-policy", by decide⟩

def connection : HeaderName := ⟨"connection", by decide⟩

end HeaderName

namespace HeaderValue

def html : HeaderValue := ⟨Bytes.ofText "text/html; charset=utf-8", by decide⟩

def plain : HeaderValue := ⟨Bytes.ofText "text/plain; charset=utf-8", by decide⟩

def noStore : HeaderValue := ⟨Bytes.ofText "no-store", by decide⟩

def noReferrer : HeaderValue := ⟨Bytes.ofText "no-referrer", by decide⟩

def revalidate : HeaderValue :=
  ⟨Bytes.ofText "no-cache, no-store, must-revalidate", by decide⟩

end HeaderValue

namespace Response

/-- `body::status` -/
def bare (status : Nat) (page : Page) : Response :=
  ⟨status, Multimap.empty, [], none, none, none, none, page⟩

/-- A response with a body and one of the content types. -/
def withType (status : Nat) (type : HeaderValue) (body : List UInt8) (page : Page) : Response :=
  { bare status page with
    headers := Multimap.empty.insert .contentType type
    frames := [.data body] }

/-- `pass_response` -/
def passed : Response := { bare 200 .empty with marker := some .pass }

def serviceUnavailable : Response :=
  withType 503 .plain (Bytes.ofText "service unavailable\n") .unavailable

end Response

inductive RuleOutcome where
  | continue
  | handled (response : Response)
  | drop

/-- `RuleOutcome::tagged` -/
def RuleOutcome.tagged (outcome : RuleOutcome) (rule action : String) : RuleOutcome :=
  match outcome with
  | handled response =>
    if response.info.isNone then handled { response with info := some ⟨rule, action⟩ }
    else handled response
  | other => other

/-! ### What conditions see -/

/-- What the conditions of a rule are evaluated on. `Facts` are the bindings that no rule
changes. -/
structure ConditionContext (Facts : Type) where
  host : String
  userAgent : String
  /-- The last value of each header, or nothing of it where it cannot be read. -/
  headers : HeaderName → Option String
  remoteIp : Option IpAddr
  stack : Option String
  /-- The session fetched a beacon. -/
  rendered : Bool
  facts : Facts

/-- The text a condition sees for the values of a header. -/
def boundText (values : List HeaderValue) : Option String :=
  values.getLast?.map fun value => value.toStr.getD ""

variable {Digest Condition Regex Facts : Type}

/-- `with_request_headers` -/
def ConditionContext.withRequestHeaders (context : ConditionContext Facts) (headers : HeaderMap) :
    ConditionContext Facts :=
  let merged := fun name => boundText (headers.getAll name) <|> context.headers name
  { context with
    headers := merged
    userAgent := (merged .userAgent).getD context.userAgent
    host := (merged .host).getD context.host }

/-! ### The surroundings -/

/-- A fragment for a proxied page. -/
structure Fragment where
  text : String
  nonempty : text ≠ ""
  deriving DecidableEq

/-- A page of the deceiver, in the chunks it is sent in. -/
structure DeceptivePage where
  status : Nat
  headers : List (String × String)
  chunks : List (List UInt8)

/-- What the evaluation finds at one point in time. -/
structure Moment (Digest : Type) where
  now : Int
  run : PendingRun Digest
  answers : ChallengeAnswers Digest
  /-- A smear slot is free. -/
  slotFree : Bool
  /-- `wildcard_maze_tables` -/
  mazeCache : MazeCache

/-- What the templates, the deceiver, the renderers and the engines of other crates answer. The
numbers are positions in the sequence of moments. -/
structure WebSurroundings (Condition Regex Facts : Type) where
  /-- A condition is true, false or fails. -/
  condition : Condition → ConditionContext Facts → Option Bool
  /-- What a match of the path expands to. -/
  rewrite : Regex → String → String → Option String
  errorPage : Page → Nat → List UInt8
  mazePage : MazeRuntime → Nat → List UInt8
  deceive : String → String → Nat → DeceptivePage
  challengePage : Text → Nat → List UInt8
  widget : Text → Nat → Fragment
  lure : MazeRuntime → String → Nat → Fragment
  beacon : Vector UInt8 32 → Nat → Fragment

/-- The snapshot of the policy that a request is evaluated under. -/
structure Snapshot (Digest Condition Regex : Type) where
  server : Server Digest
  revision : Nat
  rules : List (RuleState Condition Regex)
  scoring : Option (ScoringState Condition Regex)
  challenges : Text → Option ChallengeRegistration
  mazes : MazeSite
  /-- The names that `BackendPool::by_name` finds. -/
  backends : List String

/-- What stays the same during the evaluation of one request. -/
structure Evaluation (Digest Condition Regex Facts : Type) where
  snapshot : Snapshot Digest Condition Regex
  surroundings : WebSurroundings Condition Regex Facts
  moments : Nat → Moment Digest
  host : Text
  path : String
  /-- The user agent that challenges are bound to. -/
  userAgent : String

/-! ### State -/

inductive OffenseKind where
  | drop
  | smear
  | tarpit
  | score (score : Nat)
  | report (kind : String)
  deriving DecidableEq

/-- An offense as it is handed to `emit_offense`. -/
structure WebOffense where
  rule : Option String
  detail : String
  kind : OffenseKind
  groupKey : Option String
  deriving DecidableEq

/-- A name that was not found. -/
inductive Missing where
  | challenge (name : Text)
  | maze (name : String)
  | backend (name : String)

/-- A condition that was evaluated, with the request headers of the contexts around it and the
place of its rule in the tree. -/
structure Seen (Facts : Type) where
  context : ConditionContext Facts
  contexts : List HeaderMap
  place : List Nat

structure EvalState (Digest Facts : Type) where
  token : Option (Token Digest)
  modified : Bool
  injections : List Fragment
  offenses : List WebOffense
  /-- The position in the sequence of moments. -/
  moment : Nat
  /-- The name of the rule that decided, for the books. -/
  decider : Option String
  missing : List Missing
  seen : List (Seen Facts)

namespace EvalState

variable (state : EvalState Digest Facts)

def start (token : Option (Token Digest)) : EvalState Digest Facts :=
  ⟨token, false, [], [], 0, none, [], []⟩

def tick : EvalState Digest Facts := { state with moment := state.moment + 1 }

def decide (rule : String) : EvalState Digest Facts := { state with decider := some rule }

def miss (name : Missing) : EvalState Digest Facts :=
  { state with missing := state.missing ++ [name] }

def inject (fragment : Fragment) : EvalState Digest Facts :=
  { state with injections := state.injections ++ [fragment] }

/-- `emit_offense` -/
def emit (offense : WebOffense) : EvalState Digest Facts :=
  { state with offenses := state.offenses ++ [offense] }

end EvalState

/-- What an action does: its outcome and the state it leaves. -/
abbrev RuleStep (Digest Facts : Type) := RuleOutcome × EvalState Digest Facts

namespace Evaluation

variable (evaluation : Evaluation Digest Condition Regex Facts)

/-! ### Answers -/

/-- `error_response` -/
def errorResponse (code : Nat) (page : Page) : RuleOutcome :=
  let status := statusOf code 403
  .handled (Response.withType status .html (evaluation.surroundings.errorPage page code) page)

def denyResponse (code : Nat) : RuleOutcome := evaluation.errorResponse code .denied

def blockResponse (code : Nat) : RuleOutcome := evaluation.errorResponse code .blocked

/-- `maze_envelope` of a rendered page. -/
def mazeEnvelope (name : String) (html : List UInt8) : Response :=
  { Response.bare 200 (.maze name) with
    headers := (((Multimap.empty.insert .contentType .html).insert .cacheControl .noStore).insert
      .referrerPolicy .noReferrer).insert .contentLength (.ofNat html.length)
    frames := [.data html] }

/-- `tarpit_response` -/
def tarpitResponse (maze : String) (state : EvalState Digest Facts) :
    Response × EvalState Digest Facts :=
  let moment := evaluation.moments state.moment
  match evaluation.snapshot.mazes.mazeByName moment.mazeCache evaluation.host.value maze with
  | none => (.serviceUnavailable, (state.miss (.maze maze)).tick)
  | some runtime =>
    (mazeEnvelope maze (evaluation.surroundings.mazePage runtime state.moment), state.tick)

/-- A header of a deceptive page, unless the server sets it itself or it is malformed. -/
def addHeader (headers : HeaderMap) (header : String × String) : HeaderMap :=
  match HeaderName.parse header.1.toList, HeaderValue.fromStr header.2 with
  | some name, some value =>
    if name = .contentLength ∨ name = .connection then headers else headers.append name value
  | _, _ => headers

/-- `smear::response` -/
def smearPage (page : DeceptivePage) : Response :=
  { Response.bare (statusOf page.status 200) .smear with
    headers := (page.headers.foldl addHeader Multimap.empty).append .contentLength
      (.ofNat page.chunks.flatten.length)
    frames := page.chunks.map .data }

/-- `smear_response`: a deceptive page, or a drop when every slot is taken. -/
def smearResponse (state : EvalState Digest Facts) : RuleStep Digest Facts :=
  if (evaluation.moments state.moment).slotFree then
    (.handled (smearPage (evaluation.surroundings.deceive evaluation.path evaluation.userAgent
      state.moment)), state.tick)
  else (.drop, state.tick)

/-- `lure_fragment` -/
def lureFragment (maze : String) (state : EvalState Digest Facts) : EvalState Digest Facts :=
  let moment := evaluation.moments state.moment
  match evaluation.snapshot.mazes.mazeByName moment.mazeCache evaluation.host.value maze with
  | none => (state.miss (.maze maze)).tick
  | some runtime =>
    (state.inject (evaluation.surroundings.lure runtime evaluation.path state.moment)).tick

/-- `proxy_outcome` -/
def proxyOutcome (matchRe : Option Regex) (rewrite backend : String) : RuleOutcome :=
  let rewrittenPath := matchRe.bind fun regex =>
    evaluation.surroundings.rewrite regex rewrite evaluation.path
  .handled { Response.bare 200 .empty with marker := some (.proxy backend rewrittenPath) }

/-- `dispatch_sub_action` -/
def dispatchSubAction (action : RuleAction Regex) (state : EvalState Digest Facts) :
    RuleStep Digest Facts :=
  match action with
  | .tarpit maze =>
    let (response, state) := evaluation.tarpitResponse maze state
    (.handled response, state)
  | .deny code => (evaluation.denyResponse code, state)
  | .block code => (evaluation.blockResponse code, state)
  | .drop => (.drop, state)
  | .smear => evaluation.smearResponse state
  | _ => (.handled .passed, state)

/-! ### Challenges -/

/-- What the loop over the challenges of an action does after one of them. -/
inductive ChallengeReply where
  /-- The next challenge is checked. -/
  | next
  /-- A fragment is queued and the next challenge is checked. -/
  | embed
  | stop (status : Nat)
  | issued
  | failed

/-- The status of a challenge that could not be issued. -/
def issueStatus : IssueError → Nat
  | .limited => 429
  | .full => 503
  | .random => 500

/-- The registered challenges, as the gates have them. -/
def gatePolicy : GatePolicy :=
  ⟨evaluation.snapshot.revision, evaluation.snapshot.challenges, [], by simp⟩

/-- The request as the gates see it. -/
def visit (context : ConditionContext Facts) : Visit :=
  ⟨evaluation.host, context.remoteIp, Bytes.ofText evaluation.userAgent, context.stack⟩

variable [LinearOrder Digest]

/-- One round of the loop of `evaluate_challenge_action`, as far as the request is concerned. -/
def challengeReply (context : ConditionContext Facts) (action : ChallengeAction) (now : Int)
    (moment : Moment Digest) (name : Text) (token : Option (Token Digest)) : ChallengeReply :=
  let server := evaluation.snapshot.server
  let visit := evaluation.visit context
  let answers := moment.answers
  match evaluation.snapshot.challenges name with
  | none => .next
  | some registration =>
    let challengeKey := server.deriveChallengeKey name visit.ip
      (bucketExpiry now registration.maxDuration)
    let level := action.levelFor registration.runtime
    if server.challengePassed registration name visit.ip level visit.stack now token then .next
    else if registration.runtime.redemption = .none then
      match answers.lookup with
      | .passed =>
        match issueChallenge token answers.session name challengeKey registration.duration now with
        | none => .stop 500
        | some _ => .next
      | .failed => if action.check then .next else .failed
      | .skip => .next
    else
      match visit.ip with
      | none => .stop 400
      | some _ =>
        match ensureSession token answers.session registration.duration now with
        | none => .stop 500
        | some (token, _) =>
          let binding := server.challengeBinding token.session visit.host name visit.userAgent
            evaluation.snapshot.revision
          let gpuLevel := match registration.runtime with
            | .pow pow => pow.gpuLevel level
            | _ => none
          match (moment.run.table.issue answers.instant answers.rate answers.draws binding
            challengeKey level gpuLevel (nanoseconds registration.duration)).2 with
          | .error fault => .stop (issueStatus fault)
          | .ok _ =>
            if action.check then
              match registration.runtime with
              | .pow _ => .embed
              | _ => .next
            else .issued

/-- The page of an issued challenge. A cookie challenge is a redirect, the others are pages. -/
def challengeResponse (name : Text) (httpCode : Nat) (moment : Nat) : Response :=
  match evaluation.snapshot.challenges name with
  | some ⟨_, _, .cookie, _, _⟩ =>
    { Response.bare 307 (.challenge name) with
      headers := Multimap.empty.insert .cacheControl .revalidate }
  | _ =>
    let page := Response.withType (statusOf httpCode 418) .html
      (evaluation.surroundings.challengePage name moment) (.challenge name)
    { page with headers := page.headers.insert .cacheControl .revalidate }

/-- What one challenge does to the session. -/
def afterChallenge (context : ConditionContext Facts) (action : ChallengeAction) (now : Int)
    (name : Text) (state : EvalState Digest Facts) : EvalState Digest Facts :=
  let moment := evaluation.moments state.moment
  let checked := evaluateChallenge evaluation.snapshot.server evaluation.gatePolicy action
    (evaluation.visit context) now moment.answers name moment.run state.token state.modified
  let state := if (evaluation.snapshot.challenges name).isNone then state.miss (.challenge name)
    else state
  { state with token := checked.token, modified := checked.modified }.tick

/-- The loop of `evaluate_challenge_action`, for a rule that is named for the books only. -/
def evaluateChallenges (context : ConditionContext Facts) (rule : String)
    (challenge : RuleChallenge) (check : Bool) (now : Int) :
    List Text → EvalState Digest Facts → RuleStep Digest Facts
  | [], state =>
    if check then (.continue, state)
    else evaluation.dispatchSubAction challenge.passAction.action (state.decide rule)
  | name :: rest, state =>
    let action : ChallengeAction := ⟨challenge.challenges, challenge.difficulty, check⟩
    let moment := evaluation.moments state.moment
    let reply := evaluation.challengeReply context action now moment name state.token
    let after := evaluation.afterChallenge context action now name state
    match reply with
    | .next => evaluateChallenges context rule challenge check now rest after
    | .embed =>
      evaluateChallenges context rule challenge check now rest
        (after.inject (evaluation.surroundings.widget name state.moment))
    | .stop status => (.handled (.bare status .empty), after.decide rule)
    | .issued =>
      (.handled (evaluation.challengeResponse name challenge.httpCode state.moment),
        after.decide rule)
    | .failed =>
      evaluation.dispatchSubAction challenge.failAction.action (after.decide rule)

/-- `evaluate_challenge_action` -/
def evaluateChallengeAction (context : ConditionContext Facts) (rule : String)
    (challenge : RuleChallenge) (check : Bool) (state : EvalState Digest Facts) :
    RuleStep Digest Facts :=
  evaluation.evaluateChallenges context rule challenge check (evaluation.moments state.moment).now
    challenge.challenges state.tick

/-! ### Rules -/

/-- `trim_end_matches(".git")`, on the characters from the end. -/
def trimGit : List Char → List Char
  | 't' :: 'i' :: 'g' :: '.' :: rest => trimGit rest
  | characters => characters

/-- The owner and the repository in the segments of a path. -/
def ownerAndRepository : List (List Char) → Option (List Char × List Char)
  | [] => none
  | first :: rest =>
    -- The segments that were compared are used up, whether they matched or not.
    if first = "api".toList then
      match rest with
      | [] => none
      | second :: rest =>
        if second = "v1".toList then
          match rest with
          | [] => none
          | third :: rest =>
            if third = "repos".toList then
              match rest with
              | owner :: repository :: _ => some (owner, repository)
              | _ => none
            else rest.head?.map fun repository => (first, repository)
        else rest.head?.map fun repository => (first, repository)
    else rest.head?.map fun repository => (first, repository)

/-- `repository_key` -/
def repositoryKey (host path : String) : Option String := do
  let (owner, repository) ← ownerAndRepository ((path.toList.splitOn '/').filter (· ≠ []))
  let repository := (trimGit repository.reverse).reverse
  if repository = [] then none
  else some (host ++ "/" ++ String.ofList owner ++ "/" ++ String.ofList repository)

/-- What changes from one rule to the next: the bindings of the conditions and the request headers
collected so far. For the books it has the headers of each context, and the place of the rule:
for every rule on the way down how many of the list come after it. -/
structure EvalScope (Facts : Type) where
  context : ConditionContext Facts
  headers : HeaderMap
  contexts : List HeaderMap
  place : List Nat

/-- The part of `eval_children` that adds the headers of a context to a response. -/
def applyPending (pending : Option (HeaderMap × HeaderMap)) (response : Response) : Response :=
  match pending with
  | none => response
  | some (requestHeaders, responseHeaders) =>
    if response.marker.isSome then
      { response with
        requestHeaders := some (response.requestHeaders.getD requestHeaders)
        responseHeaders :=
          some ((response.responseHeaders.getD Multimap.empty).overlay responseHeaders) }
    else { response with headers := response.headers.overlay responseHeaders }

/-- The condition of a rule: a failure counts as false. -/
def conditionHolds (scope : EvalScope Facts) (condition : Option Condition)
    (state : EvalState Digest Facts) : Bool × EvalState Digest Facts :=
  match condition with
  | none => (true, state)
  | some condition =>
    (evaluation.surroundings.condition condition scope.context == some true,
      { state with seen := state.seen ++ [⟨scope.context, scope.contexts, scope.place⟩] })

/-- The fragment of a beacon, for a session that did not fetch one yet. -/
def beaconFragment (context : ConditionContext Facts) (state : EvalState Digest Facts) :
    EvalState Digest Facts :=
  match state.token with
  | some token =>
    if context.rendered then state
    else (state.inject (evaluation.surroundings.beacon token.session state.moment)).tick
  | none => state

/-- The scope of the children of a context. -/
def EvalScope.enter (scope : EvalScope Facts) (requestHeaders : HeaderMap) : EvalScope Facts :=
  ⟨scope.context.withRequestHeaders requestHeaders, scope.headers.overlay requestHeaders,
    scope.contexts ++ [requestHeaders], scope.place⟩

/-- The scope of a rule of a list. -/
def EvalScope.visit (scope : EvalScope Facts) (after : Nat) : EvalScope Facts :=
  { scope with place := scope.place ++ [after] }

/-- What a rule of `evaluate_rule_recursive` does by its action alone. The actions `none` and
`context` leave it to the children. -/
def evaluateAction (context : ConditionContext Facts) (name : String) (action : RuleAction Regex)
    (state : EvalState Digest Facts) : RuleStep Digest Facts :=
  match action with
  | .none => (.continue, state)
  | .pass => ((RuleOutcome.handled .passed).tagged name "pass", state.decide name)
  | .deny code => ((evaluation.denyResponse code).tagged name "deny", state.decide name)
  | .block code => ((evaluation.blockResponse code).tagged name "block", state.decide name)
  | .code code =>
    ((RuleOutcome.handled (.bare (statusOf code 403) .empty)).tagged name "code",
      state.decide name)
  | .drop => (.drop, state.decide name)
  | .tarpit maze =>
    let (response, state) := evaluation.tarpitResponse maze state
    ((RuleOutcome.handled response).tagged name "tarpit", state.decide name)
  | .smear =>
    let (outcome, state) := evaluation.smearResponse state
    (outcome.tagged name "smear", state.decide name)
  | .lure maze => (.continue, evaluation.lureFragment maze state)
  | .beacon => (.continue, evaluation.beaconFragment context state)
  | .report kind =>
    (.continue, state.emit ⟨some name, name, .report kind,
      repositoryKey evaluation.host.value evaluation.path⟩)
  | .context _ _ => (.continue, state)
  | .proxy matchRe rewrite backend =>
    ((evaluation.proxyOutcome matchRe rewrite backend).tagged name "proxy",
      state.decide name)
  | .challenge challenge =>
    let (outcome, state) := evaluation.evaluateChallengeAction context name challenge false state
    (outcome.tagged name "challenge", state)
  | .check challenge =>
    let (outcome, state) := evaluation.evaluateChallengeAction context name challenge true state
    (outcome.tagged name "check", state)

mutual

/-- `evaluate_rule_recursive` -/
def evaluateRule (scope : EvalScope Facts) :
    RuleState Condition Regex → EvalState Digest Facts → RuleStep Digest Facts
  | .mk name condition action children, state =>
    let (holds, state) := evaluation.conditionHolds scope condition state
    if holds then
      match action with
      | .none => evalChildren scope none children state
      | .context responseHeaders requestHeaders =>
        evalChildren (scope.enter requestHeaders)
          (some (scope.headers.overlay requestHeaders, responseHeaders)) children state
      | action => evaluation.evaluateAction scope.context name action state
    else (.continue, state)

/-- `eval_children` -/
def evalChildren (scope : EvalScope Facts) (pending : Option (HeaderMap × HeaderMap)) :
    List (RuleState Condition Regex) → EvalState Digest Facts → RuleStep Digest Facts
  | [], state => (.continue, state)
  | child :: rest, state =>
    match evaluateRule (scope.visit rest.length) child state with
    | (.continue, state) => evalChildren scope pending rest state
    | (.drop, state) => (.drop, state)
    | (.handled response, state) => (.handled (applyPending pending response), state)

end

/-- `apply_candidate_action` -/
def applyCandidateAction (context : ConditionContext Facts) (action : RuleAction Regex)
    (state : EvalState Digest Facts) : RuleStep Digest Facts :=
  match action with
  | .proxy matchRe rewrite backend =>
    (evaluation.proxyOutcome matchRe rewrite backend, state.decide "scorecard")
  | .challenge challenge =>
    evaluation.evaluateChallengeAction context "scorecard" challenge false state
  | .tarpit maze =>
    let (response, state) := evaluation.tarpitResponse maze state
    (.handled response, state.decide "scorecard")
  | .report _ => (.continue, state)
  | .lure _ => (.continue, state)
  | .beacon => (.continue, state)
  | other => evaluation.dispatchSubAction other (state.decide "scorecard")

/-! ### The decision -/

inductive Terminal where
  | none
  | handled (response : Response)
  | dropped (rule : Option String)

/-- The loop over the rules in `handle_request`. -/
def evaluateRules (scope : EvalScope Facts) :
    List (RuleState Condition Regex) → EvalState Digest Facts → Terminal × EvalState Digest Facts
  | [], state => (.none, state)
  | rule :: rest, state =>
    match evaluation.evaluateRule (scope.visit rest.length) rule state with
    | (.continue, state) => evaluateRules scope rest state
    | (.handled response, state) => (.handled response, state)
    | (.drop, state) => (.dropped (some rule.name), state)

/-- The rule and the action that the trace names for what the rules led to. -/
def terminalInfo : Terminal → Option String × Option String
  | .none => (none, none)
  | .handled response =>
    (response.info.map TerminalRuleInfo.rule, response.info.map TerminalRuleInfo.action)
  | .dropped rule => (rule, some "drop")

inductive CandidateStatus where
  | noScorecard
  | noCandidate
  | suppressedByRule
  | observed
  | applied
  deriving DecidableEq

/-- `candidate_status` -/
def candidateStatus (score : Option (ScoreResult Condition Regex)) (terminal : Terminal) :
    CandidateStatus :=
  match score with
  | none => .noScorecard
  | some result =>
    match result.candidate, terminal with
    | none, _ => .noCandidate
    | some _, .none =>
      match result.scorecard.mode with
      | .observe => .observed
      | .enforce => .applied
    | some _, _ => .suppressedByRule

/-- `effective_action`. `kind` is that of an applied threshold. -/
def effectiveAction (terminal : Terminal) (kind : Option String) (terminalAction : Option String) :
    String :=
  match terminal with
  | .dropped _ => "drop"
  | .none => "proxy"
  | .handled response =>
    match response.marker with
    | some .pass => "pass"
    | some (.proxy _ _) => "proxy"
    | none =>
      match kind with
      | some kind => kind
      | none => terminalAction.getD "unknown"

/-- The kind of offense that an effective action is. -/
def offenseKind (action : String) : Option OffenseKind :=
  if action = "drop" then some .drop
  else if action = "smear" then some .smear
  else if action = "tarpit" then some .tarpit
  else none

/-- The part of `handle_request` after the rules and the threshold that hands an offense on.
`applied` is the result of the scorecard whose threshold was applied. -/
def report (terminal : Terminal) (applied : Option (ScoreResult Condition Regex))
    (info : Option String × Option String) (state : EvalState Digest Facts) :
    EvalState Digest Facts :=
  let kind := applied.bind fun result => result.candidate.map ThresholdState.kind
  let action := effectiveAction terminal kind info.2
  match offenseKind action, applied with
  | none, _ => state
  | some kind, none => state.emit ⟨info.1, action, kind, none⟩
  | some _, some result =>
    state.emit ⟨some result.scorecard.name, action, .score result.score, none⟩

/-- What the evaluation of a request comes to. -/
structure Decision (Digest Condition Regex Facts : Type) where
  terminal : Terminal
  /-- The result of the scorecard whose threshold was applied. -/
  applied : Option (ScoreResult Condition Regex)
  /-- The rule and the action that the trace names. -/
  info : Option String × Option String
  state : EvalState Digest Facts

/-- The applied threshold of a scorecard. -/
def applyCandidate (context : ConditionContext Facts) (result : ScoreResult Condition Regex)
    (state : EvalState Digest Facts) : Terminal × EvalState Digest Facts :=
  match result.candidate with
  | none => (.none, state)
  | some threshold =>
    match evaluation.applyCandidateAction context threshold.action state with
    | (.continue, state) => (.none, state)
    | (.handled response, state) => (.handled response, state)
    | (.drop, state) => (.dropped none, state)

/-- The part of `handle_request` from the scorecard to the report. -/
def handleRequest (context : ConditionContext Facts) (token : Option (Token Digest)) :
    Decision Digest Condition Regex Facts :=
  let score := evaluation.snapshot.scoring.bind fun scoring =>
    scoring.evaluate fun condition => evaluation.surroundings.condition condition context
  let (terminal, state) := evaluation.evaluateRules ⟨context, Multimap.empty, [], []⟩
    evaluation.snapshot.rules (.start token)
  let info := terminalInfo terminal
  let applied := if candidateStatus score terminal = .applied then score else none
  let (terminal, state) := match applied with
    | some result => evaluation.applyCandidate context result state
    | none => (terminal, state)
  ⟨terminal, applied, info, report terminal applied info state⟩

end Evaluation

/-! ### A site to try rules on -/

/-- A site with some rules and no scorecard, challenge or maze, on which nothing is shared and every
condition is one of the two constants. -/
def plainEvaluation (rules : List (RuleState Bool Unit)) (path : String) :
    Evaluation Nat Bool Unit Unit where
  snapshot :=
    { server := ⟨List.length, [], [], fun _ _ _ _ => true⟩
      revision := 1
      rules := rules
      scoring := none
      challenges := fun _ => none
      mazes := ⟨[], fun _ => none, fun host name => host ++ name, fun _ _ found => nomatch found⟩
      backends := [] }
  surroundings :=
    { condition := fun condition _ => some condition
      rewrite := fun _ rewrite _ => some rewrite
      errorPage := fun _ _ => []
      mazePage := fun _ _ => []
      deceive := fun _ _ _ => ⟨200, [("Content-Type", "text/html")], [Bytes.ofText "<p>"]⟩
      challengePage := fun _ _ => []
      widget := fun _ _ => ⟨"<div>", by decide⟩
      lure := fun _ _ _ => ⟨"<a>", by decide⟩
      beacon := fun _ _ => ⟨"<img>", by decide⟩ }
  moments := fun _ => ⟨0, .start, ⟨none, ⟨0, 0⟩, 0, [], .skip⟩, true, []⟩
  host := ⟨"example.com", by decide⟩
  path := path
  userAgent := "unknown"

end Bagel
