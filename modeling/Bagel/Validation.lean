/-
This file models the configuration of the defense and `validation.rs`, which decides
whether the daemon accepts it. Fields that neither the validation nor `Defense::open`
reads are left out.

Regular expressions, networks and socket addresses are parsed by other crates. Their
parsers are given from outside, and so is what they say about a text they refuse.
-/

import Bagel.Defense
import Bagel.Library.Transaction

namespace Bagel

/-! ### The configuration -/

/-- An SSH tarpit endpoint. -/
structure Listener where
  name : String
  listenAddr : String
  policy : Option String
  maxTarpitConns : Option Nat
  minDelayMs : Option Nat
  maxDelayMs : Option Nat
  maxTarpitSecs : Option Nat
  lineLength : Option Nat

inductive StartPosition where
  | beginning
  | ending
  deriving DecidableEq

/-- A durable stream of records presented to one or more policies. -/
inductive Source where
  | journal (matchGroups : List (List (String × String))) (start : StartPosition)
      (maxEntryBytes : Nat)
  | file (path : String) (start : StartPosition) (pollIntervalMs maxLineBytes : Nat)
  | addressSet (path : String)
  | listener (listener : String)
  | web

inductive Detector where
  | regex (prefilter : Option String) (patterns contextPatterns : List String)
      (maxContextLines contextWindowSecs : Nat) (ignorePatterns : List String)
      (addressCapture : String) (timestampCapture timestampFormat : Option String)
  | json (equals : List (String × String)) (addressPointer : String)
      (timestampPointer groupKeyPointer timestampFormat : Option String)

structure Policy where
  source : String
  detector : Detector
  ignoreNetworks : List String
  maxAttempts : Nat
  findtimeSecs : Nat
  ban : BanSchedule
  action : Action

inductive EnforcementMode where
  | required
  | observe
  deriving DecidableEq

structure Enforcement where
  mode : EnforcementMode
  table : String
  chainPriority : Int
  reconcileIntervalSecs : Nat

structure VerifiedCrawler where
  name : String
  uaPattern : String
  networks : List String

/-- The sources and the policies are ordered by name and have one entry for a name. -/
structure Config where
  listeners : List Listener
  sources : List (String × Source)
  policies : List (String × Policy)
  enforcement : Enforcement
  databasePath : String
  historyRetentionSecs : Nat
  journalctlPath : String
  nftPath : String
  protectedNetworks : List String
  minDelayMs : Nat
  maxDelayMs : Nat
  maxTarpitSecs : Nat
  tarpitChunkMinBytes : Nat
  tarpitChunkMaxBytes : Nat
  maxTarpitConns : Nat
  maxTarpitConnsPerIp : Nat
  tarpitWriteTimeoutSecs : Nat
  maxConnections : Nat
  proxyProtocol : Bool
  trustedProxies : List String
  trapPatterns : List String
  trapUserAgents : List String
  whitelistNetworks : List String
  verifiedCrawlers : List VerifiedCrawler
  noBlockNetworks : List String

/-- What other crates make of a text, or why they refuse it. -/
structure Crates where
  /-- `Regex::new`, as the names of the capture groups. -/
  regex : String → Except String (List String)
  /-- `IpNetwork::from_str`. -/
  ipNetwork : String → Except String IpNetwork
  /-- `IpAddr::from_str`. -/
  ipAddr : String → Except String IpAddr
  /-- `SocketAddr::from_str`, as the port. -/
  socketAddr : String → Except String UInt16

/-! ### Checks -/

/-- Refuse a configuration on some condition. -/
def refuse (condition : Bool) (message : String) : Except Error Unit :=
  if condition then .error (.config message) else .ok ()

/-- The loop that checks every entry of a list. -/
def checkEach {Entry : Type} (check : Entry → Except Error Unit) : List Entry → Except Error Unit
  | [] => .ok ()
  | entry :: rest => do
    check entry
    checkEach check rest

theorem refuse_eq_ok_iff {condition : Bool} {message : String} {nothing : Unit} :
    refuse condition message = .ok nothing ↔ condition = false := by
  cases condition <;> simp [refuse]

theorem checkEach_eq_ok_iff {Entry : Type} {check : Entry → Except Error Unit}
    {entries : List Entry} {nothing : Unit} :
    checkEach check entries = .ok nothing ↔ ∀ entry ∈ entries, check entry = .ok () := by
  induction entries with
  | nil => simp [checkEach]
  | cons entry rest inductionHypothesis =>
    rw [checkEach, Transaction.bind_eq_ok_iff, List.forall_mem_cons, ← inductionHypothesis]
    exact ⟨fun ⟨_, first, others⟩ => ⟨first, others⟩, fun ⟨first, others⟩ => ⟨(), first, others⟩⟩

def isAsciiWord (text : String) : Bool :=
  text.toUTF8.data.toList.all fun byte =>
    (byte ≥ 48 && byte ≤ 57) || (byte ≥ 65 && byte ≤ 90) || (byte ≥ 97 && byte ≤ 122) || byte == 95

section Parsed

variable (crates : Crates)

def validateCidrs (field : String) (cidrs : List String) : Except Error Unit :=
  checkEach (fun cidr => do
    refuse (!cidr.toList.contains '/') (field ++ " contains invalid CIDR " ++ cidr.quote)
    match crates.ipNetwork cidr with
    | .ok _ => .ok ()
    | .error error =>
      .error (.config (field ++ " contains invalid CIDR " ++ cidr.quote ++ ": " ++ error))) cidrs

/-- The names of the capture groups of a pattern. -/
def compileRegex (scope field pattern : String) : Except Error (List String) :=
  match crates.regex pattern with
  | .ok captures => .ok captures
  | .error error =>
    .error (.config (scope ++ " has an invalid regex " ++ field ++ " " ++ pattern.quote ++ ": " ++
      error))

def validateDribble (context : String) (minDelayMs maxDelayMs chunkMin chunkMax : Nat) :
    Except Error Unit := do
  refuse (maxDelayMs < minDelayMs) (context ++ ": min-delay-ms exceeds max-delay-ms")
  refuse (chunkMin = 0) (context ++ ": chunk-min must not be zero")
  refuse (chunkMax < chunkMin) (context ++ ": chunk-min exceeds chunk-max")

/-! ### Policies -/

def validateBanSchedule (policy : String) (ban : BanSchedule) : Except Error Unit :=
  refuse ((ban.durationSecs.any fun duration => duration == 0) || ban.factor == 0 ||
      ban.multipliers.contains 0 || ban.maxDurationSecs == 0)
    ("policy " ++ policy ++ " ban durations, factor, and multipliers must be non-zero")

def validateCaptureName (policy field capture : String) : Except Error Unit :=
  refuse (capture.isEmpty || !isAsciiWord capture ||
      (capture.toUTF8.data.toList.head?.any fun byte => byte ≥ 48 && byte ≤ 57))
    ("policy " ++ policy ++ " " ++ field ++ " is not a valid capture name")

def validateTimestampFormat (policy : String) : Option String → Except Error Unit
  | none => .ok ()
  | some candidate =>
    refuse (!(candidate == "rfc3339" || candidate == "unix" ||
        ("strptime:".toList.isPrefixOf candidate.toList &&
          decide ("strptime:".length < candidate.length))))
      ("policy " ++ policy ++ " timestamp_format must be rfc3339, unix, or strptime:<format>")

/-- A tilde that is not followed by zero or one. -/
def badEscape : List Char → Bool
  | '~' :: next :: rest => (next != '0' && next != '1') || badEscape (next :: rest)
  | _ :: rest => badEscape rest
  | [] => false

def validateJsonPointer (policy field pointer : String) : Except Error Unit :=
  refuse (pointer.isEmpty || pointer.toList.head? != some '/' || badEscape pointer.toList ||
      pointer.toList.getLast? == some '~')
    ("policy " ++ policy ++ " " ++ field ++ " must be a non-empty JSON pointer")

def validateRegexPatterns (policy : String) (patterns contextPatterns : List String)
    (addressCapture : String) (timestampCapture : Option String) : Except Error Unit := do
  checkEach (fun pattern => do
    let captures ← compileRegex crates ("policy " ++ policy) "pattern" pattern
    refuse (!captures.contains addressCapture)
      ("every policy " ++ policy ++ " regex pattern must contain the named address capture " ++
        addressCapture)
    match timestampCapture with
    | none => .ok ()
    | some capture =>
      refuse (!captures.contains capture)
        ("every policy " ++ policy ++
          " regex pattern must contain the named timestamp capture " ++ capture)) patterns
  checkEach (fun pattern => do
    let captures ← compileRegex crates ("policy " ++ policy) "context pattern" pattern
    refuse (!captures.contains addressCapture)
      ("every policy " ++ policy ++ " context pattern must contain the named address capture " ++
        addressCapture)) contextPatterns

def validateDetector (policy : String) : Detector → Except Error Unit
  | .regex prefilter patterns contextPatterns maxContextLines contextWindowSecs ignorePatterns
      addressCapture timestampCapture timestampFormat => do
    refuse (patterns.isEmpty || patterns.any String.isEmpty)
      ("policy " ++ policy ++ " regex detector requires non-empty patterns")
    refuse (ignorePatterns.any String.isEmpty)
      ("policy " ++ policy ++ " ignore patterns must not be empty")
    refuse (contextPatterns.any String.isEmpty ||
        (contextPatterns.isEmpty != (maxContextLines == 0)) || decide (64 < maxContextLines) ||
        contextWindowSecs == 0)
      ("policy " ++ policy ++
        " context patterns require 1 to 64 context lines and a non-zero window")
    validateCaptureName policy "address_capture" addressCapture
    checkEach (validateCaptureName policy "timestamp_capture") timestampCapture.toList
    validateRegexPatterns crates policy patterns contextPatterns addressCapture timestampCapture
    checkEach (fun pattern => do
      let _ ← compileRegex crates ("policy " ++ policy) "ignore pattern" pattern
      return ()) ignorePatterns
    checkEach (fun pattern => do
      let captures ← compileRegex crates ("policy " ++ policy) "prefilter" pattern
      refuse (!captures.contains "content")
        ("policy " ++ policy ++ " prefilter must contain a named content capture"))
      prefilter.toList
    validateTimestampFormat policy timestampFormat
  | .json equals addressPointer timestampPointer groupKeyPointer timestampFormat => do
    validateJsonPointer policy "address_pointer" addressPointer
    checkEach (validateJsonPointer policy "timestamp_pointer") timestampPointer.toList
    checkEach (validateJsonPointer policy "group_key_pointer") groupKeyPointer.toList
    checkEach (validateJsonPointer policy "equals key") (equals.map Prod.fst)
    validateTimestampFormat policy timestampFormat

def validatePorts (policy : String) (ports : List UInt16) : Except Error Unit :=
  refuse (ports.isEmpty || ports.contains 0)
    ("policy " ++ policy ++ " scoped action requires non-zero ports")

def validateAction (policy : String) (listeners : List Listener) : Action → Except Error Unit
  | .observe | .dropProtocol _ | .dropAll | .rejectProtocol _ | .rejectAll => .ok ()
  | .drop _ ports | .reject _ ports => validatePorts policy ports
  | .tarpitRedirect protocol ports listener => do
    refuse (protocol != .tcp) ("policy " ++ policy ++ " tarpit redirect must use TCP")
    validatePorts policy ports
    match listeners.find? fun candidate => candidate.name == listener with
    | none =>
      .error (.config ("policy " ++ policy ++ " references unknown tarpit listener " ++ listener))
    | some target =>
      match crates.socketAddr target.listenAddr with
      | .error error =>
        .error (.config ("policy " ++ policy ++ " tarpit listener " ++ listener ++
          " has invalid address: " ++ error))
      | .ok port =>
        refuse (port == 0)
          ("policy " ++ policy ++ " tarpit listener " ++ listener ++ " uses port zero")

def validatePolicy (config : Config) (entry : String × Policy) : Except Error Unit := do
  let (name, policy) := entry
  refuse name.isEmpty "policy names must not be empty"
  refuse (!config.sources.any fun source => source.1 == policy.source)
    ("policy " ++ name ++ " references unknown source " ++ policy.source)
  refuse (policy.maxAttempts == 0 || policy.findtimeSecs == 0)
    ("policy " ++ name ++ " max_attempts and findtime_secs must be non-zero")
  validateBanSchedule name policy.ban
  validateDetector crates name policy.detector
  validateCidrs crates ("policies." ++ name ++ ".ignore_networks") policy.ignoreNetworks
  validateAction crates name config.listeners policy.action

/-- A listener that has a policy must be the source of that policy. -/
def validateListenerPolicy (config : Config) (listenerSources : List (String × String))
    (listener : Listener) : Except Error Unit :=
  match listener.policy with
  | none => .ok ()
  | some policyName =>
    match config.policies.find? fun policy => policy.1 == policyName with
    | none =>
      .error (.config ("listener " ++ listener.name ++ " references unknown policy " ++ policyName))
    | some (_, policy) =>
      match listenerSources.find? fun source => source.1 == listener.name with
      | none =>
        .error (.config ("listener " ++ listener.name ++ " has a policy but no listener source"))
      | some (_, expectedSource) =>
        refuse (policy.source != expectedSource)
          ("listener " ++ listener.name ++ " policy " ++ policyName ++ " uses source " ++
            policy.source ++ ", expected " ++ expectedSource)

def validatePolicies (config : Config) (listenerSources : List (String × String)) :
    Except Error Unit := do
  checkEach (validatePolicy crates config) config.policies
  checkEach (validateListenerPolicy config listenerSources) config.listeners

end Parsed

/-! ### Sources and listeners -/

/-- The loop over the sources. It collects the source of every listener. -/
def validateSources (config : Config) (listenerSources : List (String × String)) :
    List (String × Source) → Except Error (List (String × String))
  | [] => .ok listenerSources
  | (name, source) :: rest => do
    refuse name.isEmpty "source names must not be empty"
    match source with
    | .journal matchGroups _ maxEntryBytes =>
      refuse (maxEntryBytes == 0) ("source " ++ name ++ " max_entry_bytes must be non-zero")
      refuse (matchGroups.any fun group => group.any fun field =>
          field.1.isEmpty || field.2.isEmpty)
        ("source " ++ name ++ " journal match fields and values must not be empty")
      validateSources config listenerSources rest
    | .file path _ pollIntervalMs maxLineBytes =>
      refuse path.isEmpty ("source " ++ name ++ " path must not be empty")
      refuse (pollIntervalMs == 0 || maxLineBytes == 0)
        ("source " ++ name ++ " polling interval and line limit must be non-zero")
      validateSources config listenerSources rest
    | .addressSet path =>
      refuse path.isEmpty ("source " ++ name ++ " path must not be empty")
      validateSources config listenerSources rest
    | .listener listener =>
      refuse (!config.listeners.any fun candidate => candidate.name == listener)
        ("source " ++ name ++ " references unknown listener " ++ listener)
      refuse (listenerSources.any fun known => known.1 == listener)
        ("listener " ++ listener ++ " has more than one source")
      validateSources config ((listener, name) :: listenerSources) rest
    | .web => validateSources config listenerSources rest

/-- The longest time a connection may be held. -/
def maxHoldSecs : Nat := 24 * 60 * 60

/-- The loop over the listeners, with the names and the addresses seen so far. It adds up their
capacities. -/
def validateListeners (config : Config) (names addresses : List String) (capacity : Nat) :
    List Listener → Except Error Nat
  | [] => .ok capacity
  | listener :: rest => do
    refuse (listener.name.isEmpty || names.contains listener.name)
      "listener names must be non-empty and unique"
    refuse (addresses.contains listener.listenAddr) "listener addresses must be unique"
    let own := listener.maxTarpitConns.getD config.maxTarpitConns
    refuse (own == 0 || decide (config.maxConnections < own))
      ("listener " ++ listener.name ++ " has an invalid max_tarpit_conns")
    refuse ((listener.lineLength.any fun length => length == 0) ||
        (listener.maxTarpitSecs.any fun seconds =>
          seconds == 0 || decide (maxHoldSecs < seconds)) ||
        decide (listener.maxDelayMs.getD config.maxDelayMs <
          listener.minDelayMs.getD config.minDelayMs))
      ("invalid SSH listener " ++ listener.name)
    validateListeners config (listener.name :: names) (listener.listenAddr :: addresses)
      (saturatingAdd capacity own) rest

def validateDefense (crates : Crates) (config : Config) : Except Error Unit := do
  refuse (config.enforcement.table.isEmpty || !isAsciiWord config.enforcement.table)
    "enforcement.table must be a non-empty nftables identifier"
  refuse (config.enforcement.reconcileIntervalSecs == 0)
    "enforcement.reconcile_interval_secs must be non-zero"
  checkEach (fun (entry : String × String) => refuse entry.2.isEmpty
    (entry.1 ++ " must not be empty"))
    [("database_path", config.databasePath), ("journalctl_path", config.journalctlPath),
      ("nft_path", config.nftPath)]
  validateCidrs crates "protected_networks" config.protectedNetworks
  validateCidrs crates "trusted_proxies" config.trustedProxies
  validateCidrs crates "whitelist_networks" config.whitelistNetworks
  validateCidrs crates "no_block_networks" config.noBlockNetworks
  checkEach (fun pattern => do
    let _ ← compileRegex crates "trap_patterns" "pattern" pattern
    return ()) config.trapPatterns
  checkEach (fun pattern => do
    let _ ← compileRegex crates "trap_user_agents" "pattern" pattern
    return ()) config.trapUserAgents
  checkEach (fun crawler => do
    refuse crawler.uaPattern.isEmpty ("verified_crawlers." ++ crawler.name ++
      " ua_pattern must not be empty, it would match every agent")
    let _ ← compileRegex crates ("verified_crawlers." ++ crawler.name) "ua_pattern"
      crawler.uaPattern
    validateCidrs crates ("verified_crawlers." ++ crawler.name ++ ".networks") crawler.networks)
    config.verifiedCrawlers
  let listenerSources ← validateSources config [] config.sources
  validatePolicies crates config listenerSources

/-- `validate_config`. -/
def validateConfig (crates : Crates) (config : Config) : Except Error Unit := do
  validateDribble "defense: tarpit" config.minDelayMs config.maxDelayMs
    config.tarpitChunkMinBytes config.tarpitChunkMaxBytes
  refuse (config.maxTarpitSecs == 0 || decide (maxHoldSecs < config.maxTarpitSecs))
    "max_tarpit_secs must be between 1 second and 24 hours"
  refuse (config.historyRetentionSecs == 0) "history_retention_secs must be non-zero"
  checkEach (fun (entry : String × Nat) => refuse (entry.2 == 0) (entry.1 ++ " must be non-zero"))
    [("max_tarpit_conns", config.maxTarpitConns),
      ("max_tarpit_conns_per_ip", config.maxTarpitConnsPerIp),
      ("max_connections", config.maxConnections)]
  refuse (config.tarpitWriteTimeoutSecs == 0) "tarpit_write_timeout_secs must be non-zero"
  refuse (config.proxyProtocol && config.trustedProxies.isEmpty)
    "proxy_protocol requires at least one trusted_proxies entry"
  let capacity ← validateListeners config [] [] 0 config.listeners
  refuse (decide (config.maxConnections < capacity))
    "sum of listener max_tarpit_conns exceeds max_connections"
  validateDefense crates config

end Bagel
