/-
This file models `crawler.rs`: the verification of crawlers by reverse DNS that is confirmed by
forward DNS, with the providers as `normalize_crawler_providers` leaves them.

A call that finds no verdict in the cache spawns a lookup and waits for it. Calls and lookups run
at the same time. Each step goes from one point where a call or a lookup waits, or reads or writes
what they share, to the next one. DNS answers what it likes and when it likes, and what it has
answered is kept for the statements about it.
-/

import Bagel.Backends
import Bagel.PoisonMemory
import Bagel.Reload
import Bagel.Visits

namespace Bagel

/-! ### Providers -/

/-- `trim_start_matches('.')` -/
def trimStartDots (text : String) : String := String.ofList (text.toList.dropWhile (· = '.'))

/-- `trim_end_matches('.')` -/
def trimEndDots (text : String) : String := String.ofList (text.toList.rdropWhile (· = '.'))

/-- A suffix of a provider, as a name with a dot in front. -/
def normalizeSuffix (crawler suffix : String) : Except Error String := do
  let host ← inPlace ("crawler '" ++ crawler ++ "': invalid suffix '" ++ suffix ++ "'")
    (CanonicalHost.parse (trimStartDots suffix))
  if host.ip.isSome then
    throw (.config ("crawler '" ++ crawler ++ "': suffix '" ++ suffix ++ "' must be a DNS name"))
  return "." ++ host.text

/-- The body of the loop of `normalize_crawler_providers`. -/
def addCrawler (state : List String × List CrawlerConfig) (crawler : CrawlerConfig) :
    Except Error (List String × List CrawlerConfig) := do
  let (names, providers) := state
  if !isValidMazeName crawler.name then
    throw (.config ("invalid crawler name '" ++ crawler.name ++ "'"))
  if names.contains crawler.name then
    throw (.config ("duplicate crawler '" ++ crawler.name ++ "'"))
  if crawler.suffixes.isEmpty then
    throw (.config ("crawler '" ++ crawler.name ++ "' requires at least one DNS suffix"))
  let suffixes ← crawler.suffixes.mapM (normalizeSuffix crawler.name)
  return (crawler.name :: names, providers ++ [⟨crawler.name, suffixes⟩])

/-- `normalize_crawler_providers` -/
def normalizeCrawlerProviders (crawlers : List CrawlerConfig) :
    Except Error (List CrawlerConfig) :=
  (crawlers.foldlM addCrawler ([], [])).map Prod.snd

/-! ### Writes with a shorter life -/

/-- `set_with_ttl`: the entry is written as if it were older. There is none where the clock does
not go back as far. -/
def DecayMap.setWithTtl {Key Value : Type} [DecidableEq Key] (map : DecayMap Key Value) (now : Nat)
    (key : Key) (value : Value) (ttl : Nat) : Option (DecayMap Key Value) :=
  if ttl ≤ map.ttl ∧ map.ttl - ttl ≤ now then
    let kept := map.retain now
    if kept.entries.length < decayMaxEntries ∨ key ∈ kept then
      some { map with entries := kept.insert key (value, now - (map.ttl - ttl)) }
    else some { map with entries := kept }
  else none

namespace Crawler

/-! ### Durations, in nanoseconds -/

def positiveTtl : Nat := 3600000000000

def negativeTtl : Nat := 300000000000

def lookupTimeout : Nat := 5000000000

def waitBudget : Nat := 500000000

def maxConcurrentLookups : Nat := 64

/-- `str::to_lowercase`, and the longest time the runtime takes to see that a timer has run out. -/
structure Platform where
  lowercase : String → String
  lowercase_ascii : ∀ text : String, (∀ character ∈ text.toList, character.toNat < 128) →
    lowercase text = String.ofList (text.toList.map Char.toLower)
  late : Nat
  prompt : waitBudget + late ≤ positiveTtl

/-! ### Names -/

/-- `suffix_matches` -/
def suffixMatches (name suffix : String) : Bool :=
  suffix.toList.isSuffixOf name.toList || name.toList == suffix.toList.drop 1

section

variable (platform : Platform) (providers : List CrawlerConfig)

/-- The form in which a name is matched and looked up. -/
def lookupName (name : String) : String := platform.lowercase (trimEndDots name)

def matchesProvider (name : String) : Bool :=
  providers.any fun provider => provider.suffixes.any (suffixMatches name)

/-- The next name that is looked up, and those after it. -/
def nextMatch : List String → Option (String × List String)
  | [] => none
  | name :: rest =>
    let name := lookupName platform name
    if matchesProvider providers name then some (name, rest) else nextMatch rest

end

/-! ### Calls and lookups -/

inductive Phase where
  | spawned
  | reversing
  | resolving (name : String) (rest : List String)
  | stored (verified : Bool)
  | cleared (verified : Bool)
  | finished (verified : Bool)
  | died
  deriving DecidableEq

/-- A spawned lookup. Its timeout begins when it is started. -/
structure Lookup where
  ip : IpAddr
  spawned : Nat
  started : Nat
  phase : Phase
  deriving DecidableEq

/-- A call of `verify` that has not returned. -/
inductive Call where
  | missed (ip : IpAddr)
  | inserted (ip : IpAddr)
  | refused (ip : IpAddr)
  | waiting (ip : IpAddr) (lookup : Nat) (since : Nat)
  deriving DecidableEq

/-- What DNS answered a lookup, and what a call returned. -/
inductive Event where
  | reversed (lookup : Nat) (ip : IpAddr) (names : List String) (time : Nat)
  | resolved (lookup : Nat) (name : String) (addresses : List IpAddr) (time : Nat)
  | returned (ip : IpAddr) (verdict : Bool) (time : Nat)
  deriving DecidableEq

structure World where
  now : Nat
  cache : DecayMap IpAddr Bool
  pending : List IpAddr
  permits : Nat
  lookups : Nat → Option Lookup
  calls : Nat → Option Call
  log : List Event

namespace World

/-- `CrawlerVerifier::new` -/
def new (now : Nat) : World :=
  ⟨now, ⟨∅, positiveTtl⟩, [], maxConcurrentLookups, fun _ => none, fun _ => none, []⟩

variable (world : World)

def record (event : Event) : World := { world with log := event :: world.log }

def setCall (id : Nat) (call : Option Call) : World :=
  { world with calls := Function.update world.calls id call }

def setLookup (id : Nat) (lookup : Lookup) : World :=
  { world with lookups := Function.update world.lookups id (some lookup) }

theorem calls_setCall_self (id : Nat) (call : Option Call) :
    (world.setCall id call).calls id = call := by
  simp [setCall]

theorem calls_setCall_of_ne {id number : Nat} (other : number ≠ id) (call : Option Call) :
    (world.setCall id call).calls number = world.calls number := by
  simp [setCall, other]

theorem lookups_setLookup_self (id : Nat) (lookup : Lookup) :
    (world.setLookup id lookup).lookups id = some lookup := by
  simp [setLookup]

theorem lookups_setLookup_of_ne {id number : Nat} (other : number ≠ id) (lookup : Lookup) :
    (world.setLookup id lookup).lookups number = world.lookups number := by
  simp [setLookup, other]

/-- A call returns. -/
def leave (id : Nat) (ip : IpAddr) (verdict : Bool) : World :=
  (world.setCall id none).record (.returned ip verdict world.now)

def forget (ip : IpAddr) : World :=
  { world with pending := world.pending.filter (· ≠ ip) }

/-- The verdict of a lookup goes into the cache. A lookup dies without a place for it. -/
def store (id : Nat) (lookup : Lookup) (verified : Bool) : World :=
  if verified then
    { world with cache := world.cache.set world.now lookup.ip true }.setLookup id
      { lookup with phase := .stored true }
  else
    match world.cache.setWithTtl world.now lookup.ip false negativeTtl with
    | some cache => { world with cache }.setLookup id { lookup with phase := .stored false }
    | none =>
      { world with permits := world.permits + 1 }.setLookup id { lookup with phase := .died }

end World

section Steps

variable (platform : Platform) (providers : List CrawlerConfig)

/-- The loop of `check` goes on with the names that are left. -/
def proceed (world : World) (id : Nat) (lookup : Lookup) (names : List String) : World :=
  match nextMatch platform providers names with
  | some (name, rest) => world.setLookup id { lookup with phase := .resolving name rest }
  | none => world.store id lookup false

/-- An answer counts until the timeout of its lookup is seen to have run out. -/
def inTime (world : World) (lookup : Lookup) : Bool :=
  world.now ≤ lookup.started + lookupTimeout + platform.late

/-- The next step of a call that has not found a verdict in the cache. -/
inductive CallAction where
  | insert
  | acquire (lookup : Nat)
  | release
  | receive
  | giveUp
  | cancel

inductive LookupAction where
  | start
  | reverse (names : List String)
  | forward (addresses : List IpAddr)
  | expire
  | clear
  | finish

/-- What happens next. The numbers of calls and lookups tell them apart. -/
inductive Action where
  | tick (elapsed : Nat)
  | verify (call : Nat) (ip : IpAddr)
  | call (id : Nat) (action : CallAction)
  | lookup (id : Nat) (action : LookupAction)

/-- The steps of `verify`. -/
def stepCall (world : World) (id : Nat) : Call → CallAction → Option World
  | .missed ip, .insert =>
    if ip ∈ world.pending then some (world.leave id ip false)
    else some ({ world with pending := ip :: world.pending }.setCall id (some (.inserted ip)))
  | .inserted ip, .acquire lookup =>
    if world.permits = 0 then some (world.setCall id (some (.refused ip)))
    else if (world.lookups lookup).isSome then none
    else
      some (({ world with permits := world.permits - 1 }.setLookup lookup
        ⟨ip, world.now, world.now, .spawned⟩).setCall id (some (.waiting ip lookup world.now)))
  | .refused ip, .release => some ((world.forget ip).leave id ip false)
  | .waiting ip lookup since, .receive =>
    if world.now ≤ since + waitBudget + platform.late then
      match (world.lookups lookup).map Lookup.phase with
      | some (.finished verified) => some (world.leave id ip verified)
      | some .died => some (world.leave id ip false)
      | _ => none
    else none
  | .waiting ip _ since, .giveUp =>
    if since + waitBudget ≤ world.now then some (world.leave id ip false) else none
  | .waiting _ _ _, .cancel => some (world.setCall id none)
  | _, _ => none

/-- The steps of a lookup. -/
def stepLookup (world : World) (id : Nat) (lookup : Lookup) :
    Phase → LookupAction → Option World
  | .spawned, .start =>
    some (world.setLookup id { lookup with started := world.now, phase := .reversing })
  | .reversing, .reverse names =>
    if inTime platform world lookup then
      some (proceed platform providers (world.record (.reversed id lookup.ip names world.now)) id
        lookup names)
    else none
  | .resolving name rest, .forward addresses =>
    if inTime platform world lookup then
      let world := world.record (.resolved id name addresses world.now)
      if lookup.ip ∈ addresses then some (world.store id lookup true)
      else some (proceed platform providers world id lookup rest)
    else none
  | .reversing, .expire | .resolving _ _, .expire =>
    if lookup.started + lookupTimeout ≤ world.now then some (world.store id lookup false)
    else none
  | .stored verified, .clear =>
    some ((world.forget lookup.ip).setLookup id { lookup with phase := .cleared verified })
  | .cleared verified, .finish =>
    some ({ world with permits := world.permits + 1 }.setLookup id
      { lookup with phase := .finished verified })
  | _, _ => none

/-- One step, where it can be taken. -/
def step (world : World) : Action → Option World
  | .tick elapsed => some { world with now := world.now + elapsed }
  | .verify id ip =>
    if (world.calls id).isSome then none
    else
      match world.cache.get world.now ip with
      | some verdict => some (world.leave id ip verdict)
      | none => some (world.setCall id (some (.missed ip)))
  | .call id action => (world.calls id).bind fun call => stepCall platform world id call action
  | .lookup id action =>
    (world.lookups id).bind fun lookup =>
      stepLookup platform providers world id lookup lookup.phase action

end Steps

end Crawler

end Bagel
