/-
This file models how the web state is built and reloaded: `rebuild` and what it calls in
`state.rs`, `load_networks` of `loader.rs`, and `reload_shared` of `listen.rs`. A rebuild is
a computation in steps, because requests are served from the old snapshot while it runs, and
because its steps act on objects that the old snapshot shares.

All that can fail comes before the first step that changes a shared object. `prepare` is
the part that can fail and `finish` the rest.
-/

import Bagel.Compile
import Bagel.Shared

namespace Bagel

open Interleaving

/-! ### Configuration -/

inductive BindNetwork where
  | tcp
  | unix
  deriving DecidableEq

inductive TlsConfig where
  | none
  | acme (directoryUrl : String) (domains contact : List String)
  | manual (certPath keyPath : String)
  deriving DecidableEq

structure BindConfig where
  network : BindNetwork
  address : String
  socketMode : Option Nat
  tls : TlsConfig
  proxyProtocol : Bool
  passthrough : Bool

structure DeceptionConfig where
  corpora : Option String
  scripts : Option String
  server : String
  notFoundPct : Nat
  forbiddenPct : Nat
  deriving DecidableEq

structure RendererConfig where
  name : String
  kind : String
  endpoint : String
  timeout : Nat
  maxBody : Nat
  maxConcurrency : Nat
  rate : Nat
  burst : Nat
  decoyRate : Nat
  decoyBurst : Nat
  cooldown : Nat
  deriving DecidableEq

structure CrawlerConfig where
  name : String
  suffixes : List String
  deriving DecidableEq

inductive NetworkFilter where
  | none
  | jq (path : String)
  | regex (pattern : String)

inductive NetworkSource where
  | url (url : String) (filter : NetworkFilter)
  | file (path : String) (filter : NetworkFilter)
  | asn (number : Nat)
  | inline (prefixes : List String)

structure NetworkConfig where
  name : String
  sources : List NetworkSource

/-- The configuration of the web state. `Others` are the settings that only the parts outside this
model read. -/
structure ServerConfig (Others : Type) extends WebConfig where
  bind : BindConfig
  deception : DeceptionConfig
  /-- `max_concurrent` of `smear`. -/
  maxConcurrent : Nat
  renderers : List RendererConfig
  crawlers : List CrawlerConfig
  networks : List NetworkConfig
  /-- The names of the challenges that are registered. -/
  challengeNames : List Text
  others : Others

/-! ### Surroundings -/

variable {machinery : Machinery} {Others Digest Condition Regex : Type} [LinearOrder Digest]

/-- What a process computes from a configuration and a seed, always in the same way. -/
structure Builders (Others Digest Condition Regex : Type) where
  /-- For a seed that is persistent or not. -/
  checks : Bool → ServerConfig Others → CompileChecks Condition Regex
  /-- `from_pkcs8`, with the keys derived from the pair. -/
  keys : List UInt8 → Option (Server Digest)
  /-- The route prefixes that `derive_maze_keys` derives from the `poison_master` of a seed. -/
  routePrefixOf : List UInt8 → String → String → String
  /-- What a list of networks may hold: a network, or a single address. -/
  parseNetwork : String → Option IpNetwork
  /-- A string as `:?` prints it. -/
  debug : String → String

/-- What one attempt to build a state finds outside the process, and the objects it would make. -/
structure RebuildSurroundings (machinery : Machinery) where
  /-- Of a capacity, with buckets of so many seconds. -/
  rateTracker : (capacity bucket : Nat) → machinery.Inside .rateTracker
  census : machinery.Inside .census
  visits : machinery.Inside .visits
  /-- `solver_delivery::start` -/
  solverPool : Option (machinery.Inside .solverPool)
  deceiver : DeceptionConfig → machinery.Inside .deceiver
  semaphore : (permits : Nat) → machinery.Inside .semaphore
  hooks : machinery.Inside .hooks
  /-- `ExternalRenderer::markov`, with the handle of the deceiver. -/
  markov : RendererConfig → Nat → machinery.Inside .renderer
  /-- `ExternalRenderer::new` -/
  renderer : RendererConfig → Except String (machinery.Inside .renderer)
  /-- `SystemDns::new`, with the verifier that is built on it. -/
  crawlerVerifier : List CrawlerConfig → Except String (machinery.Inside .crawlerVerifier)
  tagCache : machinery.Inside .tagCache
  /-- `build_https_client` -/
  httpsClient : Except Error Unit
  /-- What a list from outside holds, or the text of the error. -/
  fetch : NetworkSource → Except String (List String)

/-! ### Snapshots -/

/-- An `Arc`: where the object is, and what never changes about it. -/
structure Shared (Fixed : Type) where
  handle : Nat
  fixed : Fixed

/-- A snapshot before it has a poison memory. -/
structure Draft (Others Digest Condition Regex : Type) where
  config : ServerConfig Others
  compiled : Compiled Condition Regex
  revision : Nat
  networks : List (String × List IpNetwork)
  mazes : MazeSite
  server : Server Digest
  seed : List UInt8
  seedPersistent : Bool
  /-- With its capacity. -/
  rateTracker : Shared Nat
  solveTracker : Shared Unit
  census : Shared Unit
  visits : Shared Unit
  pendingChallenges : Shared Unit
  solverVariants : Option (Shared Unit)
  deceiver : Shared Unit
  smearSlots : Shared Unit
  hooks : Shared Unit
  /-- With their configurations. -/
  renderers : List (String × Shared RendererConfig)
  crawlerVerifier : Option (Shared Unit)
  tagCache : Shared Unit

/-- `StateInner` -/
structure LiveState (Others Digest Condition Regex : Type) extends
    Draft Others Digest Condition Regex where
  poison : Shared Unit

namespace Draft

variable (draft : Draft Others Digest Condition Regex)

/-- Everything behind an `Arc`, the latest first. -/
def handles : List (Kind × Nat) :=
  (.part .tagCache, draft.tagCache.handle) ::
  (draft.crawlerVerifier.toList.map fun verifier => (.part .crawlerVerifier, verifier.handle)) ++
  (draft.renderers.map fun entry => (.part .renderer, entry.2.handle)) ++
  (.part .hooks, draft.hooks.handle) ::
  (.part .semaphore, draft.smearSlots.handle) ::
  (.part .deceiver, draft.deceiver.handle) ::
  (draft.solverVariants.toList.map fun pool => (.part .solverPool, pool.handle)) ++
  [(.pending, draft.pendingChallenges.handle), (.part .visits, draft.visits.handle),
    (.part .census, draft.census.handle), (.part .rateTracker, draft.solveTracker.handle),
    (.part .rateTracker, draft.rateTracker.handle)]

end Draft

def LiveState.handles (live : LiveState Others Digest Condition Regex) : List (Kind × Nat) :=
  (.poison, live.poison.handle) :: live.toDraft.handles

/-- A computation on the world that ends with the state's own errors. -/
abbrev Building (machinery : Machinery) (Digest Answer : Type) [LinearOrder Digest] :=
  Resumption (World machinery Digest) Error Answer

/-- `Arc::new` -/
def share {Fixed : Type} (kind : Kind) (fixed : Fixed) (object : machinery.Object Digest kind) :
    Building machinery Digest (Shared Fixed) := do
  let handle ← Resumption.atomic fun world => world.create kind object
  return ⟨handle, fixed⟩

/-- What is carried over, or else made anew. -/
def carry {Answer : Type} (carried : Option Answer) (anew : Building machinery Digest Answer) :
    Building machinery Digest Answer :=
  match carried with
  | some answer => pure answer
  | none => anew

/-! ### Renderers -/

/-- The renderer of the previous snapshot that serves a configuration unchanged. One that uses
the deceiver needs the same deceiver. -/
def carriedRenderer (previous : Option (LiveState Others Digest Condition Regex))
    (deceiver : Shared Unit) (config : RendererConfig) : Option (Shared RendererConfig) :=
  previous.bind fun previous =>
    (previous.renderers.lookup config.name).filter fun existing =>
      existing.fixed = config ∧
        (config.kind ≠ "markov" ∨ previous.deceiver.handle = deceiver.handle)

/-- The body of the loop of `build_renderers`. -/
def addRenderer (surroundings : RebuildSurroundings machinery)
    (previous : Option (LiveState Others Digest Condition Regex)) (deceiver : Shared Unit)
    (renderers : List (String × Shared RendererConfig)) (config : RendererConfig) :
    Building machinery Digest (List (String × Shared RendererConfig)) := do
  let renderer ← carry (carriedRenderer previous deceiver config) <|
    if config.kind = "markov" then
      share (.part .renderer) config (surroundings.markov config deceiver.handle)
    else do
      let inside ← Resumption.lift ((surroundings.renderer config).mapError Error.config)
      share (.part .renderer) config inside
  return (config.name, renderer) :: renderers

/-- `build_renderers` -/
def buildRenderers (surroundings : RebuildSurroundings machinery) (config : ServerConfig Others)
    (previous : Option (LiveState Others Digest Condition Regex)) (deceiver : Shared Unit) :
    Building machinery Digest (List (String × Shared RendererConfig)) :=
  config.renderers.foldlM (addRenderer surroundings previous deceiver) []

/-! ### Networks -/

section Networks

variable (builders : Builders Others Digest Condition Regex)
  (surroundings : RebuildSurroundings machinery)

/-- `load_source` -/
def loadSource : NetworkSource → Except String (List String)
  | .inline prefixes => .ok prefixes
  | source => surroundings.fetch source

/-- The body of the loop of `load_networks`. A later network of the same name takes the place of
an earlier one. -/
def loadNetwork (networks : List (String × List IpNetwork)) (config : NetworkConfig) :
    Except Error (List (String × List IpNetwork)) := do
  let lists ← config.sources.mapM fun source =>
    (loadSource surroundings source).mapError fun message =>
      Error.config ("network '" ++ config.name ++ "': failed to load source: " ++ message)
  let blocks ← lists.flatten.mapM fun text =>
    match builders.parseNetwork text with
    | some block => Except.ok block
    | none => Except.error (Error.config
        ("network '" ++ config.name ++ "': invalid IP prefix " ++ builders.debug text))
  return (config.name, blocks) :: networks

/-- `load_networks` -/
def loadNetworks (configs : List NetworkConfig) :
    Except Error (List (String × List IpNetwork)) := do
  surroundings.httpsClient
  configs.foldlM (loadNetwork builders surroundings) []

end Networks

/-! ### Rebuilding -/

/-- `MAX_PERMITS` of the semaphore. -/
def maxPermits : Nat := 2 ^ 61 - 1

/-- The capacity that the rate tracker has to have. -/
def rateCapacity (compiled : Compiled Condition Regex) : Nat :=
  match compiled.scoring with
  | some scoring => scoring.rateCapacity
  | none => defaultRateCapacity

/-- Some challenge is a proof of work. -/
def offersPow (names : List Text) (challenges : Text → Option ChallengeRegistration) : Bool :=
  names.any fun name =>
    match challenges name with
    | some registration =>
      match registration.runtime with
      | .pow _ => true
      | _ => false
    | none => false

section Rebuild

variable (builders : Builders Others Digest Condition Regex)
  (surroundings : RebuildSurroundings machinery) (config : ServerConfig Others)
  (previous : Option (LiveState Others Digest Condition Regex))

/-- The pool of solver variants: that of the previous snapshot, or one that is started because
there is a proof of work to solve. -/
def solverVariants (compiled : Compiled Condition Regex) :
    Building machinery Digest (Option (Shared Unit)) :=
  match previous.bind fun previous => previous.solverVariants with
  | some pool => pure (some pool)
  | none =>
    if offersPow config.challengeNames compiled.challenges then do
      let started ← Resumption.await (.ok surroundings.solverPool)
      match started with
      | some pool => do
        let pool ← share (.part .solverPool) () pool
        return some pool
      | none => pure none
    else pure none

/-- The verifier of crawlers, if there are any to verify. -/
def crawlerVerifier : Building machinery Digest (Option (Shared Unit)) :=
  if config.crawlers.isEmpty then pure none
  else
    let carried := previous.bind fun previous =>
      previous.crawlerVerifier.filter fun _ => previous.config.crawlers = config.crawlers
    carry (carried.map some) do
      let inside ← Resumption.lift
        ((surroundings.crawlerVerifier config.crawlers).mapError Error.config)
      let verifier ← share (.part .crawlerVerifier) () inside
      return some verifier

/-- `rebuild`, up to the last of its steps that can fail. -/
def prepare (seed : List UInt8) (seedPersistent : Bool) :
    Building machinery Digest (Draft Others Digest Condition Regex) := do
  let compiled ← Resumption.lift <|
    compile (builders.checks seedPersistent config) config.toWebConfig
  let server ← Resumption.lift <|
    match builders.keys seed with
    | some server => Except.ok server
    | none => Except.error (Error.config "invalid Ed25519 PKCS8 seed")
  let rateTracker ← carry
    ((previous.map fun previous => previous.rateTracker).filter fun tracker =>
      tracker.fixed = rateCapacity compiled)
    (share (.part .rateTracker) (rateCapacity compiled)
      (surroundings.rateTracker (rateCapacity compiled) 1))
  let solveTracker ← carry (previous.map fun previous => previous.solveTracker)
    (share (.part .rateTracker) () (surroundings.rateTracker defaultRateCapacity 60))
  let census ← carry (previous.map fun previous => previous.census)
    (share (.part .census) () surroundings.census)
  let visits ← carry (previous.map fun previous => previous.visits)
    (share (.part .visits) () surroundings.visits)
  let revision ← Resumption.atomic World.bump
  let pendingChallenges ← carry (previous.map fun previous => previous.pendingChallenges)
    (share .pending () Expiry.Book.empty)
  let solverVariants ← solverVariants surroundings config previous compiled
  let deceiver ← carry
    ((previous.filter fun previous => previous.config.deception = config.deception).map
      fun previous => previous.deceiver)
    (share (.part .deceiver) () (surroundings.deceiver config.deception))
  let smearSlots ← carry
    ((previous.filter fun previous => previous.config.maxConcurrent = config.maxConcurrent).map
      fun previous => previous.smearSlots)
    (share (.part .semaphore) () (surroundings.semaphore (min config.maxConcurrent maxPermits)))
  let hooks ← carry (previous.map fun previous => previous.hooks)
    (share (.part .hooks) () surroundings.hooks)
  let renderers ← buildRenderers surroundings config previous deceiver
  let ⟨tables, built⟩ ← Resumption.lift <|
    Transaction.attach (buildMazeTables (builders.routePrefixOf seed) config.toWebConfig)
  let crawlerVerifier ← crawlerVerifier surroundings config previous
  let networks ← Resumption.await (loadNetworks builders surroundings config.networks)
  let tagCache ← share (.part .tagCache) () surroundings.tagCache
  return {
    config, compiled, revision, networks, server, seed, seedPersistent, rateTracker, solveTracker,
    census, visits, pendingChallenges, solverVariants, deceiver, smearSlots, hooks, renderers,
    crawlerVerifier, tagCache
    mazes := MazeSite.ofTables (builders.routePrefixOf seed) config.toWebConfig tables built }

/-- What is remembered of a maze stays when the maze does, with its time to live. -/
def Retained (maze : MazeConfig) : Prop :=
  ∃ new ∈ config.mazes, new.name = maze.name ∧ new.memoryTtl = maze.memoryTtl

instance (maze : MazeConfig) : Decidable (Retained config maze) :=
  inferInstanceAs (Decidable (∃ new ∈ config.mazes, _))

/-- The rest of `rebuild`. -/
def finish (draft : Draft Others Digest Condition Regex) :
    Building machinery Digest (LiveState Others Digest Condition Regex) :=
  match previous with
  | none => do
    let poison ← share .poison () []
    return { draft with poison }
  | some old => do
    old.config.mazes.forM fun maze =>
      if Retained config maze then pure ()
      else Resumption.atomic fun world => world.purgeMaze old.poison.handle maze.name
    return { draft with poison := old.poison }

/-- `rebuild` -/
def rebuild (seed : List UInt8) (seedPersistent : Bool) :
    Building machinery Digest (LiveState Others Digest Condition Regex) :=
  prepare builders surroundings config previous seed seedPersistent >>= finish config previous

end Rebuild

/-- What cannot be changed while the server runs. -/
def BindConfig.SameSocket (first second : BindConfig) : Prop :=
  first.network = second.network ∧ first.address = second.address ∧
    first.socketMode = second.socketMode ∧ first.tls = second.tls

instance (first second : BindConfig) : Decidable (first.SameSocket second) :=
  inferInstanceAs (Decidable (_ ∧ _))

/-- `reload_shared`, up to where the new snapshot is stored. -/
def reloadShared (builders : Builders Others Digest Condition Regex)
    (surroundings : RebuildSurroundings machinery) (config : ServerConfig Others)
    (live : LiveState Others Digest Condition Regex) :
    Building machinery Digest (LiveState Others Digest Condition Regex) :=
  if live.config.bind.SameSocket config.bind then
    rebuild builders surroundings config (some live) live.seed live.seedPersistent
  else .fail (.config ("reload rejected, changing the bind network, address, socket mode, or " ++
    "TLS needs a restart"))

/-! ### Requests -/

/-- The places of a snapshot that hold an object. -/
inductive Slot where
  | poison
  | rateTracker
  | solveTracker
  | census
  | visits
  | pendingChallenges
  | solverVariants
  | deceiver
  | smearSlots
  | hooks
  | renderer (name : String)
  | crawlerVerifier
  | tagCache

def Slot.kind : Slot → Kind
  | poison => .poison
  | rateTracker => .part .rateTracker
  | solveTracker => .part .rateTracker
  | census => .part .census
  | visits => .part .visits
  | pendingChallenges => .pending
  | solverVariants => .part .solverPool
  | deceiver => .part .deceiver
  | smearSlots => .part .semaphore
  | hooks => .part .hooks
  | renderer _ => .part .renderer
  | crawlerVerifier => .part .crawlerVerifier
  | tagCache => .part .tagCache

def LiveState.handle (live : LiveState Others Digest Condition Regex) : Slot → Option Nat
  | .poison => some live.poison.handle
  | .rateTracker => some live.rateTracker.handle
  | .solveTracker => some live.solveTracker.handle
  | .census => some live.census.handle
  | .visits => some live.visits.handle
  | .pendingChallenges => some live.pendingChallenges.handle
  | .solverVariants => live.solverVariants.map fun pool => pool.handle
  | .deceiver => some live.deceiver.handle
  | .smearSlots => some live.smearSlots.handle
  | .hooks => some live.hooks.handle
  | .renderer name => (live.renderers.lookup name).map fun renderer => renderer.handle
  | .crawlerVerifier => live.crawlerVerifier.map fun verifier => verifier.handle
  | .tagCache => some live.tagCache.handle

/-- What a request asks of a snapshot: an operation on one of its objects, whether a network has
an address, or the mazes of a host. -/
inductive Query (machinery : Machinery) (Digest : Type) where
  | operate (slot : Slot) (operation : machinery.Call Digest slot.kind)
  | network (name : String) (ip : IpAddr)
  | mazes (host : String)

inductive Reply (machinery : Machinery) (Digest : Type) where
  | result (kind : Kind) (result : Option (machinery.Result Digest kind))
  | network (member : Option Bool)
  | mazes (lookup : MazeLookup)

/-- What a request that holds a snapshot is answered. The lookup of a maze has the answer that it
has with a cache of any history. -/
def serve (asked : LiveState Others Digest Condition Regex × Query machinery Digest)
    (world : World machinery Digest) : World machinery Digest × Reply machinery Digest :=
  match asked.2 with
  | .operate slot operation =>
    match asked.1.handle slot with
    | none => (world, .result slot.kind none)
    | some handle =>
      let called := world.call slot.kind handle operation
      (called.1, .result slot.kind called.2)
  | .network name ip =>
    (world, .network ((asked.1.networks.lookup name).map fun blocks =>
      blocks.any fun block => block.contains ip))
  | .mazes host => (world, .mazes (asked.1.mazes.mazeLookup [] host).1)

/-- The snapshot that is live once a reload ended, or while it is still going on. -/
def installed {State Answer : Type} (live : LiveState Others Digest Condition Regex)
    (progress : Progress State Error (LiveState Others Digest Condition Regex) Answer) :
    LiveState Others Digest Condition Regex :=
  match progress.rest with
  | .done next => next
  | _ => live

end Bagel
