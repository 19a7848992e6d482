/-
This file proves that a reload that fails changes nothing, and says what a reload of the same
configuration changes. Requests are served while a reload goes on, so both are statements
about runs in which its steps stand among those of the requests, in any order: what the
requests are answered, during the reload and after it, is what they would be answered if
there had been no reload.

A reload of the same configuration keeps every object of the old snapshot, but it reads the
lists of networks again, it starts with an empty cache of tags, and it starts solvers when
there are none. Its revision is new, and no challenge of the old one can be redeemed.
-/

import Bagel.Snapshots
import Mathlib.Data.List.Lex

namespace Bagel

open Interleaving Resumption

variable {machinery : Machinery} {Others Digest Condition Regex : Type} [LinearOrder Digest]

/-! ### Requests -/

section Requests

variable {asked : LiveState Others Digest Condition Regex × Query machinery Digest}
  {world : World machinery Digest}

theorem grows_serve : World.Grows world (serve asked world).1 := by
  unfold serve
  split
  · split
    · exact World.Grows.refl world
    · exact World.grows_call
  · exact World.Grows.refl world
  · exact World.Grows.refl world

/-- A request that holds objects of the smaller world is answered alike in the larger one. -/
theorem World.Extends.serve {alone : World machinery Digest} (extended : World.Extends alone world)
    (held : alone.HoldsAll asked.1.handles) :
    (serve asked alone).2 = (serve asked world).2 ∧
      World.Extends (serve asked alone).1 (serve asked world).1 := by
  unfold Bagel.serve
  split
  · next slot operation _ =>
    cases handle : asked.1.handle slot with
    | none => exact ⟨rfl, extended⟩
    | some index =>
      obtain ⟨results, after⟩ : (alone.call slot.kind index operation).2 =
          (world.call slot.kind index operation).2 ∧ _ := extended.call (held.slot handle)
      exact ⟨congrArg (Reply.result slot.kind) results, after⟩
  · exact ⟨rfl, extended⟩
  · exact ⟨rfl, extended⟩

end Requests

/-- Requests that hold objects of the world at the start do not notice what only adds to it. -/
theorem unseen_extends (start : World machinery Digest) :
    Unseen (serve : LiveState Others Digest Condition Regex × Query machinery Digest → _ → _)
      (fun asked => start.HoldsAll asked.1.handles) World.Grows World.Extends
      fun alone world => World.Grows start alone ∧ World.Extends alone world where
  toInterference := fair_extends
  serves := fun _ _ => grows_serve
  reply := fun may same => (same.2.serve (may.grow same.1)).1
  next := fun may same => ⟨same.1.trans grows_serve, (same.2.serve (may.grow same.1)).2⟩
  steps := fun added same => ⟨same.1, same.2.trans added⟩

/-! ### Reloads -/

section Reload

variable {builders : Builders Others Digest Condition Regex}
  {surroundings : RebuildSurroundings machinery} {config : ServerConfig Others}
  {live : LiveState Others Digest Condition Regex} {world : World machinery Digest}

theorem meets_reloadShared {guarantee : World machinery Digest → World machinery Digest → Prop}
    (fair : Interference World.Grows guarantee)
    (adds : ∀ first second, World.Extends first second → guarantee first second)
    (purges : ∀ maze ∈ live.config.mazes, ¬ Retained config maze →
      ∀ world : World machinery Digest,
        guarantee world (world.purgeMaze live.poison.handle maze.name).2)
    (sound : live.Sound builders world) :
    (reloadShared builders surroundings config live).Meets World.Grows guarantee
      (Rebuilt builders surroundings config (some live) live.seed live.seedPersistent) world := by
  unfold reloadShared
  split
  · refine meets_rebuild fair adds ?_ ?_ live.seed live.seedPersistent
    · rintro old same
      cases same
      exact purges
    · rintro old same
      cases same
      exact sound
  · exact trivial

theorem fair_grows :
    Interference (World.Grows : World machinery Digest → World machinery Digest → Prop)
      World.Grows :=
  ⟨World.Grows.refl, fun _ _ _ => World.Grows.trans, fun _ _ grown => grown⟩

/-- The worlds and the snapshots that a server can come to: after a first rebuild, after every
request, and after every reload, be it done, failed or on its way. -/
inductive Running (builders : Builders Others Digest Condition Regex) :
    World machinery Digest → LiveState Others Digest Condition Regex → Prop
  | started (surroundings : RebuildSurroundings machinery) (config : ServerConfig Others)
      (seed : List UInt8) (seedPersistent : Bool) (world : World machinery Digest)
      (events : List (Event (LiveState Others Digest Condition Regex × Query machinery Digest)))
      {live : LiveState Others Digest Condition Regex}
      (done : (interleave serve events world
        (rebuild builders surroundings config none seed seedPersistent)).rest = .done live) :
      Running builders (interleave serve events world
        (rebuild builders surroundings config none seed seedPersistent)).state live
  | served {world : World machinery Digest} {live : LiveState Others Digest Condition Regex}
      (asked : LiveState Others Digest Condition Regex × Query machinery Digest)
      (before : Running builders world live) : Running builders (serve asked world).1 live
  | reloaded (surroundings : RebuildSurroundings machinery) (config : ServerConfig Others)
      (events : List (Event (LiveState Others Digest Condition Regex × Query machinery Digest)))
      {world : World machinery Digest} {live : LiveState Others Digest Condition Regex}
      (before : Running builders world live) :
      Running builders
        (interleave serve events world (reloadShared builders surroundings config live)).state
        (installed live
          (interleave serve events world (reloadShared builders surroundings config live)))

/-- Every snapshot that a server runs is what its configuration makes it, with objects that
exist. -/
theorem Running.sound (running : Running builders world live) : live.Sound builders world := by
  induction running with
  | started surroundings config seed seedPersistent world events done =>
    have meets : (rebuild builders surroundings config none seed seedPersistent).Meets World.Grows
        World.Grows (Rebuilt builders surroundings config none seed seedPersistent) world := by
      refine meets_rebuild fair_grows (fun _ _ added => added.grows) ?_ ?_ seed seedPersistent
      · exact fun old other => nomatch other
      · exact fun old other => nomatch other
    obtain ⟨left, -⟩ := meets_interleave fair_grows (fun _ _ => grows_serve) events meets
    rw [done] at left
    exact (left _ (World.Grows.refl _)).sound
  | served asked before inductionHypothesis => exact inductionHypothesis.grow grows_serve
  | @reloaded surroundings config events world live before inductionHypothesis =>
    have meets : (reloadShared builders surroundings config live).Meets World.Grows World.Grows
        (Rebuilt builders surroundings config (some live) live.seed live.seedPersistent) world :=
      meets_reloadShared fair_grows (fun _ _ added => added.grows)
        (fun maze _ _ world => World.grows_purgeMaze live.poison.handle maze.name)
        inductionHypothesis
    obtain ⟨left, grown⟩ := meets_interleave fair_grows (fun _ _ => grows_serve) events meets
    unfold installed
    split
    · next next done =>
      rw [done] at left
      exact (left _ (World.Grows.refl _)).sound
    · exact inductionHypothesis.grow grown

/-! ### The same configuration -/

/-- The objects that a reload of the same configuration keeps. -/
def Slot.Kept (live : LiveState Others Digest Condition Regex) : Slot → Prop
  | .tagCache => False
  | .solverVariants => live.solverVariants ≠ none
  | _ => True

/-- The questions that such a reload leaves alone: those about the objects it keeps, about
networks that were loaded as before, and about mazes. -/
def Query.Kept (live next : LiveState Others Digest Condition Regex) :
    Query machinery Digest → Prop
  | .operate slot _ => slot.Kept live
  | .network name _ => next.networks.lookup name = live.networks.lookup name
  | .mazes _ => True

/-- No challenge of one snapshot can be redeemed with a binding of the other. -/
def Voided (live next : LiveState Others Digest Condition Regex) : Prop :=
  ∀ (table : PendingTable Digest) (now : Nat) (key : Digest) (level : Nat)
    (challenge : PendingChallenge Digest) (session session' : Vector UInt8 32)
    (host name host' name' : Text) (userAgent userAgent' : List UInt8),
    table.entries.lookup key = some challenge →
    challenge.binding =
      live.server.challengeBinding session host name userAgent live.revision →
    (table.redeem now key
      (next.server.challengeBinding session' host' name' userAgent' next.revision) level).2 = none

section Same

variable {next : LiveState Others Digest Condition Regex} {later : World machinery Digest}

theorem ofTables_congr {routePrefixOf routePrefixOf' : String → String → String}
    {config config' : WebConfig} {tables tables' : List (String × MazeTable)}
    {built : buildMazeTables routePrefixOf config = .ok tables}
    {built' : buildMazeTables routePrefixOf' config' = .ok tables'}
    (routes : routePrefixOf = routePrefixOf') (configs : config = config') :
    MazeSite.ofTables routePrefixOf config tables built =
      MazeSite.ofTables routePrefixOf' config' tables' built' := by
  subst routes configs
  cases Except.ok.inj (built.symm.trans built')
  rfl

/-- A snapshot that was rebuilt from the configuration of the one before it. -/
structure Same (live next : LiveState Others Digest Condition Regex) : Prop where
  config : next.config = live.config
  compiled : next.compiled = live.compiled
  server : next.server = live.server
  mazes : next.mazes = live.mazes
  kept : ∀ slot : Slot, slot.Kept live → next.handle slot = live.handle slot

/-- The deceiver is carried over. -/
theorem Rebuilt.deceiver_eq (rebuilt : Rebuilt builders surroundings live.config (some live)
    live.seed live.seedPersistent later next) : next.deceiver = live.deceiver :=
  (rebuilt.carries live rfl).deceiver (congrArg ServerConfig.deception rebuilt.asked.config.symm)

/-- Each renderer is carried over, as its configuration is the same. -/
theorem Rebuilt.renderers_eq (sound : live.Sound builders world)
    (rebuilt : Rebuilt builders surroundings live.config (some live) live.seed live.seedPersistent
      later next) (name : String) :
    next.renderers.lookup name = live.renderers.lookup name := by
  have keyed := rebuilt.sound.draft.keyed name
  rw [rebuilt.asked.config, ← sound.draft.keyed name] at keyed
  cases found : live.renderers.lookup name with
  | none =>
    rw [found, Option.map_none, Option.map_eq_none_iff] at keyed
    exact keyed
  | some existing =>
    rw [found, Option.map_some] at keyed
    obtain ⟨renderer, again, fixed⟩ := Option.map_eq_some_iff.mp keyed
    have its := sound.draft.keyed name
    rw [found, Option.map_some] at its
    have named := List.find?_some its.symm
    rw [decide_eq_true_eq] at named
    have member : (name, renderer) ∈ next.renderers := by
      obtain ⟨first, last, whole, -⟩ := List.lookup_eq_some_iff.mp again
      rw [whole]
      exact List.mem_append_right first List.mem_cons_self
    have carried : carriedRenderer (some live) next.deceiver renderer.fixed = some existing := by
      refine carriedRenderer_eq_some_iff.mpr ⟨live, rfl, ?_, fixed.symm, .inr ?_⟩
      · rw [fixed, named, found]
      · rw [rebuilt.deceiver_eq]
    have carries := rebuilt.carries live rfl
    rw [again]
    exact congrArg some (carries.renderers (name, renderer) member existing carried)

theorem Rebuilt.same (sound : live.Sound builders world)
    (rebuilt : Rebuilt builders surroundings live.config (some live) live.seed live.seedPersistent
      later next) : Same live next := by
  have config := rebuilt.asked.config
  have carries := rebuilt.carries live rfl
  have seed := rebuilt.asked.seed
  have compiled : next.compiled = live.compiled := by
    have accepted := rebuilt.sound.draft.accepted
    rw [config, rebuilt.asked.seedPersistent, sound.draft.accepted] at accepted
    exact (Except.ok.inj accepted).symm
  have tables : next.mazes = live.mazes := by
    obtain ⟨loaded, built, its⟩ := rebuilt.sound.draft.mazes
    obtain ⟨tables, whole, before⟩ := sound.draft.mazes
    rw [its, before]
    exact ofTables_congr (congrArg builders.routePrefixOf seed)
      (congrArg ServerConfig.toWebConfig config)
  have server : next.server = live.server := by
    have keys := rebuilt.sound.draft.keys
    rw [seed, sound.draft.keys] at keys
    exact (Option.some.inj keys).symm
  refine ⟨config, compiled, server, tables, fun slot kept => ?_⟩
  cases slot with
  | poison => exact congrArg (fun shared => some shared.handle) (rebuilt.poison live rfl)
  | rateTracker =>
    have capacity := sound.draft.capacity
    rw [← compiled] at capacity
    exact congrArg (fun shared => some shared.handle) (carries.rateTracker capacity)
  | solveTracker => exact congrArg (fun shared => some shared.handle) carries.solveTracker
  | census => exact congrArg (fun shared => some shared.handle) carries.census
  | visits => exact congrArg (fun shared => some shared.handle) carries.visits
  | pendingChallenges =>
    exact congrArg (fun shared => some shared.handle) carries.pendingChallenges
  | solverVariants =>
    obtain ⟨pool, started⟩ := Option.ne_none_iff_exists'.mp kept
    rw [LiveState.handle, LiveState.handle, started, carries.solverVariants pool started]
  | deceiver =>
    exact congrArg (fun shared => some shared.handle) rebuilt.deceiver_eq
  | smearSlots =>
    exact congrArg (fun shared => some shared.handle)
      (carries.smearSlots (congrArg ServerConfig.maxConcurrent config.symm))
  | hooks => exact congrArg (fun shared => some shared.handle) carries.hooks
  | renderer name => rw [LiveState.handle, LiveState.handle, rebuilt.renderers_eq sound name]
  | crawlerVerifier =>
    have verifies := sound.draft.verifies
    rw [← config] at verifies
    rw [LiveState.handle, LiveState.handle,
      carries.crawlerVerifier (congrArg ServerConfig.crawlers config.symm) verifies]
  | tagCache => exact kept.elim

theorem Same.serve (same : Same live next) {query : Query machinery Digest}
    (kept : query.Kept live next) : serve (next, query) world = serve (live, query) world := by
  unfold Bagel.serve
  cases query with
  | operate slot operation =>
    dsimp only
    rw [same.kept slot kept]
  | network name ip =>
    dsimp only
    rw [show next.networks.lookup name = live.networks.lookup name from kept]
  | mazes host =>
    dsimp only
    rw [same.mazes]

/-- Requests to the new snapshot are answered as requests to the old one. -/
theorem Same.serveAll (same : Same live next) {queries : List (Query machinery Digest)}
    (kept : ∀ query ∈ queries, query.Kept live next) :
    serveAll Bagel.serve (queries.map (Prod.mk next)) world =
      serveAll Bagel.serve (queries.map (Prod.mk live)) world := by
  induction queries generalizing world with
  | nil => rfl
  | cons query rest inductionHypothesis =>
    have first : Bagel.serve (next, query) world = Bagel.serve (live, query) world :=
      same.serve (kept query List.mem_cons_self)
    rw [List.map_cons, List.map_cons, Interleaving.serveAll, Interleaving.serveAll, first,
      inductionHypothesis fun later member => kept later (List.mem_cons_of_mem query member)]

/-- A binding of a later revision redeems nothing that was issued under an earlier one. -/
theorem voided (servers : next.server = live.server)
    (collisionFree : Function.Injective next.server.sha256) (newer : live.revision < next.revision)
    (near : next.revision < live.revision + 2 ^ 64) : Voided live next := by
  intro table now key level challenge session session' host name host' name' userAgent userAgent'
    listed bound
  rcases PendingTable.redeem_cases table now key
    (next.server.challengeBinding session' host' name' userAgent' next.revision) level with
    outcome | ⟨found, left, binding, -, -⟩
  · rw [outcome]
  · have earlier := Expiry.Book.lookup_of_expireFrom left
    cases Option.some.inj (listed.symm.trans earlier)
    rw [bound, ← servers] at binding
    have same := Server.challengeBinding_revision_inj collisionFree newer.le near binding
    exact absurd same newer.ne

end Same

/-! ### What a reload changes -/

/-- The requests among the events, and those that hold one of the old snapshots later, are answered
as if there had only been requests. -/
def Unnoticed (world : World machinery Digest)
    (events : List (Event (LiveState Others Digest Condition Regex × Query machinery Digest)))
    (outcome : Progress (World machinery Digest) Error (LiveState Others Digest Condition Regex)
      (Reply machinery Digest)) : Prop :=
  outcome.replies = (serveAll serve (calls events) world).1 ∧
    ∀ later : List (LiveState Others Digest Condition Regex × Query machinery Digest),
      (∀ asked ∈ later, world.HoldsAll asked.1.handles) →
      (serveAll serve later outcome.state).1 =
        (serveAll serve later (serveAll serve (calls events) world).2).1

section Unnoticed

variable {events : List (Event (LiveState Others Digest Condition Regex × Query machinery Digest))}
  {outcome : Progress (World machinery Digest) Error (LiveState Others Digest Condition Regex)
    (Reply machinery Digest)}

theorem unnoticed_of_extends (replies : outcome.replies = (serveAll serve (calls events) world).1)
    (same : World.Grows world (serveAll serve (calls events) world).2 ∧
      World.Extends (serveAll serve (calls events) world).2 outcome.state) :
    Unnoticed world events outcome :=
  ⟨replies, fun _ held => ((unseen_extends world).serveAll held same).1.symm⟩

theorem start_alike (world : World machinery Digest) :
    World.Grows world world ∧ World.Extends world world :=
  ⟨World.Grows.refl world, World.Extends.refl world⟩

/-- Whatever a reload did before it failed, it did before the first step that another could
notice. -/
theorem unnoticed_of_fail (sound : live.Sound builders world)
    (held : ∀ asked ∈ calls events, world.HoldsAll asked.1.handles) {fault : Error}
    (failed : (interleave serve events world
      (reloadShared builders surroundings config live)).rest = .fail fault) :
    Unnoticed world events
      (interleave serve events world (reloadShared builders surroundings config live)) := by
  have refused (refusal : Error) : Unnoticed world events (interleave serve events world
      (.fail refusal : Building machinery Digest (LiveState Others Digest Condition Regex))) := by
    have nothing : (Resumption.fail refusal : Building machinery Digest
        (LiveState Others Digest Condition Regex)).Meets World.Grows World.Extends
        (fun _ _ => True) world := trivial
    obtain ⟨replies, alike⟩ := (unseen_extends world).interleave held (start_alike world) nothing
    exact unnoticed_of_extends replies alike
  have before : Before (some live) world := by
    rintro old same
    cases same
    exact ⟨sound.held, sound.draft.revision⟩
  unfold reloadShared at failed ⊢
  split
  · next socket =>
    rw [if_pos socket] at failed
    obtain ⟨replies, alike⟩ := (unseen_extends world).interleave_fail held (start_alike world)
      (adds_prepare before live.seed live.seedPersistent) sure_finish failed
    exact unnoticed_of_extends replies alike
  · exact refused _

end Unnoticed

/-- A reload that fails, wherever it fails, changes nothing: the live snapshot stays, and neither
during the reload nor after it does a request notice. Nor does one when the configuration is
unchanged, apart from what is loaded anew: there the new snapshot answers as the old one would,
but no challenge of the old revision can be redeemed. -/
theorem reload_changes_nothing (running : Running builders world live)
    (surroundings : RebuildSurroundings machinery) (config : ServerConfig Others)
    (events : List (Event (LiveState Others Digest Condition Regex × Query machinery Digest)))
    (held : ∀ asked ∈ calls events, world.HoldsAll asked.1.handles) :
    let outcome := interleave serve events world (reloadShared builders surroundings config live)
    world.HoldsAll live.handles ∧
    (∀ fault, outcome.rest = .fail fault →
      installed live outcome = live ∧ Unnoticed world events outcome) ∧
    ∀ next, outcome.rest = .done next → config = live.config →
      installed live outcome = next ∧ Unnoticed world events outcome ∧
      Same live next ∧ loadNetworks builders surroundings config.networks = .ok next.networks ∧
      (∀ queries : List (Query machinery Digest), (∀ query ∈ queries, query.Kept live next) →
        (serveAll serve (queries.map (Prod.mk next)) outcome.state).1 =
          (serveAll serve (queries.map (Prod.mk live))
            (serveAll serve (calls events) world).2).1) ∧
      live.revision < next.revision ∧
      (Function.Injective next.server.sha256 → next.revision < live.revision + 2 ^ 64 →
        Voided live next) := by
  have sound := running.sound
  intro outcome
  refine ⟨sound.held, fun fault failed => ?_, fun next done unchanged => ?_⟩
  · exact ⟨by rw [installed, failed], unnoticed_of_fail sound held failed⟩
  · subst unchanged
    have meets : (reloadShared builders surroundings live.config live).Meets World.Grows
        World.Extends
        (Rebuilt builders surroundings live.config (some live) live.seed live.seedPersistent)
        world := by
      refine meets_reloadShared fair_extends (fun _ _ added => added) ?_ sound
      exact fun maze listed gone _ => absurd ⟨maze, listed, rfl, rfl⟩ gone
    obtain ⟨replies, alike⟩ := (unseen_extends world).interleave held (start_alike world) meets
    obtain ⟨left, -⟩ := meets_interleave fair_extends (fun _ _ => grows_serve) events meets
    have rebuilt : Rebuilt builders surroundings live.config (some live) live.seed
        live.seedPersistent outcome.state next := by
      rw [show (interleave serve events world
        (reloadShared builders surroundings live.config live)).rest = .done next from done] at left
      exact left _ (World.Grows.refl _)
    have same := rebuilt.same sound
    refine ⟨by rw [installed, done], unnoticed_of_extends replies alike, same,
      rebuilt.asked.loaded, fun queries kept => ?_, rebuilt.revision live rfl,
      fun collisionFree near =>
        voided same.server collisionFree (rebuilt.revision live rfl) near⟩
    rw [same.serveAll kept]
    refine ((unseen_extends world).serveAll (fun asked listed => ?_) alike).1.symm
    obtain ⟨query, -, rfl⟩ := List.mem_map.mp listed
    exact sound.held

end Reload

/-! ### A sample server -/

namespace SampleReload

/-- Objects that hold nothing and say nothing. -/
abbrev silent : Machinery := ⟨fun _ => Unit, fun _ => Unit, fun _ => Unit, fun _ _ _ => ((), ())⟩

def server : Server (List Nat) := ⟨List.map UInt8.toNat, [], [], fun _ _ _ _ => false⟩

def documentation : IpNetwork := .v4 ⟨192#32 <<< 24, 24, by decide⟩

/-- A process in which every check passes. -/
def builders : Builders Unit (List Nat) Unit Unit where
  checks _ _ := {
    bind := .ok ()
    prelude := .ok ⟨fun _ => .ok (), fun _ => .ok ()⟩
    parseUri := fun _ => .error "unused"
    surroundings := .ok ()
    mazes := .ok ()
    registry := .ok fun _ => none }
  keys _ := some server
  routePrefixOf _ _ name := name
  parseNetwork text := if text = "192.0.0.0/24" then some documentation else none
  debug text := text

/-- One list of networks, which is read from a file. -/
def config : ServerConfig Unit where
  challengeHttpCode := 418
  rules := []
  scoring := none
  backends := []
  mazes := []
  bind := ⟨.tcp, "127.0.0.1:8080", none, .none, false, false⟩
  deception := ⟨none, none, "nginx", 0, 0⟩
  maxConcurrent := 4096
  renderers := []
  crawlers := []
  networks := [⟨"crawlers", [.file "/etc/bagel/crawlers" .none]⟩]
  challengeNames := []
  others := ()

/-- The file holds these networks, or it cannot be read. -/
def surroundings (file : Except String (List String)) : RebuildSurroundings silent where
  rateTracker _ _ := ()
  census := ()
  visits := ()
  solverPool := none
  deceiver _ := ()
  semaphore _ := ()
  hooks := ()
  markov _ _ := ()
  renderer _ := .ok ()
  crawlerVerifier _ := .ok ()
  tagCache := ()
  httpsClient := .ok ()
  fetch _ := file

abbrev Asked := LiveState Unit (List Nat) Unit Unit × Query silent (List Nat)

/-- More than enough steps. -/
def steps : List (Event Asked) := List.replicate 20 .step

def empty : World silent (List Nat) := ⟨fun _ => [], 0⟩

/-- The server as it was started, with one network in the file. -/
def started : Progress (World silent (List Nat)) Error (LiveState Unit (List Nat) Unit Unit)
    (Reply silent (List Nat)) :=
  interleave serve steps empty
    (rebuild builders (surroundings (.ok ["192.0.0.0/24"])) config none [] true)

def answerOf {State Fault Answer : Type} : Resumption State Fault Answer → Option Answer
  | .done answer => some answer
  | _ => none

theorem isSome_started : (answerOf started.rest).isSome = true := by decide +kernel

def live : LiveState Unit (List Nat) Unit Unit := (answerOf started.rest).get isSome_started

theorem running : Running builders started.state live := by
  refine .started (surroundings (.ok ["192.0.0.0/24"])) config [] true empty steps ?_
  rfl

/-- The address was in the file when the server was started. -/
def asked : Query silent (List Nat) := .network "crawlers" (.v4 (192#32 <<< 24))

/-- A request, and then a reload of the same configuration. -/
def events : List (Event Asked) := .call (live, asked) :: steps

def reloaded (file : Except String (List String)) :
    Progress (World silent (List Nat)) Error (LiveState Unit (List Nat) Unit Unit)
      (Reply silent (List Nat)) :=
  interleave serve events started.state (reloadShared builders (surroundings file) config live)

/-- The file cannot be read any more: the reload fails, and nobody notices. -/
theorem reload_changes_nothing_unreadable :
    (reloaded (.error "No such file or directory (os error 2)")).rest = .fail (.config
        "network 'crawlers': failed to load source: No such file or directory (os error 2)") ∧
      Unnoticed started.state events
        (reloaded (.error "No such file or directory (os error 2)")) := by
  have failed : (reloaded (.error "No such file or directory (os error 2)")).rest = .fail (.config
      "network 'crawlers': failed to load source: No such file or directory (os error 2)") := rfl
  have held : ∀ asked ∈ calls events, started.state.HoldsAll asked.1.handles := by
    intro asked member
    cases List.mem_singleton.mp member
    exact running.sound.held
  exact ⟨failed, ((reload_changes_nothing running _ config events held).2.1 _ failed).2⟩

/-- The file was emptied: the reload of the same configuration succeeds, and the new snapshot
does not know the address any more. -/
theorem reload_noticed_emptied :
    Running builders started.state live ∧ live.config = config ∧
      ∃ next, (reloaded (.ok [])).rest = .done next ∧ next.config = live.config ∧
        (serve (next, asked) (reloaded (.ok [])).state).2 ≠
          (serve (live, asked) (serveAll serve (calls events) started.state).2).2 := by
  have before : (serve (live, asked) (serveAll serve (calls events) started.state).2).2 =
      .network (some true) := rfl
  refine ⟨running, rfl, _, rfl, rfl, ?_⟩
  rw [before]
  intro same
  cases same

end SampleReload

end Bagel
