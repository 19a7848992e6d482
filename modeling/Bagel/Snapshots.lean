/-
This file proves what a rebuild does. `prepare` only adds to the world: it makes objects
behind handles of their own, and what it carries over it leaves as it is. The snapshot that
it prepares is described by what it was built from and by what it shares with the one
before. `finish` cannot fail, and it forgets nothing as long as every maze is retained.

The snapshots that a server can come to run are those of a first rebuild, of requests that
are served, and of reloads among requests. All of them are sound.
-/

import Bagel.Reload

namespace Bagel

open Interleaving Resumption

variable {machinery : Machinery} {Others Digest Condition Regex : Type} [LinearOrder Digest]

/-! ### Steps -/

theorem fair_extends :
    Interference (World.Grows : World machinery Digest → World machinery Digest → Prop)
      World.Extends :=
  ⟨World.Grows.refl, fun _ _ _ => World.Grows.trans, fun _ _ => World.Extends.grows⟩

/-- A computation that only adds to the world. -/
abbrev Adds {Answer : Type} (computation : Building machinery Digest Answer)
    (post : World machinery Digest → Answer → Prop) (world : World machinery Digest) : Prop :=
  computation.Meets World.Grows World.Extends post world

theorem adds_share {Fixed : Type} (kind : Kind) (fixed : Fixed)
    (object : machinery.Object Digest kind) (world : World machinery Digest) :
    Adds (share kind fixed object)
      (fun world shared => world.Holds kind shared.handle ∧ shared.fixed = fixed) world := by
  have created : Adds (atomic fun world => world.create kind object)
      (fun world handle => world.Holds kind handle) world := by
    refine meets_atomic fun later _ => ⟨World.extends_create kind object, fun last grown => ?_⟩
    exact grown.objects kind _ (World.holds_create kind object)
  refine created.bind fair_extends fun later handle _ held last grown => ?_
  exact ⟨grown.objects kind handle held, rfl⟩

section Carry

variable {Fixed : Type} {kind : Kind} {fixed : Fixed} {object : machinery.Object Digest kind}
  {carried : Option (Shared Fixed)} {world : World machinery Digest}

/-- An object that is carried over or made anew exists, and it is the one that is carried if
there is one. -/
theorem adds_carry (held : ∀ shared, carried = some shared → world.Holds kind shared.handle) :
    Adds (carry carried (share kind fixed object))
      (fun world shared => world.Holds kind shared.handle ∧
        (carried = some shared ∨ carried = none ∧ shared.fixed = fixed)) world := by
  cases carried with
  | none =>
    refine (adds_share kind fixed object world).weaken (fun _ _ allowed => allowed) ?_
    exact fun later shared made => ⟨made.1, .inr ⟨rfl, made.2⟩⟩
  | some shared =>
    intro later grown
    exact ⟨grown.objects kind shared.handle (held shared rfl), .inl rfl⟩

theorem eq_of_carried {shared expected : Shared Fixed} (same : carried = some expected)
    (outcome : carried = some shared ∨ carried = none ∧ shared.fixed = fixed) :
    shared = expected := by
  rcases outcome with found | ⟨missing, -⟩
  · exact Option.some.inj (found.symm.trans same)
  · rw [same] at missing
    exact nomatch missing

end Carry

/-- Every handle of a snapshot is among its handles. -/
theorem World.HoldsAll.slot {world : World machinery Digest}
    {live : LiveState Others Digest Condition Regex} (held : world.HoldsAll live.handles)
    {slot : Slot} {handle : Nat} (found : live.handle slot = some handle) :
    world.Holds slot.kind handle := by
  refine held (slot.kind, handle) ?_
  cases slot with
  | solverVariants =>
    obtain ⟨pool, same, rfl⟩ := Option.map_eq_some_iff.mp found
    simp [LiveState.handles, Draft.handles, Slot.kind, same]
  | crawlerVerifier =>
    obtain ⟨verifier, same, rfl⟩ := Option.map_eq_some_iff.mp found
    simp [LiveState.handles, Draft.handles, Slot.kind, same]
  | renderer name =>
    obtain ⟨renderer, same, rfl⟩ := Option.map_eq_some_iff.mp found
    obtain ⟨first, last, whole, -⟩ := List.lookup_eq_some_iff.mp same
    simp [LiveState.handles, Draft.handles, Slot.kind, whole]
  | _ =>
    cases found
    simp [LiveState.handles, Draft.handles, Slot.kind]

/-! ### Renderers -/

/-- The previous snapshot, if there is one, has its objects in the world. -/
def Before (previous : Option (LiveState Others Digest Condition Regex))
    (world : World machinery Digest) : Prop :=
  ∀ live, previous = some live → world.HoldsAll live.handles ∧ live.revision ≤ world.revision

theorem Before.grow {previous : Option (LiveState Others Digest Condition Regex)}
    {first second : World machinery Digest} (before : Before previous first)
    (grown : World.Grows first second) : Before previous second :=
  fun live same =>
    ⟨(before live same).1.grow grown, (before live same).2.trans grown.revision⟩

/-- The renderers of configurations: under each name the last so named, and one that is carried
over is that of the previous snapshot. -/
structure RenderersOf (previous : Option (LiveState Others Digest Condition Regex))
    (deceiver : Shared Unit) (configs : List RendererConfig) (world : World machinery Digest)
    (renderers : List (String × Shared RendererConfig)) : Prop where
  before : Before previous world
  keyed : ∀ name, (renderers.lookup name).map Shared.fixed =
    configs.reverse.find? fun config => config.name = name
  carried : ∀ entry ∈ renderers, ∀ existing,
    carriedRenderer previous deceiver entry.2.fixed = some existing → entry.2 = existing
  held : world.HoldsAll (renderers.map fun entry => (.part .renderer, entry.2.handle))

theorem RenderersOf.grow {previous : Option (LiveState Others Digest Condition Regex)}
    {deceiver : Shared Unit} {configs : List RendererConfig} {first second : World machinery Digest}
    {renderers : List (String × Shared RendererConfig)}
    (kept : RenderersOf previous deceiver configs first renderers)
    (grown : World.Grows first second) :
    RenderersOf previous deceiver configs second renderers :=
  ⟨kept.before.grow grown, kept.keyed, kept.carried, kept.held.grow grown⟩

section Renderers

variable {previous : Option (LiveState Others Digest Condition Regex)} {deceiver : Shared Unit}
  {config : RendererConfig} {world : World machinery Digest}

omit [LinearOrder Digest] in
theorem carriedRenderer_eq_some_iff {existing : Shared RendererConfig} :
    carriedRenderer previous deceiver config = some existing ↔
      ∃ live, previous = some live ∧ live.renderers.lookup config.name = some existing ∧
        existing.fixed = config ∧
        (config.kind ≠ "markov" ∨ live.deceiver.handle = deceiver.handle) := by
  simp only [carriedRenderer, Option.bind_eq_some_iff, Option.filter_eq_some_iff,
    decide_eq_true_eq]

/-- A renderer that is carried over is in the world as it was. -/
theorem Before.carriedRenderer (before : Before previous world)
    {existing : Shared RendererConfig}
    (carried : Bagel.carriedRenderer previous deceiver config = some existing) :
    world.Holds (.part .renderer) existing.handle ∧ existing.fixed = config := by
  obtain ⟨live, same, found, fixed, -⟩ := carriedRenderer_eq_some_iff.mp carried
  have handle : live.handle (.renderer config.name) = some existing.handle := by
    rw [LiveState.handle, found]
    rfl
  exact ⟨(before live same).1.slot handle, fixed⟩

/-- One renderer, carried over or made. -/
theorem adds_renderer {surroundings : RebuildSurroundings machinery}
    (before : Before previous world) :
    Adds (carry (carriedRenderer previous deceiver config) <|
      if config.kind = "markov" then
        share (.part .renderer) config (surroundings.markov config deceiver.handle)
      else do
        let inside ← Resumption.lift ((surroundings.renderer config).mapError Error.config)
        share (.part .renderer) config inside)
      (fun world renderer => world.Holds (.part .renderer) renderer.handle ∧
        renderer.fixed = config ∧ ∀ existing,
          carriedRenderer previous deceiver config = some existing → renderer = existing)
      world := by
  cases carried : carriedRenderer previous deceiver config with
  | some existing =>
    obtain ⟨present, fixed⟩ := before.carriedRenderer carried
    intro later grown
    exact ⟨grown.objects _ _ present, fixed, fun other same => Option.some.inj same⟩
  | none =>
    have made : ∀ (later : World machinery Digest) (inside : machinery.Inside .renderer),
        Adds (share (.part .renderer) config inside)
          (fun world renderer => world.Holds (.part .renderer) renderer.handle ∧
            renderer.fixed = config ∧ ∀ existing, none = some existing → renderer = existing)
          later := by
      intro later inside
      refine (adds_share (.part .renderer) config inside later).weaken
        (fun _ _ allowed => allowed) fun _ _ made => ?_
      exact ⟨made.1, made.2, fun existing other => nomatch other⟩
    dsimp only [carry]
    split
    · exact made world _
    · exact (meets_lift _ world).bind fair_extends fun later inside _ _ => made later inside

theorem adds_addRenderer {surroundings : RebuildSurroundings machinery} {done : List RendererConfig}
    {renderers : List (String × Shared RendererConfig)}
    (sofar : RenderersOf previous deceiver done world renderers) :
    Adds (addRenderer surroundings previous deceiver renderers config)
      (RenderersOf previous deceiver (done ++ [config])) world := by
  refine (adds_renderer sofar.before).bind fair_extends
    fun later made grown ⟨present, fixed, same⟩ last onwards => ?_
  refine ⟨sofar.before.grow (grown.trans onwards), fun name => ?_, ?_, ?_⟩
  · rw [List.reverse_append, List.reverse_singleton, List.singleton_append, List.find?_cons,
      List.lookup_cons]
    by_cases same : config.name = name
    · rw [beq_iff_eq.mpr same.symm, decide_eq_true same]
      exact congrArg some fixed
    · rw [beq_false_of_ne (Ne.symm same), decide_eq_false same]
      exact sofar.keyed name
  · intro entry member existing carried
    rcases List.mem_cons.mp member with rfl | older
    · exact same existing (fixed ▸ carried)
    · exact sofar.carried entry older existing carried
  · rw [List.map_cons, World.holdsAll_cons]
    exact ⟨onwards.objects _ _ present, sofar.held.grow (grown.trans onwards)⟩

theorem adds_buildRenderers {surroundings : RebuildSurroundings machinery}
    {config : ServerConfig Others}
    (before : Before previous world) :
    Adds (buildRenderers surroundings config previous deceiver)
      (RenderersOf previous deceiver config.renderers) world := by
  have nothing : RenderersOf previous deceiver [] world [] :=
    ⟨before, fun _ => rfl, fun entry member => absurd member List.not_mem_nil,
      fun entry member => absurd member List.not_mem_nil⟩
  have loop : Adds (config.renderers.foldlM (addRenderer surroundings previous deceiver) [])
      (RenderersOf previous deceiver ([] ++ config.renderers)) world :=
    meets_foldlM fair_extends (fun _ _ _ _ grown kept => kept.grow grown)
      (fun _ _ _ _ kept => adds_addRenderer kept) nothing
  exact loop

end Renderers

/-! ### Preparing -/

section Prepare

variable {builders : Builders Others Digest Condition Regex}
  {surroundings : RebuildSurroundings machinery} {config : ServerConfig Others}
  {previous : Option (LiveState Others Digest Condition Regex)} {world : World machinery Digest}

theorem adds_solverVariants (compiled : Compiled Condition Regex) (before : Before previous world) :
    Adds (solverVariants surroundings config previous compiled)
      (fun world variants =>
        world.HoldsAll (variants.toList.map fun pool => (.part .solverPool, pool.handle)) ∧
        ∀ live, previous = some live → ∀ pool, live.solverVariants = some pool →
          variants = some pool) world := by
  unfold solverVariants
  split
  · next pool carried =>
    obtain ⟨live, same, found⟩ := Option.bind_eq_some_iff.mp carried
    have handle : live.handle .solverVariants = some pool.handle := by
      rw [LiveState.handle, found]
      rfl
    intro later grown
    refine ⟨?_, fun other others existing its => ?_⟩
    · exact World.holdsAll_cons.mpr ⟨grown.objects _ _ ((before live same).1.slot handle),
        fun entry member => absurd member List.not_mem_nil⟩
    · cases Option.some.inj (same.symm.trans others)
      exact found.symm.trans its
  · next missing =>
    have none_carried : ∀ live, previous = some live → ∀ pool,
        live.solverVariants = some pool → False := by
      intro live same pool found
      rw [same, Option.bind_some, found] at missing
      exact nomatch missing
    have nothing : ∀ later : World machinery Digest, Adds (pure none)
        (fun world variants =>
          world.HoldsAll (variants.toList.map fun pool => (.part .solverPool, pool.handle)) ∧
          ∀ live, previous = some live → ∀ pool, live.solverVariants = some pool →
            variants = some pool) later :=
      fun _ _ _ => ⟨fun entry member => absurd member List.not_mem_nil,
        fun live same pool found => (none_carried live same pool found).elim⟩
    split
    · refine (meets_await World.Extends.refl _ world).bind fair_extends
        fun later started _ outcome => ?_
      cases started with
      | none => exact nothing later
      | some inside =>
        refine (adds_share (.part .solverPool) () inside later).bind fair_extends
          fun last pool _ made final grown => ?_
        exact ⟨World.holdsAll_cons.mpr ⟨grown.objects _ _ made.1,
          fun entry member => absurd member List.not_mem_nil⟩,
          fun live same existing found => (none_carried live same existing found).elim⟩
    · exact nothing world

theorem adds_crawlerVerifier (before : Before previous world) :
    Adds (crawlerVerifier surroundings config previous)
      (fun world verifier =>
        world.HoldsAll (verifier.toList.map fun verifier =>
          (.part .crawlerVerifier, verifier.handle)) ∧
        verifier.isSome = !config.crawlers.isEmpty ∧
        ∀ live, previous = some live → live.config.crawlers = config.crawlers →
          live.crawlerVerifier.isSome = !config.crawlers.isEmpty →
          verifier = live.crawlerVerifier) world := by
  have nobody : ∀ later : World machinery Digest, later.HoldsAll [] :=
    fun _ entry member => absurd member List.not_mem_nil
  unfold crawlerVerifier
  split
  · next empty =>
    refine fun later _ => ⟨nobody later, ?_, fun live _ _ its => ?_⟩
    · rw [empty]
      rfl
    · rw [empty] at its
      exact (Option.not_isSome_iff_eq_none.mp (Bool.eq_false_iff.mp its)).symm
  · next some_crawlers =>
    have wanted : (!config.crawlers.isEmpty) = true := by
      rw [Bool.eq_false_iff.mpr some_crawlers]
      rfl
    cases carried : previous.bind fun previous =>
        previous.crawlerVerifier.filter fun _ => previous.config.crawlers = config.crawlers with
    | some verifier =>
      obtain ⟨live, same, kept⟩ := Option.bind_eq_some_iff.mp carried
      have found := (Option.filter_eq_some_iff.mp kept).1
      have handle : live.handle .crawlerVerifier = some verifier.handle := by
        rw [LiveState.handle, found]
        rfl
      refine fun later grown => ⟨?_, wanted.symm, fun other others _ _ => ?_⟩
      · exact World.holdsAll_cons.mpr
          ⟨grown.objects _ _ ((before live same).1.slot handle), nobody later⟩
      · cases Option.some.inj (same.symm.trans others)
        exact found.symm
    | none =>
      refine (meets_lift _ world).bind fair_extends fun later inside _ _ => ?_
      refine (adds_share (.part .crawlerVerifier) () inside later).bind fair_extends
        fun last verifier _ made final grown => ?_
      refine ⟨World.holdsAll_cons.mpr ⟨grown.objects _ _ made.1, nobody final⟩, wanted.symm, ?_⟩
      -- The verifier of the same crawlers would have been carried over.
      intro live same crawlers its
      obtain ⟨existing, found⟩ := Option.isSome_iff_exists.mp (its.trans wanted)
      rw [same, Option.bind_some, found, Option.filter_some, decide_eq_true crawlers,
        if_pos rfl] at carried
      exact nomatch carried

/-- What a snapshot shares with the one before it. -/
structure Draft.Carries (live : LiveState Others Digest Condition Regex)
    (draft : Draft Others Digest Condition Regex) : Prop where
  rateTracker : live.rateTracker.fixed = rateCapacity draft.compiled →
    draft.rateTracker = live.rateTracker
  solveTracker : draft.solveTracker = live.solveTracker
  census : draft.census = live.census
  visits : draft.visits = live.visits
  pendingChallenges : draft.pendingChallenges = live.pendingChallenges
  solverVariants : ∀ pool, live.solverVariants = some pool → draft.solverVariants = some pool
  deceiver : live.config.deception = draft.config.deception → draft.deceiver = live.deceiver
  smearSlots : live.config.maxConcurrent = draft.config.maxConcurrent →
    draft.smearSlots = live.smearSlots
  hooks : draft.hooks = live.hooks
  renderers : ∀ entry ∈ draft.renderers, ∀ existing,
    carriedRenderer (some live) draft.deceiver entry.2.fixed = some existing → entry.2 = existing
  crawlerVerifier : live.config.crawlers = draft.config.crawlers →
    live.crawlerVerifier.isSome = !draft.config.crawlers.isEmpty →
    draft.crawlerVerifier = live.crawlerVerifier

/-- A snapshot is what its configuration and its seed make it, and its objects exist. -/
structure Draft.Sound (builders : Builders Others Digest Condition Regex)
    (draft : Draft Others Digest Condition Regex) (world : World machinery Digest) : Prop where
  accepted : compile (builders.checks draft.seedPersistent draft.config)
    draft.config.toWebConfig = .ok draft.compiled
  keys : builders.keys draft.seed = some draft.server
  mazes : ∃ tables built, draft.mazes =
    MazeSite.ofTables (builders.routePrefixOf draft.seed) draft.config.toWebConfig tables built
  capacity : draft.rateTracker.fixed = rateCapacity draft.compiled
  verifies : draft.crawlerVerifier.isSome = !draft.config.crawlers.isEmpty
  keyed : ∀ name, (draft.renderers.lookup name).map Shared.fixed =
    draft.config.renderers.reverse.find? fun config => config.name = name
  held : world.HoldsAll draft.handles
  revision : draft.revision ≤ world.revision

/-- What a snapshot was asked for, and what was loaded for it. -/
structure Draft.Of (builders : Builders Others Digest Condition Regex)
    (surroundings : RebuildSurroundings machinery) (given : ServerConfig Others)
    (givenSeed : List UInt8) (persistent : Bool) (draft : Draft Others Digest Condition Regex) :
    Prop where
  config : draft.config = given
  seed : draft.seed = givenSeed
  seedPersistent : draft.seedPersistent = persistent
  loaded : loadNetworks builders surroundings given.networks = .ok draft.networks

/-- An object of the previous snapshot exists. -/
theorem Before.slot (before : Before previous world) (slot : Slot) {Fixed : Type}
    {pick : LiveState Others Digest Condition Regex → Shared Fixed}
    (its : ∀ live : LiveState Others Digest Condition Regex,
      live.handle slot = some (pick live).handle)
    {shared : Shared Fixed} (picked : ∃ live, previous = some live ∧ pick live = shared) :
    world.Holds slot.kind shared.handle := by
  obtain ⟨live, same, rfl⟩ := picked
  exact (before live same).1.slot (its live)

omit [LinearOrder Digest] in
theorem picked_of_filter {Fixed : Type} {allowed : LiveState Others Digest Condition Regex → Bool}
    {pick : LiveState Others Digest Condition Regex → Shared Fixed} {shared : Shared Fixed}
    (carried : (previous.filter allowed).map pick = some shared) :
    ∃ live, previous = some live ∧ pick live = shared := by
  obtain ⟨live, kept, same⟩ := Option.map_eq_some_iff.mp carried
  exact ⟨live, (Option.filter_eq_some_iff.mp kept).1, same⟩

/-- Every rebuild has a revision of its own. -/
theorem adds_bump (before : Before previous world) :
    Adds (atomic World.bump)
      (fun world revision => (∀ live, previous = some live → live.revision < revision) ∧
        revision ≤ world.revision) world := by
  refine meets_atomic fun later grown => ⟨World.extends_bump, fun last onwards => ⟨?_, ?_⟩⟩
  · exact fun live same => Nat.lt_succ_of_le ((before.grow grown) live same).2
  · exact onwards.revision

theorem adds_prepare (before : Before previous world) (seed : List UInt8) (seedPersistent : Bool) :
    Adds (prepare builders surroundings config previous seed seedPersistent)
      (fun world draft => draft.Sound builders world ∧
        draft.Of builders surroundings config seed seedPersistent ∧
        ∀ live, previous = some live → draft.Carries live ∧ live.revision < draft.revision)
      world := by
  unfold prepare
  refine (meets_lift _ world).bind fair_extends fun world1 compiled grown1 accepted => ?_
  refine (meets_lift _ world1).bind fair_extends fun world2 server grown2 keys => ?_
  have before2 := before.grow (grown1.trans grown2)
  refine (adds_carry fun shared carried => before2.slot .rateTracker (fun _ => rfl)
    (Option.map_eq_some_iff.mp (Option.filter_eq_some_iff.mp carried).1)).bind fair_extends
    fun world3 rateTracker grown3 ⟨held3, rate⟩ => ?_
  have before3 := before2.grow grown3
  refine (adds_carry fun shared carried => before3.slot .solveTracker (fun _ => rfl)
    (Option.map_eq_some_iff.mp carried)).bind fair_extends
    fun world4 solveTracker grown4 ⟨held4, solve⟩ => ?_
  have before4 := before3.grow grown4
  refine (adds_carry fun shared carried => before4.slot .census (fun _ => rfl)
    (Option.map_eq_some_iff.mp carried)).bind fair_extends
    fun world5 census grown5 ⟨held5, claims⟩ => ?_
  have before5 := before4.grow grown5
  refine (adds_carry fun shared carried => before5.slot .visits (fun _ => rfl)
    (Option.map_eq_some_iff.mp carried)).bind fair_extends
    fun world6 visits grown6 ⟨held6, visited⟩ => ?_
  have before6 := before5.grow grown6
  refine (adds_bump before6).bind fair_extends fun world7 revision grown7 ⟨newer, counted⟩ => ?_
  have before7 := before6.grow grown7
  refine (adds_carry fun shared carried => before7.slot .pendingChallenges (fun _ => rfl)
    (Option.map_eq_some_iff.mp carried)).bind fair_extends
    fun world8 pendingChallenges grown8 ⟨held8, pending⟩ => ?_
  have before8 := before7.grow grown8
  refine (adds_solverVariants compiled before8).bind fair_extends
    fun world9 solverVariants grown9 ⟨held9, solvers⟩ => ?_
  have before9 := before8.grow grown9
  refine (adds_carry fun shared carried => before9.slot .deceiver (fun _ => rfl)
    (picked_of_filter carried)).bind fair_extends
    fun world10 deceiver grown10 ⟨held10, deceives⟩ => ?_
  have before10 := before9.grow grown10
  refine (adds_carry fun shared carried => before10.slot .smearSlots (fun _ => rfl)
    (picked_of_filter carried)).bind fair_extends
    fun world11 smearSlots grown11 ⟨held11, smears⟩ => ?_
  have before11 := before10.grow grown11
  refine (adds_carry fun shared carried => before11.slot .hooks (fun _ => rfl)
    (Option.map_eq_some_iff.mp carried)).bind fair_extends
    fun world12 hooks grown12 ⟨held12, hooked⟩ => ?_
  have before12 := before11.grow grown12
  refine (adds_buildRenderers before12).bind fair_extends
    fun world13 renderers grown13 kept => ?_
  refine (meets_lift _ world13).bind fair_extends fun world14 ⟨tables, built⟩ grown14 _ => ?_
  refine (adds_crawlerVerifier (before12.grow (grown13.trans grown14))).bind fair_extends
    fun world15 verifier grown15 ⟨held15, verifies, crawls⟩ => ?_
  refine (meets_await World.Extends.refl _ world15).bind fair_extends
    fun world16 networks grown16 loaded => ?_
  refine (adds_share (.part .tagCache) () _ world16).bind fair_extends
    fun world17 tagCache grown17 ⟨held17, _⟩ world grown => ?_
  -- What was there at some point is there at the end.
  have later15 := (grown16.trans grown17).trans grown
  have later13 := (grown14.trans grown15).trans later15
  have later12 := grown13.trans later13
  have later11 := grown12.trans later12
  have later10 := grown11.trans later11
  have later9 := grown10.trans later10
  have later8 := grown9.trans later9
  have later7 := grown8.trans later8
  have later6 := grown7.trans later7
  have later5 := grown6.trans later6
  have later4 := grown5.trans later5
  have later3 := grown4.trans later4
  refine ⟨⟨accepted, ?_, ⟨tables, built, rfl⟩, ?_, verifies, kept.keyed, ?_, ?_⟩,
    ⟨rfl, rfl, rfl, loaded⟩, ?_⟩
  · split at keys
    · next found =>
      rw [Except.ok.inj keys] at found
      exact found
    · exact nomatch keys
  · rcases rate with carried | ⟨-, made⟩
    · exact of_decide_eq_true (Option.filter_eq_some_iff.mp carried).2
    · exact made
  · simp only [Draft.handles, World.holdsAll_append, World.holdsAll_cons]
    refine ⟨⟨⟨⟨grown.objects _ _ held17, held15.grow later15⟩, kept.held.grow later13⟩,
      later12.objects _ _ held12, later11.objects _ _ held11, later10.objects _ _ held10,
      held9.grow later9⟩, later8.objects _ _ held8, later6.objects _ _ held6,
      later5.objects _ _ held5, later4.objects _ _ held4, later3.objects _ _ held3, ?_⟩
    exact fun entry member => absurd member List.not_mem_nil
  · exact counted.trans later7.revision
  · rintro live rfl
    refine ⟨⟨fun same => ?_, eq_of_carried rfl solve, eq_of_carried rfl claims,
      eq_of_carried rfl visited, eq_of_carried rfl pending, solvers live rfl, fun same => ?_,
      fun same => ?_, eq_of_carried rfl hooked, kept.carried, crawls live rfl⟩, newer live rfl⟩
    · rw [Option.map_some, Option.filter_some, if_pos (decide_eq_true same)] at rate
      exact eq_of_carried rfl rate
    · rw [Option.filter_some, if_pos (decide_eq_true same)] at deceives
      exact eq_of_carried rfl deceives
    · rw [Option.filter_some, if_pos (decide_eq_true same)] at smears
      exact eq_of_carried rfl smears

end Prepare

/-! ### Finishing -/

theorem Draft.Sound.grow {builders : Builders Others Digest Condition Regex}
    {draft : Draft Others Digest Condition Regex} {first second : World machinery Digest}
    (sound : draft.Sound builders first) (grown : World.Grows first second) :
    draft.Sound builders second :=
  ⟨sound.accepted, sound.keys, sound.mazes, sound.capacity, sound.verifies, sound.keyed,
    sound.held.grow grown, sound.revision.trans grown.revision⟩

/-- A sound snapshot has a poison memory that exists. -/
structure LiveState.Sound (builders : Builders Others Digest Condition Regex)
    (live : LiveState Others Digest Condition Regex) (world : World machinery Digest) : Prop where
  draft : live.toDraft.Sound builders world
  poison : world.Holds .poison live.poison.handle

section Finish

variable {builders : Builders Others Digest Condition Regex}
  {surroundings : RebuildSurroundings machinery} {config : ServerConfig Others}
  {previous : Option (LiveState Others Digest Condition Regex)} {world : World machinery Digest}

theorem LiveState.Sound.grow {live : LiveState Others Digest Condition Regex}
    {first second : World machinery Digest} (sound : live.Sound builders first)
    (grown : World.Grows first second) : live.Sound builders second :=
  ⟨sound.draft.grow grown, grown.objects _ _ sound.poison⟩

theorem LiveState.Sound.held {live : LiveState Others Digest Condition Regex}
    (sound : live.Sound builders world) : world.HoldsAll live.handles :=
  World.holdsAll_cons.mpr ⟨sound.poison, sound.draft.held⟩

/-- Nothing can go wrong any more. -/
theorem sure_finish (draft : Draft Others Digest Condition Regex) :
    (finish config previous draft : Building machinery Digest _).Sure := by
  cases previous with
  | none => exact fun _ => trivial
  | some old =>
    refine (sure_forM fun maze _ => ?_).bind fun _ => trivial
    split
    · exact trivial
    · exact fun _ => trivial

variable {guarantee : World machinery Digest → World machinery Digest → Prop}

/-- `finish` does what creating objects and purging mazes does, and purges none that is
retained. -/
theorem meets_finish (fair : Interference World.Grows guarantee)
    (adds : ∀ first second, World.Extends first second → guarantee first second)
    (purges : ∀ old, previous = some old → ∀ maze ∈ old.config.mazes, ¬ Retained config maze →
      ∀ world : World machinery Digest,
        guarantee world (world.purgeMaze old.poison.handle maze.name).2)
    {draft : Draft Others Digest Condition Regex} (sound : draft.Sound builders world)
    (before : ∀ old, previous = some old → world.Holds .poison old.poison.handle) :
    (finish config previous draft).Meets World.Grows guarantee
      (fun world live => live.Sound builders world ∧ live.toDraft = draft ∧
        ∀ old, previous = some old → live.poison = old.poison) world := by
  cases previous with
  | none =>
    refine ((adds_share .poison () [] world).weaken adds fun _ _ made => made).bind fair
      fun later poison grown made last onwards => ?_
    exact ⟨⟨sound.grow (grown.trans onwards), onwards.objects _ _ made.1⟩, rfl,
      fun old other => nomatch other⟩
  | some old =>
    have purged : (old.config.mazes.forM fun maze =>
        if Retained config maze then (pure () : Building machinery Digest Unit)
        else atomic fun world => world.purgeMaze old.poison.handle maze.name).Meets World.Grows
          guarantee (fun _ _ => True) world := by
      refine meets_forM fair (fun maze listed state => ?_) world
      split
      · exact fun _ _ => trivial
      · next gone =>
        exact meets_atomic fun later _ =>
          ⟨purges old rfl maze listed gone later, fun _ _ => trivial⟩
    refine purged.bind fair fun later _ grown _ last onwards => ?_
    have grown := grown.trans onwards
    refine ⟨⟨sound.grow grown, grown.objects _ _ (before old rfl)⟩, rfl, fun other same => ?_⟩
    cases same
    rfl

/-- What a snapshot that was rebuilt is, and what it shares with the one before. -/
structure Rebuilt (builders : Builders Others Digest Condition Regex)
    (surroundings : RebuildSurroundings machinery) (config : ServerConfig Others)
    (previous : Option (LiveState Others Digest Condition Regex)) (seed : List UInt8)
    (seedPersistent : Bool) (world : World machinery Digest)
    (live : LiveState Others Digest Condition Regex) : Prop where
  sound : live.Sound builders world
  asked : live.toDraft.Of builders surroundings config seed seedPersistent
  carries : ∀ old, previous = some old → live.toDraft.Carries old
  revision : ∀ old, previous = some old → old.revision < live.revision
  poison : ∀ old, previous = some old → live.poison = old.poison

theorem meets_rebuild (fair : Interference World.Grows guarantee)
    (adds : ∀ first second, World.Extends first second → guarantee first second)
    (purges : ∀ old, previous = some old → ∀ maze ∈ old.config.mazes, ¬ Retained config maze →
      ∀ world : World machinery Digest,
        guarantee world (world.purgeMaze old.poison.handle maze.name).2)
    (before : ∀ old, previous = some old → old.Sound builders world)
    (seed : List UInt8) (seedPersistent : Bool) :
    (rebuild builders surroundings config previous seed seedPersistent).Meets World.Grows guarantee
      (Rebuilt builders surroundings config previous seed seedPersistent) world := by
  have known : Before previous world :=
    fun old same => ⟨(before old same).held, (before old same).draft.revision⟩
  refine ((adds_prepare known seed seedPersistent).weaken adds fun _ _ made => made).bind fair
    fun later draft grown ⟨sound, asked, carries⟩ => ?_
  refine (meets_finish fair adds purges sound fun old same =>
    grown.objects _ _ (before old same).poison).weaken (fun _ _ allowed => allowed) ?_
  rintro last live ⟨complete, rfl, poison⟩
  exact ⟨complete, asked, fun old same => (carries old same).1,
    fun old same => (carries old same).2, poison⟩

end Finish

end Bagel
