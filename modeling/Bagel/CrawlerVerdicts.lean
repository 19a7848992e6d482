/-
This file proves that a crawler is verified by DNS alone: whenever a call returns true, a lookup
that came to its verdict at most an hour before has found a name of the address that belongs to a
provider, and the address among those of the name.

Every true verdict that is stored anywhere, in the cache, in a lookup or in what calls returned,
goes back to two answers of DNS. A step either keeps the verdicts or comes to one by an answer.
-/

import Bagel.BackendChoice
import Bagel.Crawlers
import Bagel.Library.Machine

namespace Bagel

/-! ### Providers -/

/-- A name is the domain or below it exactly when its labels end with those of the domain. -/
theorem suffix_labels_iff (name domain : String) :
    labels domain <:+ labels name ↔ Subdomain name domain ∨ name = domain := by
  constructor
  · rintro ⟨front, parts⟩
    by_cases alone : front = []
    · right
      have same : name.toList.splitOn '.' = domain.toList.splitOn '.' := by
        rw [alone, List.nil_append] at parts
        exact parts.symm
      have characters := congrArg (List.intercalate ['.']) same
      rw [List.intercalate_splitOn, List.intercalate_splitOn] at characters
      exact String.toList_inj.mp characters
    · exact .inl ⟨front, alone, parts.symm⟩
  · rintro (⟨front, -, parts⟩ | rfl)
    · exact ⟨front, parts.symm⟩
    · exact List.suffix_refl _

theorem suffixMatches_iff (name domain : String) :
    Crawler.suffixMatches name ("." ++ domain) = true ↔ labels domain <:+ labels name := by
  rw [suffix_labels_iff, ← isSuffixOf_iff_subdomain, Crawler.suffixMatches, Bool.or_eq_true]
  refine or_congr_right ?_
  rw [beq_iff_eq, String.toList_append]
  exact String.toList_inj

/-- A name ends with the labels of a suffix in the configuration. -/
def EndsInSuffix (crawlers : List CrawlerConfig) (name : String) : Prop :=
  ∃ crawler ∈ crawlers, ∃ suffix ∈ crawler.suffixes, ∃ host,
    CanonicalHost.parse (trimStartDots suffix) = .ok host ∧ labels host.text <:+ labels name

theorem normalizeSuffix_ok {crawler suffix normal : String}
    (normalized : normalizeSuffix crawler suffix = .ok normal) :
    ∃ host, CanonicalHost.parse (trimStartDots suffix) = .ok host ∧ normal = "." ++ host.text := by
  unfold normalizeSuffix at normalized
  obtain ⟨host, placed, normalized⟩ := Transaction.bind_eq_ok_iff.mp normalized
  refine ⟨host, ?_, ?_⟩
  · cases parsed : CanonicalHost.parse (trimStartDots suffix) with
    | error message =>
      rw [parsed] at placed
      cases placed
    | ok found =>
      rw [parsed] at placed
      cases placed
      rfl
  · split at normalized
    · cases normalized
    · cases normalized
      rfl

/-- Every suffix of a provider is one of the configuration with a dot in front. -/
def FromConfig (crawlers providers : List CrawlerConfig) : Prop :=
  ∀ provider ∈ providers, ∀ normal ∈ provider.suffixes, ∃ crawler ∈ crawlers,
    ∃ suffix ∈ crawler.suffixes, ∃ host,
      CanonicalHost.parse (trimStartDots suffix) = .ok host ∧ normal = "." ++ host.text

theorem addCrawler_ok {state next : List String × List CrawlerConfig} {crawler : CrawlerConfig}
    (added : addCrawler state crawler = .ok next) :
    ∃ suffixes, crawler.suffixes.mapM (normalizeSuffix crawler.name) = .ok suffixes ∧
      next.2 = state.2 ++ [⟨crawler.name, suffixes⟩] := by
  unfold addCrawler at added
  dsimp only at added
  split at added
  · cases added
  · split at added
    · cases added
    · split at added
      · cases added
      · obtain ⟨suffixes, mapped, added⟩ := Transaction.bind_eq_ok_iff.mp added
        cases added
        exact ⟨suffixes, mapped, rfl⟩

theorem fromConfig_of_normalize {crawlers providers : List CrawlerConfig}
    (normalized : normalizeCrawlerProviders crawlers = .ok providers) :
    FromConfig crawlers providers := by
  obtain ⟨state, looped, rfl⟩ := Transaction.map_eq_ok_iff.mp normalized
  have kept : ∀ crawler ∈ crawlers, ∀ state next : List String × List CrawlerConfig,
      FromConfig crawlers state.2 → addCrawler state crawler = .ok next →
        FromConfig crawlers next.2 := by
    intro crawler configured state next before added
    obtain ⟨suffixes, mapped, next⟩ := addCrawler_ok added
    rw [next]
    intro provider member
    rcases List.mem_append.mp member with old | new
    · exact before provider old
    · obtain rfl := List.mem_singleton.mp new
      intro normal listed
      obtain ⟨suffix, among, built⟩ := Transaction.exists_of_mapM_eq_ok mapped normal listed
      exact ⟨crawler, configured, suffix, among, normalizeSuffix_ok built⟩
  have none : FromConfig crawlers [] := fun provider member => absurd member List.not_mem_nil
  exact @Transaction.foldlM_preserves _ _ _ _ (fun state => FromConfig crawlers state.2) crawlers
    ([], []) state none kept looped

theorem endsInSuffix_of_matchesProvider {crawlers providers : List CrawlerConfig}
    (normalized : normalizeCrawlerProviders crawlers = .ok providers) {name : String}
    (found : Crawler.matchesProvider providers name = true) : EndsInSuffix crawlers name := by
  obtain ⟨provider, member, found⟩ := List.any_eq_true.mp found
  obtain ⟨normal, listed, found⟩ := List.any_eq_true.mp found
  obtain ⟨crawler, configured, suffix, among, host, parsed, rfl⟩ :=
    fromConfig_of_normalize normalized provider member normal listed
  exact ⟨crawler, configured, suffix, among, host, parsed, (suffixMatches_iff _ _).mp found⟩

/-! ### The cache -/

namespace DecayMap

variable {Key Value : Type} [DecidableEq Key] {map : DecayMap Key Value} {now : Nat}

theorem exists_of_get {key : Key} {value : Value} (found : map.get now key = some value) :
    ∃ inserted, map.entries.lookup key = some (value, inserted) ∧ now - inserted ≤ map.ttl := by
  obtain ⟨entry, listed, found⟩ := Option.bind_eq_some_iff.mp found
  split at found
  · cases found
  · next valid =>
    cases found
    exact ⟨entry.2, listed, Nat.le_of_not_lt valid⟩

theorem lookup_of_insert {key other : Key} {written entry : Value × Nat}
    (found : ((map.retain now).insert key written).lookup other = some entry) :
    other = key ∧ entry = written ∨ map.entries.lookup other = some entry := by
  by_cases same : other = key
  · subst same
    rw [AList.lookup_insert] at found
    exact .inl ⟨rfl, (Option.some.inj found).symm⟩
  · rw [AList.lookup_insert_ne same] at found
    exact .inr (lookup_retain.mp found).1

/-- What is in a map after a write was written or was there before. -/
theorem lookup_of_set {key other : Key} {value : Value} {entry : Value × Nat}
    (found : (map.set now key value).entries.lookup other = some entry) :
    other = key ∧ entry = (value, now) ∨ map.entries.lookup other = some entry := by
  unfold set at found
  dsimp only at found
  split at found
  · exact lookup_of_insert found
  · exact .inr (lookup_retain.mp found).1

theorem setWithTtl_eq_some {key : Key} {value : Value} {ttl : Nat} {next : DecayMap Key Value}
    (written : map.setWithTtl now key value ttl = some next) : next.ttl = map.ttl ∧
      ∀ other entry, next.entries.lookup other = some entry →
        other = key ∧ entry = (value, now - (map.ttl - ttl)) ∨
          map.entries.lookup other = some entry := by
  unfold setWithTtl at written
  split at written
  · dsimp only at written
    split at written
    · cases written
      exact ⟨rfl, fun other entry found => lookup_of_insert found⟩
    · cases written
      exact ⟨rfl, fun other entry found => .inr (lookup_retain.mp found).1⟩
  · cases written

end DecayMap

/-! ### What a verdict goes back to -/

namespace Crawler

section Findings

variable (platform : Platform) (providers : List CrawlerConfig)

/-- A lookup found a name of the address that belongs to a provider, and at a time the address
among those of the name. -/
inductive Finding (log : List Event) (ip : IpAddr) (time : Nat) : Prop where
  | found {id : Nat} {names : List String} {name : String} {addresses : List IpAddr} {asked : Nat}
      (reversed : Event.reversed id ip names asked ∈ log) (listed : name ∈ names)
      (belongs : matchesProvider providers (lookupName platform name) = true)
      (resolved : Event.resolved id (lookupName platform name) addresses time ∈ log)
      (confirmed : ip ∈ addresses) (ordered : asked ≤ time)
      (prompt : time ≤ asked + lookupTimeout + platform.late)

/-- What is known of a lookup by how far it has come. -/
def PhaseBacked (log : List Event) (now id : Nat) (lookup : Lookup) : Phase → Prop
  | .resolving name rest => ∃ names asked, Event.reversed id lookup.ip names asked ∈ log ∧
      lookup.started ≤ asked ∧ asked ≤ now ∧ rest ⊆ names ∧ ∃ original ∈ names,
        name = lookupName platform original ∧ matchesProvider providers name = true
  | .stored verified | .cleared verified | .finished verified => verified = true →
      ∃ time, Finding platform providers log lookup.ip time ∧ lookup.spawned ≤ time ∧ time ≤ now
  | _ => True

structure LookupBacked (log : List Event) (now id : Nat) (lookup : Lookup) : Prop where
  spawned : lookup.spawned ≤ lookup.started
  started : lookup.started ≤ now
  phase : PhaseBacked platform providers log now id lookup lookup.phase

/-- Every true verdict goes back to a finding: in the cache, in the lookups, and in what calls
returned. A call waits for a lookup of its own address. -/
structure Backed (world : World) : Prop where
  ttl : world.cache.ttl = positiveTtl
  cached : ∀ ip inserted, world.cache.entries.lookup ip = some (true, inserted) →
    Finding platform providers world.log ip inserted ∧ inserted ≤ world.now
  lookups : ∀ id lookup, world.lookups id = some lookup →
    LookupBacked platform providers world.log world.now id lookup
  calls : ∀ call ip id since, world.calls call = some (.waiting ip id since) →
    ∃ lookup, world.lookups id = some lookup ∧ lookup.ip = ip ∧ lookup.spawned = since
  returned : ∀ ip time, Event.returned ip true time ∈ world.log →
    ∃ found, Finding platform providers world.log ip found ∧ found ≤ time ∧
      time ≤ found + positiveTtl

end Findings

variable {platform : Platform} {providers : List CrawlerConfig}

/-! ### What stays known -/

theorem Finding.mono {log later : List Event} (longer : log ⊆ later) {ip : IpAddr} {time : Nat}
    (finding : Finding platform providers log ip time) :
    Finding platform providers later ip time := by
  obtain ⟨reversed, listed, belongs, resolved, confirmed, ordered, prompt⟩ := finding
  exact ⟨longer reversed, listed, belongs, longer resolved, confirmed, ordered, prompt⟩

theorem PhaseBacked.mono {log later : List Event} (longer : log ⊆ later) {now after : Nat}
    (passed : now ≤ after) {id : Nat} {lookup : Lookup} {phase : Phase}
    (backed : PhaseBacked platform providers log now id lookup phase) :
    PhaseBacked platform providers later after id lookup phase := by
  cases phase with
  | resolving name rest =>
    obtain ⟨names, asked, reversed, begun, before, known⟩ := backed
    exact ⟨names, asked, longer reversed, begun, before.trans passed, known⟩
  | stored verified | cleared verified | finished verified =>
    intro holds
    obtain ⟨time, finding, begun, before⟩ := backed holds
    exact ⟨time, finding.mono longer, begun, before.trans passed⟩
  | spawned | reversing | died => exact trivial

theorem LookupBacked.mono {log later : List Event} (longer : log ⊆ later) {now after : Nat}
    (passed : now ≤ after) {id : Nat} {lookup : Lookup}
    (backed : LookupBacked platform providers log now id lookup) :
    LookupBacked platform providers later after id lookup :=
  ⟨backed.spawned, backed.started.trans passed, backed.phase.mono longer passed⟩

namespace Backed

variable {world : World}

theorem new (now : Nat) : Backed platform providers (World.new now) where
  ttl := rfl
  cached := fun ip inserted found => by cases found
  lookups := fun id lookup found => by cases found
  calls := fun call ip id since found => by cases found
  returned := fun ip time member => absurd member List.not_mem_nil

/-- Time passes. -/
theorem tick (backed : Backed platform providers world) (elapsed : Nat) :
    Backed platform providers { world with now := world.now + elapsed } where
  ttl := backed.ttl
  cached := fun ip inserted found =>
    ⟨(backed.cached ip inserted found).1,
      (backed.cached ip inserted found).2.trans (Nat.le_add_right _ _)⟩
  lookups := fun id lookup found =>
    (backed.lookups id lookup found).mono (List.Subset.refl _) (Nat.le_add_right _ _)
  calls := backed.calls
  returned := backed.returned

theorem record (backed : Backed platform providers world) {event : Event}
    (known : ∀ ip time, event = .returned ip true time →
      ∃ found, Finding platform providers world.log ip found ∧ found ≤ time ∧
        time ≤ found + positiveTtl) :
    Backed platform providers (world.record event) := by
  have longer : world.log ⊆ (world.record event).log := List.subset_cons_self _ _
  refine ⟨backed.ttl, fun ip inserted found => ?_, fun id lookup found => ?_, backed.calls,
    fun ip time member => ?_⟩
  · exact ⟨(backed.cached ip inserted found).1.mono longer, (backed.cached ip inserted found).2⟩
  · exact (backed.lookups id lookup found).mono longer (Nat.le_refl _)
  · have finding : ∃ found, Finding platform providers world.log ip found ∧ found ≤ time ∧
        time ≤ found + positiveTtl := by
      rcases List.mem_cons.mp member with same | before
      · exact known ip time same.symm
      · exact backed.returned ip time before
    obtain ⟨found, finding, after, young⟩ := finding
    exact ⟨found, finding.mono longer, after, young⟩

theorem setCall (backed : Backed platform providers world) {id : Nat} {call : Option Call}
    (other : ∀ ip lookup since, call ≠ some (.waiting ip lookup since)) :
    Backed platform providers (world.setCall id call) where
  ttl := backed.ttl
  cached := backed.cached
  lookups := backed.lookups
  calls := by
    intro number ip lookup since found
    by_cases same : number = id
    · subst same
      rw [World.calls_setCall_self] at found
      exact absurd found (other ip lookup since)
    · rw [World.calls_setCall_of_ne _ same] at found
      exact backed.calls number ip lookup since found
  returned := backed.returned

theorem setLookup (backed : Backed platform providers world) {id : Nat} {lookup : Lookup}
    (known : LookupBacked platform providers world.log world.now id lookup)
    (same : ∀ old, world.lookups id = some old →
      old.ip = lookup.ip ∧ old.spawned = lookup.spawned) :
    Backed platform providers (world.setLookup id lookup) where
  ttl := backed.ttl
  cached := backed.cached
  lookups := by
    intro number found
    by_cases this : number = id
    · subst this
      intro set
      rw [World.lookups_setLookup_self] at set
      cases set
      exact known
    · intro set
      rw [World.lookups_setLookup_of_ne _ this] at set
      exact backed.lookups number found set
  calls := by
    intro call ip number since waiting
    obtain ⟨old, found, address, spawned⟩ := backed.calls call ip number since waiting
    by_cases this : number = id
    · subst this
      refine ⟨lookup, world.lookups_setLookup_self number lookup, ?_, ?_⟩
      · rw [← address, (same old found).1]
      · rw [← spawned, (same old found).2]
    · exact ⟨old, (world.lookups_setLookup_of_ne this lookup).trans found, address, spawned⟩
  returned := backed.returned

/-- A call returns false. -/
theorem leave_false (backed : Backed platform providers world) (id : Nat) (ip : IpAddr) :
    Backed platform providers (world.leave id ip false) := by
  refine (backed.setCall fun ip lookup since waiting => ?_).record fun ip time same => ?_
  · cases waiting
  · cases same

/-- A call returns what goes back to a finding of the last hour. -/
theorem leave (backed : Backed platform providers world) (id : Nat) {ip : IpAddr} {verdict : Bool}
    (known : verdict = true → ∃ found, Finding platform providers world.log ip found ∧
      found ≤ world.now ∧ world.now ≤ found + positiveTtl) :
    Backed platform providers (world.leave id ip verdict) := by
  refine (backed.setCall fun ip lookup since waiting => ?_).record fun ip time same => ?_
  · cases waiting
  · cases same
    exact known rfl

/-- A lookup stores what it found now. -/
theorem store_true (backed : Backed platform providers world) {id : Nat} {lookup : Lookup}
    (running : world.lookups id = some lookup)
    (finding : Finding platform providers world.log lookup.ip world.now) :
    Backed platform providers (world.store id lookup true) := by
  have before := backed.lookups id lookup running
  have cached : Backed platform providers
      { world with cache := world.cache.set world.now lookup.ip true } := by
    refine ⟨DecayMap.ttl_set.trans backed.ttl, fun ip inserted found => ?_, backed.lookups,
      backed.calls, backed.returned⟩
    rcases DecayMap.lookup_of_set found with ⟨rfl, written⟩ | old
    · cases written
      exact ⟨finding, Nat.le_refl _⟩
    · exact backed.cached ip inserted old
  refine cached.setLookup ⟨before.spawned, before.started, fun _ => ?_⟩ fun old found => ?_
  · exact ⟨world.now, finding, before.spawned.trans before.started, Nat.le_refl _⟩
  · cases running.symm.trans found
    exact ⟨rfl, rfl⟩

/-- A lookup ends without a finding. -/
theorem store_false (backed : Backed platform providers world) {id : Nat} {lookup : Lookup}
    (running : world.lookups id = some lookup) :
    Backed platform providers (world.store id lookup false) := by
  have before := backed.lookups id lookup running
  have same : ∀ old, world.lookups id = some old →
      old.ip = lookup.ip ∧ old.spawned = lookup.spawned := by
    intro old found
    cases running.symm.trans found
    exact ⟨rfl, rfl⟩
  unfold World.store
  rw [if_neg Bool.false_ne_true]
  cases written : world.cache.setWithTtl world.now lookup.ip false negativeTtl with
  | none =>
    have freed : Backed platform providers { world with permits := world.permits + 1 } :=
      ⟨backed.ttl, backed.cached, backed.lookups, backed.calls, backed.returned⟩
    exact freed.setLookup ⟨before.spawned, before.started, trivial⟩ same
  | some cache =>
    obtain ⟨ttl, entries⟩ := DecayMap.setWithTtl_eq_some written
    have cached : Backed platform providers { world with cache } := by
      refine ⟨ttl.trans backed.ttl, fun ip inserted found => ?_, backed.lookups, backed.calls,
        backed.returned⟩
      rcases entries ip (true, inserted) found with ⟨-, other⟩ | old
      · cases other
      · exact backed.cached ip inserted old
    refine cached.setLookup ⟨before.spawned, before.started, fun holds => ?_⟩ same
    exact absurd holds Bool.false_ne_true

end Backed

/-! ### Names that are looked up -/

theorem nextMatch_eq_some {names rest : List String} {name : String}
    (found : nextMatch platform providers names = some (name, rest)) :
    rest ⊆ names ∧ ∃ original ∈ names,
      name = lookupName platform original ∧ matchesProvider providers name = true := by
  induction names with
  | nil => cases found
  | cons first others inductionHypothesis =>
    unfold nextMatch at found
    dsimp only at found
    split at found
    · next belongs =>
      cases found
      exact ⟨List.subset_cons_self _ _, first, List.mem_cons_self, rfl, belongs⟩
    · obtain ⟨inside, original, member, known⟩ := inductionHypothesis found
      exact ⟨List.subset_cons_of_subset _ inside, original, List.mem_cons_of_mem _ member, known⟩

namespace Backed

variable {world : World}

/-- A lookup goes on with names that it was answered. -/
theorem proceed (backed : Backed platform providers world) {id : Nat} {lookup : Lookup}
    (running : world.lookups id = some lookup) {names left : List String} {asked : Nat}
    (reversed : Event.reversed id lookup.ip names asked ∈ world.log)
    (begun : lookup.started ≤ asked) (before : asked ≤ world.now) (inside : left ⊆ names) :
    Backed platform providers (Crawler.proceed platform providers world id lookup left) := by
  unfold Crawler.proceed
  cases found : nextMatch platform providers left with
  | none => exact backed.store_false running
  | some next =>
    obtain ⟨name, rest⟩ := next
    obtain ⟨others, original, member, known⟩ := nextMatch_eq_some found
    have old := backed.lookups id lookup running
    refine backed.setLookup ⟨old.spawned, old.started, ?_⟩ fun other same => ?_
    · exact ⟨names, asked, reversed, begun, before, List.Subset.trans others inside, original,
        inside member, known⟩
    · cases running.symm.trans same
      exact ⟨rfl, rfl⟩

/-! ### Steps -/

/-- A call that waits gets what its lookup found, at most the wait after it began. -/
theorem receive (backed : Backed platform providers world) {id number since : Nat} {ip : IpAddr}
    {next : World} (present : world.calls id = some (.waiting ip number since))
    (stepped : stepCall platform world id (.waiting ip number since) .receive = some next) :
    Backed platform providers next := by
  unfold stepCall at stepped
  dsimp only at stepped
  split at stepped
  · next prompt =>
    obtain ⟨lookup, running, address, spawned⟩ := backed.calls id ip number since present
    have known := (backed.lookups number lookup running).phase
    rw [running, Option.map_some] at stepped
    cases phase : lookup.phase with
    | finished verified =>
      rw [phase] at stepped known
      cases stepped
      refine backed.leave id fun holds => ?_
      obtain ⟨time, finding, begun, before⟩ := known holds
      have short := platform.prompt
      rw [address] at finding
      exact ⟨time, finding, before, by omega⟩
    | died =>
      rw [phase] at stepped
      cases stepped
      exact backed.leave_false id ip
    | _ =>
      rw [phase] at stepped
      cases stepped
  · cases stepped

/-- A call that gets a permit spawns a lookup of its address. -/
theorem acquire (backed : Backed platform providers world) {id number : Nat} {ip : IpAddr}
    (free : world.lookups number = none) :
    Backed platform providers (({ world with permits := world.permits - 1 }.setLookup number
      ⟨ip, world.now, world.now, .spawned⟩).setCall id (some (.waiting ip number world.now))) := by
  have taken : Backed platform providers { world with permits := world.permits - 1 } :=
    ⟨backed.ttl, backed.cached, backed.lookups, backed.calls, backed.returned⟩
  have spawned : Backed platform providers ({ world with permits := world.permits - 1 }.setLookup
      number ⟨ip, world.now, world.now, .spawned⟩) := by
    refine taken.setLookup ⟨Nat.le_refl _, Nat.le_refl _, trivial⟩ fun old found => ?_
    cases free.symm.trans found
  refine ⟨spawned.ttl, spawned.cached, spawned.lookups, fun call address lookup since waiting => ?_,
    spawned.returned⟩
  by_cases this : call = id
  · subst this
    rw [World.calls_setCall_self] at waiting
    cases waiting
    exact ⟨_, World.lookups_setLookup_self _ _ _, rfl, rfl⟩
  · rw [World.calls_setCall_of_ne _ this] at waiting
    exact spawned.calls call address lookup since waiting

theorem stepCall (backed : Backed platform providers world) {id : Nat} {call : Call}
    {action : CallAction} {next : World} (present : world.calls id = some call)
    (stepped : Crawler.stepCall platform world id call action = some next) :
    Backed platform providers next := by
  cases call with
  | missed ip =>
    cases action with
    | insert =>
      simp only [Crawler.stepCall] at stepped
      split at stepped
      · cases stepped
        exact backed.leave_false id ip
      · cases stepped
        have entered : Backed platform providers { world with pending := ip :: world.pending } :=
          ⟨backed.ttl, backed.cached, backed.lookups, backed.calls, backed.returned⟩
        exact entered.setCall fun address lookup since waiting => by cases waiting
    | _ => cases stepped
  | inserted ip =>
    cases action with
    | acquire number =>
      simp only [Crawler.stepCall] at stepped
      split at stepped
      · cases stepped
        exact backed.setCall fun address lookup since waiting => by cases waiting
      · split at stepped
        · cases stepped
        · next free =>
          cases stepped
          exact backed.acquire (Option.not_isSome_iff_eq_none.mp free)
    | _ => cases stepped
  | refused ip =>
    cases action with
    | release =>
      cases stepped
      have forgotten : Backed platform providers (world.forget ip) :=
        ⟨backed.ttl, backed.cached, backed.lookups, backed.calls, backed.returned⟩
      exact forgotten.leave_false id ip
    | _ => cases stepped
  | waiting ip number since =>
    cases action with
    | receive => exact backed.receive present stepped
    | giveUp =>
      simp only [Crawler.stepCall] at stepped
      split at stepped
      · cases stepped
        exact backed.leave_false id ip
      · cases stepped
    | cancel =>
      cases stepped
      exact backed.setCall fun address lookup since waiting => by cases waiting
    | _ => cases stepped

/-- An answer of DNS is recorded. -/
theorem record_answer (backed : Backed platform providers world) {event : Event}
    (answer : ∀ ip verdict time, event ≠ .returned ip verdict time) :
    Backed platform providers (world.record event) :=
  backed.record fun ip time same => absurd same (answer ip true time)

theorem expire (backed : Backed platform providers world) {id : Nat} {lookup : Lookup}
    (running : world.lookups id = some lookup) {next : World}
    (stepped : (if lookup.started + lookupTimeout ≤ world.now then
      some (world.store id lookup false) else none) = some next) :
    Backed platform providers next := by
  split at stepped
  · cases stepped
    exact backed.store_false running
  · cases stepped

section Lookups

variable {id : Nat} {lookup : Lookup} {next : World}

/-- The names of an address: those that a provider is behind are looked up in turn. -/
theorem reverse (backed : Backed platform providers world)
    (running : world.lookups id = some lookup) {names : List String}
    (stepped : Crawler.stepLookup platform providers world id lookup .reversing (.reverse names) =
      some next) : Backed platform providers next := by
  have started := (backed.lookups id lookup running).started
  simp only [Crawler.stepLookup] at stepped
  split at stepped
  · cases stepped
    have answered : Backed platform providers
        (world.record (.reversed id lookup.ip names world.now)) :=
      backed.record_answer fun ip verdict time other => by cases other
    exact answered.proceed running List.mem_cons_self started (Nat.le_refl _)
      (List.Subset.refl _)
  · cases stepped

/-- The addresses of a name: the address is verified if it is among them, and else the lookup goes
on with the other names. -/
theorem forward (backed : Backed platform providers world)
    (running : world.lookups id = some lookup) {name : String} {rest : List String}
    (phase : lookup.phase = .resolving name rest) {addresses : List IpAddr}
    (stepped : Crawler.stepLookup platform providers world id lookup (.resolving name rest)
      (.forward addresses) = some next) : Backed platform providers next := by
  obtain ⟨-, -, known⟩ := backed.lookups id lookup running
  rw [phase] at known
  obtain ⟨names, asked, reversed, begun, before, inside, original, member, rfl, belongs⟩ := known
  simp only [Crawler.stepLookup] at stepped
  split at stepped
  · next prompt =>
    have answered : Backed platform providers
        (world.record (.resolved id (lookupName platform original) addresses world.now)) :=
      backed.record_answer fun ip verdict time other => by cases other
    split at stepped
    · next confirmed =>
      cases stepped
      have early := of_decide_eq_true prompt
      refine answered.store_true running ?_
      exact ⟨List.mem_cons_of_mem _ reversed, member, belongs, List.mem_cons_self, confirmed,
        before, early.trans (Nat.add_le_add_right (Nat.add_le_add_right begun _) _)⟩
    · cases stepped
      exact answered.proceed running (List.mem_cons_of_mem _ reversed) begun before inside
  · cases stepped

theorem stepLookup (backed : Backed platform providers world)
    (running : world.lookups id = some lookup) {action : LookupAction}
    (stepped : Crawler.stepLookup platform providers world id lookup lookup.phase action =
      some next) : Backed platform providers next := by
  obtain ⟨spawned, started, known⟩ := backed.lookups id lookup running
  have same : ∀ old, world.lookups id = some old →
      old.ip = lookup.ip ∧ old.spawned = lookup.spawned := by
    intro old found
    cases running.symm.trans found
    exact ⟨rfl, rfl⟩
  cases phase : lookup.phase with
  | spawned =>
    rw [phase] at stepped
    cases action with
    | start =>
      cases stepped
      exact backed.setLookup ⟨spawned.trans started, Nat.le_refl _, trivial⟩ same
    | _ => cases stepped
  | reversing =>
    rw [phase] at stepped
    cases action with
    | reverse names => exact backed.reverse running stepped
    | expire => exact backed.expire running stepped
    | _ => cases stepped
  | resolving name rest =>
    rw [phase] at stepped
    cases action with
    | forward addresses => exact backed.forward running phase stepped
    | expire => exact backed.expire running stepped
    | _ => cases stepped
  | stored verified =>
    rw [phase] at stepped known
    cases action with
    | clear =>
      cases stepped
      have forgotten : Backed platform providers (world.forget lookup.ip) :=
        ⟨backed.ttl, backed.cached, backed.lookups, backed.calls, backed.returned⟩
      exact forgotten.setLookup ⟨spawned, started, known⟩ same
    | _ => cases stepped
  | cleared verified =>
    rw [phase] at stepped known
    cases action with
    | finish =>
      cases stepped
      have freed : Backed platform providers { world with permits := world.permits + 1 } :=
        ⟨backed.ttl, backed.cached, backed.lookups, backed.calls, backed.returned⟩
      exact freed.setLookup ⟨spawned, started, known⟩ same
    | _ => cases stepped
  | finished verified | died =>
    rw [phase] at stepped
    cases action <;> cases stepped

end Lookups

/-- A verdict from the cache goes back to a finding of the last hour. -/
theorem verify (backed : Backed platform providers world) {id : Nat} {ip : IpAddr} {next : World}
    (stepped : step platform providers world (.verify id ip) = some next) :
    Backed platform providers next := by
  simp only [step] at stepped
  split at stepped
  · cases stepped
  · cases found : world.cache.get world.now ip with
    | none =>
      rw [found] at stepped
      cases stepped
      exact backed.setCall fun address lookup since waiting => by cases waiting
    | some verdict =>
      rw [found] at stepped
      cases stepped
      refine backed.leave id fun holds => ?_
      obtain ⟨inserted, listed, valid⟩ := DecayMap.exists_of_get found
      rw [holds] at listed
      obtain ⟨finding, before⟩ := backed.cached ip inserted listed
      rw [backed.ttl] at valid
      exact ⟨inserted, finding, before, by omega⟩

theorem step (backed : Backed platform providers world) {action : Action} {next : World}
    (stepped : Crawler.step platform providers world action = some next) :
    Backed platform providers next := by
  cases action with
  | tick elapsed =>
    cases stepped
    exact backed.tick elapsed
  | verify id ip => exact backed.verify stepped
  | call id action =>
    obtain ⟨call, present, stepped⟩ := Option.bind_eq_some_iff.mp stepped
    exact backed.stepCall present stepped
  | lookup id action =>
    obtain ⟨lookup, running, stepped⟩ := Option.bind_eq_some_iff.mp stepped
    exact backed.stepLookup running stepped

end Backed

/-! ### Runs -/

section Runs

variable (platform providers)

/-- The state after an action, where it can be taken. -/
def act (world : World) (action : Action) : World :=
  (step platform providers world action).getD world

def Enabled (world : World) (action : Action) : Prop :=
  (step platform providers world action).isSome = true

instance (world : World) (action : Action) : Decidable (Enabled platform providers world action) :=
  inferInstanceAs (Decidable (_ = _))

end Runs

theorem backed_of_reaches {now : Nat} {world : World}
    (reaches : Machine.Reaches (act platform providers) (Enabled platform providers)
      (World.new now) world) : Backed platform providers world := by
  refine reaches.preserves (Backed.new now) fun world action backed enabled => ?_
  obtain ⟨next, stepped⟩ := Option.isSome_iff_exists.mp enabled
  rw [act, stepped, Option.getD_some]
  exact backed.step stepped

/-- Whenever a call has returned true, a lookup had found a name of the address that ends with the
labels of a configured suffix, and at most an hour before that call returned, the address among
those of the name. -/
theorem verified_by_dns {crawlers providers : List CrawlerConfig}
    (normalized : normalizeCrawlerProviders crawlers = .ok providers) {start : Nat} {world : World}
    (reaches : Machine.Reaches (act platform providers) (Enabled platform providers)
      (World.new start) world)
    {ip : IpAddr} {time : Nat} (returned : Event.returned ip true time ∈ world.log) :
    ∃ lookup names name addresses asked found,
      Event.reversed lookup ip names asked ∈ world.log ∧ name ∈ names ∧
        EndsInSuffix crawlers (lookupName platform name) ∧
          Event.resolved lookup (lookupName platform name) addresses found ∈ world.log ∧
            ip ∈ addresses ∧ asked ≤ found ∧ found ≤ asked + lookupTimeout + platform.late ∧
              found ≤ time ∧ time ≤ found + positiveTtl := by
  obtain ⟨found, finding, after, young⟩ := (backed_of_reaches reaches).returned ip time returned
  obtain ⟨reversed, listed, belongs, resolved, confirmed, ordered, prompt⟩ := finding
  exact ⟨_, _, _, _, _, found, reversed, listed,
    endsInSuffix_of_matchesProvider normalized belongs, resolved, confirmed, ordered, prompt, after,
    young⟩

end Crawler

namespace SampleCrawlers

open Crawler

def crawlers : List CrawlerConfig := [⟨"engine", [".engine.example"]⟩]

theorem normalized : normalizeCrawlerProviders crawlers = .ok crawlers := by decide

theorem prompt : waitBudget + 1000000 ≤ positiveTtl := by decide

/-- A lower case that leaves all but ASCII letters alone, and timers that are seen within a
millisecond. -/
def platform : Platform :=
  ⟨fun text => String.ofList (text.toList.map Char.toLower), fun _ _ => rfl, 1000000, prompt⟩

def crawler : IpAddr := .v4 0xc0000207#32

/-- A call waits for its lookup, and half an hour later another one finds the verdict. -/
def actions : List Crawler.Action :=
  [.verify 0 crawler, .call 0 .insert, .call 0 (.acquire 0), .lookup 0 .start, .tick 2000000,
    .lookup 0 (.reverse ["www.example.", "Bot7.Engine.Example."]), .tick 3000000,
    .lookup 0 (.forward [.v4 0xc0000208#32, crawler]), .lookup 0 .clear, .lookup 0 .finish,
    .call 0 .receive, .tick 1800000000000, .verify 1 crawler]

theorem along : Machine.Along (act platform crawlers) (Enabled platform crawlers) (World.new 0)
    actions := by
  decide +kernel

theorem returned : Event.returned crawler true 1800005000000 ∈
    (actions.foldl (act platform crawlers) (World.new 0)).log := by
  decide +kernel

theorem verified_half_an_hour_later :
    ∃ lookup names name addresses asked found,
      Event.reversed lookup crawler names asked ∈
          (actions.foldl (act platform crawlers) (World.new 0)).log ∧
        name ∈ names ∧ EndsInSuffix crawlers (lookupName platform name) ∧
          Event.resolved lookup (lookupName platform name) addresses found ∈
              (actions.foldl (act platform crawlers) (World.new 0)).log ∧
            crawler ∈ addresses ∧ asked ≤ found ∧
              found ≤ asked + lookupTimeout + platform.late ∧ found ≤ 1800005000000 ∧
                1800005000000 ≤ found + positiveTtl :=
  verified_by_dns normalized (Machine.reaches_of_along along) returned

end SampleCrawlers

end Bagel
