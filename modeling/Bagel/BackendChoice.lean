/-
This file settles which backend serves a host. The pool looks at texts, in an order that it
sorted once: the pattern of the host itself, then the longest suffix, then the fallback. What it
finds is said here of the labels of the host and of the configuration as a whole, so that the
order of the configuration makes no difference.
-/

import Bagel.Backends
import Bagel.Library.Lines
import Bagel.Library.Ranked
import Mathlib.Data.List.Perm.Basic

namespace Bagel

/-! ### Patterns -/

/-- The labels of a host or a domain. -/
def labels (name : String) : List (List Char) := name.toList.splitOn '.'

/-- A proper subdomain: its labels end with those of the domain, and there are more. -/
def Subdomain (name domain : String) : Prop :=
  ∃ front, front ≠ [] ∧ labels name = front ++ labels domain

/-- The suffix of a wildcard pattern is found exactly in the subdomains. -/
theorem isSuffixOf_iff_subdomain (name domain : String) :
    ("." ++ domain).toList.isSuffixOf name.toList = true ↔ Subdomain name domain := by
  rw [List.isSuffixOf_iff_suffix, String.toList_append]
  exact Lines.isSuffix_iff_splitOn

instance (name domain : String) : Decidable (Subdomain name domain) :=
  decidable_of_iff _ (isSuffixOf_iff_subdomain name domain)

/-- What a pattern stands for, with the names in canonical form. -/
inductive DomainPattern where
  | any
  | below (domain : String)
  | host (name : String)
  deriving DecidableEq

namespace DomainPattern

/-- The text under which a pattern counts as a duplicate. -/
def key : DomainPattern → String
  | any => "*"
  | below domain => "." ++ domain
  | host name => name

/-- The pattern that a backend has by its name. -/
def ofName (name : String) : Except Error DomainPattern :=
  if name = "*" then .ok any
  else
    match BackendPool.wildcardHost name with
    | some domain => (BackendPool.patternHost name domain).map fun canonical =>
        below canonical.text
    | none => (BackendPool.patternHost name name).map fun canonical => host canonical.text

end DomainPattern

namespace BackendPool

variable {parseUri : String → Except String TargetUri}

/-! ### Building -/

/-- A backend under its pattern. -/
structure Entry where
  pattern : DomainPattern
  backend : Backend

namespace Entry

/-- What `BackendPool::build` makes of one backend, apart from the others. -/
structure Of (parseUri : String → Except String TargetUri) (config : BackendConfig)
    (entry : Entry) : Prop where
  pattern : DomainPattern.ofName config.name = .ok entry.pattern
  backend : buildBackend parseUri config = .ok entry.backend

def exact : Entry → Option (String × Backend)
  | ⟨.host name, backend⟩ => some (name, backend)
  | _ => none

def wildcard : Entry → Option (String × Backend)
  | ⟨.below domain, backend⟩ => some ("." ++ domain, backend)
  | _ => none

def fallback : Entry → Option Backend
  | ⟨.any, backend⟩ => some backend
  | _ => none

/-- The pool with one more backend. -/
def addTo (pool : BackendPool) : Entry → BackendPool
  | ⟨.host name, backend⟩ => { pool with exact := pool.exact ++ [(name, backend)] }
  | ⟨.below domain, backend⟩ =>
    { pool with wildcard := pool.wildcard ++ [("." ++ domain, backend)] }
  | ⟨.any, backend⟩ => { pool with fallback := some backend }

end Entry

theorem refuse_eq {Value : Type} (refused : Bool) (problem : Error) (value : Value) :
    (if refused = true then (throw problem >>= fun _ : Unit => pure value : Except Error Value)
      else pure value) = if refused = true then .error problem else .ok value := by
  cases refused <;> rfl

/-- The three branches of the loop differ in nothing but the pattern. -/
theorem addBackend_eq (pool : BackendPool) (seen : List String) (config : BackendConfig) :
    addBackend parseUri (pool, seen) config =
      buildBackend parseUri config >>= fun backend =>
        DomainPattern.ofName config.name >>= fun pattern =>
          if seen.contains pattern.key then
            .error (.config ("duplicate backend pattern '" ++ config.name ++ "'"))
          else .ok (Entry.addTo pool ⟨pattern, backend⟩, pattern.key :: seen) := by
  unfold addBackend DomainPattern.ofName
  dsimp only
  refine congrArg (buildBackend parseUri config >>= ·) (funext fun backend => ?_)
  by_cases any : config.name = "*"
  · rw [if_pos any, if_pos any, any]
    exact refuse_eq (seen.contains "*") _ _
  · rw [if_neg any, if_neg any]
    cases wildcardHost config.name with
    | some domain =>
      dsimp only
      cases patternHost config.name domain with
      | error problem => rfl
      | ok canonical => exact refuse_eq (seen.contains ("." ++ canonical.text)) _ _
    | none =>
      dsimp only
      cases patternHost config.name config.name with
      | error problem => rfl
      | ok canonical => exact refuse_eq (seen.contains canonical.text) _ _

theorem addBackend_eq_ok_iff {pool : BackendPool} {seen : List String} {config : BackendConfig}
    {next : BackendPool × List String} :
    addBackend parseUri (pool, seen) config = .ok next ↔
      ∃ entry, Entry.Of parseUri config entry ∧ entry.pattern.key ∉ seen ∧
        (Entry.addTo pool entry, entry.pattern.key :: seen) = next := by
  simp only [addBackend_eq, Transaction.bind_eq_ok_iff]
  constructor
  · rintro ⟨backend, built, pattern, named, placed⟩
    split at placed
    · cases placed
    · next fresh =>
      refine ⟨⟨pattern, backend⟩, ⟨named, built⟩, ?_, Except.ok.inj placed⟩
      exact fun again => fresh (List.contains_iff_mem.mpr again)
  · rintro ⟨entry, ⟨named, built⟩, fresh, rfl⟩
    refine ⟨entry.backend, built, entry.pattern, named, ?_⟩
    rw [if_neg fun again => fresh (List.contains_iff_mem.mp again)]

/-- The loop succeeds exactly when every backend can be built and no pattern occurs twice. -/
theorem foldlM_addBackend_eq_ok_iff {configs : List BackendConfig} {pool : BackendPool}
    {seen : List String} {last : BackendPool} :
    (∃ keys, configs.foldlM (addBackend parseUri) (pool, seen) = .ok (last, keys)) ↔
      ∃ entries, List.Forall₂ (Entry.Of parseUri) configs entries ∧
        (entries.map fun entry => entry.pattern.key).Nodup ∧
        (∀ entry ∈ entries, entry.pattern.key ∉ seen) ∧
        entries.foldl Entry.addTo pool = last := by
  induction configs generalizing pool seen with
  | nil =>
    constructor
    · rintro ⟨keys, same⟩
      cases same
      exact ⟨[], .nil, .nil, fun entry member => absurd member List.not_mem_nil, rfl⟩
    · rintro ⟨entries, each, -, -, same⟩
      cases each
      cases same
      exact ⟨seen, rfl⟩
  | cons config rest inductionHypothesis =>
    have step : (∃ keys, (config :: rest).foldlM (addBackend parseUri) (pool, seen) =
        .ok (last, keys)) ↔ ∃ entry, Entry.Of parseUri config entry ∧ entry.pattern.key ∉ seen ∧
          ∃ keys, rest.foldlM (addBackend parseUri)
            (Entry.addTo pool entry, entry.pattern.key :: seen) = .ok (last, keys) := by
      simp only [List.foldlM_cons, Transaction.bind_eq_ok_iff, addBackend_eq_ok_iff]
      constructor
      · rintro ⟨keys, next, ⟨entry, made, fresh, rfl⟩, later⟩
        exact ⟨entry, made, fresh, keys, later⟩
      · rintro ⟨entry, made, fresh, keys, later⟩
        exact ⟨keys, _, ⟨entry, made, fresh, rfl⟩, later⟩
    rw [step]
    constructor
    · rintro ⟨entry, made, fresh, later⟩
      obtain ⟨entries, each, distinct, unseen, same⟩ := inductionHypothesis.mp later
      refine ⟨entry :: entries, .cons made each, List.nodup_cons.mpr ⟨?_, distinct⟩, ?_, same⟩
      · intro again
        obtain ⟨other, member, key⟩ := List.mem_map.mp again
        exact unseen other member (key ▸ List.mem_cons_self)
      · refine List.forall_mem_cons.mpr ⟨fresh, fun other member before => ?_⟩
        exact unseen other member (List.mem_cons_of_mem _ before)
    · rintro ⟨entries, each, distinct, unseen, same⟩
      cases each with
      | @cons _ entry _ others made each =>
        obtain ⟨once, distinct⟩ := List.nodup_cons.mp distinct
        obtain ⟨fresh, unseen⟩ := List.forall_mem_cons.mp unseen
        refine ⟨entry, made, fresh, inductionHypothesis.mpr ⟨others, each, distinct, ?_, same⟩⟩
        intro other member before
        rcases List.mem_cons.mp before with key | before
        · exact once (List.mem_map.mpr ⟨other, member, key⟩)
        · exact unseen other member before

theorem foldl_addTo (entries : List Entry) (pool : BackendPool) :
    entries.foldl Entry.addTo pool =
      ⟨pool.exact ++ entries.filterMap Entry.exact,
        pool.wildcard ++ entries.filterMap Entry.wildcard,
        (entries.filterMap Entry.fallback).getLast?.or pool.fallback⟩ := by
  induction entries generalizing pool with
  | nil => simp
  | cons entry rest inductionHypothesis =>
    rw [List.foldl_cons, inductionHypothesis, List.filterMap_cons, List.filterMap_cons,
      List.filterMap_cons]
    obtain ⟨pattern, backend⟩ := entry
    cases pattern with
    | any =>
      simp only [Entry.addTo, Entry.exact, Entry.wildcard, Entry.fallback, List.getLast?_cons]
      cases (rest.filterMap Entry.fallback).getLast? with
      | none => rfl
      | some other => rfl
    | below domain =>
      simp only [Entry.addTo, Entry.exact, Entry.wildcard, Entry.fallback, List.append_assoc,
        List.singleton_append]
    | host name =>
      simp only [Entry.addTo, Entry.exact, Entry.wildcard, Entry.fallback, List.append_assoc,
        List.singleton_append]

/-- The pool with some backends, the longest suffixes first. -/
def ofEntries (entries : List Entry) : BackendPool where
  exact := entries.filterMap Entry.exact
  wildcard := (entries.filterMap Entry.wildcard).mergeSort fun first second =>
    second.1.utf8ByteSize ≤ first.1.utf8ByteSize
  fallback := (entries.filterMap Entry.fallback).getLast?

theorem build_eq_ok_iff {configs : List BackendConfig} {pool : BackendPool} :
    build parseUri configs = .ok pool ↔
      ∃ entries, List.Forall₂ (Entry.Of parseUri) configs entries ∧
        (entries.map fun entry => entry.pattern.key).Nodup ∧ ofEntries entries = pool := by
  unfold build
  rw [Transaction.bind_eq_ok_iff]
  constructor
  · rintro ⟨⟨last, keys⟩, looped, same⟩
    obtain ⟨entries, each, distinct, -, rfl⟩ :=
      foldlM_addBackend_eq_ok_iff.mp ⟨keys, looped⟩
    refine ⟨entries, each, distinct, ?_⟩
    rw [foldl_addTo] at same
    cases same
    simp [ofEntries]
  · rintro ⟨entries, each, distinct, rfl⟩
    obtain ⟨keys, looped⟩ := foldlM_addBackend_eq_ok_iff.mpr
      ⟨entries, each, distinct, fun entry _ => List.not_mem_nil, rfl⟩
    refine ⟨_, looped, ?_⟩
    rw [foldl_addTo]
    simp [ofEntries, pure, Except.pure]

/-! ### Selection -/

/-- The backends of a configuration, by their patterns. -/
def Has (parseUri : String → Except String TargetUri) (configs : List BackendConfig)
    (pattern : DomainPattern) (backend : Backend) : Prop :=
  ∃ config ∈ configs, Entry.Of parseUri config ⟨pattern, backend⟩

/-- What a host is served by: the backend of its own name, else that of the longest domain it is
below, else the fallback. -/
inductive Serves (has : DomainPattern → Backend → Prop) (host : String) : Option Backend → Prop
  | exact {backend : Backend} (named : has (.host host) backend) : Serves has host (some backend)
  | wildcard {domain : String} {backend : Backend} (unnamed : ∀ other, ¬has (.host host) other)
      (listed : has (.below domain) backend) (inside : Subdomain host domain)
      (longest : ∀ domain' other, has (.below domain') other → Subdomain host domain' →
        domain'.length ≤ domain.length) : Serves has host (some backend)
  | fallback {backend : Backend} (unnamed : ∀ other, ¬has (.host host) other)
      (outside : ∀ domain other, has (.below domain) other → ¬Subdomain host domain)
      (any : has .any backend) : Serves has host (some backend)
  | none (unnamed : ∀ other, ¬has (.host host) other)
      (outside : ∀ domain other, has (.below domain) other → ¬Subdomain host domain)
      (nothing : ∀ other, ¬has .any other) : Serves has host none

/-- No two backends of different patterns count as duplicates, and none has a pattern twice. -/
def Distinct (has : DomainPattern → Backend → Prop) : Prop :=
  ∀ pattern backend pattern' backend', has pattern backend → has pattern' backend' →
    pattern.key = pattern'.key → pattern = pattern' ∧ backend = backend'

/-- Of the domains that a host is below, the length tells which is which. -/
theorem eq_of_length_eq {host domain domain' : String} (inside : Subdomain host domain)
    (inside' : Subdomain host domain') (same : domain.length = domain'.length) :
    domain = domain' := by
  rw [← isSuffixOf_iff_subdomain, List.isSuffixOf_iff_suffix] at inside inside'
  have lengths : ("." ++ domain).toList.length = ("." ++ domain').toList.length := by
    rw [String.toList_append, String.toList_append, List.length_append, List.length_append,
      String.length_toList, String.length_toList, String.length_toList, same]
  have texts := (List.suffix_of_suffix_length_le inside inside' lengths.le).eq_of_length lengths
  rw [String.toList_append, String.toList_append, List.append_cancel_left_eq] at texts
  exact String.toList_inj.mp texts

theorem Serves.unique {has : DomainPattern → Backend → Prop} {host : String}
    {answer answer' : Option Backend} (distinct : Distinct has) (served : Serves has host answer)
    (served' : Serves has host answer') : answer = answer' := by
  cases served with
  | exact named =>
    cases served' with
    | exact named' => rw [(distinct _ _ _ _ named named' rfl).2]
    | wildcard unnamed' => exact absurd named (unnamed' _)
    | fallback unnamed' => exact absurd named (unnamed' _)
    | none unnamed' => exact absurd named (unnamed' _)
  | @wildcard domain _ unnamed listed inside longest =>
    cases served' with
    | exact named' => exact absurd named' (unnamed _)
    | @wildcard domain' _ unnamed' listed' inside' longest' =>
      have same : domain = domain' := eq_of_length_eq inside inside'
        (Nat.le_antisymm (longest' _ _ listed inside) (longest _ _ listed' inside'))
      subst same
      rw [(distinct _ _ _ _ listed listed' rfl).2]
    | fallback _ outside' => exact absurd inside (outside' _ _ listed)
    | none _ outside' => exact absurd inside (outside' _ _ listed)
  | fallback unnamed outside any =>
    cases served' with
    | exact named' => exact absurd named' (unnamed _)
    | wildcard _ listed' inside' => exact absurd inside' (outside _ _ listed')
    | fallback _ _ any' => rw [(distinct _ _ _ _ any any' rfl).2]
    | none _ _ nothing' => exact absurd any (nothing' _)
  | none unnamed outside nothing =>
    cases served' with
    | exact named' => exact absurd named' (unnamed _)
    | wildcard _ listed' inside' => exact absurd inside' (outside _ _ listed')
    | fallback _ _ any' => exact absurd any' (nothing _)
    | none => rfl

section

variable {configs configs' : List BackendConfig} {entries entries' : List Entry}

theorem has_iff_mem (each : List.Forall₂ (Entry.Of parseUri) configs entries)
    (pattern : DomainPattern) (backend : Backend) :
    Has parseUri configs pattern backend ↔ ⟨pattern, backend⟩ ∈ entries := by
  induction each with
  | nil =>
    constructor
    · rintro ⟨config, member, -⟩
      exact absurd member List.not_mem_nil
    · exact fun member => absurd member List.not_mem_nil
  | @cons config entry _ _ made _ inductionHypothesis =>
    rw [List.mem_cons, ← inductionHypothesis]
    constructor
    · rintro ⟨other, member, made'⟩
      rcases List.mem_cons.mp member with rfl | later
      · refine .inl ?_
        have patterns := Except.ok.inj (made'.pattern.symm.trans made.pattern)
        have backends := Except.ok.inj (made'.backend.symm.trans made.backend)
        obtain ⟨pattern', backend'⟩ := entry
        rw [← show pattern = pattern' from patterns, ← show backend = backend' from backends]
      · exact .inr ⟨other, later, made'⟩
    · rintro (rfl | ⟨other, later, made'⟩)
      · exact ⟨config, List.mem_cons_self, made⟩
      · exact ⟨other, List.mem_cons_of_mem _ later, made'⟩

theorem distinct_has (each : List.Forall₂ (Entry.Of parseUri) configs entries)
    (keys : (entries.map fun entry => entry.pattern.key).Nodup) :
    Distinct (Has parseUri configs) := by
  intro pattern backend pattern' backend' listed listed' same
  rw [has_iff_mem each] at listed listed'
  have equal := List.inj_on_of_nodup_map keys listed listed' same
  exact ⟨congrArg Entry.pattern equal, congrArg Entry.backend equal⟩

theorem mem_exact {name : String} {backend : Backend} :
    (name, backend) ∈ (ofEntries entries).exact ↔ ⟨.host name, backend⟩ ∈ entries := by
  rw [ofEntries, List.mem_filterMap]
  constructor
  · rintro ⟨⟨pattern, backend'⟩, member, kept⟩
    cases pattern <;> cases kept
    exact member
  · exact fun member => ⟨_, member, rfl⟩

theorem mem_wildcard {suffix : String} {backend : Backend} :
    (suffix, backend) ∈ (ofEntries entries).wildcard ↔
      ∃ domain, suffix = "." ++ domain ∧ ⟨.below domain, backend⟩ ∈ entries := by
  rw [ofEntries, List.mem_mergeSort, List.mem_filterMap]
  constructor
  · rintro ⟨⟨pattern, backend'⟩, member, kept⟩
    cases pattern <;> cases kept
    exact ⟨_, rfl, member⟩
  · rintro ⟨domain, rfl, member⟩
    exact ⟨_, member, rfl⟩

theorem mem_fallbacks {backend : Backend} :
    backend ∈ entries.filterMap Entry.fallback ↔ ⟨.any, backend⟩ ∈ entries := by
  rw [List.mem_filterMap]
  constructor
  · rintro ⟨⟨pattern, backend'⟩, member, kept⟩
    cases pattern <;> cases kept
    exact member
  · exact fun member => ⟨_, member, rfl⟩

theorem falling_wildcard :
    Ranked.Falling (fun entry : String × Backend => entry.1.utf8ByteSize)
      (ofEntries entries).wildcard := by
  have sorted : (ofEntries entries).wildcard.Pairwise fun first second =>
      decide (second.1.utf8ByteSize ≤ first.1.utf8ByteSize) = true := by
    refine List.pairwise_mergeSort ?_ ?_ _
    · intro first second third before after
      exact decide_eq_true ((of_decide_eq_true after).trans (of_decide_eq_true before))
    · intro first second
      rw [Bool.or_eq_true, decide_eq_true_iff, decide_eq_true_iff]
      exact Nat.le_total _ _
  exact sorted.imp fun order => of_decide_eq_true order

/-- Of two suffixes of a host the one with more bytes has more characters. -/
theorem length_le_of_utf8ByteSize_le {host domain domain' : String}
    (inside : Subdomain host domain) (inside' : Subdomain host domain')
    (sizes : ("." ++ domain').utf8ByteSize ≤ ("." ++ domain).utf8ByteSize) :
    domain'.length ≤ domain.length := by
  rw [← isSuffixOf_iff_subdomain, List.isSuffixOf_iff_suffix] at inside inside'
  refine Nat.le_of_not_lt fun longer => ?_
  have lengths : ("." ++ domain).toList.length < ("." ++ domain').toList.length := by
    rw [String.length_toList, String.length_toList, String.length_append, String.length_append]
    exact Nat.add_lt_add_left longer _
  obtain ⟨front, whole⟩ := List.suffix_of_suffix_length_le inside inside' lengths.le
  have some : front ≠ [] := by
    rintro rfl
    rw [← whole] at lengths
    exact lengths.ne rfl
  have texts : String.ofList front ++ ("." ++ domain) = "." ++ domain' := by
    rw [← String.toList_inj, String.toList_append, String.toList_ofList]
    exact whole
  have bytes : (String.ofList front).utf8ByteSize ≠ 0 := by
    rw [Ne, String.utf8ByteSize_eq_zero_iff]
    intro empty
    have nothing := congrArg String.toList empty
    rw [String.toList_ofList] at nothing
    exact some nothing
  rw [← texts, String.utf8ByteSize_append] at sizes
  omega

/-- The pool finds what the patterns say, whatever the order of the configuration. -/
theorem serves_select (each : List.Forall₂ (Entry.Of parseUri) configs entries) (host : String) :
    Serves (Has parseUri configs) host ((ofEntries entries).select host) := by
  unfold select
  cases named : (ofEntries entries).exact.find? fun entry => entry.1 = host with
  | some entry =>
    have listed := List.mem_of_find?_eq_some named
    obtain ⟨same, -⟩ := List.find?_eq_some_iff_append.mp named
    obtain ⟨name, backend⟩ := entry
    cases of_decide_eq_true same
    exact .exact ((has_iff_mem each _ _).mpr (mem_exact.mp listed))
  | none =>
    have unnamed : ∀ other, ¬Has parseUri configs (.host host) other := by
      intro other listed
      have member := mem_exact.mpr ((has_iff_mem each _ _).mp listed)
      exact List.find?_eq_none.mp named _ member (decide_eq_true rfl)
    cases found : (ofEntries entries).wildcard.find? fun entry =>
        entry.1.toList.isSuffixOf host.toList with
    | some entry =>
      have best := falling_wildcard.best_of_find? found
      obtain ⟨suffix, backend⟩ := entry
      obtain ⟨domain, rfl, member⟩ := mem_wildcard.mp best.mem
      have inside := (isSuffixOf_iff_subdomain host domain).mp best.chosen
      refine .wildcard unnamed ((has_iff_mem each _ _).mpr member) inside ?_
      intro domain' other listed inside'
      have member' := mem_wildcard.mpr ⟨domain', rfl, (has_iff_mem each _ _).mp listed⟩
      exact length_le_of_utf8ByteSize_le inside inside'
        (best.highest _ member' ((isSuffixOf_iff_subdomain host domain').mpr inside'))
    | none =>
      have outside : ∀ domain other, Has parseUri configs (.below domain) other →
          ¬Subdomain host domain := by
        intro domain other listed inside
        have member := mem_wildcard.mpr ⟨domain, rfl, (has_iff_mem each _ _).mp listed⟩
        exact List.find?_eq_none.mp found _ member ((isSuffixOf_iff_subdomain _ _).mpr inside)
      cases last : (ofEntries entries).fallback with
      | some backend =>
        have member := mem_fallbacks.mp (List.mem_of_getLast? last)
        exact .fallback unnamed outside ((has_iff_mem each _ _).mpr member)
      | none =>
        refine .none unnamed outside fun other listed => ?_
        have member := mem_fallbacks.mpr ((has_iff_mem each _ _).mp listed)
        rw [List.getLast?_eq_none_iff.mp last] at member
        exact List.not_mem_nil member

theorem Serves.congr {has has' : DomainPattern → Backend → Prop} {host : String}
    {answer : Option Backend} (same : ∀ pattern backend, has pattern backend ↔ has' pattern backend)
    (served : Serves has host answer) : Serves has' host answer := by
  have equal : has = has' := funext fun pattern => funext fun backend =>
    propext (same pattern backend)
  rwa [← equal]

/-- The backend of a host is that of its own name, else that of the longest domain it is below,
else the fallback, and the order of the configuration makes no difference. -/
theorem select_by_specificity {pool : BackendPool} (built : build parseUri configs = .ok pool) :
    (∀ host answer, pool.select host = answer ↔ Serves (Has parseUri configs) host answer) ∧
      ∀ configs', configs'.Perm configs →
        ∃ pool', build parseUri configs' = .ok pool' ∧
          ∀ host, pool'.select host = pool.select host := by
  obtain ⟨entries, each, keys, rfl⟩ := build_eq_ok_iff.mp built
  have distinct := distinct_has each keys
  refine ⟨fun host answer => ?_, ?_⟩
  · constructor
    · rintro rfl
      exact serves_select each host
    · exact (serves_select each host).unique distinct
  · intro configs' same
    obtain ⟨entries', each', same'⟩ := List.perm_comp_forall₂ same each
    have keys' := (same'.map fun entry => entry.pattern.key).nodup_iff.mpr keys
    refine ⟨_, build_eq_ok_iff.mpr ⟨entries', each', keys', rfl⟩, fun host => ?_⟩
    refine Serves.unique distinct (Serves.congr ?_ (serves_select each' host))
      (serves_select each host)
    intro pattern backend
    rw [has_iff_mem each', has_iff_mem each, same'.mem_iff]

end

end BackendPool

namespace SampleBackends

open BackendPool

/-- An HTTP URL without a path. -/
def parseUri (url : String) : Except String TargetUri := .ok ⟨true, some url, "/", none⟩

def backend (name : String) : BackendConfig := ⟨name, "http://10.0.0.1", none, none⟩

def configs : List BackendConfig :=
  [backend "*", backend "*.example.com", backend "*.a.Example.com", backend "Example.com."]

theorem select_longest_domain :
    ∃ pool pool', build parseUri configs = .ok pool ∧
      build parseUri configs.reverse = .ok pool' ∧
      Serves (Has parseUri configs) "b.a.example.com" (pool.select "b.a.example.com") ∧
      pool'.select "b.a.example.com" = pool.select "b.a.example.com" := by
  have accepted : ∃ pool, build parseUri configs = .ok pool := ⟨_, rfl⟩
  obtain ⟨pool, built⟩ := accepted
  obtain ⟨serves, every⟩ := select_by_specificity built
  obtain ⟨pool', built', same⟩ := every configs.reverse (List.reverse_perm configs)
  exact ⟨pool, pool', built, built', (serves _ _).mp rfl, same _⟩

end SampleBackends

end Bagel
