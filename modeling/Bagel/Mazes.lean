/-
This file models the tables that find a maze on a host: `maze/mod.rs` and `maze_lookup` and
`maze_by_name` of `state.rs`. The tables of the exact hosts are built when the policy is
loaded. Those of other hosts are built when they are first asked for and kept in a cache,
which is cleared when it is full. A host on which two mazes would share a route prefix is
refused.

Building a table depends on nothing but the host, so a cache of any history answers as a
fresh build would. That is what the lookups of a request rest on.
-/

import Bagel.Error
import Bagel.Library.Transaction
import Mathlib.Data.List.Nodup

namespace Bagel

structure MazeConfig where
  name : String
  renderer : String
  /-- Seconds. -/
  tokenTtl : Nat
  /-- Nanoseconds. -/
  memoryTtl : Nat
  minLinks : Nat
  maxLinks : Nat
  minBytes : Nat
  maxBytes : Nat
  deriving DecidableEq

/-- A maze with what `derive_maze_keys` gives it on one host. -/
structure MazeRuntime where
  routePrefix : String
  config : MazeConfig
  deriving DecidableEq

def MazeRuntime.name (runtime : MazeRuntime) : String := runtime.config.name

/-- The mazes of one host, each under its route prefix. -/
abbrev MazeTable := List MazeRuntime

namespace MazeTable

def byPrefix (table : MazeTable) (segment : String) : Option MazeRuntime :=
  table.find? fun runtime => runtime.routePrefix = segment

def byName (table : MazeTable) (name : String) : Option MazeRuntime :=
  table.find? fun runtime => runtime.name = name

end MazeTable

/-- The body of the loop of `build_table`. `routePrefixOf` is the route prefix that
`derive_maze_keys` derives from the key of the server. -/
def addMaze (routePrefixOf : String → String → String) (host : String) (table : MazeTable)
    (maze : MazeConfig) : Except String MazeTable :=
  let runtime : MazeRuntime := ⟨routePrefixOf host maze.name, maze⟩
  match table.byPrefix runtime.routePrefix with
  | some existing =>
    .error ("maze route prefix collision between '" ++ existing.name ++ "' and '" ++ maze.name ++
      "' on host '" ++ host ++ "'")
  | none => .ok (table ++ [runtime])

def buildTable (routePrefixOf : String → String → String) (host : String)
    (mazes : List MazeConfig) : Except String MazeTable :=
  mazes.foldlM (addMaze routePrefixOf host) []

/-- A table that was built holds every maze. -/
theorem buildTable_map_config {routePrefixOf : String → String → String} {host : String}
    {mazes : List MazeConfig} {table : MazeTable}
    (built : buildTable routePrefixOf host mazes = .ok table) :
    table.map MazeRuntime.config = mazes := by
  have general : ∀ (start : MazeTable),
      mazes.foldlM (addMaze routePrefixOf host) start = .ok table →
      table.map MazeRuntime.config = start.map MazeRuntime.config ++ mazes := by
    clear built
    induction mazes with
    | nil =>
      intro start built
      cases built
      rw [List.append_nil]
    | cons maze rest inductionHypothesis =>
      intro start built
      rw [List.foldlM_cons, Transaction.bind_eq_ok_iff] at built
      obtain ⟨next, added, later⟩ := built
      have extended : next = start ++ [⟨routePrefixOf host maze.name, maze⟩] := by
        simp only [addMaze] at added
        split at added
        · cases added
        · exact (Except.ok.inj added).symm
      rw [inductionHypothesis next later, extended, List.map_append, List.append_assoc]
      rfl
  exact general [] built

/-- Every configured maze is found by its name. -/
theorem byName_of_buildTable {routePrefixOf : String → String → String} {host : String}
    {mazes : List MazeConfig} {table : MazeTable}
    (built : buildTable routePrefixOf host mazes = .ok table) {maze : MazeConfig}
    (configured : maze ∈ mazes) : ∃ runtime, table.byName maze.name = some runtime := by
  rw [← buildTable_map_config built] at configured
  obtain ⟨runtime, listed, rfl⟩ := List.mem_map.mp configured
  refine Option.isSome_iff_exists.mp (List.find?_isSome.mpr ⟨runtime, listed, ?_⟩)
  exact decide_eq_true rfl

/-- What holds of a table of a host. -/
structure MazeTable.WellFormed (routePrefixOf : String → String → String) (host : String)
    (table : MazeTable) : Prop where
  distinct : (table.map MazeRuntime.routePrefix).Nodup
  derived : ∀ runtime ∈ table, runtime.routePrefix = routePrefixOf host runtime.name

theorem wellFormed_of_buildTable {routePrefixOf : String → String → String} {host : String}
    {mazes : List MazeConfig} {table : MazeTable}
    (built : buildTable routePrefixOf host mazes = .ok table) :
    table.WellFormed routePrefixOf host := by
  have empty : MazeTable.WellFormed routePrefixOf host [] :=
    ⟨List.nodup_nil, fun _ member => absurd member List.not_mem_nil⟩
  refine Transaction.foldlM_preserves mazes empty ?_ built
  intro maze _ table next formed added
  simp only [addMaze] at added
  split at added
  · cases added
  next free =>
    rw [← Except.ok.inj added]
    constructor
    · have fresh : routePrefixOf host maze.name ∉ table.map MazeRuntime.routePrefix := by
        intro taken
        obtain ⟨runtime, listed, same⟩ := List.mem_map.mp taken
        have found := List.find?_eq_none.mp free runtime listed
        exact found (decide_eq_true same)
      rw [List.map_append, List.map_singleton]
      exact List.nodup_append.mpr ⟨formed.distinct, List.nodup_singleton _,
        fun first member second last same => fresh (by
          rw [same, List.mem_singleton.mp last] at member
          exact member)⟩
    · intro runtime listed
      rcases List.mem_append.mp listed with older | last
      · exact formed.derived runtime older
      · rw [List.mem_singleton.mp last]
        rfl

/-- A maze of a table is found by its route prefix. -/
theorem MazeTable.WellFormed.byPrefix {routePrefixOf : String → String → String} {host : String}
    {table : MazeTable} (formed : table.WellFormed routePrefixOf host) {runtime : MazeRuntime}
    (listed : runtime ∈ table) : table.byPrefix runtime.routePrefix = some runtime := by
  cases found : table.byPrefix runtime.routePrefix with
  | none =>
    have missing := List.find?_eq_none.mp found runtime listed
    exact absurd (decide_eq_true rfl) missing
  | some other =>
    have listed' : other ∈ table := List.mem_of_find?_eq_some found
    have same := List.find?_some found
    rw [decide_eq_true_eq] at same
    rw [List.inj_on_of_nodup_map formed.distinct listed' listed same]

/-! ### Lookup -/

inductive MazeLookup where
  | noMazes
  | table (table : MazeTable)
  | refused

/-- What is fixed when a policy is loaded. -/
structure MazeSite where
  mazes : List MazeConfig
  /-- `maze_tables` of the exact hosts. -/
  tables : String → Option MazeTable
  routePrefixOf : String → String → String
  built : ∀ host table, tables host = some table →
    buildTable routePrefixOf host mazes = .ok table

/-- `wildcard_maze_tables`: the tables of other hosts, `none` for a refused one. -/
abbrev MazeCache := List (String × Option MazeTable)

def mazeCacheCapacity : Nat := 4096

namespace MazeSite

variable (site : MazeSite)

/-- What a fresh build answers for a host. -/
def fresh (host : String) : Option MazeTable :=
  (buildTable site.routePrefixOf host site.mazes).toOption

def answer : Option MazeTable → MazeLookup
  | some table => .table table
  | none => .refused

/-- `maze_lookup`, with the cache it leaves. -/
def mazeLookup (cache : MazeCache) (host : String) : MazeLookup × MazeCache :=
  if site.mazes.isEmpty then (.noMazes, cache)
  else
    match site.tables host with
    | some table => (.table table, cache)
    | none =>
      match cache.lookup host with
      | some cached => (answer cached, cache)
      | none =>
        let cache := if mazeCacheCapacity ≤ cache.length then [] else cache
        (answer (site.fresh host), (host, site.fresh host) :: cache)

/-- `maze_by_name` -/
def mazeByName (cache : MazeCache) (host name : String) : Option MazeRuntime :=
  match (site.mazeLookup cache host).1 with
  | .table table => table.byName name
  | .noMazes => none
  | .refused => none

/-- Every cached answer is that of a fresh build. -/
def Sound (cache : MazeCache) : Prop := ∀ entry ∈ cache, entry.2 = site.fresh entry.1

variable {site}

theorem sound_nil : site.Sound [] := by
  intro entry member
  exact absurd member List.not_mem_nil

/-- A lookup keeps the cache sound. -/
theorem Sound.mazeLookup {cache : MazeCache} (sound : site.Sound cache) (host : String) :
    site.Sound (site.mazeLookup cache host).2 := by
  unfold MazeSite.mazeLookup
  split
  · exact sound
  · split
    · exact sound
    · split
      · exact sound
      · intro entry member
        rcases List.mem_cons.mp member with rfl | older
        · rfl
        · split at older
          · exact absurd older List.not_mem_nil
          · exact sound entry older

/-- The caches that lookups can lead to, in any order and on any hosts. -/
theorem sound_foldl (hosts : List String) :
    site.Sound (hosts.foldl (fun cache host => (site.mazeLookup cache host).2) []) :=
  Transaction.foldl_preserves hosts sound_nil fun host _ _ sound => sound.mazeLookup host

/-- With a sound cache a lookup answers as a fresh build does. -/
theorem mazeLookup_of_sound {cache : MazeCache} (sound : site.Sound cache) {host : String}
    (configured : site.mazes ≠ []) : (site.mazeLookup cache host).1 = answer (site.fresh host) := by
  unfold MazeSite.mazeLookup
  rw [if_neg (by simpa using configured)]
  cases exact : site.tables host with
  | some table =>
    have built := site.built host table exact
    simp only [fresh, built, Except.toOption, answer]
  | none =>
    cases cached : cache.lookup host with
    | none => rfl
    | some entry =>
      obtain ⟨before, after, whole, -⟩ := List.lookup_eq_some_iff.mp cached
      have member : (host, entry) ∈ cache := by
        rw [whole]
        exact List.mem_append_right before List.mem_cons_self
      exact congrArg answer (sound (host, entry) member)

/-- A table that a lookup finds was built for the host. -/
theorem built_of_mazeLookup {cache : MazeCache} (sound : site.Sound cache) {host : String}
    {table : MazeTable} (found : (site.mazeLookup cache host).1 = .table table) :
    buildTable site.routePrefixOf host site.mazes = .ok table := by
  have configured : site.mazes ≠ [] := by
    intro nothing
    unfold MazeSite.mazeLookup at found
    rw [if_pos (List.isEmpty_iff.mpr nothing)] at found
    cases found
  rw [mazeLookup_of_sound sound configured] at found
  unfold fresh at found
  cases built : buildTable site.routePrefixOf host site.mazes with
  | error message =>
    rw [built] at found
    cases found
  | ok other =>
    rw [built] at found
    cases found
    rfl

/-- On a host that was not refused every configured maze is found, whatever the cache went
through. -/
theorem mazeByName_of_sound {cache cache' : MazeCache} (sound : site.Sound cache)
    (sound' : site.Sound cache') {host : String}
    (accepted : (site.mazeLookup cache host).1 ≠ .refused) {maze : MazeConfig}
    (configured : maze ∈ site.mazes) :
    ∃ runtime, site.mazeByName cache' host maze.name = some runtime := by
  have nonempty : site.mazes ≠ [] := List.ne_nil_of_mem configured
  rw [mazeLookup_of_sound sound nonempty] at accepted
  unfold mazeByName
  rw [mazeLookup_of_sound sound' nonempty]
  cases result : buildTable site.routePrefixOf host site.mazes with
  | error message =>
    have refused : site.fresh host = none := by rw [fresh, result]; rfl
    rw [refused] at accepted
    exact absurd rfl accepted
  | ok table =>
    have found : site.fresh host = some table := by rw [fresh, result]; rfl
    rw [found]
    exact byName_of_buildTable result configured

end MazeSite

end Bagel
