/-
This file proves when the poison memory is earned. The memory holds identifiers that are keyed
hashes of a host, the name of a maze and a network, each with the time it is forgotten at. A
request that returns to a maze sets one, and a reload drops those of the mazes that it removes or
gives another time to remember.

The drop comes before the new configuration is installed, and a request holds on to the
configuration it began with. One that is served under the old configuration after the drop brings
an identifier back, with the old time. As long as no request does this, every identifier in the
memory goes back to a return that the current configuration still remembers, and every return is
remembered for as long as the configuration says.
-/

import Bagel.Library.Machine
import Bagel.MazeLinks
import Bagel.Shared

namespace Bagel

/-! ### The store -/

namespace PoisonStore

variable {Digest : Type} [DecidableEq Digest] {store : PoisonStore Digest}
  {now stamp ttl : Nat} {id other : Digest} {maze : String}

/-- What is stored under an identifier. -/
def entry (store : PoisonStore Digest) (id : Digest) : Option PoisonEntry := store.lookup id

theorem entry_filter {keep : Digest × PoisonEntry → Bool} {value : PoisonEntry}
    (found : store.entry id = some value) (kept : keep (id, value) = true) :
    entry (store.filter keep) id = some value := by
  obtain ⟨before, after, rfl, absent⟩ := List.lookup_eq_some_iff.mp found
  rw [List.filter_append, List.filter_cons_of_pos kept]
  refine List.lookup_eq_some_iff.mpr ⟨_, _, rfl, fun pair member => ?_⟩
  exact absent pair (List.mem_of_mem_filter member)

theorem mem_of_entry {value : PoisonEntry} (found : store.entry id = some value) :
    (id, value) ∈ store := by
  obtain ⟨before, after, whole, -⟩ := List.lookup_eq_some_iff.mp found
  rw [whole]
  exact List.mem_append_right before List.mem_cons_self

theorem exists_of_contains (known : store.contains now id = true) :
    ∃ entry, (id, entry) ∈ store ∧ now < entry.expires := by
  unfold contains at known
  cases found : store.lookup id with
  | none =>
    rw [found] at known
    cases known
  | some entry =>
    rw [found, Option.any_some] at known
    exact ⟨entry, mem_of_entry found, of_decide_eq_true known⟩

theorem mem_of_mem_makeRoom {pair : Digest × PoisonEntry} (member : pair ∈ store.makeRoom now id) :
    pair ∈ store := by
  unfold makeRoom at member
  split at member
  · dsimp only at member
    split at member
    · split at member
      · exact List.mem_of_mem_filter (List.mem_of_mem_filter member)
      · exact List.mem_of_mem_filter member
    · exact List.mem_of_mem_filter member
  · exact member

theorem mem_of_mem_set {pair : Digest × PoisonEntry}
    (member : pair ∈ store.set now stamp id maze ttl) :
    pair = (id, ⟨stamp + ttl, maze⟩) ∨ pair ∈ store := by
  rcases List.mem_cons.mp member with head | older
  · exact .inl head
  · exact .inr (mem_of_mem_makeRoom (List.mem_of_mem_filter older))

theorem entry_set_self :
    (store.set now stamp id maze ttl).entry id = some ⟨stamp + ttl, maze⟩ := List.lookup_cons_self

/-- A full store that has to make room is the only one that forgets another entry. -/
theorem entry_set_of_ne {value : PoisonEntry}
    (room : store.length < poisonMemoryCapacity ∨ store.entry id ≠ none) (different : other ≠ id)
    (found : store.entry other = some value) :
    (store.set now stamp id maze ttl).entry other = some value := by
  have same : store.makeRoom now id = store := by
    refine if_neg fun full => ?_
    rcases room with small | known
    · exact absurd full.1 (Nat.not_le.mpr small)
    · exact known full.2
  rw [set, same, entry, List.lookup_cons, beq_false_of_ne different]
  exact entry_filter found (decide_eq_true different)

theorem contains_of_entry {value : PoisonEntry} (found : store.entry id = some value)
    (live : now < value.expires) : store.contains now id = true := by
  rw [entry] at found
  rw [contains, found, Option.any_some]
  exact decide_eq_true live

end PoisonStore

/-! ### Identifiers -/

/-- `is_valid_maze_name` -/
def isValidMazeName (name : String) : Bool :=
  match name.toList with
  | [] => false
  | first :: rest =>
    decide ((Bytes.ofText name).length ≤ 64) && first.isLower && rest.all fun character =>
      character.isLower || character.isDigit || character == '_' || character == '-'

theorem framable_of_isValidMazeName {name : String} (valid : isValidMazeName name = true) :
    Framable name := by
  unfold isValidMazeName at valid
  split at valid
  · cases valid
  · simp only [Bool.and_eq_true, decide_eq_true_eq] at valid
    exact Nat.lt_of_le_of_lt valid.1.1 (by decide)

/-- What an identifier is made of can be told from the question it answers. -/
theorem MazeCrypto.memoryQuestion_inj {crypto : MazeCrypto} {host host' name name' : String}
    {network network' : SourceNetwork} (fits : Framable host) (fits' : Framable host')
    (short : Framable name) (short' : Framable name')
    (same : crypto.memoryQuestion host name network = crypto.memoryQuestion host' name' network') :
    host = host' ∧ name = name' ∧ network = network' := by
  have parts := List.append_cancel_left (congrArg Prod.snd same)
  obtain ⟨hosts, rest⟩ := Bytes.bigFrame_append_inj fits fits' parts
  obtain ⟨names, networks⟩ := Bytes.bigFrame_append_inj short short' rest
  exact ⟨Bytes.ofText_inj hosts, Bytes.ofText_inj names,
    SourceNetwork.toBytes_inj (Bytes.bigFrame_inj networks)⟩

/-! ### Configurations -/

/-- What a snapshot of the state knows of mazes. `validate_mazes` has passed their names, and
the key is that of the deployment. -/
structure MazeView (crypto : MazeCrypto) where
  server : MazeServer
  same : server.crypto = crypto
  cache : server.Cache
  distinct : (server.site.mazes.map MazeConfig.name).Nodup
  valid : ∀ maze ∈ server.site.mazes, isValidMazeName maze.name = true

namespace MazeView

variable {crypto : MazeCrypto} (view : MazeView crypto)

def mazes : List MazeConfig := view.server.site.mazes

/-- What a lookup of a host leaves of the cache. -/
def touch (host : String) : MazeView crypto :=
  { view with
    cache := ⟨(view.server.site.mazeLookup view.cache.val host).2,
      view.cache.property.mazeLookup host⟩ }

/-- The maze that a request returns to, and the network it returns from. -/
def returned (request : MazeServer.MazeServe) (now : UInt64) :
    Option (MazeConfig × SourceNetwork) :=
  (view.server.route view.cache request.host request.rawPath).bind fun runtime =>
    if (view.server.tokenClass runtime request now).isAuthenticated then
      request.source.map fun network => (runtime.config, network)
    else none

/-- `poison_returned` -/
def poisonReturned (store : PoisonStore (List UInt8)) (host : String) (source : SourceNetwork)
    (now : Nat) : Bool :=
  match (view.server.site.mazeLookup view.cache.val host).1 with
  | .table table => table.any fun runtime =>
      store.contains now (view.server.crypto.memoryId host runtime.name source)
  | .noMazes => false
  | .refused => false

/-- A maze of this name is remembered for as long. -/
def Keeps (maze : MazeConfig) : Prop :=
  ∃ new ∈ view.mazes, new.name = maze.name ∧ new.memoryTtl = maze.memoryTtl

instance (maze : MazeConfig) : Decidable (view.Keeps maze) :=
  inferInstanceAs (Decidable (∃ new ∈ view.mazes, _))

variable {view}

theorem Keeps.framable {maze : MazeConfig} (kept : view.Keeps maze) : Framable maze.name := by
  obtain ⟨new, configured, named, -⟩ := kept
  exact named ▸ framable_of_isValidMazeName (view.valid new configured)

/-- Mazes of one name that a configuration keeps are remembered for the same time. -/
theorem Keeps.memoryTtl_eq {first second : MazeConfig} (kept : view.Keeps first)
    (kept' : view.Keeps second) (named : first.name = second.name) :
    first.memoryTtl = second.memoryTtl := by
  obtain ⟨new, configured, name, ttl⟩ := kept
  obtain ⟨new', configured', name', ttl'⟩ := kept'
  have same := List.inj_on_of_nodup_map view.distinct configured configured'
    (name.trans (named.trans name'.symm))
  rw [← ttl, same, ttl']

theorem keeps_of_mem {maze : MazeConfig} (configured : maze ∈ view.mazes) : view.Keeps maze :=
  ⟨maze, configured, rfl, rfl⟩

theorem Keeps.congr {first second : MazeConfig} (kept : view.Keeps first)
    (named : first.name = second.name) (ttl : first.memoryTtl = second.memoryTtl) :
    view.Keeps second := by
  obtain ⟨new, configured, name, time⟩ := kept
  exact ⟨new, configured, name.trans named, time.trans ttl⟩

/-- What `serve_maze` sets in the memory is set for the maze that was returned to. -/
theorem returned_eq {request : MazeServer.MazeServe} {runtime : MazeRuntime} {now later : UInt64}
    {nonces : Nonces}
    (found : view.server.route view.cache request.host request.rawPath = some runtime) :
    (view.server.serveMaze runtime request now later nonces).remembered =
      (view.returned request now).map fun returned =>
        view.server.crypto.memoryId request.host returned.1.name returned.2 := by
  rw [returned, found, Option.bind_some, MazeServer.serveMaze]
  dsimp only
  split
  · rw [Option.map_map]
    rfl
  · rfl

/-- Who asks for a link in time that was minted for his network returns. -/
theorem returned_mint {host : String} {runtime : MazeRuntime} (there : view.server.On host runtime)
    {path : List Char} (valid : IsMazePath path) {network peer : SourceNetwork}
    {expires time : UInt64} {nonce : Nonce} (early : time ≤ expires) :
    view.returned ⟨host, some network, peer, "GET",
        mazeLink (view.server.keys host runtime) (view.server.crypto.mint
          (view.server.keys host runtime) path (some network) expires nonce) path⟩ time =
      some (runtime.config, network) := by
  let token := view.server.crypto.mint (view.server.keys host runtime) path (some network) expires
    nonce
  have route : parseRoute ('/' :: (token ++ '/' :: path)) = some ⟨token, path⟩ :=
    parseRoute_of_link MazeCrypto.build_ne_nil MazeCrypto.slash_notMem_build valid
  have presented : view.server.presented view.cache ⟨host, some network, peer, "GET",
      mazeLink (view.server.keys host runtime) token path⟩ time =
      some (view.server.crypto.classify (view.server.keys host runtime) path token (some network)
        time) := MazeServer.presented_mazeLink there view.cache (.inl rfl) route
  have found := MazeServer.route_mazeLink there view.cache token path
  rw [MazeCrypto.classify_mint, if_neg (UInt64.not_lt.mpr early), Option.any_some,
    decide_eq_true rfl, if_pos rfl] at presented
  unfold MazeServer.presented at presented
  rw [found, Option.map_some] at presented
  unfold returned
  rw [found, Option.bind_some, Option.some.inj presented]
  rfl

/-- A table that a lookup finds has the mazes of the configuration. -/
theorem exists_of_poisonReturned {store : PoisonStore (List UInt8)} {host : String}
    {source : SourceNetwork} {now : Nat}
    (known : view.poisonReturned store host source now = true) :
    ∃ maze ∈ view.mazes, store.contains now (crypto.memoryId host maze.name source) = true := by
  unfold poisonReturned at known
  split at known
  · next table lookup =>
    obtain ⟨runtime, listed, set⟩ := List.any_eq_true.mp known
    have configs := buildTable_map_config (MazeSite.built_of_mazeLookup view.cache.property lookup)
    have configured := List.mem_map_of_mem (f := MazeRuntime.config) listed
    rw [configs] at configured
    rw [view.same] at set
    exact ⟨runtime.config, configured, set⟩
  · cases known
  · cases known

theorem poisonReturned_of_contains {store : PoisonStore (List UInt8)} {host : String}
    {source : SourceNetwork} {now : Nat} {maze : MazeConfig} (configured : maze ∈ view.mazes)
    (accepted : (view.server.site.mazeLookup view.cache.val host).1 ≠ .refused)
    (set : store.contains now (crypto.memoryId host maze.name source) = true) :
    view.poisonReturned store host source now = true := by
  unfold poisonReturned
  cases lookup : (view.server.site.mazeLookup view.cache.val host).1 with
  | refused => exact absurd lookup accepted
  | noMazes =>
    have some : view.server.site.mazes ≠ [] := List.ne_nil_of_mem configured
    rw [MazeSite.mazeLookup_of_sound view.cache.property some] at lookup
    unfold MazeSite.answer at lookup
    split at lookup <;> cases lookup
  | table table =>
    have configs := buildTable_map_config (MazeSite.built_of_mazeLookup view.cache.property lookup)
    have listed : maze ∈ table.map MazeRuntime.config := by
      rw [configs]
      exact configured
    obtain ⟨runtime, member, rfl⟩ := List.mem_map.mp listed
    refine List.any_eq_true.mpr ⟨runtime, member, ?_⟩
    rw [view.same]
    exact set

end MazeView

/-! ### Runs -/

/-- A request that was served as a return: when it was remembered, on which host, from which
network, and the maze as it was configured. -/
structure MazeReturn where
  stamp : Nat
  host : String
  maze : MazeConfig
  network : SourceNetwork

/-- The memory, the configuration that is installed, those that requests may still hold, and the
reload under way, with the mazes it has not yet looked at. The returns are recorded for the sake
of the statements. -/
structure PoisonState (crypto : MazeCrypto) where
  store : PoisonStore (List UInt8)
  current : MazeView crypto
  older : List (MazeView crypto)
  reload : Option (MazeView crypto × List MazeConfig)
  clock : Nat
  returns : List MazeReturn

/-- What can happen. A request is served by any configuration that was installed since the server
started. The memory is locked for each of its operations, so that what matters of a request to a
maze is the moment of its `set`. -/
inductive PoisonAction (crypto : MazeCrypto) where
  | serve (view : Nat) (request : MazeServer.MazeServe) (time : UInt64) (now stamp : Nat)
  | visit (view : Nat) (host : String) (now : Nat)
  | beginReload (target : MazeView crypto)
  | purge
  | install

namespace PoisonState

variable {crypto : MazeCrypto} (state : PoisonState crypto)

def boot (view : MazeView crypto) (clock : Nat) : PoisonState crypto :=
  ⟨[], view, [], none, clock, []⟩

def views : List (MazeView crypto) := state.current :: state.older

/-- The tables of a host are built in the cache of a configuration. -/
def touch : Nat → String → PoisonState crypto
  | 0, host => { state with current := state.current.touch host }
  | index + 1, host =>
    { state with older := state.older.modify index fun view => view.touch host }

/-- The maze a request returns to under one of the configurations, and its network. -/
def returned (view : Nat) (request : MazeServer.MazeServe) (time : UInt64) :
    Option (MazeConfig × SourceNetwork) :=
  state.views[view]?.bind fun view => view.returned request time

def serve (view : Nat) (request : MazeServer.MazeServe) (time : UInt64) (now stamp : Nat) :
    PoisonState crypto :=
  match state.returned view request time with
  | some (maze, network) =>
    { state.touch view request.host with
      store := state.store.set now stamp (crypto.memoryId request.host maze.name network)
        maze.name maze.memoryTtl
      clock := stamp
      returns := ⟨stamp, request.host, maze, network⟩ :: state.returns }
  | none => { state.touch view request.host with clock := stamp }

def visit (view : Nat) (host : String) (now : Nat) : PoisonState crypto :=
  { state.touch view host with clock := now }

/-- `rebuild` comes to the poison memory. -/
def beginReload (target : MazeView crypto) : PoisonState crypto :=
  { state with reload := some (target, state.current.mazes) }

/-- One turn of the loop over the old mazes. -/
def purge : PoisonState crypto :=
  match state.reload with
  | some (target, maze :: left) =>
    { state with
      store := if target.Keeps maze then state.store else state.store.purgeMaze maze.name
      reload := some (target, left) }
  | _ => state

/-- The new configuration is stored. -/
def install : PoisonState crypto :=
  match state.reload with
  | some (target, []) =>
    { state with
      current := target
      older := state.current :: state.older
      reload := none }
  | _ => state

def act : PoisonAction crypto → PoisonState crypto
  | .serve view request time now stamp => state.serve view request time now stamp
  | .visit view host now => state.visit view host now
  | .beginReload target => state.beginReload target
  | .purge => state.purge
  | .install => state.install

/-- The clock does not go back, hosts are canonical, and there is one reload at a time. HMAC is only
asked what is among the questions it is ideal on. -/
def Possible (asked : Set Question) : PoisonAction crypto → Prop
  | .serve view request time now stamp =>
    state.clock ≤ now ∧ now ≤ stamp ∧ (∃ host : RequestHost, host.val.text = request.host) ∧
      ∀ maze network, state.returned view request time = some (maze, network) →
        crypto.memoryQuestion request.host maze.name network ∈ asked
  | .visit _ _ now => state.clock ≤ now
  | .beginReload _ => state.reload = none
  | .purge => True
  | .install => True

/-- The maze is remembered for as long under the configuration that is installed, and if a reload is
under way then under its configuration too, or the reload has yet to drop it. -/
def Governs (maze : MazeConfig) : Prop :=
  state.current.Keeps maze ∧ ∀ target left, state.reload = some (target, left) →
    target.Keeps maze ∨ maze.name ∈ left.map MazeConfig.name

/-- No return is set for a maze that has been removed or given another time to remember. -/
def Timely : PoisonAction crypto → Prop
  | .serve view request time _ _ => ∀ maze network,
      state.returned view request time = some (maze, network) → state.Governs maze
  | _ => True

/-! ### What the memory is for -/

/-- Who is known to have returned has returned to a maze that is configured, not longer ago than
this maze is remembered. -/
def Earned (asked : Set Question) : Prop :=
  ∀ view ∈ state.views, ∀ (host : RequestHost) network now, state.clock ≤ now →
    (∀ maze ∈ view.mazes, crypto.memoryQuestion host.val.text maze.name network ∈ asked) →
    view.poisonReturned state.store host.val.text network now = true →
    ∃ record ∈ state.returns, ∃ maze ∈ state.current.mazes,
      record.host = host.val.text ∧ record.network = network ∧ record.maze.name = maze.name ∧
      record.stamp ≤ now ∧ now < record.stamp + maze.memoryTtl

/-- A return is seen by every request of its network on its host, under every configuration that
has the maze and serves the host. -/
def Visible (record : MazeReturn) : Prop :=
  ∀ view ∈ state.views, ∀ now, now < record.stamp + record.maze.memoryTtl →
    record.maze.name ∈ view.mazes.map MazeConfig.name →
    (view.server.site.mazeLookup view.cache.val record.host).1 ≠ .refused →
    view.poisonReturned state.store record.host record.network now = true

/-- The reload that is under way, if there is one, keeps the maze. -/
def Spares (maze : MazeConfig) : Prop :=
  ∀ target left, state.reload = some (target, left) → target.Keeps maze

/-- The store has room for what is set, and a reload that begins keeps the maze. -/
def Undisturbed (maze : MazeConfig) : PoisonAction crypto → Prop
  | .serve view request time _ _ => ∀ other network,
      state.returned view request time = some (other, network) →
      state.store.length < poisonMemoryCapacity ∨
        state.store.entry (crypto.memoryId request.host other.name network) ≠ none
  | .beginReload target => target.Keeps maze
  | _ => True

/-! ### Steps -/

variable {state} {asked : Set Question}

section Touch

variable (view : Nat) (host : String)

@[simp] theorem reload_touch : (state.touch view host).reload = state.reload := by
  cases view <;> rfl

@[simp] theorem store_touch : (state.touch view host).store = state.store := by
  cases view <;> rfl

@[simp] theorem returns_touch : (state.touch view host).returns = state.returns := by
  cases view <;> rfl

@[simp] theorem mazes_current_touch :
    (state.touch view host).current.mazes = state.current.mazes := by
  cases view <;> rfl

end Touch

/-- What governs depends on the configurations. -/
theorem Governs.congr {next : PoisonState crypto} {maze : MazeConfig}
    (governed : state.Governs maze) (mazes : next.current.mazes = state.current.mazes)
    (reload : next.reload = state.reload) : next.Governs maze := by
  refine ⟨?_, fun target left under => governed.2 target left (reload ▸ under)⟩
  obtain ⟨new, configured, same⟩ := governed.1
  exact ⟨new, mazes ▸ configured, same⟩

/-- What stands behind an entry of the memory. -/
structure Backs (asked : Set Question) (state : PoisonState crypto) (id : List UInt8)
    (entry : PoisonEntry) (record : MazeReturn) : Prop where
  served : record ∈ state.returns
  past : record.stamp ≤ state.clock
  fits : Framable record.host
  posed : crypto.memoryQuestion record.host record.maze.name record.network ∈ asked
  id : id = crypto.memoryId record.host record.maze.name record.network
  entry : entry = ⟨record.stamp + record.maze.memoryTtl, record.maze.name⟩
  governed : state.Governs record.maze

/-- The invariant: every entry goes back to a return that is still remembered, and a reload looks at
mazes that are configured. -/
structure Backed (asked : Set Question) (state : PoisonState crypto) : Prop where
  left : ∀ target left, state.reload = some (target, left) → ∀ maze ∈ left,
    maze ∈ state.current.mazes
  entries : ∀ id entry, (id, entry) ∈ state.store → ∃ record, Backs asked state id entry record

theorem backed_boot (view : MazeView crypto) (clock : Nat) : Backed asked (boot view clock) :=
  ⟨fun _ _ absent => (nomatch absent), fun _ _ member => absurd member List.not_mem_nil⟩

/-- An entry stays backed when nothing of what backs it is taken away. -/
theorem Backs.mono {next : PoisonState crypto} {id : List UInt8} {entry : PoisonEntry}
    {record : MazeReturn} (backs : Backs asked state id entry record)
    (returns : ∀ record ∈ state.returns, record ∈ next.returns) (clock : state.clock ≤ next.clock)
    (governed : next.Governs record.maze) : Backs asked next id entry record :=
  { backs with
    served := returns record backs.served
    past := backs.past.trans clock
    governed }

/-- A step that leaves the configurations alone has to answer for new entries only. -/
theorem Backed.of_same {next : PoisonState crypto} (backed : Backed asked state)
    (mazes : next.current.mazes = state.current.mazes) (reload : next.reload = state.reload)
    (clock : state.clock ≤ next.clock)
    (returns : ∀ record ∈ state.returns, record ∈ next.returns)
    (entries : ∀ id entry, (id, entry) ∈ next.store → (id, entry) ∈ state.store ∨
      ∃ record, Backs asked next id entry record) : Backed asked next := by
  refine ⟨fun target left under maze member => ?_, fun id entry member => ?_⟩
  · rw [mazes]
    exact backed.left target left (reload ▸ under) maze member
  · rcases entries id entry member with older | new
    · obtain ⟨record, backs⟩ := backed.entries id entry older
      exact ⟨record, backs.mono returns clock (backs.governed.congr mazes reload)⟩
    · exact new

theorem Backed.serve (backed : Backed asked state) {view : Nat} {request : MazeServer.MazeServe}
    {time : UInt64} {now stamp : Nat}
    (possible : state.Possible asked (.serve view request time now stamp))
    (timely : state.Timely (.serve view request time now stamp)) :
    Backed asked (state.serve view request time now stamp) := by
  obtain ⟨before, after, ⟨host, canonical⟩, posed⟩ := possible
  have later : state.clock ≤ stamp := before.trans after
  unfold PoisonState.serve
  split
  · next maze network returned =>
    refine backed.of_same (mazes_current_touch _ _) (reload_touch _ _) later
      (fun record member => List.mem_cons_of_mem _ member) fun id entry member => ?_
    rcases PoisonStore.mem_of_mem_set member with head | older
    · obtain ⟨rfl, rfl⟩ := Prod.mk.inj head
      refine .inr ⟨⟨stamp, request.host, maze, network⟩, List.mem_cons_self, le_rfl, ?_,
        posed maze network returned, rfl, rfl, ?_⟩
      · exact canonical ▸ MazeServer.framable_text host
      · exact (timely maze network returned).congr (mazes_current_touch _ _) (reload_touch _ _)
    · exact .inl older
  · refine backed.of_same (mazes_current_touch _ _) (reload_touch _ _) later
      (fun record member => ?_) fun id entry member => .inl ?_
    · exact (returns_touch view request.host).symm ▸ member
    · exact (store_touch view request.host) ▸ member

theorem Backed.visit (backed : Backed asked state) {view : Nat} {host : String} {now : Nat}
    (later : state.clock ≤ now) : Backed asked (state.visit view host now) := by
  refine backed.of_same (mazes_current_touch _ _) (reload_touch _ _) later
    (fun record member => ?_) fun id entry member => .inl ?_
  · exact (returns_touch view host).symm ▸ member
  · exact (store_touch view host) ▸ member

/-- A reload that begins has all the mazes before it. -/
theorem Backed.beginReload (backed : Backed asked state) (target : MazeView crypto) :
    Backed asked (state.beginReload target) := by
  constructor
  · rintro _ _ ⟨⟩ maze member
    exact member
  · intro id entry member
    obtain ⟨record, backs⟩ := backed.entries id entry member
    refine ⟨record, backs.mono (fun _ member => member) le_rfl ⟨backs.governed.1, ?_⟩⟩
    rintro _ _ ⟨⟩
    obtain ⟨new, configured, named, -⟩ := backs.governed.1
    exact .inr (named ▸ List.mem_map_of_mem configured)

/-- What a reload does to the maze that it looks at leaves it with the others. -/
theorem Backed.purge (backed : Backed asked state) : Backed asked state.purge := by
  unfold PoisonState.purge
  split
  · next target maze left under =>
    have configured := backed.left target (maze :: left) under
    constructor
    · rintro _ _ ⟨⟩ other member
      exact configured other (List.mem_cons_of_mem maze member)
    · intro id entry member
      have survived : (id, entry) ∈ state.store ∧
          (¬ target.Keeps maze → entry.maze ≠ maze.name) := by
        dsimp only at member
        split at member
        · next kept => exact ⟨member, fun dropped => absurd kept dropped⟩
        · obtain ⟨older, other⟩ := List.mem_filter.mp member
          exact ⟨older, fun _ => of_decide_eq_true other⟩
      obtain ⟨older, other⟩ := survived
      obtain ⟨record, backs⟩ := backed.entries id entry older
      refine ⟨record, backs.mono (fun _ member => member) le_rfl ⟨backs.governed.1, ?_⟩⟩
      rintro _ _ ⟨⟩
      rcases backs.governed.2 target (maze :: left) under with kept | named
      · exact .inl kept
      rcases List.mem_cons.mp named with same | others
      · -- The entry is one of the maze itself, which was not dropped.
        have kept : target.Keeps maze := by
          by_contra dropped
          refine other dropped ?_
          rw [backs.entry]
          exact same
        have here := MazeView.keeps_of_mem (configured maze List.mem_cons_self)
        exact .inl (kept.congr same.symm (here.memoryTtl_eq backs.governed.1 same.symm))
      · exact .inr others
  · exact backed

/-- A reload that has looked at all the mazes installs a configuration that keeps what is left. -/
theorem Backed.install (backed : Backed asked state) : Backed asked state.install := by
  unfold PoisonState.install
  split
  · next target under =>
    constructor
    · rintro _ _ ⟨⟩
    · intro id entry member
      obtain ⟨record, backs⟩ := backed.entries id entry member
      refine ⟨record, backs.mono (fun _ member => member) le_rfl ⟨?_, ?_⟩⟩
      · rcases backs.governed.2 target [] under with kept | named
        · exact kept
        · exact absurd named List.not_mem_nil
      · rintro _ _ ⟨⟩
  · exact backed

/-- A step that is possible and timely leaves every entry backed. -/
theorem Backed.act (backed : Backed asked state) {action : PoisonAction crypto}
    (possible : state.Possible asked action) (timely : state.Timely action) :
    Backed asked (state.act action) := by
  cases action with
  | serve view request time now stamp => exact backed.serve possible timely
  | visit view host now => exact backed.visit possible
  | beginReload target => exact backed.beginReload target
  | purge => exact backed.purge
  | install => exact backed.install

/-- What is backed is earned, as long as identifiers are told apart. -/
theorem Backed.earned (backed : Backed asked state) (ideal : Set.InjOn crypto.hmac asked) :
    state.Earned asked := by
  intro view _ host network now later posed known
  obtain ⟨maze, configured, set⟩ := MazeView.exists_of_poisonReturned known
  obtain ⟨entry, member, live⟩ := PoisonStore.exists_of_contains set
  obtain ⟨record, backs⟩ := backed.entries _ _ member
  have questions := ideal (posed maze configured) backs.posed backs.id
  obtain ⟨hosts, names, networks⟩ := MazeCrypto.memoryQuestion_inj (MazeServer.framable_text host)
    backs.fits (framable_of_isValidMazeName (view.valid maze configured)) backs.governed.1.framable
    questions
  obtain ⟨new, installed, named, ttl⟩ := backs.governed.1
  refine ⟨record, backs.served, new, installed, hosts.symm, networks.symm, named.symm,
    backs.past.trans later, ?_⟩
  rw [backs.entry] at live
  rw [ttl]
  exact live

/-! ### Remembering -/

/-- What is known of a return that nothing disturbs. -/
structure Remembered (asked : Set Question) (state : PoisonState crypto) (record : MazeReturn) :
    Prop where
  found : ∃ expires, state.store.entry (crypto.memoryId record.host record.maze.name
    record.network) = some ⟨expires, record.maze.name⟩ ∧
    record.stamp + record.maze.memoryTtl ≤ expires
  past : record.stamp ≤ state.clock
  fits : Framable record.host
  posed : crypto.memoryQuestion record.host record.maze.name record.network ∈ asked
  kept : state.current.Keeps record.maze
  spared : state.Spares record.maze

/-- What is remembered is seen. -/
theorem Remembered.visible {record : MazeReturn} (remembered : Remembered asked state record) :
    state.Visible record := by
  intro view _ now live named accepted
  obtain ⟨expires, found, late⟩ := remembered.found
  obtain ⟨maze, configured, same⟩ := List.mem_map.mp named
  refine MazeView.poisonReturned_of_contains configured accepted ?_
  rw [same]
  exact PoisonStore.contains_of_entry found (Nat.lt_of_lt_of_le live late)

/-- A return that is set for the same identifier was to the same maze, from the same network. -/
theorem Remembered.serve {record : MazeReturn} (remembered : Remembered asked state record)
    (ideal : Set.InjOn crypto.hmac asked) {view : Nat} {request : MazeServer.MazeServe}
    {time : UInt64} {now stamp : Nat}
    (possible : state.Possible asked (.serve view request time now stamp))
    (timely : state.Timely (.serve view request time now stamp))
    (undisturbed : state.Undisturbed record.maze (.serve view request time now stamp)) :
    Remembered asked (state.serve view request time now stamp) record := by
  obtain ⟨before, after, ⟨host, canonical⟩, posed⟩ := possible
  have later : record.stamp ≤ stamp := remembered.past.trans (before.trans after)
  obtain ⟨expires, found, late⟩ := remembered.found
  have kept : (state.touch view request.host).current.Keeps record.maze := by
    obtain ⟨new, configured, same⟩ := remembered.kept
    exact ⟨new, (mazes_current_touch view request.host).symm ▸ configured, same⟩
  have spared : ∀ target left, (state.touch view request.host).reload = some (target, left) →
      target.Keeps record.maze := by
    intro target left under
    exact remembered.spared target left (reload_touch view request.host ▸ under)
  unfold PoisonState.serve
  split
  · next maze network returned =>
    refine ⟨?_, later, remembered.fits, remembered.posed, kept, spared⟩
    by_cases same : crypto.memoryId record.host record.maze.name record.network =
        crypto.memoryId request.host maze.name network
    · have governed := timely maze network returned
      have questions := ideal remembered.posed (posed maze network returned) same
      obtain ⟨-, names, -⟩ := MazeCrypto.memoryQuestion_inj remembered.fits
        (canonical ▸ MazeServer.framable_text host) remembered.kept.framable
        governed.1.framable questions
      have ttl := remembered.kept.memoryTtl_eq governed.1 names
      refine ⟨stamp + maze.memoryTtl, ?_, ?_⟩
      · rw [same, PoisonStore.entry_set_self, names]
      · exact Nat.add_le_add later ttl.le
    · have room := undisturbed maze network returned
      exact ⟨expires, PoisonStore.entry_set_of_ne room same found, late⟩
  · refine ⟨⟨expires, ?_, late⟩, later, remembered.fits, remembered.posed, kept, spared⟩
    rw [store_touch]
    exact found

theorem Remembered.visit {record : MazeReturn} (remembered : Remembered asked state record)
    {view : Nat} {host : String} {now : Nat} (later : state.clock ≤ now) :
    Remembered asked (state.visit view host now) record := by
  obtain ⟨expires, found, late⟩ := remembered.found
  refine ⟨⟨expires, ?_, late⟩, remembered.past.trans later, remembered.fits, remembered.posed,
    ?_, fun target left under => remembered.spared target left (reload_touch view host ▸ under)⟩
  · exact (congrArg (PoisonStore.entry · _) (store_touch view host)).trans found
  · obtain ⟨new, configured, same⟩ := remembered.kept
    exact ⟨new, (mazes_current_touch view host).symm ▸ configured, same⟩

/-- A reload that keeps the maze drops another one. -/
theorem Remembered.purge {record : MazeReturn} (remembered : Remembered asked state record)
    (backed : Backed asked state) : Remembered asked state.purge record := by
  unfold PoisonState.purge
  split
  · next target maze left under =>
    have spared := remembered.spared target (maze :: left) under
    obtain ⟨expires, found, late⟩ := remembered.found
    refine ⟨⟨expires, ?_, late⟩, remembered.past, remembered.fits, remembered.posed,
      remembered.kept, ?_⟩
    · dsimp only
      split
      · exact found
      · next dropped =>
        refine PoisonStore.entry_filter found (decide_eq_true fun same => dropped ?_)
        have here := MazeView.keeps_of_mem (backed.left target (maze :: left) under maze
          List.mem_cons_self)
        exact spared.congr same (remembered.kept.memoryTtl_eq here same)
    · rintro _ _ ⟨⟩
      exact spared
  · exact remembered

theorem Remembered.install {record : MazeReturn} (remembered : Remembered asked state record) :
    Remembered asked state.install record := by
  unfold PoisonState.install
  split
  · next target under =>
    refine { remembered with kept := remembered.spared target [] under, spared := ?_ }
    rintro _ _ ⟨⟩
  · exact remembered

/-- A step that leaves a return undisturbed leaves it remembered. -/
theorem Remembered.act {record : MazeReturn} (remembered : Remembered asked state record)
    (backed : Backed asked state) (ideal : Set.InjOn crypto.hmac asked)
    {action : PoisonAction crypto} (possible : state.Possible asked action)
    (timely : state.Timely action) (undisturbed : state.Undisturbed record.maze action) :
    Remembered asked (state.act action) record := by
  cases action with
  | serve view request time now stamp =>
    exact remembered.serve ideal possible timely undisturbed
  | visit view host now => exact remembered.visit possible
  | beginReload target =>
    refine { remembered with spared := ?_ }
    rintro _ _ ⟨⟩
    exact undisturbed
  | purge => exact remembered.purge backed
  | install => exact remembered.install

theorem returned_zero (request : MazeServer.MazeServe) (time : UInt64) :
    state.returned 0 request time = state.current.returned request time := rfl

theorem serve_of_returned {view : Nat} {request : MazeServer.MazeServe} {time : UInt64}
    {now stamp : Nat} {maze : MazeConfig} {network : SourceNetwork}
    (returned : state.returned view request time = some (maze, network)) :
    state.serve view request time now stamp =
      { state.touch view request.host with
        store := state.store.set now stamp (crypto.memoryId request.host maze.name network)
          maze.name maze.memoryTtl
        clock := stamp
        returns := ⟨stamp, request.host, maze, network⟩ :: state.returns } := by
  unfold PoisonState.serve
  rw [returned]

theorem returns_of_returned {view : Nat} {request : MazeServer.MazeServe} {time : UInt64}
    {now stamp : Nat} {maze : MazeConfig} {network : SourceNetwork}
    (returned : state.returned view request time = some (maze, network)) :
    (state.act (.serve view request time now stamp)).returns =
      ⟨stamp, request.host, maze, network⟩ :: state.returns :=
  congrArg PoisonState.returns (serve_of_returned returned)

/-- Only a request that is served adds to the returns. -/
theorem exists_of_returns {action : PoisonAction crypto} {record : MazeReturn}
    (served : (state.act action).returns = record :: state.returns) :
    ∃ view request time now, action = .serve view request time now record.stamp ∧
      record.host = request.host ∧
      state.returned view request time = some (record.maze, record.network) := by
  have unchanged : ∀ {next : PoisonState crypto}, next.returns = record :: state.returns →
      next.returns ≠ state.returns := fun added same =>
    List.cons_ne_self record state.returns (added.symm.trans same)
  cases action with
  | serve view request time now stamp =>
    change (state.serve view request time now stamp).returns = record :: state.returns at served
    unfold serve at served
    split at served
    · next maze network returned =>
      obtain ⟨rfl, -⟩ := List.cons.inj served
      exact ⟨view, request, time, now, rfl, rfl, returned⟩
    · exact absurd (returns_touch view request.host) (unchanged served)
  | visit view host now => exact absurd (returns_touch view host) (unchanged served)
  | beginReload target => exact absurd rfl (unchanged served)
  | purge =>
    have same : state.purge.returns = state.returns := by
      unfold PoisonState.purge
      split <;> rfl
    exact absurd same (unchanged served)
  | install =>
    have same : state.install.returns = state.returns := by
      unfold PoisonState.install
      split <;> rfl
    exact absurd same (unchanged served)

/-- A return is remembered from when it is served on. -/
theorem remembered_of_serve {action : PoisonAction crypto} {record : MazeReturn}
    (possible : state.Possible asked action) (timely : state.Timely action)
    (served : (state.act action).returns = record :: state.returns)
    (spared : state.Spares record.maze) : Remembered asked (state.act action) record := by
  obtain ⟨view, request, time, now, rfl, hosts, returned⟩ := exists_of_returns served
  obtain ⟨before, after, ⟨host, canonical⟩, posed⟩ := possible
  have governed := timely record.maze record.network returned
  rw [act, serve_of_returned returned]
  refine ⟨⟨_, ?_, le_rfl⟩, le_rfl, ?_, ?_, ?_, ?_⟩
  · rw [hosts]
    exact PoisonStore.entry_set_self
  · rw [hosts]
    exact canonical ▸ MazeServer.framable_text host
  · rw [hosts]
    exact posed record.maze record.network returned
  · obtain ⟨new, configured, same⟩ := governed.1
    exact ⟨new, (mazes_current_touch view request.host).symm ▸ configured, same⟩
  · exact fun target left under => spared target left (reload_touch view request.host ▸ under)

/-! ### Runs of the memory -/

/-- A step of a run in which no return is set too late. -/
def Allowed (asked : Set Question) (state : PoisonState crypto) (action : PoisonAction crypto) :
    Prop :=
  state.Possible asked action ∧ state.Timely action

theorem backed_of_along {view : MazeView crypto} {clock : Nat}
    {actions : List (PoisonAction crypto)}
    (along : Machine.Along PoisonState.act (Allowed asked) (boot view clock) actions) :
    Backed asked (actions.foldl PoisonState.act (boot view clock)) :=
  along.preserves (Backed asked) (backed_boot view clock) fun _ _ backed allowed =>
    backed.act allowed.1 allowed.2

/-- As long as no return is set for a maze that has been removed or given another time, what the
memory knows is earned, and what it was told stays visible until it expires, unless the store was
full or the maze was removed or given another time. -/
theorem memory_earned (crypto : MazeCrypto) (asked : Set Question)
    (ideal : Set.InjOn crypto.hmac asked) (view : MazeView crypto) (clock : Nat)
    (actions : List (PoisonAction crypto))
    (along : Machine.Along PoisonState.act (Allowed asked) (boot view clock) actions) :
    (actions.foldl PoisonState.act (boot view clock)).Earned asked ∧
      ∀ earlier action later, actions = earlier ++ action :: later → ∀ record,
        ((earlier.foldl PoisonState.act (boot view clock)).act action).returns =
          record :: (earlier.foldl PoisonState.act (boot view clock)).returns →
        (earlier.foldl PoisonState.act (boot view clock)).Spares record.maze →
        Machine.Along PoisonState.act (fun state => state.Undisturbed record.maze)
          ((earlier.foldl PoisonState.act (boot view clock)).act action) later →
        (actions.foldl PoisonState.act (boot view clock)).Visible record := by
  refine ⟨(backed_of_along along).earned ideal, ?_⟩
  rintro earlier action later rfl record served spared undisturbed
  obtain ⟨first, ⟨allowed, rest⟩⟩ := Machine.along_append.mp along
  have backed := backed_of_along first
  have remembered := remembered_of_serve allowed.1 allowed.2 served spared
  have start : Backed asked ((earlier.foldl PoisonState.act (boot view clock)).act action) ∧
      Remembered asked ((earlier.foldl PoisonState.act (boot view clock)).act action) record :=
    ⟨backed.act allowed.1 allowed.2, remembered⟩
  have both := (rest.and undisturbed).preserves
    (fun state => Backed asked state ∧ Remembered asked state record) start fun _ _ known step =>
    ⟨known.1.act step.1.1 step.1.2, known.2.act known.1 ideal step.1.1 step.1.2 step.2⟩
  rw [List.foldl_append]
  exact both.2.visible

end PoisonState

/-! ### A return that is set too late -/

namespace SamplePoison

def maze (memoryTtl : Nat) : MazeConfig := { SampleMaze.maze with memoryTtl }

/-- A configuration that remembers a return for some time. -/
def view (memoryTtl : Nat) : MazeView SampleMaze.crypto where
  server := { SampleMaze.server with
    site := { SampleMaze.server.site with
      mazes := [maze memoryTtl]
      built := fun _ _ absent => nomatch absent } }
  same := rfl
  cache := ⟨[], MazeSite.sound_nil⟩
  distinct := List.nodup_singleton _
  valid := by
    intro maze member
    rw [List.mem_singleton.mp member]
    exact (by decide : isValidMazeName "trap" = true)

def hour : Nat := 3600000000000

def minute : Nat := 60000000000

def network : SourceNetwork := .v4 0x0a0102

def host : RequestHost := ⟨⟨"one.example", none⟩, "one.example", by decide⟩

def runtime (memoryTtl : Nat) : MazeRuntime :=
  ⟨(SampleMaze.crypto.deriveMazeKeys "one.example" "trap").routePrefix, maze memoryTtl⟩

theorem length_sevens : (List.replicate 16 (7 : UInt8)).length = 16 := rfl

/-- A request for a link that was minted for the network. -/
def request : MazeServer.MazeServe :=
  let keys := SampleMaze.crypto.deriveMazeKeys "one.example" "trap"
  ⟨"one.example", some network, network, "GET",
    mazeLink keys (SampleMaze.crypto.mint keys "foo".toList (some network) 1000
      ⟨List.replicate 16 7, length_sevens⟩) "foo".toList⟩

def asked : Set Question := {SampleMaze.crypto.memoryQuestion "one.example" "trap" network}

theorem on (memoryTtl : Nat) : (view memoryTtl).server.On "one.example" (runtime memoryTtl) :=
  ⟨[runtime memoryTtl], rfl, List.mem_singleton_self _⟩

theorem returned (memoryTtl : Nat) :
    (view memoryTtl).returned request 500 = some (maze memoryTtl, network) :=
  MazeView.returned_mint (on memoryTtl) (by unfold IsMazePath; decide) (by decide)

theorem ideal : Set.InjOn SampleMaze.crypto.hmac asked := Set.injOn_singleton _ _

/-- What is set for the request, under a configuration that remembers for so long. -/
def record (memoryTtl : Nat) : MazeReturn := ⟨0, request.host, maze memoryTtl, network⟩

/-- A reload that remembers for so long, and a request that began before it is installed. -/
def reloading (memoryTtl : Nat) : List (PoisonAction SampleMaze.crypto) :=
  [.beginReload (view memoryTtl), .purge, .serve 0 request 500 0 0, .install]

/-- The server when the memory has been purged. -/
def purged (memoryTtl : Nat) : PoisonState SampleMaze.crypto :=
  { PoisonState.boot (view hour) 0 with reload := some (view memoryTtl, []) }

theorem purge_beginReload (memoryTtl : Nat) :
    ((PoisonState.boot (view hour) 0).beginReload (view memoryTtl)).purge = purged memoryTtl := by
  have nothing : (if (view memoryTtl).Keeps (maze hour) then ([] : PoisonStore (List UInt8))
      else PoisonStore.purgeMaze [] (maze hour).name) = [] := by
    split <;> rfl
  exact congrArg (fun store => { purged memoryTtl with store }) nothing

theorem returned_purged (memoryTtl : Nat) :
    (purged memoryTtl).returned 0 request 500 = some (maze hour, network) :=
  (PoisonState.returned_zero _ _).trans (returned hour)

theorem possible_serve (memoryTtl : Nat) :
    (purged memoryTtl).Possible asked (.serve 0 request 500 0 0) := by
  refine ⟨le_rfl, le_rfl, ⟨host, rfl⟩, fun maze' network' found => ?_⟩
  have same := Option.some.inj ((returned_purged memoryTtl).symm.trans found)
  obtain ⟨rfl, rfl⟩ := Prod.mk.inj same
  exact Set.mem_singleton _

theorem reload_purged (memoryTtl : Nat) :
    (purged memoryTtl).reload = some (view memoryTtl, []) := rfl

/-- The configuration that is loaded keeps a maze that it remembers for as long. -/
theorem keeps_of_purged {target : MazeView SampleMaze.crypto} {left : List MazeConfig}
    (begun : (purged hour).reload = some (target, left)) : target.Keeps (maze hour) := by
  rw [reload_purged] at begun
  obtain ⟨loaded, -⟩ := Prod.mk.inj (Option.some.inj begun)
  rw [← loaded]
  exact MazeView.keeps_of_mem (List.mem_singleton_self _)

/-- The return is set between the purge and the installation, for a maze that is kept. -/
theorem allowed_reloading :
    Machine.Along PoisonState.act (PoisonState.Allowed asked) (.boot (view hour) 0)
      (reloading hour) := by
  refine ⟨⟨rfl, trivial⟩, ⟨trivial, trivial⟩, ?_, ⟨trivial, trivial⟩, Machine.along_nil _⟩
  change PoisonState.Allowed asked
    ((PoisonState.boot (view hour) 0).beginReload (view hour)).purge (.serve 0 request 500 0 0)
  rw [purge_beginReload]
  refine ⟨possible_serve hour, fun maze' network' found => ?_⟩
  have same := Option.some.inj ((returned_purged hour).symm.trans found)
  obtain ⟨rfl, -⟩ := Prod.mk.inj same
  exact ⟨MazeView.keeps_of_mem (List.mem_singleton_self _), fun _ _ begun =>
    .inl (keeps_of_purged begun)⟩

end SamplePoison

/-- A return that is served while the same maze is loaded anew is remembered by both
configurations. -/
theorem SamplePoison.memory_earned_reloading :
    ((SamplePoison.reloading SamplePoison.hour).foldl PoisonState.act
        (.boot (SamplePoison.view SamplePoison.hour) 0)).Earned SamplePoison.asked ∧
      ((SamplePoison.reloading SamplePoison.hour).foldl PoisonState.act
        (.boot (SamplePoison.view SamplePoison.hour) 0)).Visible
          (SamplePoison.record SamplePoison.hour) := by
  have earned := PoisonState.memory_earned SampleMaze.crypto SamplePoison.asked SamplePoison.ideal
    (SamplePoison.view SamplePoison.hour) 0 (SamplePoison.reloading SamplePoison.hour)
    SamplePoison.allowed_reloading
  have visible := earned.2 [.beginReload (SamplePoison.view SamplePoison.hour), .purge]
    (.serve 0 SamplePoison.request 500 0 0) [.install] rfl
    (SamplePoison.record SamplePoison.hour)
  have turned : [PoisonAction.beginReload (SamplePoison.view SamplePoison.hour), .purge].foldl
      PoisonState.act (.boot (SamplePoison.view SamplePoison.hour) 0) =
        SamplePoison.purged SamplePoison.hour :=
    SamplePoison.purge_beginReload SamplePoison.hour
  rw [turned] at visible
  refine ⟨earned.1, visible ?_ ?_ ⟨trivial, Machine.along_nil _⟩⟩
  · exact PoisonState.returns_of_returned (SamplePoison.returned_purged SamplePoison.hour)
  · exact fun _ _ begun => SamplePoison.keeps_of_purged begun

namespace SamplePoison

/-- A reload that remembers for a minute, with the same request. -/
def late : List (PoisonAction SampleMaze.crypto) := reloading minute

/-- The server when the new configuration is installed. -/
def installed : PoisonState SampleMaze.crypto where
  store := PoisonStore.set [] 0 0
    (SampleMaze.crypto.memoryId request.host (maze hour).name network) (maze hour).name hour
  current := view minute
  older := [(view hour).touch request.host]
  reload := none
  clock := 0
  returns := [record hour]

theorem foldl_late :
    late.foldl PoisonState.act (.boot (view hour) 0) = installed := by
  rw [late, reloading, List.foldl_cons, List.foldl_cons, List.foldl_cons, List.foldl_cons,
    List.foldl_nil, PoisonState.act, PoisonState.act, PoisonState.act, PoisonState.act,
    purge_beginReload, PoisonState.serve_of_returned (returned_purged minute)]
  rfl

theorem possible_late :
    Machine.Along PoisonState.act (fun state => state.Possible asked) (.boot (view hour) 0)
      late := by
  refine ⟨rfl, trivial, ?_, trivial, Machine.along_nil _⟩
  change ((PoisonState.boot (view hour) 0).beginReload (view minute)).purge.Possible asked
    (.serve 0 request 500 0 0)
  rw [purge_beginReload]
  exact possible_serve minute

/-- The new configuration still knows of the return after two minutes. -/
theorem known : (view minute).poisonReturned installed.store "one.example" network
    (2 * minute) = true := by
  have configured : maze minute ∈ (view minute).mazes := List.mem_singleton_self _
  have accepted : ((view minute).server.site.mazeLookup (view minute).cache.val
      "one.example").1 ≠ .refused := by
    rw [MazeSite.mazeLookup_of_sound (view minute).cache.property (List.cons_ne_nil _ _)]
    exact fun refused => nomatch refused
  refine MazeView.poisonReturned_of_contains configured accepted ?_
  exact PoisonStore.contains_of_entry PoisonStore.entry_set_self (by decide)

end SamplePoison

/-- Two minutes later the server knows of a return that it should remember for one. -/
theorem SamplePoison.memory_outlives :
    Set.InjOn SampleMaze.crypto.hmac SamplePoison.asked ∧
      Machine.Along PoisonState.act (fun state => state.Possible SamplePoison.asked)
        (.boot (SamplePoison.view SamplePoison.hour) 0) SamplePoison.late ∧
      ¬ (SamplePoison.late.foldl PoisonState.act
        (.boot (SamplePoison.view SamplePoison.hour) 0)).Earned SamplePoison.asked := by
  refine ⟨SamplePoison.ideal, SamplePoison.possible_late, fun earned => ?_⟩
  rw [SamplePoison.foldl_late] at earned
  have posed : ∀ maze ∈ (SamplePoison.view SamplePoison.minute).mazes,
      SampleMaze.crypto.memoryQuestion SamplePoison.host.val.text maze.name SamplePoison.network ∈
        SamplePoison.asked := by
    intro maze member
    rw [List.mem_singleton.mp member]
    exact Set.mem_singleton _
  obtain ⟨record, served, maze, configured, -, -, -, -, soon⟩ := earned
    (SamplePoison.view SamplePoison.minute) List.mem_cons_self SamplePoison.host
    SamplePoison.network (2 * SamplePoison.minute) (Nat.zero_le _) posed SamplePoison.known
  cases List.mem_singleton.mp served
  cases List.mem_singleton.mp configured
  exact absurd soon (by decide)

end Bagel
