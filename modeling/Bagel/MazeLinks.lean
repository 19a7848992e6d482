/-
This file models what the server does with mazes, `server/maze.rs`: it serves a maze route, it puts
a lure into a page, and it answers with a tarpit page. It proves what the links mean that it hands
out this way. A link of an authenticated page, of a lure or of a tarpit page means that a visitor
of one network was there: requested again from this network it is a return, from another network a
transfer, later it is expired, and on any other host, maze or path it is invalid. The link of a
decoy is invalid to everyone.

The keystream, the nonces, the external renderers and the clock may do as they please.
-/

import Bagel.Hosts
import Bagel.MazePages
import Bagel.Mazes

namespace Bagel

/-- `BudgetKey` -/
structure BudgetKey where
  host : String
  maze : String
  source : Option SourceNetwork

structure RenderPayload where
  seed : List Char
  host : String
  path : List Char
  links : List (List Char)

inductive RenderAttempt where
  | body (html : List Char)
  | fallback (label : String)

/-- What the functions of this file read of the state. -/
structure MazeServer where
  crypto : MazeCrypto
  site : MazeSite
  derived : ∀ host name, site.routePrefixOf host name =
    (crypto.deriveMazeKeys host name).routePrefix
  /-- How the external renderers answer, by their names. The last argument is `decoy`. -/
  renderers : String → Option (BudgetKey → RenderPayload → Bool → RenderAttempt)

/-- A host as `handle_request` has it. -/
abbrev RequestHost :=
  { host : CanonicalHost // ∃ authority, CanonicalHost.parse authority = .ok host }

structure MazeResponse where
  status : Nat
  headers : List (String × String)
  body : List Char

/-- `maze_envelope` -/
def mazeEnvelope (html : List Char) (headOnly : Bool) : MazeResponse where
  status := 200
  headers := [
    ("content-type", "text/html; charset=utf-8"),
    ("cache-control", "no-store"),
    ("referrer-policy", "no-referrer"),
    ("content-length", toString (Bytes.ofText (String.ofList html)).length)]
  body := if headOnly then [] else html

/-- A response with the links that were minted for its page. -/
structure RenderedMaze where
  response : MazeResponse
  links : List (List Char)

structure MazeRender where
  host : String
  source : Option SourceNetwork
  budgetSource : SourceNetwork
  authenticated : Bool
  seedInput : List UInt8
  payloadPath : List Char
  headOnly : Bool

/-- What the generator of the system gives for the links of a page: those that are planned for an
external renderer, and those that the built-in engine draws. -/
structure Nonces where
  planned : Nat → Nonce
  drawn : Nat → Nonce

/-- `format!("/{prefix}/{token}/{path}")` -/
def mazeLink (keys : MazeKeys) (token path : List Char) : List Char :=
  '/' :: (keys.routePrefix.toList ++ '/' :: (token ++ '/' :: path))

namespace MazeCrypto

variable (crypto : MazeCrypto) (host name : String) (source : SourceNetwork)

def memoryQuestion : Question :=
  ((crypto.deriveMazeKeys host name).memoryKey,
    Bytes.bigFrame (Bytes.ofText "bagel poison memory v1") ++
      (Bytes.bigFrame (Bytes.ofText host) ++ (Bytes.bigFrame (Bytes.ofText name) ++
        Bytes.bigFrame source.toBytes)))

/-- `memory_id`, under the key of the maze on the host. -/
def memoryId : List UInt8 := crypto.hmac (crypto.memoryQuestion host name source)

end MazeCrypto

namespace MazeServer

variable (server : MazeServer)

def keys (host : String) (runtime : MazeRuntime) : MazeKeys :=
  server.crypto.deriveMazeKeys host runtime.name

/-- The caches of maze tables that lookups can lead to. -/
def Cache : Type := { cache : MazeCache // server.site.Sound cache }

/-! ### Pages -/

def expiry (runtime : MazeRuntime) (now : UInt64) : UInt64 :=
  now + UInt64.ofNat runtime.config.tokenTtl

/-- The closure `mint` of `render_maze`. -/
def mintLink (runtime : MazeRuntime) (request : MazeRender) (now : UInt64) (nonce : Nonce)
    (path : List Char) : List Char :=
  let keys := server.keys request.host runtime
  let expires := expiry runtime now
  let token :=
    if request.authenticated then server.crypto.mint keys path request.source expires nonce
    else server.crypto.mintDecoy keys path request.source expires nonce
  mazeLink keys token path

def budget (runtime : MazeRuntime) : RenderBudget :=
  ⟨runtime.config.minLinks, runtime.config.maxLinks, runtime.config.minBytes,
    runtime.config.maxBytes⟩

/-- `render_maze` -/
def renderMaze (runtime : MazeRuntime) (request : MazeRender) (now : UInt64) (nonces : Nonces) :
    RenderedMaze :=
  let keys := server.keys request.host runtime
  let seedKey := if request.authenticated then keys.renderKey else keys.decoyKey
  let seed := pageSeed server.crypto seedKey request.seedInput
  let builtin :=
    let page := renderPage server.crypto seed (budget runtime) fun left =>
      server.mintLink runtime request now (nonces.drawn left)
    ⟨mazeEnvelope page.html request.headOnly, page.links⟩
  match server.renderers runtime.config.renderer with
  | some render =>
    let links := (planLinks server.crypto seed (budget runtime)).mapIdx fun index =>
      server.mintLink runtime request now (nonces.planned index)
    let key := ⟨request.host, runtime.name, some request.budgetSource⟩
    let payload := ⟨Base32.encode seed, request.host, request.payloadPath, links⟩
    match render key payload (!request.authenticated) with
    | .body html => ⟨mazeEnvelope html request.headOnly, links⟩
    | .fallback _ => builtin
  | none => builtin

/-! ### Routes -/

/-- Where `handle_request` finds the maze of a request. -/
def route (cache : server.Cache) (host : String) (rawPath : List Char) : Option MazeRuntime :=
  match (server.site.mazeLookup cache.val host).1, rawPath with
  | .table table, '/' :: rest => table.byPrefix (String.ofList (rest.takeWhile (· ≠ '/')))
  | _, _ => none

structure MazeServe where
  host : String
  source : Option SourceNetwork
  peerNetwork : SourceNetwork
  method : String
  rawPath : List Char

/-- What follows the route prefix. -/
def afterPrefix (runtime : MazeRuntime) (request : MazeServe) : List Char :=
  request.rawPath.drop (1 + (server.keys request.host runtime).routePrefix.length)

/-- What `serve_maze` makes of the path of a request. -/
def parsed (runtime : MazeRuntime) (request : MazeServe) : Option ParsedRoute :=
  if request.method = "GET" ∨ request.method = "HEAD" then
    parseRoute (server.afterPrefix runtime request)
  else none

/-- The class of a request to a maze. -/
def tokenClass (runtime : MazeRuntime) (request : MazeServe) (now : UInt64) : TokenClass :=
  match server.parsed runtime request with
  | some parsed =>
    server.crypto.classify (server.keys request.host runtime) parsed.mazePath parsed.token
      request.source now
  | none => .malformed

/-- What `serve_maze` does: what it sets in the poison memory, and what it answers. -/
structure ServedMaze where
  tokenClass : TokenClass
  remembered : Option (List UInt8)
  rendered : RenderedMaze

/-- `serve_maze`. It reads the clock for the token of the request, and once more for those of the
page. -/
def serveMaze (runtime : MazeRuntime) (request : MazeServe) (now later : UInt64)
    (nonces : Nonces) : ServedMaze :=
  let tokenClass := server.tokenClass runtime request now
  let mazePath := (server.parsed runtime request).map ParsedRoute.mazePath
  { tokenClass
    remembered :=
      if tokenClass.isAuthenticated then
        request.source.map (server.crypto.memoryId request.host runtime.name)
      else none
    rendered := server.renderMaze runtime
      { host := request.host
        source := request.source
        budgetSource := request.source.getD request.peerNetwork
        authenticated := tokenClass.isAuthenticated
        seedInput := Bytes.ofText (String.ofList
          (mazePath.getD (server.afterPrefix runtime request)))
        payloadPath := mazePath.getD []
        headOnly := request.method = "HEAD" } later nonces }

/-! ### Lures and tarpits -/

/-- The link of a lure, and the path it shows. -/
structure Lure where
  link : List Char
  path : List Char

def Lure.html (lure : Lure) : List Char :=
  "<div hidden><a href=\"".toList ++ lure.link ++ "\" rel=\"nofollow\" tabindex=\"-1\">".toList ++
    lure.path ++ "</a></div>".toList

/-- `lure_fragment` -/
def lureFragment (cache : server.Cache) (mazeName host : String) (clientIp : Option IpAddr)
    (pagePath : List Char) (now : UInt64) (nonce : Nonce) : Option Lure := do
  let runtime ← server.site.mazeByName cache.val host mazeName
  let keys := server.keys host runtime
  let seed := pageSeed server.crypto keys.renderKey (Bytes.ofText (String.ofList pagePath))
  let path ← (planLinks server.crypto seed ⟨1, 1, 0, 0⟩).head?
  let source := clientIp.map SourceNetwork.fromIp
  let token := server.crypto.mint keys path source (expiry runtime now) nonce
  return ⟨mazeLink keys token path, path⟩

/-- `tarpit_response`, `none` for the answer that the service is unavailable. -/
def tarpitResponse (cache : server.Cache) (mazeName host : String) (clientIp : Option IpAddr)
    (now : UInt64) (nonces : Nonces) : Option RenderedMaze := do
  let runtime ← server.site.mazeByName cache.val host mazeName
  let source := clientIp.map SourceNetwork.fromIp
  return server.renderMaze runtime
    { host
      source
      budgetSource := source.getD (SourceNetwork.fromIp (.v4 0))
      authenticated := source.isSome
      seedInput := Bytes.ofText "index"
      payloadPath := []
      headOnly := false } now nonces

/-! ### Where a link leads -/

/-- A maze is on a host. -/
def On (host : String) (runtime : MazeRuntime) : Prop :=
  ∃ table, buildTable server.site.routePrefixOf host server.site.mazes = .ok table ∧
    runtime ∈ table

/-- The class of a request to a maze, `none` where there is no maze. -/
def presented (cache : server.Cache) (request : MazeServe) (now : UInt64) : Option TokenClass :=
  (server.route cache request.host request.rawPath).map fun runtime =>
    server.tokenClass runtime request now

variable {server} {host : String} {runtime : MazeRuntime}

theorem on_of_route {cache : server.Cache} {rawPath : List Char}
    (found : server.route cache host rawPath = some runtime) : server.On host runtime := by
  unfold route at found
  split at found
  · next table rest lookup =>
    exact ⟨table, MazeSite.built_of_mazeLookup cache.property lookup,
      List.mem_of_find?_eq_some found⟩
  · cases found

theorem on_of_mazeByName {cache : server.Cache} {name : String}
    (found : server.site.mazeByName cache.val host name = some runtime) :
    server.On host runtime ∧ runtime.name = name := by
  unfold MazeSite.mazeByName at found
  split at found
  · next table lookup =>
    have named := List.find?_some found
    rw [decide_eq_true_eq] at named
    exact ⟨⟨table, MazeSite.built_of_mazeLookup cache.property lookup,
      List.mem_of_find?_eq_some found⟩, named⟩
  · cases found
  · cases found

/-- A route prefix consists of symbols. -/
theorem slash_notMem_routePrefix : '/' ∉ (server.keys host runtime).routePrefix.toList := by
  intro slash
  rw [keys, MazeCrypto.deriveMazeKeys] at slash
  dsimp only at slash
  rw [String.toList_ofList] at slash
  exact absurd (Base32.mem_symbols_of_mem_encode slash) (by decide)

/-- The link of a maze is routed to the maze, whatever was looked up before. -/
theorem route_mazeLink (there : server.On host runtime) (cache : server.Cache)
    (token path : List Char) :
    server.route cache host (mazeLink (server.keys host runtime) token path) = some runtime := by
  obtain ⟨table, built, listed⟩ := there
  have formed := wellFormed_of_buildTable built
  have configured : server.site.mazes ≠ [] := by
    intro nothing
    rw [nothing] at built
    cases built
    exact absurd listed List.not_mem_nil
  have lookup : (server.site.mazeLookup cache.val host).1 = .table table := by
    rw [MazeSite.mazeLookup_of_sound cache.property configured, MazeSite.fresh, built]
    rfl
  have segment : ((server.keys host runtime).routePrefix.toList ++
      '/' :: (token ++ '/' :: path)).takeWhile (· ≠ '/') =
      (server.keys host runtime).routePrefix.toList := by
    have before : ∀ character ∈ (server.keys host runtime).routePrefix.toList,
        decide (character ≠ '/') = true := fun character member =>
      decide_eq_true fun same => slash_notMem_routePrefix (same ▸ member)
    rw [List.takeWhile_append_of_pos before, List.takeWhile_cons_of_neg (by simp), List.append_nil]
  have same : (server.keys host runtime).routePrefix = runtime.routePrefix := by
    rw [formed.derived runtime listed, server.derived]
    rfl
  unfold route mazeLink
  simp only [lookup]
  rw [segment, String.ofList_toList, same]
  exact formed.byPrefix listed

variable {token path : List Char} {source : Option SourceNetwork} {peer : SourceNetwork}
  {method : String} {now : UInt64}

/-- What stands after the prefix of a link. -/
theorem afterPrefix_mazeLink :
    server.afterPrefix runtime
        ⟨host, source, peer, method, mazeLink (server.keys host runtime) token path⟩ =
      '/' :: (token ++ '/' :: path) := by
  have long : ('/' :: (server.keys host runtime).routePrefix.toList).length =
      1 + (server.keys host runtime).routePrefix.length := by
    rw [List.length_cons, String.length_toList, Nat.add_comm]
  exact List.drop_left' long

/-- A request for a link is classified as the token is at the path. -/
theorem presented_mazeLink (there : server.On host runtime) (cache : server.Cache)
    (reads : method = "GET" ∨ method = "HEAD")
    (route : parseRoute ('/' :: (token ++ '/' :: path)) = some ⟨token, path⟩) :
    server.presented cache
        ⟨host, source, peer, method, mazeLink (server.keys host runtime) token path⟩ now =
      some (server.crypto.classify (server.keys host runtime) path token source now) := by
  unfold presented
  rw [route_mazeLink there]
  have parsed : server.parsed runtime
      ⟨host, source, peer, method, mazeLink (server.keys host runtime) token path⟩ =
      some ⟨token, path⟩ := by
    rw [MazeServer.parsed, if_pos reads, afterPrefix_mazeLink, route]
  rw [Option.map_some, tokenClass, parsed]

/-! ### What a link means -/

section Meaning

variable (server) (asked : Set Question) (derived : Set (List UInt8)) (place : MazePlace)
  (network : SourceNetwork) (expires : UInt64) (token : List Char)

/-- A token that was minted for a link to a place and for a network says that who presents it was
served the link on this network. Questions of HMAC that do not go without saying are among those
that are asked. -/
structure Means : Prop where
  returns : ∀ (cache : server.Cache) ip peer method now, method = "GET" ∨ method = "HEAD" →
    SourceNetwork.fromIp ip = network → now ≤ expires →
    server.presented cache ⟨place.host, some (SourceNetwork.fromIp ip), peer, method,
      mazeLink (place.keys server.crypto) token place.path⟩ now = some .validReturn
  transfers : ∀ (cache : server.Cache) ip peer method now, method = "GET" ∨ method = "HEAD" →
    SourceNetwork.fromIp ip ≠ network → now ≤ expires →
    (∀ posed ∈ [network, SourceNetwork.fromIp ip],
      MazeCrypto.bindingQuestion (place.keys server.crypto).bindingKey posed ∈ asked) →
    server.presented cache ⟨place.host, some (SourceNetwork.fromIp ip), peer, method,
      mazeLink (place.keys server.crypto) token place.path⟩ now = some .transfer
  expires : ∀ (cache : server.Cache) source peer method now, method = "GET" ∨ method = "HEAD" →
    expires < now →
    server.presented cache ⟨place.host, source, peer, method,
      mazeLink (place.keys server.crypto) token place.path⟩ now = some .expired
  elsewhere : ∀ (cache : server.Cache) (host : RequestHost) source peer method rawPath runtime
    path now,
    server.route cache host.val.text rawPath = some runtime →
    server.parsed runtime ⟨host.val.text, source, peer, method, rawPath⟩ = some ⟨token, path⟩ →
    (⟨host.val.text, runtime.name, path⟩ : MazePlace) ≠ place →
    (∀ posed ∈ [place, ⟨host.val.text, runtime.name, path⟩],
      posed.Poses server.crypto asked derived (MazeCrypto.tokenHeader token)) →
    server.presented cache ⟨host.val.text, source, peer, method, rawPath⟩ now = some .invalid

/-- A link to some path of a maze that means that its visitor was there. -/
def MeansVisit (host : String) (runtime : MazeRuntime) (link : List Char) : Prop :=
  ∃ token path, link = mazeLink (server.keys host runtime) token path ∧
    parseRoute ('/' :: (token ++ '/' :: path)) = some ⟨token, path⟩ ∧
    server.Means asked derived ⟨host, runtime.name, path⟩ network expires token

/-- A link that is invalid to everyone and at all times. -/
def MeansNothing (host : String) (link : List Char) : Prop :=
  ∀ (cache : server.Cache) source peer method now, method = "GET" ∨ method = "HEAD" →
    server.presented cache ⟨host, source, peer, method, link⟩ now = some .invalid

end Meaning

variable {asked : Set Question} {derived : Set (List UInt8)} {network : SourceNetwork}
  {expires : UInt64} {nonce : Nonce}

theorem framable_text (host : RequestHost) : Framable host.val.text := by
  obtain ⟨host, authority, parsed⟩ := host
  have short := CanonicalHost.length_parse_le parsed
  exact Nat.lt_of_le_of_lt (Bytes.length_ofText_le host.text) (by omega)

/-- Minting gives a link a meaning. -/
theorem means_mint (ideal : server.crypto.Ideal asked derived) {host : RequestHost}
    (there : server.On host.val.text runtime) (valid : IsMazePath path) :
    server.MeansVisit asked derived network expires host.val.text runtime
      (mazeLink (server.keys host.val.text runtime) (server.crypto.mint
        (server.keys host.val.text runtime) path (some network) expires nonce) path) := by
  let token := server.crypto.mint (server.keys host.val.text runtime) path (some network) expires
    nonce
  have route : parseRoute ('/' :: (token ++ '/' :: path)) = some ⟨token, path⟩ :=
    parseRoute_of_link MazeCrypto.build_ne_nil MazeCrypto.slash_notMem_build valid
  have classified : ∀ source now, server.crypto.classify (server.keys host.val.text runtime) path
      token source now =
        if expires < now then .expired
        else if source.any fun other =>
            server.crypto.bindingValue (server.keys host.val.text runtime).bindingKey network =
            server.crypto.bindingValue (server.keys host.val.text runtime).bindingKey other then
          .validReturn
        else .transfer := fun source now => MazeCrypto.classify_mint
  refine ⟨token, path, rfl, route, ?_⟩
  constructor
  · intro cache ip peer method now reads same early
    refine (presented_mazeLink there cache reads route).trans (congrArg some ?_)
    rw [classified, if_neg (UInt64.not_lt.mpr early), same, Option.any_some,
      decide_eq_true rfl, if_pos rfl]
  · intro cache ip peer method now reads other early posed
    have different := ideal.bindingValue_ne (Ne.symm other) (posed network List.mem_cons_self)
      (posed _ (List.mem_cons_of_mem _ List.mem_cons_self))
    refine (presented_mazeLink there cache reads route).trans (congrArg some ?_)
    rw [classified, if_neg (UInt64.not_lt.mpr early), Option.any_some]
    exact if_neg fun same => different (of_decide_eq_true same)
  · intro cache source peer method now reads late
    refine (presented_mazeLink there cache reads route).trans (congrArg some ?_)
    rw [classified, if_pos late]
  · intro cache host' source peer method rawPath runtime' path' now found parsed other posed
    have header : MazeCrypto.tokenHeader token =
        server.crypto.header (server.keys host.val.text runtime) (some network) expires nonce :=
      MazeCrypto.tokenHeader_build
    rw [header] at posed
    have here := posed _ List.mem_cons_self
    have there' := posed _ (List.mem_cons_of_mem _ List.mem_cons_self)
    unfold presented
    rw [found, Option.map_some, tokenClass, parsed]
    exact congrArg some (MazePlace.classify_elsewhere ideal (framable_text host)
      (framable_text host') (Ne.symm other) here there')

/-- The link of a decoy means nothing. -/
theorem meansNothing_mintDecoy (there : server.On host runtime) (valid : IsMazePath path) :
    server.MeansNothing host (mazeLink (server.keys host runtime) (server.crypto.mintDecoy
      (server.keys host runtime) path source expires nonce) path) := by
  let token := server.crypto.mintDecoy (server.keys host runtime) path source expires nonce
  have route : parseRoute ('/' :: (token ++ '/' :: path)) = some ⟨token, path⟩ :=
    parseRoute_of_link MazeCrypto.build_ne_nil MazeCrypto.slash_notMem_build valid
  intro cache source' peer method now reads
  exact (presented_mazeLink there cache reads route).trans
    (congrArg some MazeCrypto.classify_mintDecoy)

/-- Every link of a page was minted for some path. -/
theorem exists_of_mem_renderMaze {request : MazeRender} {nonces : Nonces} {link : List Char}
    (carried : link ∈ (server.renderMaze runtime request now nonces).links) :
    ∃ nonce path, IsMazePath path ∧ link = server.mintLink runtime request now nonce path := by
  have builtin : ∀ seed, link ∈ (renderPage server.crypto seed (budget runtime) fun left =>
      server.mintLink runtime request now (nonces.drawn left)).links →
      ∃ nonce path, IsMazePath path ∧ link = server.mintLink runtime request now nonce path := by
    intro seed member
    obtain ⟨left, path, valid, rfl⟩ := exists_of_mem_links member
    exact ⟨_, path, valid, rfl⟩
  unfold renderMaze at carried
  dsimp only at carried
  split at carried
  · split at carried
    · obtain ⟨index, within, rfl⟩ := List.mem_mapIdx.mp carried
      exact ⟨_, _, isMazePath_of_mem_planLinks _ (List.getElem_mem within), rfl⟩
    · exact builtin _ carried
  · exact builtin _ carried

/-- A page that is served as authenticated was asked for by someone whose network is known. -/
theorem exists_source_of_authenticated {request : MazeServe}
    (returned : (server.tokenClass runtime request now).isAuthenticated = true) :
    ∃ network, request.source = some network := by
  have valid : server.tokenClass runtime request now = .validReturn := of_decide_eq_true returned
  unfold tokenClass at valid
  split at valid
  · cases known : request.source with
    | some network => exact ⟨network, rfl⟩
    | none =>
      rw [known] at valid
      exact absurd valid MazeCrypto.classify_none_ne
  · cases valid

/-- What the links of a page mean is settled by whether the page is authenticated. -/
theorem means_of_mem_renderMaze (ideal : server.crypto.Ideal asked derived) {host : RequestHost}
    (there : server.On host.val.text runtime) {request : MazeRender}
    (same : request.host = host.val.text) {nonces : Nonces} {link : List Char}
    (carried : link ∈ (server.renderMaze runtime request now nonces).links) :
    (request.authenticated = true → ∀ network, request.source = some network →
      server.MeansVisit asked derived network (expiry runtime now) host.val.text runtime link) ∧
    (request.authenticated = false → server.MeansNothing host.val.text link) := by
  obtain ⟨nonce, path, valid, rfl⟩ := exists_of_mem_renderMaze carried
  unfold mintLink
  rw [same]
  constructor
  · intro authenticated network known
    rw [authenticated, known]
    exact means_mint ideal there valid
  · intro decoy
    rw [decoy]
    exact meansNothing_mintDecoy there valid

/-- What the links of a server mean. -/
structure LinksMean (server : MazeServer) (asked : Set Question) (derived : Set (List UInt8)) :
    Prop where
  /-- Whatever a page is seeded with and whatever its budget is. -/
  drawn : ∀ (host : RequestHost) runtime seed budget network expires (nonces : Nat → Nonce) link,
    server.On host.val.text runtime →
    (link ∈ (renderPage server.crypto seed budget fun left path =>
        mazeLink (server.keys host.val.text runtime) (server.crypto.mint
          (server.keys host.val.text runtime) path (some network) expires (nonces left))
          path).links ∨
      link ∈ (planLinks server.crypto seed budget).mapIdx fun index path =>
        mazeLink (server.keys host.val.text runtime) (server.crypto.mint
          (server.keys host.val.text runtime) path (some network) expires (nonces index)) path) →
    server.MeansVisit asked derived network expires host.val.text runtime link
  served : ∀ (cache : server.Cache) (host : RequestHost) source peer method rawPath runtime now
    later nonces,
    server.route cache host.val.text rawPath = some runtime →
    let served := server.serveMaze runtime ⟨host.val.text, source, peer, method, rawPath⟩ now later
      nonces
    ∀ link ∈ served.rendered.links,
      (served.tokenClass = .validReturn → ∃ network, source = some network ∧
        server.MeansVisit asked derived network (expiry runtime later) host.val.text runtime link) ∧
      (served.tokenClass ≠ .validReturn → server.MeansNothing host.val.text link)
  lures : ∀ (cache : server.Cache) (host : RequestHost) name runtime ip page now nonce,
    server.site.mazeByName cache.val host.val.text name = some runtime →
    ∃ lure, server.lureFragment cache name host.val.text (some ip) page now nonce = some lure ∧
      server.MeansVisit asked derived (SourceNetwork.fromIp ip) (expiry runtime now)
        host.val.text runtime lure.link
  tarpits : ∀ (cache : server.Cache) (host : RequestHost) name runtime ip now nonces,
    server.site.mazeByName cache.val host.val.text name = some runtime →
    ∃ rendered,
      server.tarpitResponse cache name host.val.text (some ip) now nonces = some rendered ∧
      ∀ link ∈ rendered.links, server.MeansVisit asked derived (SourceNetwork.fromIp ip)
        (expiry runtime now) host.val.text runtime link
  decoys : ∀ (cache : server.Cache) (host : RequestHost) name now nonces rendered,
    server.tarpitResponse cache name host.val.text none now nonces = some rendered →
    ∀ link ∈ rendered.links, server.MeansNothing host.val.text link
  tokens : ∀ first second bytes, Base32.decode first = some bytes →
    Base32.decode second = some bytes → first = second

/-- The links of every server mean what they were minted for. -/
theorem links_mean (server : MazeServer) (asked : Set Question) (derived : Set (List UInt8))
    (ideal : server.crypto.Ideal asked derived) : server.LinksMean asked derived := by
  constructor
  · intro host runtime seed budget network expires nonces link there carried
    rcases carried with drawn | planned
    · obtain ⟨left, path, valid, rfl⟩ := exists_of_mem_links drawn
      exact means_mint ideal there valid
    · obtain ⟨index, within, rfl⟩ := List.mem_mapIdx.mp planned
      exact means_mint ideal there (isMazePath_of_mem_planLinks _ (List.getElem_mem within))
  · intro cache host source peer method rawPath runtime now later nonces found served link carried
    have meaning := means_of_mem_renderMaze ideal (on_of_route found) rfl carried
    constructor
    · intro returned
      have authenticated : served.tokenClass.isAuthenticated = true := decide_eq_true returned
      obtain ⟨network, known⟩ := exists_source_of_authenticated authenticated
      exact ⟨network, known, meaning.1 authenticated network known⟩
    · intro other
      exact meaning.2 (decide_eq_false other)
  · intro cache host name runtime ip page now nonce found
    let seed := pageSeed server.crypto (server.keys host.val.text runtime).renderKey
      (Bytes.ofText (String.ofList page))
    have count : 1 ≤ (planLinks server.crypto seed ⟨1, 1, 0, 0⟩).length :=
      (length_planLinks server.crypto ⟨1, 1, 0, 0⟩ le_rfl seed).1
    obtain ⟨path, rest, planned⟩ :=
      List.exists_cons_of_length_pos (Nat.lt_of_lt_of_le Nat.one_pos count)
    obtain ⟨there, -⟩ := on_of_mazeByName found
    have valid : IsMazePath path :=
      isMazePath_of_mem_planLinks server.crypto (planned ▸ List.mem_cons_self)
    let keys := server.keys host.val.text runtime
    let token := server.crypto.mint keys path (some (SourceNetwork.fromIp ip)) (expiry runtime now)
      nonce
    refine ⟨⟨mazeLink keys token path, path⟩, ?_, means_mint ideal there valid⟩
    have head : (planLinks server.crypto seed ⟨1, 1, 0, 0⟩).head? = some path := by
      rw [planned]
      rfl
    unfold lureFragment
    rw [found]
    exact (congrArg (Option.bind · _) head).trans rfl
  · intro cache host name runtime ip now nonces found
    obtain ⟨there, -⟩ := on_of_mazeByName found
    unfold tarpitResponse
    rw [found]
    refine ⟨_, rfl, fun link carried => ?_⟩
    exact (means_of_mem_renderMaze ideal there rfl carried).1 rfl _ rfl
  · intro cache host name now nonces rendered answered link carried
    obtain ⟨runtime, found, made⟩ := Option.bind_eq_some_iff.mp answered
    obtain ⟨there, -⟩ := on_of_mazeByName found
    rw [← Option.some.inj made] at carried
    exact (means_of_mem_renderMaze ideal there rfl carried).2 rfl
  · exact fun first second bytes => Base32.decode_inj

end MazeServer

/-! ### A server with one maze -/

namespace SampleMaze

/-- Functions that are good enough for a few questions. -/
def crypto : MazeCrypto where
  hmac question :=
    Bytes.big 16 (Bytes.number question.1 + Bytes.number question.2) ++ List.replicate 16 0
  expand info := Bytes.big 32 (Bytes.number info % (2 ^ 128 - 159))
  length_hmac question := by
    rw [List.length_append, Bytes.length_big, List.length_replicate]
  length_expand info := Bytes.length_big 32 _

def maze : MazeConfig where
  name := "trap"
  renderer := "builtin"
  tokenTtl := 600
  memoryTtl := 3600000000000
  minLinks := 1
  maxLinks := 2
  minBytes := 1024
  maxBytes := 2048

def server : MazeServer where
  crypto := crypto
  site := {
    mazes := [maze]
    tables := fun _ => none
    routePrefixOf := fun host name => (crypto.deriveMazeKeys host name).routePrefix
    built := fun _ _ absent => nomatch absent }
  derived _ _ := rfl
  renderers _ := none

def here : MazePlace := ⟨"one.example", "trap", "foo".toList⟩

def there : MazePlace := ⟨"two.example", "trap", "foo".toList⟩

def header : List UInt8 :=
  crypto.header (here.keys crypto) (some (.v4 0x0a0102)) 1000 ⟨List.replicate 16 7, rfl⟩

/-- What is asked when a link is presented at two hosts and from two networks. -/
def asked : List Question := [
  MazeCrypto.tagQuestion (here.keys crypto).macKey header here.path,
  MazeCrypto.tagQuestion (there.keys crypto).macKey header there.path,
  MazeCrypto.bindingQuestion (here.keys crypto).bindingKey (.v4 0x0a0102),
  MazeCrypto.bindingQuestion (here.keys crypto).bindingKey (.v4 0x0a6302)]

def derived : List (List UInt8) := [
  keyInfo "mac" "one.example" "trap", keyInfo "mac" "two.example" "trap"]

set_option maxRecDepth 20000 in
theorem ideal : crypto.Ideal {question | question ∈ asked} {info | info ∈ derived} := by
  have macs : ∀ first ∈ asked, ∀ second ∈ asked, crypto.mac first = crypto.mac second →
      first = second := by decide
  have keys : ∀ first ∈ derived, ∀ second ∈ derived, crypto.expand first = crypto.expand second →
      first = second := by decide
  exact ⟨fun first member second member' => macs first member second member',
    fun first member second member' => keys first member second member'⟩

end SampleMaze

theorem SampleMaze.links_mean_server : SampleMaze.server.LinksMean
    {question | question ∈ SampleMaze.asked} {info | info ∈ SampleMaze.derived} :=
  MazeServer.links_mean SampleMaze.server _ _ SampleMaze.ideal

end Bagel
