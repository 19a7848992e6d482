/-
This file models `proxy/backend.rs`: the pool of backends that a configuration names, by the
pattern of the hosts they serve. A host is served by the backend of its own name, else by
that of the longest suffix, else by the fallback, and a rule finds a backend by the name it
has in the configuration.
-/

import Bagel.Hosts
import Bagel.Rules

namespace Bagel

structure BackendConfig where
  name : String
  url : String
  host : Option String
  ipHeader : Option String
  deriving DecidableEq

/-- What `http::Uri` reads of the URL of a backend. -/
structure TargetUri where
  /-- The scheme is `http`. -/
  http : Bool
  host : Option String
  path : String
  query : Option String

structure Backend where
  config : BackendConfig
  host : Option HeaderValue
  ipHeader : Option HeaderName

/-- `BackendPool` -/
structure BackendPool where
  exact : List (String × Backend)
  /-- `*.example.com` under its suffix `.example.com`. -/
  wildcard : List (String × Backend)
  fallback : Option Backend

namespace BackendPool

/-! ### Building -/

/-- A value that has to be readable, or a problem with its text. -/
def readable {Value : Type} (read : String → Option Value) (problem : String) :
    Option String → Except Error (Option Value)
  | none => .ok none
  | some text =>
    match read text with
    | some value => .ok (some value)
    | none => .error (.config problem)

/-- A backend with its target and its headers checked. -/
def buildBackend (parseUri : String → Except String TargetUri) (config : BackendConfig) :
    Except Error Backend := do
  let target ← inPlace ("invalid backend URL " ++ config.url) (parseUri config.url)
  let place := "backend '" ++ config.name ++ "'"
  if !target.http || target.host.isNone then
    throw (.config (place ++ " requires an absolute HTTP URL, upstream TLS is not implemented"))
  if target.path ≠ "/" || target.query.isSome then
    throw (.config (place ++ " URL cannot contain a path prefix or query"))
  let host ← readable HeaderValue.fromStr
    (place ++ " has an invalid host header, failed to parse header value") config.host
  let ipHeader ← readable (fun text => HeaderName.parse text.toList)
    (place ++ " has an invalid ip-header name, invalid HTTP header name") config.ipHeader
  return ⟨config, host, ipHeader⟩

/-- The canonical form of the host in a pattern. -/
def patternHost (name host : String) : Except Error CanonicalHost :=
  inPlace ("backend pattern '" ++ name ++ "'") (CanonicalHost.parse host)

/-- What `strip_prefix("*.")` leaves of a pattern. -/
def wildcardHost (name : String) : Option String :=
  match name.toList with
  | '*' :: '.' :: rest => some (String.ofList rest)
  | _ => none

/-- The body of the loop of `BackendPool::build`. The patterns so far are those it has seen. -/
def addBackend (parseUri : String → Except String TargetUri) (state : BackendPool × List String)
    (config : BackendConfig) : Except Error (BackendPool × List String) := do
  let (pool, seen) := state
  let backend ← buildBackend parseUri config
  if config.name = "*" then
    if seen.contains "*" then throw (.config "duplicate backend pattern '*'")
    return ({ pool with fallback := some backend }, "*" :: seen)
  else
    match wildcardHost config.name with
    | some host =>
      let canonical ← patternHost config.name host
      let pattern := "." ++ canonical.text
      if seen.contains pattern then
        throw (.config ("duplicate backend pattern '" ++ config.name ++ "'"))
      return ({ pool with wildcard := pool.wildcard ++ [(pattern, backend)] }, pattern :: seen)
    | none =>
      let canonical ← patternHost config.name config.name
      let pattern := canonical.text
      if seen.contains pattern then
        throw (.config ("duplicate backend pattern '" ++ config.name ++ "'"))
      return ({ pool with exact := pool.exact ++ [(pattern, backend)] }, pattern :: seen)

/-- `BackendPool::build` -/
def build (parseUri : String → Except String TargetUri) (configs : List BackendConfig) :
    Except Error BackendPool := do
  let (pool, _) ← configs.foldlM (addBackend parseUri) (⟨[], [], none⟩, [])
  return { pool with
    wildcard := pool.wildcard.mergeSort fun first second =>
      second.1.utf8ByteSize ≤ first.1.utf8ByteSize }

/-! ### Lookup -/

variable (pool : BackendPool)

/-- `BackendPool::select` -/
def select (host : String) : Option Backend :=
  (pool.exact.find? fun entry => entry.1 = host).map Prod.snd <|>
    (pool.wildcard.find? fun entry => entry.1.toList.isSuffixOf host.toList).map Prod.snd <|>
    pool.fallback

/-- The backends in the order `by_name` looks through them. -/
def listed : List Backend :=
  pool.exact.map Prod.snd ++ pool.wildcard.map Prod.snd ++ pool.fallback.toList

/-- `BackendPool::by_name` -/
def byName (name : String) : Option Backend :=
  pool.listed.find? fun backend => backend.config.name = name

/-- The names that `by_name` finds. -/
def names : List String := pool.listed.map fun backend => backend.config.name

theorem mem_names_iff (name : String) : name ∈ pool.names ↔ (pool.byName name).isSome := by
  unfold names byName
  rw [List.mem_map, List.find?_isSome]
  constructor
  · rintro ⟨backend, listed, rfl⟩
    exact ⟨backend, listed, decide_eq_true rfl⟩
  · rintro ⟨backend, listed, found⟩
    exact ⟨backend, listed, of_decide_eq_true found⟩

end BackendPool

end Bagel
