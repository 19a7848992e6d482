/-
This file models `firewall.rs`: enforcement scopes, the memberships that bans
give rise to, their normalisation, and the nftables ruleset rendered from them.

A scope carries the shape its constructors give it. `all_ports` and `protocol`
leave the ports empty, and `new` refuses an empty port list and a redirect of
anything but TCP, so a scope without a protocol has no ports and a redirect that
names ports is a TCP redirect. Everything the runtime builds goes through these
constructors, and normalisation only ever removes ports.

The ruleset is kept as its declarations, sets and chains, and `Ruleset.text` prints
the input that is piped into `nft -f -`.
-/

import Bagel.Error
import Bagel.Network
import Bagel.Library.Sorted

namespace Bagel

/-! ### Scopes and memberships -/

inductive Protocol where
  | tcp
  | udp
  deriving DecidableEq

namespace Protocol

def nft : Protocol → String
  | tcp => "tcp"
  | udp => "udp"

instance : Ord Protocol :=
  ⟨fun first second => compare first.ctorIdx second.ctorIdx⟩

end Protocol

inductive Verdict where
  | drop
  | reject
  | redirect (target : UInt16)
  deriving DecidableEq

namespace Verdict

def isRedirect : Verdict → Bool
  | redirect _ => true
  | _ => false

/-- The derived order: drop, then reject, then redirects by their target. -/
def rank : Verdict → Nat
  | drop => 0
  | reject => 1
  | redirect target => 2 + target.toNat

instance : Ord Verdict :=
  ⟨fun first second => compare first.rank second.rank⟩

end Verdict

/-- A canonical enforcement scope. Empty ports means every input port. -/
structure Scope where
  protocol : Option Protocol
  ports : List UInt16
  verdict : Verdict
  unscoped : protocol = none → ports = []
  redirectTcp : verdict.isRedirect = true → ports ≠ [] → protocol = some .tcp
  deriving DecidableEq

namespace Scope

def allPorts (verdict : Verdict) : Scope :=
  ⟨none, [], verdict, fun _ => rfl, fun _ nonempty => absurd rfl nonempty⟩

def ofProtocol (protocol : Protocol) (verdict : Verdict) : Scope :=
  ⟨some protocol, [], verdict, fun _ => rfl, fun _ nonempty => absurd rfl nonempty⟩

/-- `Scope::new`. -/
def new (protocol : Protocol) (ports : List UInt16) (verdict : Verdict) : Except Error Scope :=
  let ports := (ports.mergeSort fun first second => decide (first ≤ second)).dedup
  if ports.isEmpty then
    .error (.io "a protocol-scoped firewall rule requires at least one port")
  else if refused : verdict.isRedirect = true ∧ protocol ≠ .tcp then
    .error (.io "only TCP bans can redirect to a tarpit")
  else
    .ok ⟨some protocol, ports, verdict, fun absent => absurd absent (by simp),
      fun redirects _ => by
        by_contra different
        exact refused ⟨redirects, fun same => different (congrArg some same)⟩⟩

/-- A scope with some of its ports taken out. -/
def retain (scope : Scope) (keep : UInt16 → Bool) : Scope where
  protocol := scope.protocol
  ports := scope.ports.filter keep
  verdict := scope.verdict
  unscoped absent := by rw [scope.unscoped absent, List.filter_nil]
  redirectTcp redirects nonempty :=
    scope.redirectTcp redirects fun empty => nonempty (by rw [empty, List.filter_nil])

instance : Ord Scope :=
  ⟨fun first second => ((compare first.protocol second.protocol).then
    (compare first.ports second.ports)).then (compare first.verdict second.verdict)⟩

end Scope

structure Membership where
  network : IpNetwork
  scope : Scope
  deriving DecidableEq

/-! ### Normalisation -/

def protocolsOverlap (left right : Scope) : Bool :=
  left.protocol.isNone || right.protocol.isNone || left.protocol == right.protocol

/-- The memberships whose block takes precedence over a redirect somewhere. -/
def blockers (memberships : List Membership) (membership : Membership) : List Membership :=
  memberships.filter fun candidate =>
    !candidate.scope.verdict.isRedirect &&
      networksOverlap candidate.network membership.network &&
      protocolsOverlap candidate.scope membership.scope

/-- The loop over the blockers: one without a protocol or without ports clears the ports and
ends the loop, any other takes its own ports out. -/
def stripPorts : List Membership → Scope → Scope
  | [], scope => scope
  | blocker :: rest, scope =>
    if blocker.scope.protocol.isNone || blocker.scope.ports.isEmpty then
      scope.retain fun _ => false
    else stripPorts rest (scope.retain fun port => !blocker.scope.ports.contains port)

/-- Whether a redirect with its remaining `scope` clashes with one of the later ones. -/
def redirectConflict (network : IpNetwork) (scope : Scope) (target : UInt16)
    (later : List Membership) : Bool :=
  later.any fun other =>
    match other.scope.verdict with
    | .redirect otherTarget =>
      target != otherTarget && networksOverlap other.network network &&
        protocolsOverlap other.scope scope &&
        scope.ports.any fun port => other.scope.ports.contains port
    | _ => false

def conflictMessage (network : IpNetwork) : String :=
  "conflicting tarpit redirects for overlapping network " ++ network.text

/-- The loop over the redirects. The second argument is what is left of the list, so its
tail is what `skip(index + 1)` leaves. -/
def normalizeRedirects (memberships : List Membership) :
    List Membership → Except Error (List Membership)
  | [] => .ok []
  | membership :: later =>
    match membership.scope.verdict with
    | .redirect target =>
      let scope := stripPorts (blockers memberships membership) membership.scope
      if scope.ports.isEmpty then normalizeRedirects memberships later
      else if redirectConflict membership.network scope target later then
        .error (.io (conflictMessage membership.network))
      else do
        let rest ← normalizeRedirects memberships later
        return ⟨membership.network, scope⟩ :: rest
    | _ => normalizeRedirects memberships later

def normalizeMemberships (memberships : List Membership) : Except Error (List Membership) := do
  let redirects ← normalizeRedirects memberships memberships
  return memberships.filter (fun membership => !membership.scope.verdict.isRedirect) ++ redirects

/-! ### The ruleset -/

inductive Family where
  | v4
  | v6
  deriving DecidableEq

structure Families where
  v4 : List IpNetwork
  v6 : List IpNetwork

instance : Ord IpNetwork where
  compare
    | .v4 first, .v4 second =>
      (compare first.address.toNat second.address.toNat).then (compare first.length second.length)
    | .v6 first, .v6 second =>
      (compare first.address.toNat second.address.toNat).then (compare first.length second.length)
    | .v4 _, .v6 _ => .lt
    | .v6 _, .v4 _ => .gt

namespace Families

def insert (network : IpNetwork) (families : Families) : Families :=
  if network.isIpv4 then { families with v4 := Sorted.insert network families.v4 }
  else { families with v6 := Sorted.insert network families.v6 }

def elements (families : Families) : Family → List IpNetwork
  | .v4 => families.v4
  | .v6 => families.v6

end Families

/-- The `grouped` map of `render_ruleset`: the networks of every scope, by family. -/
def groupScopes (memberships : List Membership) : List (Scope × Families) :=
  memberships.foldl (fun grouped membership =>
    Sorted.alter membership.scope ⟨[], []⟩ (Families.insert membership.network) grouped) []

/-- One rule of a chain. Its source set is the set number `index` of its family. -/
structure Rule where
  index : Nat
  family : Family
  scope : Scope

/-- A rendered ruleset. A ruleset without redirects has no prerouting chain. -/
structure Ruleset where
  table : String
  priority : Int
  sets : List Families
  input : List Rule
  prerouting : List Rule

/-- `write_filter_rules` and `write_redirect_rules` write the rule of a scope once for each
family. -/
def scopeRules (index : Nat) (scope : Scope) : List Rule :=
  [⟨index, .v4, scope⟩, ⟨index, .v6, scope⟩]

/-- The rules of the scopes that satisfy a condition, in the order of the map. -/
def rulesWhere (grouped : List (Scope × Families)) (wanted : Verdict → Bool) : List Rule :=
  (grouped.zipIdx.filter fun entry => wanted entry.1.1.verdict).flatMap fun entry =>
    scopeRules entry.2 entry.1.1

/-- The part of `render_ruleset` after normalisation. -/
def layoutRuleset (table : String) (priority : Int) (memberships : List Membership) : Ruleset :=
  let grouped := groupScopes memberships
  { table
    priority
    sets := grouped.map Prod.snd
    input := [Verdict.drop, Verdict.reject].flatMap fun verdict => rulesWhere grouped (· == verdict)
    prerouting := rulesWhere grouped Verdict.isRedirect }

/-- An nftables table name: a non-empty word of ASCII letters, digits and underscores. -/
def validateName (name : String) : Except Error Unit :=
  if name.isEmpty || !name.toUTF8.data.toList.all (fun byte =>
      (byte ≥ 48 && byte ≤ 57) || (byte ≥ 65 && byte ≤ 90) || (byte ≥ 97 && byte ≤ 122) ||
        byte == 95) then
    .error (.io ("invalid nftables table name " ++ name.quote))
  else .ok ()

def renderRuleset (table : String) (priority : Int) (memberships : List Membership) :
    Except Error Ruleset := do
  validateName table
  let normalized ← normalizeMemberships memberships
  return layoutRuleset table priority normalized

/-! ### The text piped into `nft` -/

def portPredicate (scope : Scope) : String :=
  match scope.protocol with
  | none => ""
  | some protocol =>
    if scope.ports.isEmpty then " meta l4proto " ++ protocol.nft
    else
      " " ++ protocol.nft ++ " dport \x7b " ++
        ", ".intercalate (scope.ports.map fun port => toString port.toNat) ++ " \x7d"

def Verdict.text : Verdict → String
  | .drop => "drop"
  | .reject => "reject"
  | .redirect target => "redirect to :" ++ toString target.toNat

def Rule.text (rule : Rule) : String :=
  let source := match rule.family with
    | .v4 => "    ip saddr @scope_" ++ toString rule.index ++ "_v4"
    | .v6 => "    ip6 saddr @scope_" ++ toString rule.index ++ "_v6"
  source ++ portPredicate rule.scope ++ " " ++ rule.scope.verdict.text ++ "\n"

def setText (index : Nat) (family kind : String) (elements : List IpNetwork) : String :=
  let head := "  set scope_" ++ toString index ++ "_" ++ family ++ " \x7b type " ++ kind ++
    "; flags interval; auto-merge; "
  if elements.isEmpty then head ++ "\x7d\n"
  else
    head ++ "elements = \x7b " ++ ", ".intercalate (elements.map IpNetwork.text) ++
      " \x7d; \x7d\n"

def Ruleset.text (ruleset : Ruleset) : String :=
  let sets := ruleset.sets.zipIdx.map fun entry =>
    setText entry.2 "v4" "ipv4_addr" entry.1.v4 ++ setText entry.2 "v6" "ipv6_addr" entry.1.v6
  let prerouting :=
    if ruleset.prerouting.isEmpty then ""
    else
      "  chain prerouting \x7b type nat hook prerouting priority dstnat; policy accept;\n" ++
        String.join (ruleset.prerouting.map Rule.text) ++ "  \x7d\n"
  "destroy table inet " ++ ruleset.table ++ "\ntable inet " ++ ruleset.table ++ " \x7b\n" ++
    String.join sets ++ "  chain input \x7b type filter hook input priority " ++
    toString ruleset.priority ++ "; policy accept;\n    fib saddr type local accept\n" ++
    String.join (ruleset.input.map Rule.text) ++ "  \x7d\n" ++ prerouting ++ "\x7d\n"

end Bagel
