/-
This file settles when an accepted configuration can be enforced.

Validation looks at the action of every policy alone, and that is enough for the
membership of every lease: a scoped action names ports, a redirect is a TCP redirect
and its listener has an address. Rendering then fails only if two redirects clash. For
one list of leases this is a matter of their networks and of the bans next to them. A
configuration is free of it under every list of leases exactly when the redirects of
its policies agree: two of them that share a port lead to the same port.
-/

import Bagel.Protection
import Bagel.Validation

namespace Bagel

/-! ### Opening the defense -/

/-- `parse_network` of `defense.rs`. -/
def parseNetwork (crates : Crates) (raw : String) : Except Error IpNetwork :=
  if raw.toList.contains '/' then
    match crates.ipNetwork raw with
    | .ok network => .ok network
    | .error error => .error (.network error)
  else
    match crates.ipAddr raw with
    | .ok address => .ok (hostNetwork address)
    | .error error => .error (.network error)

def parseNetworks (crates : Crates) : List String → Except Error (List IpNetwork)
  | [] => .ok []
  | raw :: rest => do
    let network ← parseNetwork crates raw
    let networks ← parseNetworks crates rest
    return network :: networks

def Source.isInProcess : Source → Bool
  | listener _ => true
  | web => true
  | _ => false

namespace Config

variable (crates : Crates) (compileDetector : Detector → Except Error CompiledDetector)

/-- The loop over the policies. -/
def compilePolicies : List (String × Policy) → Except Error (List (String × CompiledPolicy))
  | [] => .ok []
  | (name, policy) :: rest => do
    let detector ← compileDetector policy.detector
    let ignored ← parseNetworks crates policy.ignoreNetworks
    let others ← compilePolicies rest
    return (name, ⟨policy.source, detector, ignored, policy.maxAttempts, policy.findtimeSecs,
      policy.ban, policy.action⟩) :: others

/-- `Defense::open`, with the addresses of the interfaces. The regular expressions and date
formats of a detector are compiled by other crates. -/
def openHost (parsers : Parsers) (localAddresses : List IpAddr) (config : Config) :
    Except Error Host := do
  let policies ← compilePolicies crates compileDetector config.policies
  let protectedNetworks ← parseNetworks crates config.protectedNetworks
  let noBlock ← parseNetworks crates config.noBlockNetworks
  return {
    defense := {
      policies
      protectedNetworks
      noBlock
      historyRetentionSecs := config.historyRetentionSecs
      inProcessSources := (config.sources.filter fun source => source.2.isInProcess).map Prod.fst
      listeners := config.listeners.map fun listener => (listener.name, listener.listenAddr)
      socketPort := crates.socketAddr
      parsers }
    firewall := ⟨config.enforcement.table, config.enforcement.chainPriority,
      config.enforcement.mode == .required⟩
    localAddresses }

end Config

/-! ### What an accepted configuration guarantees -/

section Accepted

variable {crates : Crates} {compileDetector : Detector → Except Error CompiledDetector}
  {parsers : Parsers} {localAddresses : List IpAddr} {config : Config} {host : Host}

/-- A policy is compiled on its own, and keeps its name, its action and its schedule. -/
theorem compilePolicies_cons {first : String × Policy} {rest : List (String × Policy)}
    {compiled : List (String × CompiledPolicy)}
    (compiles : Config.compilePolicies crates compileDetector (first :: rest) = .ok compiled) :
    ∃ own others, compiled = own :: others ∧
      Config.compilePolicies crates compileDetector rest = .ok others ∧ own.1 = first.1 ∧
        own.2.action = first.2.action ∧ own.2.ban = first.2.ban := by
  obtain ⟨detector, -, compiles⟩ := Transaction.bind_eq_ok_iff.mp compiles
  obtain ⟨ignored, -, compiles⟩ := Transaction.bind_eq_ok_iff.mp compiles
  obtain ⟨others, later, same⟩ := Transaction.bind_eq_ok_iff.mp compiles
  obtain rfl := Except.ok.inj same
  exact ⟨_, others, rfl, later, rfl, rfl, rfl⟩

theorem mem_compilePolicies {policies : List (String × Policy)}
    {compiled : List (String × CompiledPolicy)}
    (compiles : Config.compilePolicies crates compileDetector policies = .ok compiled)
    {entry : String × CompiledPolicy} (member : entry ∈ compiled) :
    ∃ policy, (entry.1, policy) ∈ policies ∧ entry.2.action = policy.action ∧
      entry.2.ban = policy.ban := by
  induction policies generalizing compiled with
  | nil =>
    obtain rfl := Except.ok.inj compiles
    exact nomatch member
  | cons first rest inductionHypothesis =>
    obtain ⟨own, others, rfl, later, named, action, ban⟩ := compilePolicies_cons compiles
    rcases List.mem_cons.mp member with rfl | inOthers
    · exact ⟨first.2, named ▸ List.mem_cons_self, action, ban⟩
    · obtain ⟨policy, listed, same⟩ := inductionHypothesis later inOthers
      exact ⟨policy, List.mem_cons_of_mem _ listed, same⟩

theorem validateDefense_of_accepted (accepted : validateConfig crates config = .ok ()) :
    validateDefense crates config = .ok () := by
  rw [validateConfig] at accepted
  iterate 8 obtain ⟨_, -, accepted⟩ := Transaction.bind_eq_ok_iff.mp accepted
  exact accepted

theorem validateName_of_accepted (accepted : validateConfig crates config = .ok ()) :
    validateName config.enforcement.table = .ok () := by
  obtain ⟨_, named, -⟩ := Transaction.bind_eq_ok_iff.mp (validateDefense_of_accepted accepted)
  rw [refuse_eq_ok_iff] at named
  rw [validateName]
  exact if_neg (Bool.eq_false_iff.mp named)

theorem validatePolicy_of_accepted (accepted : validateConfig crates config = .ok ())
    {entry : String × Policy} (member : entry ∈ config.policies) :
    validatePolicy crates config entry = .ok () := by
  have checked := validateDefense_of_accepted accepted
  rw [validateDefense] at checked
  iterate 11 obtain ⟨_, -, checked⟩ := Transaction.bind_eq_ok_iff.mp checked
  obtain ⟨_, policies, -⟩ := Transaction.bind_eq_ok_iff.mp checked
  exact checkEach_eq_ok_iff.mp policies entry member

theorem validateAction_of_accepted (accepted : validateConfig crates config = .ok ())
    {entry : String × Policy} (member : entry ∈ config.policies) :
    validateAction crates entry.1 config.listeners entry.2.action = .ok () := by
  have policy := validatePolicy_of_accepted accepted member
  rw [validatePolicy] at policy
  iterate 6 obtain ⟨_, -, policy⟩ := Transaction.bind_eq_ok_iff.mp policy
  exact policy

/-- What an accepted configuration hands to the defense that is opened from it. -/
structure Opened (crates : Crates) (config : Config) (host : Host) : Prop where
  table : validateName host.firewall.table = .ok ()
  actions : ∀ entry ∈ host.defense.policies,
    validateAction crates entry.1 config.listeners entry.2.action = .ok ()
  listeners : host.defense.listeners =
    config.listeners.map fun listener => (listener.name, listener.listenAddr)
  ports : host.defense.socketPort = crates.socketAddr

theorem opened_of_accepted (accepted : validateConfig crates config = .ok ())
    (opens : config.openHost crates compileDetector parsers localAddresses = .ok host) :
    Opened crates config host := by
  obtain ⟨policies, compiles, opens⟩ := Transaction.bind_eq_ok_iff.mp opens
  obtain ⟨protectedNetworks, -, opens⟩ := Transaction.bind_eq_ok_iff.mp opens
  obtain ⟨noBlock, -, same⟩ := Transaction.bind_eq_ok_iff.mp opens
  obtain rfl := Except.ok.inj same
  refine ⟨validateName_of_accepted accepted, fun entry member => ?_, rfl, rfl⟩
  obtain ⟨policy, listed, same, -⟩ := mem_compilePolicies compiles member
  rw [same]
  exact validateAction_of_accepted accepted listed

end Accepted

/-! ### Every lease has its membership -/

theorem Scope.exists_new (protocol : Protocol) {ports : List UInt16} (verdict : Verdict)
    (nonempty : ports ≠ []) (allowed : ¬ (verdict.isRedirect = true ∧ protocol ≠ .tcp)) :
    ∃ scope, Scope.new protocol ports verdict = .ok scope ∧ scope.verdict = verdict ∧
      ∀ port, port ∈ scope.ports ↔ port ∈ ports := by
  have sorted (port : UInt16) :
      port ∈ (ports.mergeSort fun first second => decide (first ≤ second)).dedup ↔
        port ∈ ports := by
    rw [List.mem_dedup, List.mem_mergeSort]
  have left : ¬ (ports.mergeSort fun first second => decide (first ≤ second)).dedup.isEmpty := by
    obtain ⟨port, member⟩ := List.exists_mem_of_ne_nil ports nonempty
    rw [List.isEmpty_iff]
    exact List.ne_nil_of_mem ((sorted port).mpr member)
  rw [Scope.new, if_neg left, dif_neg allowed]
  exact ⟨_, rfl, rfl, sorted⟩

theorem Scope.exists_new_block (protocol : Protocol) (verdict : BlockVerdict) {ports : List UInt16}
    (nonempty : ports ≠ []) :
    ∃ scope, Scope.new protocol ports (Defense.verdictOf verdict) = .ok scope := by
  have blocks : (Defense.verdictOf verdict).isRedirect = false := by cases verdict <;> rfl
  obtain ⟨scope, built, -⟩ := Scope.exists_new protocol (Defense.verdictOf verdict) nonempty
    fun refused => Bool.noConfusion (blocks.symm.trans refused.1)
  exact ⟨scope, built⟩

theorem Scope.verdict_of_new {protocol : Protocol} {ports : List UInt16} {verdict : Verdict}
    {scope : Scope} (built : Scope.new protocol ports verdict = .ok scope) :
    scope.verdict = verdict := by
  simp only [Scope.new] at built
  split at built
  · exact nomatch built
  · split at built
    · exact nomatch built
    · exact (congrArg Scope.verdict (Except.ok.inj built)).symm

theorem ports_ne_nil {policy : String} {ports : List UInt16}
    (checked : validatePorts policy ports = .ok ()) : ports ≠ [] := by
  rw [validatePorts, refuse_eq_ok_iff, Bool.or_eq_false_iff] at checked
  exact List.isEmpty_eq_false_iff.mp checked.1

namespace Opened

variable {crates : Crates} {config : Config} {host : Host}

theorem listenerPort_eq (opened : Opened crates config host) {listener : String} {target : Listener}
    (found : config.listeners.find? (fun candidate => candidate.name == listener) = some target)
    {port : UInt16} (parses : crates.socketAddr target.listenAddr = .ok port) :
    host.defense.listenerPort listener = .ok port := by
  have listed : host.defense.listeners.find? (fun candidate => candidate.1 == listener) =
      some (target.name, target.listenAddr) := by
    rw [opened.listeners, List.find?_map, Function.comp_def, found]
    rfl
  rw [Defense.listenerPort, listed]
  simp only [opened.ports, parses]

/-- An accepted redirect has a port to lead to, and its membership redirects to it. -/
theorem redirect_membership (opened : Opened crates config host) {name : String}
    {protocol : TransportProtocol} {ports : List UInt16} {listener : String} {lease : Lease}
    (checked : validateAction crates name config.listeners
      (.tarpitRedirect protocol ports listener) = .ok ())
    (acts : lease.action = .tarpitRedirect protocol ports listener) :
    ∃ port scope, host.defense.listenerPort listener = .ok port ∧
      host.defense.membership lease = .ok (some ⟨lease.network, scope⟩) ∧
      scope.verdict = .redirect port ∧ ∀ shared, shared ∈ scope.ports ↔ shared ∈ ports := by
  obtain ⟨_, tcp, checked⟩ := Transaction.bind_eq_ok_iff.mp checked
  obtain ⟨_, given, resolves⟩ := Transaction.bind_eq_ok_iff.mp checked
  rw [refuse_eq_ok_iff, bne_eq_false_iff_eq] at tcp
  split at resolves
  · exact nomatch resolves
  next target found =>
    split at resolves
    · exact nomatch resolves
    next port parses =>
      obtain ⟨scope, built, verdict, members⟩ := Scope.exists_new .tcp (.redirect port)
        (ports_ne_nil given) (fun refused => refused.2 rfl)
      have leads := opened.listenerPort_eq found parses
      refine ⟨port, scope, leads, ?_, verdict, members⟩
      rw [Defense.membership, acts]
      simp only [Action.blockParts, leads, tcp, Defense.protocolOf]
      show (Scope.new .tcp ports (.redirect port) >>= _) = _
      rw [built]
      rfl

/-- Every accepted action has a membership, or needs none. -/
theorem exists_membership (opened : Opened crates config host) {name : String} {lease : Lease}
    (checked : validateAction crates name config.listeners lease.action = .ok ()) :
    ∃ membership, host.defense.membership lease = .ok membership := by
  cases kind : lease.action with
  | drop protocol ports =>
    rw [kind] at checked
    rw [Defense.membership, kind]
    obtain ⟨scope, built⟩ := Scope.exists_new_block (Defense.protocolOf protocol) .drop
      (ports_ne_nil checked)
    exact ⟨_, congrArg (· >>= _) built⟩
  | reject protocol ports =>
    rw [kind] at checked
    rw [Defense.membership, kind]
    obtain ⟨scope, built⟩ := Scope.exists_new_block (Defense.protocolOf protocol) .reject
      (ports_ne_nil checked)
    exact ⟨_, congrArg (· >>= _) built⟩
  | tarpitRedirect protocol ports listener =>
    rw [kind] at checked
    obtain ⟨port, scope, -, built, -⟩ := opened.redirect_membership checked kind
    exact ⟨_, built⟩
  | observe | dropProtocol | dropAll | rejectProtocol | rejectAll =>
    rw [Defense.membership, kind]
    exact ⟨_, rfl⟩

end Opened

/-! ### Leases of a configuration -/

/-- The terms on which the configuration bans a network: those of a policy, or those of
`manual_block`. -/
inductive Host.Grants (host : Host) (network : IpNetwork) : Action → Prop where
  | policy (entry : String × CompiledPolicy) (member : entry ∈ host.defense.policies) :
      Grants host network (host.defense.enforcementAction network entry.2.action)
  | manual : Grants host network .dropAll

/-- The lease that answers a detection of a policy is on the terms of that policy. -/
theorem Host.grants_leaseOf {host : Host} {entry : String × CompiledPolicy}
    (member : entry ∈ host.defense.policies) (detection : Detection) (draw : Nat) (store : Store)
    (input : EventInput) :
    let offense := host.defense.offenseInput entry.1 entry.2 detection draw
    host.Grants (store.leaseOf input offense).network (store.leaseOf input offense).action :=
  .policy entry member

/-- The lease of a manual ban is on the terms of manual bans. -/
theorem Host.grants_manualBlock {host : Host} {network : IpNetwork} {now : Nat}
    {durationSecs : Option Nat} {store next : Store} {lease : Lease}
    (blocked : store.manualBlock network .dropAll now durationSecs = .ok (next, lease)) :
    host.Grants lease.network lease.action := by
  rw [(Store.manualBlock_ok blocked).2.1]
  exact .manual

/-- The leases can be enforced: each has its membership and the ruleset is rendered. -/
def Host.Renders (host : Host) (leases : List Lease) : Prop :=
  ∃ plan answer, host.plan leases = .ok plan ∧
    host.firewall.reconcile plan.memberships = .ok answer

/-- Two redirects of policies that share a port lead to the same port. -/
def Host.RedirectsAgree (host : Host) : Prop :=
  ∀ first ∈ host.defense.policies, ∀ second ∈ host.defense.policies,
    ∀ firstProtocol firstPorts firstListener secondProtocol secondPorts secondListener,
      first.2.action = .tarpitRedirect firstProtocol firstPorts firstListener →
      second.2.action = .tarpitRedirect secondProtocol secondPorts secondListener →
      (∃ port ∈ firstPorts, port ∈ secondPorts) →
      host.defense.listenerPort firstListener = host.defense.listenerPort secondListener

namespace Opened

variable {crates : Crates} {config : Config} {host : Host}

/-- A granted action passes the validation of some policy. -/
theorem validateAction_of_grants (opened : Opened crates config host) {network : IpNetwork}
    {action : Action} (grants : host.Grants network action) :
    ∃ name, validateAction crates name config.listeners action = .ok () := by
  cases grants with
  | manual => exact ⟨"", rfl⟩
  | policy entry member =>
    refine ⟨entry.1, ?_⟩
    rw [Defense.enforcementAction]
    split
    · rfl
    · exact opened.actions entry member

theorem exists_plan (opened : Opened crates config host) {leases : List Lease}
    (granted : ∀ lease ∈ leases, host.Grants lease.network lease.action) :
    ∃ plan, host.plan leases = .ok plan := by
  induction leases with
  | nil => exact ⟨_, rfl⟩
  | cons lease rest inductionHypothesis =>
    obtain ⟨plan, planned⟩ := inductionHypothesis fun other member =>
      granted other (List.mem_cons_of_mem _ member)
    obtain ⟨name, checked⟩ := opened.validateAction_of_grants (granted lease List.mem_cons_self)
    obtain ⟨membership, built⟩ := opened.exists_membership checked
    obtain ⟨answer, known⟩ := host.exists_isProtected lease.network
    rw [Host.plan, known, planned, built]
    cases answer with
    | true => exact ⟨_, rfl⟩
    | false =>
      cases host.defense.isNoBlockNetwork lease.network with
      | true => exact ⟨_, rfl⟩
      | false => exact ⟨_, rfl⟩

/-- Rendering fails only where two redirects clash. -/
theorem reconcile_ok_iff (opened : Opened crates config host) (memberships : List Membership) :
    (∃ answer, host.firewall.reconcile memberships = .ok answer) ↔
      host.firewall.required = false ∨
        memberships.Pairwise fun first second => ¬ Clash memberships first second := by
  rw [Firewall.reconcile]
  cases host.firewall.required with
  | false => simp
  | true =>
    simp only [Bool.not_true, Bool.false_eq_true, if_false, Bool.true_eq_false, false_or]
    constructor
    · rintro ⟨answer, answered⟩
      obtain ⟨ruleset, renders, -⟩ := Transaction.bind_eq_ok_iff.mp answered
      obtain ⟨_, -, renders⟩ := Transaction.bind_eq_ok_iff.mp renders
      obtain ⟨normalized, normalizes, -⟩ := Transaction.bind_eq_ok_iff.mp renders
      exact ((normalizeMemberships_eq_ok_iff _ _).mp normalizes).1
    · intro calm
      rw [renderRuleset, opened.table,
        (normalizeMemberships_eq_ok_iff memberships _).mpr ⟨calm, rfl⟩]
      exact ⟨_, rfl⟩

/-- A membership that redirects comes from a redirect of a policy. -/
theorem redirect_of_membership (opened : Opened crates config host) {lease : Lease}
    (grants : host.Grants lease.network lease.action) {membership : Membership}
    (built : host.defense.membership lease = .ok (some membership)) {target : UInt16}
    (verdict : membership.scope.verdict = .redirect target) :
    ∃ entry ∈ host.defense.policies, ∃ protocol ports listener,
      entry.2.action = .tarpitRedirect protocol ports listener ∧
        host.defense.listenerPort listener = .ok target ∧
        ∀ port ∈ membership.scope.ports, port ∈ ports := by
  obtain ⟨name, checked⟩ := opened.validateAction_of_grants grants
  cases kind : lease.action with
  | tarpitRedirect protocol ports listener =>
    rw [kind] at checked
    obtain ⟨port, scope, leads, same, redirects, members⟩ := opened.redirect_membership checked kind
    obtain rfl := Option.some.inj (Except.ok.inj (same.symm.trans built))
    obtain rfl := Verdict.redirect.inj (redirects.symm.trans verdict)
    rw [kind] at grants
    generalize acts : Action.tarpitRedirect protocol ports listener = action at grants
    cases grants with
    | manual => cases acts
    | policy entry member =>
      refine ⟨entry, member, protocol, ports, listener, ?_, leads, fun port => (members port).mp⟩
      rw [Defense.enforcementAction] at acts
      split at acts
      · cases acts
      · exact acts.symm
  | observe =>
    simp only [Defense.membership, kind, Action.blockParts] at built
    cases built
  | drop protocol ports | reject protocol ports =>
    simp only [Defense.membership, kind, Action.blockParts, Transaction.bind_eq_ok_iff] at built
    obtain ⟨scope, new, same⟩ := built
    obtain rfl := Option.some.inj (Except.ok.inj same)
    cases (Scope.verdict_of_new new).symm.trans verdict
  | dropProtocol | dropAll | rejectProtocol | rejectAll =>
    simp only [Defense.membership, kind, Action.blockParts] at built
    obtain rfl := Option.some.inj (Except.ok.inj built)
    cases verdict

/-- Redirects that agree never clash. -/
theorem calm_of_agree (opened : Opened crates config host) (agree : host.RedirectsAgree)
    {leases : List Lease} (granted : ∀ lease ∈ leases, host.Grants lease.network lease.action)
    {plan : Plan} (planned : host.plan leases = .ok plan) :
    plan.memberships.Pairwise fun first second => ¬ Clash plan.memberships first second := by
  refine List.pairwise_of_forall_mem_list fun first firstMember second secondMember clash => ?_
  obtain ⟨target, other, firstVerdict, secondVerdict, different, -, port, isOpen, shared⟩ := clash
  obtain ⟨firstLease, firstListed, -, -, firstBuilt⟩ :=
    Host.exists_lease_of_mem_plan planned firstMember
  obtain ⟨secondLease, secondListed, -, -, secondBuilt⟩ :=
    Host.exists_lease_of_mem_plan planned secondMember
  obtain ⟨firstEntry, firstPolicy, _, _, _, firstActs, firstLeads, firstPorts⟩ :=
    opened.redirect_of_membership (granted _ firstListed) firstBuilt firstVerdict
  obtain ⟨secondEntry, secondPolicy, _, _, _, secondActs, secondLeads, secondPorts⟩ :=
    opened.redirect_of_membership (granted _ secondListed) secondBuilt secondVerdict
  have same := agree firstEntry firstPolicy secondEntry secondPolicy _ _ _ _ _ _ firstActs
    secondActs ⟨port, firstPorts port isOpen.mem, secondPorts port shared⟩
  exact different (Except.ok.inj (firstLeads.symm.trans (same.trans secondLeads)))

/-- Where every address is spared, nothing is enforced. -/
theorem memberships_eq_nil (spared : ∀ address, host.Spares address) {leases : List Lease}
    {plan : Plan} (planned : host.plan leases = .ok plan) : plan.memberships = [] := by
  refine List.eq_nil_iff_forall_not_mem.mpr fun membership member => ?_
  obtain ⟨lease, -, unprotected, unshared, -⟩ := Host.exists_lease_of_mem_plan planned member
  have inside : lease.network.contains lease.network.ip = true := by
    cases lease.network <;> exact Cidr.Block.contains_address _
  rcases Host.left_out_of_spared (spared _) inside with guarded | shared
  · exact nomatch guarded.symm.trans unprotected
  · exact nomatch shared.symm.trans unshared

end Opened

/-! ### Redirects that disagree -/

/-- A ban of one address by one policy. -/
def banBy (policy : String) (address : IpAddr) (action : Action) : Lease where
  id := 0
  network := hostNetwork address
  policy := policy
  action := action
  createdAt := 0
  expiresAt := none
  escalationCount := 0
  manual := false
  applyState := .pending
  lastError := none

theorem hostNetwork_contains_iff (home address : IpAddr) :
    (hostNetwork home).contains address = true ↔ address = home := by
  cases home with
  | v4 point =>
    rw [hostNetwork, IpNetwork.contains_v4_iff]
    simp only [Cidr.Block.contains_single_iff, exists_eq_right]
  | v6 point =>
    rw [hostNetwork, IpNetwork.contains_v6_iff]
    simp only [Cidr.Block.contains_single_iff, exists_eq_right]

/-- A network that shares an address with the network of one address holds that address. -/
theorem networksOverlap_hostNetwork_iff (network : IpNetwork) (address : IpAddr) :
    networksOverlap network (hostNetwork address) = true ↔ network.contains address = true := by
  rw [networksOverlap_eq_true_iff]
  simp only [hostNetwork_contains_iff, exists_eq_right]

/-- The network of an address that is not spared is taken up by every plan. -/
theorem Host.taken_up_of_unspared {host : Host} {address : IpAddr}
    (unspared : ¬ host.Spares address) :
    host.isProtected (hostNetwork address) = .ok false ∧
      host.defense.isNoBlockNetwork (hostNetwork address) = false := by
  simp only [Host.Spares, not_or, not_exists, not_and, Bool.not_eq_true] at unspared
  obtain ⟨unguarded, unshared, foreign⟩ := unspared
  have apart {list : List IpNetwork} (outside : ∀ other ∈ list, other.contains address = false) :
      (list.any fun other => networksOverlap other (hostNetwork address)) = false := by
    refine List.any_eq_false.mpr fun other member overlap => ?_
    rw [networksOverlap_hostNetwork_iff, outside other member] at overlap
    exact nomatch overlap
  refine ⟨?_, apart unshared⟩
  rw [isProtected, Defense.isProtected, apart unguarded]
  have away : ∀ other ∈ host.localAddresses.map hostNetwork, other.contains address = false := by
    intro other member
    obtain ⟨home, listed, rfl⟩ := List.mem_map.mp member
    exact foreign home listed
  show Except.ok _ = Except.ok false
  rw [apart away]

/-- A redirect is granted as it is, also on a shared network. -/
theorem Host.grants_redirect {host : Host} {entry : String × CompiledPolicy}
    (member : entry ∈ host.defense.policies) {protocol : TransportProtocol} {ports : List UInt16}
    {listener : String} (acts : entry.2.action = .tarpitRedirect protocol ports listener)
    (network : IpNetwork) : host.Grants network (.tarpitRedirect protocol ports listener) := by
  have same : host.defense.enforcementAction network entry.2.action =
      .tarpitRedirect protocol ports listener := by
    rw [Defense.enforcementAction, acts, Action.blockParts, Option.isSome_none, Bool.and_false]
    rfl
  rw [← same]
  exact .policy entry member

/-- Two redirects of policies that share a port but lead to different ports cannot be enforced
on one address that is not spared. -/
theorem Opened.not_renders_pair {crates : Crates} {config : Config} {host : Host}
    (opened : Opened crates config host) (required : host.firewall.required = true)
    {first second : String × CompiledPolicy} (firstMember : first ∈ host.defense.policies)
    (secondMember : second ∈ host.defense.policies)
    {firstProtocol secondProtocol : TransportProtocol} {firstPorts secondPorts : List UInt16}
    {firstListener secondListener : String}
    (firstActs : first.2.action = .tarpitRedirect firstProtocol firstPorts firstListener)
    (secondActs : second.2.action = .tarpitRedirect secondProtocol secondPorts secondListener)
    {port : UInt16} (inFirst : port ∈ firstPorts) (inSecond : port ∈ secondPorts)
    (different : host.defense.listenerPort firstListener ≠ host.defense.listenerPort secondListener)
    {address : IpAddr} (unspared : ¬ host.Spares address) :
    ¬ host.Renders [banBy first.1 address first.2.action,
      banBy second.1 address second.2.action] := by
  have firstChecked := opened.actions first firstMember
  have secondChecked := opened.actions second secondMember
  rw [firstActs] at firstChecked
  rw [secondActs] at secondChecked
  obtain ⟨target, firstScope, firstLeads, firstBuilt, firstVerdict, firstMembers⟩ :=
    opened.redirect_membership firstChecked
      (show (banBy first.1 address first.2.action).action = _ from firstActs)
  obtain ⟨other, secondScope, secondLeads, secondBuilt, secondVerdict, secondMembers⟩ :=
    opened.redirect_membership secondChecked
      (show (banBy second.1 address second.2.action).action = _ from secondActs)
  obtain ⟨unprotected, unshared⟩ := Host.taken_up_of_unspared unspared
  rintro ⟨plan, answer, planned, answered⟩
  have both : host.plan [banBy first.1 address first.2.action,
      banBy second.1 address second.2.action] =
        .ok ⟨[⟨hostNetwork address, firstScope⟩, ⟨hostNetwork address, secondScope⟩], [], []⟩ := by
    simp only [Host.plan, firstBuilt, secondBuilt]
    simp only [banBy, unprotected, unshared]
    rfl
  obtain rfl := Except.ok.inj (both.symm.trans planned)
  have calm := (opened.reconcile_ok_iff _).mp ⟨answer, answered⟩
  rw [required, Bool.true_eq_false, false_or, List.pairwise_pair] at calm
  refine calm ⟨target, other, firstVerdict, secondVerdict, fun same => different ?_, ?_, port,
    ⟨(firstMembers port).mpr inFirst, ?_⟩, (secondMembers port).mpr inSecond⟩
  · rw [firstLeads, secondLeads, same]
  · rw [networksOverlap_hostNetwork_iff, hostNetwork_contains_iff]
  · -- both memberships redirect, so nothing blocks the shared port
    intro blocker listed blocks
    rcases List.mem_pair.mp listed with rfl | rfl
    · rw [firstVerdict] at blocks
      cases blocks
    · rw [secondVerdict] at blocks
      cases blocks

theorem Host.grants_banBy {host : Host} {entry : String × CompiledPolicy}
    (member : entry ∈ host.defense.policies) {protocol : TransportProtocol} {ports : List UInt16}
    {listener : String} (acts : entry.2.action = .tarpitRedirect protocol ports listener)
    (address : IpAddr) :
    host.Grants (banBy entry.1 address entry.2.action).network
      (banBy entry.1 address entry.2.action).action := by
  show host.Grants (hostNetwork address) entry.2.action
  rw [acts]
  exact Host.grants_redirect member acts _

/-! ### Which configurations can always be enforced -/

/-- Under an accepted configuration every lease of its policies and of manual bans has its
membership, and the ruleset is rendered unless enforcement is required and two redirects clash.
All lists of such leases can be enforced exactly when enforcement is not required, the redirects
of the policies agree, or there is no address that may be touched. -/
theorem accepted_config_enforced (crates : Crates)
    (compileDetector : Detector → Except Error CompiledDetector) (parsers : Parsers)
    (localAddresses : List IpAddr) (config : Config) (host : Host)
    (accepted : validateConfig crates config = .ok ())
    (opens : config.openHost crates compileDetector parsers localAddresses = .ok host) :
    (∀ leases, (∀ lease ∈ leases, host.Grants lease.network lease.action) →
      ∃ plan, host.plan leases = .ok plan ∧
        ((∃ answer, host.firewall.reconcile plan.memberships = .ok answer) ↔
          host.firewall.required = false ∨ plan.memberships.Pairwise fun first second =>
            ¬ Clash plan.memberships first second)) ∧
      ((∀ leases, (∀ lease ∈ leases, host.Grants lease.network lease.action) →
          host.Renders leases) ↔
        host.firewall.required = false ∨ host.RedirectsAgree ∨
          ∀ address, host.Spares address) := by
  have opened := opened_of_accepted accepted opens
  refine ⟨fun leases granted => ?_, fun always => ?_, fun condition leases granted => ?_⟩
  · obtain ⟨plan, planned⟩ := opened.exists_plan granted
    exact ⟨plan, planned, opened.reconcile_ok_iff plan.memberships⟩
  · cases required : host.firewall.required with
    | false => exact .inl rfl
    | true =>
      by_contra fails
      simp only [Bool.true_eq_false, false_or, not_or, not_forall] at fails
      obtain ⟨disagree, address, unspared⟩ := fails
      simp only [Host.RedirectsAgree, not_forall] at disagree
      obtain ⟨first, firstMember, second, secondMember, _, _, _, _, _, _, firstActs, secondActs,
        ⟨port, inFirst, inSecond⟩, different⟩ := disagree
      refine opened.not_renders_pair required firstMember secondMember firstActs secondActs inFirst
        inSecond different unspared (always _ fun lease member => ?_)
      rcases List.mem_pair.mp member with rfl | rfl
      · exact Host.grants_banBy firstMember firstActs address
      · exact Host.grants_banBy secondMember secondActs address
  · obtain ⟨plan, planned⟩ := opened.exists_plan granted
    have calm : host.firewall.required = false ∨ plan.memberships.Pairwise fun first second =>
        ¬ Clash plan.memberships first second := by
      rcases condition with unrequired | agree | spared
      · exact .inl unrequired
      · exact .inr (opened.calm_of_agree agree granted planned)
      · rw [Opened.memberships_eq_nil spared planned]
        exact .inr List.Pairwise.nil
    obtain ⟨answer, answered⟩ := (opened.reconcile_ok_iff plan.memberships).mpr calm
    exact ⟨plan, answer, planned, answered⟩

/-! ### Two tarpits -/

/-- Parsers that know the texts of the sample configuration. -/
def sampleCrates : Crates where
  regex _ := .ok []
  ipNetwork raw :=
    if raw = "127.0.0.0/8" then .ok (ipv4Network 0x7F000000#32 8) else .error "invalid address"
  ipAddr _ := .error "invalid IP address syntax"
  socketAddr raw :=
    if raw = "127.0.0.1:2222" then .ok 2222
    else if raw = "127.0.0.1:2223" then .ok 2223
    else .error "invalid socket address syntax"

def sampleCompiler : Detector → Except Error CompiledDetector
  | .json equals addressPointer timestampPointer groupKeyPointer _ =>
    .ok (.json ⟨equals, addressPointer, timestampPointer, groupKeyPointer, .rfc3339⟩)
  | .regex .. => .error (.config "no regular expressions")

def tarpitListener (name address : String) : Listener :=
  ⟨name, address, none, some 16, none, none, none, none⟩

/-- A policy on the records of the web plane that redirects port 22 to a listener. -/
def tarpitPolicy (kind listener : String) : Policy where
  source := "web"
  detector := .json [("/kind", kind)] "/address" none none none
  ignoreNetworks := []
  maxAttempts := 1
  findtimeSecs := 60
  ban := ⟨some 600, 1, [], 0, 3600, false⟩
  action := .tarpitRedirect .tcp [22] listener

/-- Two policies with the same port, one redirected to the listener `quick`. -/
def tarpitConfig (listener : String) : Config where
  listeners := [tarpitListener "quick" "127.0.0.1:2222", tarpitListener "slow" "127.0.0.1:2223"]
  sources := [("web", .web)]
  policies := [("drop", tarpitPolicy "drop" "quick"), ("smear", tarpitPolicy "smear" listener)]
  enforcement := ⟨.required, "bagel", -10, 60⟩
  databasePath := "bagel.sqlite3"
  historyRetentionSecs := 86400
  journalctlPath := "journalctl"
  nftPath := "nft"
  protectedNetworks := ["127.0.0.0/8"]
  minDelayMs := 1000
  maxDelayMs := 15000
  maxTarpitSecs := 600
  tarpitChunkMinBytes := 64
  tarpitChunkMaxBytes := 1400
  maxTarpitConns := 4096
  maxTarpitConnsPerIp := 16
  tarpitWriteTimeoutSecs := 15
  maxConnections := 8192
  proxyProtocol := false
  trustedProxies := []
  trapPatterns := []
  trapUserAgents := []
  whitelistNetworks := []
  verifiedCrawlers := []
  noBlockNetworks := []

def tarpitEntry (kind listener : String) : String × CompiledPolicy :=
  (kind, ⟨"web", .json ⟨[("/kind", kind)], "/address", none, none, .rfc3339⟩, [], 1, 60,
    ⟨some 600, 1, [], 0, 3600, false⟩, .tarpitRedirect .tcp [22] listener⟩)

/-- With one tarpit for both policies every list of their leases can be enforced. -/
theorem accepted_config_enforced_one_tarpit :
    validateConfig sampleCrates (tarpitConfig "quick") = .ok () ∧
      ∃ host, (tarpitConfig "quick").openHost sampleCrates sampleCompiler
          bareHost.defense.parsers [] = .ok host ∧
        host.Grants (ipv4Network 0xC0000201#32 32) (.tarpitRedirect .tcp [22] "quick") ∧
        ∀ leases, (∀ lease ∈ leases, host.Grants lease.network lease.action) →
          host.Renders leases := by
  refine ⟨rfl, _, rfl, Host.grants_redirect List.mem_cons_self rfl _, ?_⟩
  refine (accepted_config_enforced sampleCrates sampleCompiler bareHost.defense.parsers []
    (tarpitConfig "quick") _ rfl rfl).2.mpr (.inr (.inl ?_))
  intro first firstMember second secondMember _ _ _ _ _ _ firstActs secondActs _
  rcases List.mem_pair.mp firstMember with rfl | rfl <;>
    rcases List.mem_pair.mp secondMember with rfl | rfl <;>
    cases firstActs <;> cases secondActs <;> rfl

/-- With two tarpits an address that is banned by both policies cannot be enforced. -/
theorem two_tarpits_not_enforced :
    validateConfig sampleCrates (tarpitConfig "slow") = .ok () ∧
      ∃ host, (tarpitConfig "slow").openHost sampleCrates sampleCompiler bareHost.defense.parsers []
          = .ok host ∧
        (∀ lease ∈ [banBy "drop" (.v4 0xC0000201#32) (.tarpitRedirect .tcp [22] "quick"),
            banBy "smear" (.v4 0xC0000201#32) (.tarpitRedirect .tcp [22] "slow")],
          host.Grants lease.network lease.action) ∧
        ¬ host.Renders [banBy "drop" (.v4 0xC0000201#32) (.tarpitRedirect .tcp [22] "quick"),
          banBy "smear" (.v4 0xC0000201#32) (.tarpitRedirect .tcp [22] "slow")] := by
  refine ⟨rfl, _, rfl, fun lease member => ?_, ?_⟩
  · rcases List.mem_pair.mp member with rfl | rfl
    · exact Host.grants_redirect List.mem_cons_self rfl _
    · exact Host.grants_redirect (List.mem_cons_of_mem _ (List.mem_singleton_self _)) rfl _
  · have opened : Opened sampleCrates (tarpitConfig "slow") _ :=
      opened_of_accepted (show validateConfig sampleCrates (tarpitConfig "slow") = .ok () from rfl)
        (show (tarpitConfig "slow").openHost sampleCrates sampleCompiler bareHost.defense.parsers []
          = .ok _ from rfl)
    have quick : tarpitEntry "drop" "quick" ∈
        [tarpitEntry "drop" "quick", tarpitEntry "smear" "slow"] := List.mem_cons_self
    have slow : tarpitEntry "smear" "slow" ∈
        [tarpitEntry "drop" "quick", tarpitEntry "smear" "slow"] :=
      List.mem_cons_of_mem _ (List.mem_singleton_self _)
    exact opened.not_renders_pair rfl quick slow rfl rfl (List.mem_singleton_self 22)
      (List.mem_singleton_self 22) (by decide) (by decide)

end Bagel
