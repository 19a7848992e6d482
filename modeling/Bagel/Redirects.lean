/-
This file settles what `normalize_memberships` does to a list of memberships and
what follows for packets.

Normalisation keeps every block as it is. Of a redirect it keeps the ports that
no overlapping block covers, the open ports, and it fails when two redirects with
different targets clash: their networks overlap and a port that is open in the
earlier one is among the ports that the later one was given, open or not. Both
notions are stated here on the list alone, and everything about rules and packets
is derived from them.

Blocks therefore win over redirects and no packet has two targets. But a port is
closed for a redirect's whole network as soon as a block covers it anywhere in
that network, so redirects are not complete, and a clash is not symmetric, so
whether normalisation succeeds can depend on the order of the list.
-/

import Bagel.PacketVerdict
import Bagel.Library.Transaction

namespace Bagel

/-! ### Open ports -/

/-- A blocking scope covers a port of the protocols it is about. -/
def Scope.coversPort (scope : Scope) (port : UInt16) : Bool :=
  scope.protocol.isNone || scope.ports.isEmpty || scope.ports.contains port

/-- A port of a redirect that no block on an overlapping network covers. -/
def OpenPort (memberships : List Membership) (redirect : Membership) (port : UInt16) : Prop :=
  port ∈ redirect.scope.ports ∧
    ∀ blocker ∈ memberships, blocker.scope.verdict.isRedirect = false →
      networksOverlap blocker.network redirect.network = true →
      protocolsOverlap blocker.scope redirect.scope = true →
      blocker.scope.coversPort port = false

theorem mem_stripPorts (blockers : List Membership) (scope : Scope) (port : UInt16) :
    port ∈ (stripPorts blockers scope).ports ↔
      port ∈ scope.ports ∧ ∀ blocker ∈ blockers, blocker.scope.coversPort port = false := by
  induction blockers generalizing scope with
  | nil => simp [stripPorts]
  | cons blocker rest inductionHypothesis =>
    simp only [stripPorts, List.mem_cons, forall_eq_or_imp, Scope.coversPort]
    by_cases whole : (blocker.scope.protocol.isNone || blocker.scope.ports.isEmpty) = true
    · rw [if_pos whole, whole]
      simp [Scope.retain]
    · rw [if_neg whole, inductionHypothesis, Bool.eq_false_iff.mpr whole]
      simp only [Scope.retain, List.mem_filter, Bool.false_or, Bool.not_eq_true', Scope.coversPort,
        and_assoc]

theorem stripPorts_protocol (blockers : List Membership) (scope : Scope) :
    (stripPorts blockers scope).protocol = scope.protocol := by
  induction blockers generalizing scope with
  | nil => rfl
  | cons blocker rest inductionHypothesis =>
    rw [stripPorts]
    split
    · rfl
    · exact inductionHypothesis _

theorem stripPorts_verdict (blockers : List Membership) (scope : Scope) :
    (stripPorts blockers scope).verdict = scope.verdict := by
  induction blockers generalizing scope with
  | nil => rfl
  | cons blocker rest inductionHypothesis =>
    rw [stripPorts]
    split
    · rfl
    · exact inductionHypothesis _

/-- What normalisation leaves of a redirect's scope. -/
def remaining (memberships : List Membership) (redirect : Membership) : Scope :=
  stripPorts (blockers memberships redirect) redirect.scope

theorem mem_remaining_ports (memberships : List Membership) (redirect : Membership)
    (port : UInt16) :
    port ∈ (remaining memberships redirect).ports ↔ OpenPort memberships redirect port := by
  rw [remaining, mem_stripPorts]
  simp only [blockers, List.mem_filter, Bool.and_eq_true, Bool.not_eq_true', and_imp, OpenPort]

theorem OpenPort.mem {memberships : List Membership} {redirect : Membership} {port : UInt16}
    (isOpen : OpenPort memberships redirect port) : port ∈ redirect.scope.ports :=
  isOpen.1

/-- Which ports are open depends on the blocks of the list, not on their order. -/
theorem OpenPort.perm {memberships others : List Membership} (permuted : others.Perm memberships)
    {redirect : Membership} {port : UInt16} (isOpen : OpenPort memberships redirect port) :
    OpenPort others redirect port :=
  ⟨isOpen.1, fun blocker member => isOpen.2 blocker (permuted.mem_iff.mp member)⟩

/-! ### Clashes and the loop over the redirects -/

/-- Two redirects clash when the first, met earlier in the list, makes normalisation fail on
account of the second. -/
def Clash (memberships : List Membership) (first second : Membership) : Prop :=
  ∃ target other, first.scope.verdict = .redirect target ∧
    second.scope.verdict = .redirect other ∧ target ≠ other ∧
    networksOverlap second.network first.network = true ∧
    ∃ port, OpenPort memberships first port ∧ port ∈ second.scope.ports

theorem Clash.perm {memberships others : List Membership} (permuted : others.Perm memberships)
    {first second : Membership} (clash : Clash memberships first second) :
    Clash others first second := by
  obtain ⟨target, other, firstVerdict, secondVerdict, different, overlap, port, isOpen, shared⟩ :=
    clash
  exact ⟨target, other, firstVerdict, secondVerdict, different, overlap, port,
    isOpen.perm permuted, shared⟩

/-- A redirect that names ports is a TCP redirect. -/
theorem Scope.protocol_of_redirect {scope : Scope} {target : UInt16}
    (verdict : scope.verdict = .redirect target) {port : UInt16} (member : port ∈ scope.ports) :
    scope.protocol = some .tcp :=
  scope.redirectTcp (by rw [verdict, Verdict.isRedirect]) (List.ne_nil_of_mem member)

theorem redirectConflict_eq_true_iff (memberships : List Membership) (first : Membership)
    (target : UInt16) (verdict : first.scope.verdict = .redirect target)
    (later : List Membership) :
    redirectConflict first.network (remaining memberships first) target later = true ↔
      ∃ second ∈ later, Clash memberships first second := by
  rw [redirectConflict, List.any_eq_true]
  refine exists_congr fun second => and_congr_right fun _ => ?_
  constructor
  · intro conflict
    split at conflict
    · next other secondVerdict =>
      simp only [Bool.and_eq_true, bne_iff_ne, List.any_eq_true, mem_remaining_ports,
        List.contains_iff_mem] at conflict
      obtain ⟨⟨⟨different, overlap⟩, _⟩, port, isOpen, shared⟩ := conflict
      exact ⟨target, other, verdict, secondVerdict, different, overlap, port, isOpen, shared⟩
    · exact absurd conflict (by simp)
  · rintro ⟨firstTarget, other, firstVerdict, secondVerdict, different, overlap, port, isOpen,
      shared⟩
    have sameTarget : firstTarget = target := by
      rw [verdict] at firstVerdict
      exact (Verdict.redirect.inj firstVerdict).symm
    have tcp : protocolsOverlap second.scope (remaining memberships first) = true := by
      rw [protocolsOverlap, remaining, stripPorts_protocol,
        Scope.protocol_of_redirect verdict isOpen.mem,
        Scope.protocol_of_redirect secondVerdict shared]
      rfl
    rw [secondVerdict]
    simp only [Bool.and_eq_true, bne_iff_ne, List.any_eq_true, mem_remaining_ports,
      List.contains_iff_mem]
    exact ⟨⟨⟨sameTarget ▸ different, overlap⟩, tcp⟩, port, isOpen, shared⟩

/-- What normalisation makes of one redirect: itself with its open ports, or nothing when no
port is open. -/
def survivor (memberships : List Membership) (membership : Membership) : Option Membership :=
  if membership.scope.verdict.isRedirect && !(remaining memberships membership).ports.isEmpty then
    some ⟨membership.network, remaining memberships membership⟩
  else none

/-- A block is no redirect, so the loop passes over it. -/
theorem normalizeRedirects_of_block {memberships later : List Membership} {membership : Membership}
    (blocks : membership.scope.verdict.isRedirect = false) :
    normalizeRedirects memberships (membership :: later) = normalizeRedirects memberships later ∧
      survivor memberships membership = none ∧
      ∀ second ∈ later, ¬ Clash memberships membership second := by
  refine ⟨?_, by rw [survivor, blocks, Bool.false_and, if_neg Bool.false_ne_true], ?_⟩
  · cases verdict : membership.scope.verdict with
    | drop => simp only [normalizeRedirects, verdict]
    | reject => simp only [normalizeRedirects, verdict]
    | redirect target => exact nomatch verdict ▸ blocks
  · rintro second _ ⟨target, other, redirects, _⟩
    exact nomatch redirects ▸ blocks

/-- So it does over a redirect without an open port. -/
theorem normalizeRedirects_of_closed {memberships later : List Membership}
    {membership : Membership} {target : UInt16}
    (verdict : membership.scope.verdict = .redirect target)
    (empty : (remaining memberships membership).ports.isEmpty = true) :
    normalizeRedirects memberships (membership :: later) = normalizeRedirects memberships later ∧
      survivor memberships membership = none ∧
      ∀ second ∈ later, ¬ Clash memberships membership second := by
  refine ⟨?_, by simp [survivor, empty], ?_⟩
  · simp only [normalizeRedirects, verdict]
    rw [← remaining, if_pos empty]
  · rintro second _ ⟨_, _, _, _, _, _, port, isOpen, _⟩
    rw [← mem_remaining_ports, List.isEmpty_iff.mp empty] at isOpen
    exact absurd isOpen List.not_mem_nil

/-- The loop succeeds exactly when no redirect clashes with a later one, and then yields
what is left of every redirect. -/
theorem normalizeRedirects_eq_ok_iff (memberships list result : List Membership) :
    normalizeRedirects memberships list = .ok result ↔
      list.Pairwise (fun first second => ¬ Clash memberships first second) ∧
        result = list.filterMap (survivor memberships) := by
  induction list generalizing result with
  | nil => simp [normalizeRedirects, eq_comm]
  | cons membership later inductionHypothesis =>
    -- A membership that the loop passes over says nothing about the result.
    have passed (skipped : normalizeRedirects memberships (membership :: later) =
          normalizeRedirects memberships later ∧ survivor memberships membership = none ∧
          ∀ second ∈ later, ¬ Clash memberships membership second) :
        normalizeRedirects memberships (membership :: later) = .ok result ↔
          (membership :: later).Pairwise (fun first second => ¬ Clash memberships first second) ∧
            result = (membership :: later).filterMap (survivor memberships) := by
      obtain ⟨same, gone, calm⟩ := skipped
      rw [List.pairwise_cons, List.filterMap_cons_none gone, same, inductionHypothesis]
      exact ⟨fun found => ⟨⟨calm, found.1⟩, found.2⟩, fun found => ⟨found.1.2, found.2⟩⟩
    cases verdict : membership.scope.verdict with
    | drop => exact passed (normalizeRedirects_of_block (by rw [verdict]; rfl))
    | reject => exact passed (normalizeRedirects_of_block (by rw [verdict]; rfl))
    | redirect target =>
      by_cases empty : (remaining memberships membership).ports.isEmpty = true
      · exact passed (normalizeRedirects_of_closed verdict empty)
      · have conflict := redirectConflict_eq_true_iff memberships membership target verdict later
        have kept : survivor memberships membership =
            some ⟨membership.network, remaining memberships membership⟩ := by
          simp [survivor, verdict, Verdict.isRedirect, empty]
        rw [List.pairwise_cons, List.filterMap_cons_some kept]
        simp only [normalizeRedirects, verdict]
        rw [← remaining, if_neg empty]
        by_cases clashes : ∃ second ∈ later, Clash memberships membership second
        · rw [if_pos (conflict.mpr clashes)]
          obtain ⟨second, member, clash⟩ := clashes
          simp only [reduceCtorEq, false_iff, not_and]
          intro calm
          exact absurd clash (calm.1 second member)
        · rw [if_neg (fun found => clashes (conflict.mp found)), Transaction.bind_eq_ok_iff]
          simp only [not_exists, not_and] at clashes
          constructor
          · rintro ⟨rest, found, same⟩
            obtain ⟨calm, rfl⟩ := (inductionHypothesis rest).mp found
            exact ⟨⟨clashes, calm⟩, (Except.ok.inj same).symm⟩
          · rintro ⟨⟨_, calm⟩, same⟩
            exact ⟨_, (inductionHypothesis _).mpr ⟨calm, rfl⟩, by rw [same]; rfl⟩

/-- Normalisation succeeds exactly when no redirect clashes with a later one, and then
yields the blocks followed by what is left of every redirect. -/
theorem normalizeMemberships_eq_ok_iff (memberships result : List Membership) :
    normalizeMemberships memberships = .ok result ↔
      memberships.Pairwise (fun first second => ¬ Clash memberships first second) ∧
        result = memberships.filter (fun membership => !membership.scope.verdict.isRedirect) ++
          memberships.filterMap (survivor memberships) := by
  rw [normalizeMemberships, Transaction.bind_eq_ok_iff]
  constructor
  · rintro ⟨redirects, found, same⟩
    obtain ⟨calm, rfl⟩ := (normalizeRedirects_eq_ok_iff _ _ _).mp found
    exact ⟨calm, (Except.ok.inj same).symm⟩
  · rintro ⟨calm, same⟩
    exact ⟨_, (normalizeRedirects_eq_ok_iff _ _ _).mpr ⟨calm, rfl⟩, by rw [same]; rfl⟩

end Bagel
