/-
This file derives what a normalised list of memberships does to packets once it is
laid out as a ruleset: blocks win over redirects, redirects agree on their target,
and a redirect reaches a packet exactly when the packet's port is open in it.
-/

import Bagel.Redirects
import Mathlib.Data.List.Pairwise

namespace Bagel

/-! ### The chains of a laid out list -/

section Chains

variable (table : String) (priority : Int) (memberships : List Membership) (packet : Packet)

/-- Some membership with this verdict covers the packet. -/
def CoveredBy (memberships : List Membership) (verdict : Verdict) (packet : Packet) : Prop :=
  ∃ membership ∈ memberships, membership.scope.verdict = verdict ∧ membership.covers packet = true

instance (verdict : Verdict) : Decidable (CoveredBy memberships verdict packet) :=
  inferInstanceAs (Decidable (∃ membership ∈ memberships, _))

theorem exists_prerouting_fires_iff :
    (∃ rule ∈ (layoutRuleset table priority memberships).prerouting,
        rule.fires (layoutRuleset table priority memberships).sets packet = true) ↔
      ∃ target, CoveredBy memberships (.redirect target) packet := by
  have fires := exists_rule_fires_iff memberships Verdict.isRedirect packet (fun _ => True)
  simp only [and_true, true_and] at fires
  refine fires.trans ⟨?_, ?_⟩
  · rintro ⟨membership, member, redirects, covers⟩
    obtain ⟨target, verdict⟩ := Verdict.isRedirect_iff.mp redirects
    exact ⟨target, membership, member, verdict, covers⟩
  · rintro ⟨target, membership, member, verdict, covers⟩
    exact ⟨membership, member, by rw [verdict, Verdict.isRedirect], covers⟩

/-- A redirect rule of the prerouting chain that matches has the target of a membership that
covers the packet. -/
theorem coveredBy_of_prerouting {rule : Rule}
    (member : rule ∈ (layoutRuleset table priority memberships).prerouting)
    (fires : rule.fires (layoutRuleset table priority memberships).sets packet = true) :
    ∃ target, rule.scope.verdict = .redirect target ∧
      CoveredBy memberships (.redirect target) packet := by
  obtain ⟨membership, given, redirects, same, covers⟩ :=
    (exists_rule_fires_iff memberships Verdict.isRedirect packet
      (fun scope => scope.verdict = rule.scope.verdict)).mp ⟨rule, member, fires, rfl⟩
  obtain ⟨target, verdict⟩ := Verdict.isRedirect_iff.mp redirects
  exact ⟨target, same.symm.trans verdict, membership, given, verdict, covers⟩

theorem redirectTarget_eq_none
    (uncovered : ∀ target, ¬ CoveredBy memberships (.redirect target) packet) :
    (layoutRuleset table priority memberships).redirectTarget packet = none := by
  have silent : (layoutRuleset table priority memberships).prerouting.find? (fun rule =>
      rule.fires (layoutRuleset table priority memberships).sets packet) = none := by
    refine List.find?_eq_none.mpr fun rule member fires => ?_
    obtain ⟨target, _, covered⟩ := coveredBy_of_prerouting table priority memberships packet
      member fires
    exact uncovered target covered
  rw [Ruleset.redirectTarget, silent]

/-- When all redirects that cover a packet have one target, the prerouting chain picks it. -/
theorem redirectTarget_eq_some {target : UInt16}
    (covered : CoveredBy memberships (.redirect target) packet)
    (unique : ∀ other, CoveredBy memberships (.redirect other) packet → other = target) :
    (layoutRuleset table priority memberships).redirectTarget packet = some target := by
  cases found : (layoutRuleset table priority memberships).prerouting.find? (fun rule =>
      rule.fires (layoutRuleset table priority memberships).sets packet) with
  | none =>
    obtain ⟨rule, member, fires⟩ :=
      (exists_prerouting_fires_iff table priority memberships packet).mpr ⟨target, covered⟩
    exact absurd fires (List.find?_eq_none.mp found rule member)
  | some rule =>
    have fires := List.find?_some found
    obtain ⟨other, verdict, reaches⟩ := coveredBy_of_prerouting table priority memberships packet
      (List.mem_of_find?_eq_some found) fires
    rw [Ruleset.redirectTarget, found]
    simp only [verdict, unique other reaches]

/-- The rules of one verdict: the first that matches, if any does, has that verdict. -/
theorem find_rulesWhere (verdict : Verdict) :
    match (rulesWhere (groupScopes memberships) (· == verdict)).find? (fun rule =>
        rule.fires ((groupScopes memberships).map Prod.snd) packet) with
    | some rule => rule.scope.verdict = verdict ∧ CoveredBy memberships verdict packet
    | none => ¬ CoveredBy memberships verdict packet := by
  have reads := exists_rule_fires_iff memberships (· == verdict) packet
  cases found : (rulesWhere (groupScopes memberships) (· == verdict)).find? (fun rule =>
      rule.fires ((groupScopes memberships).map Prod.snd) packet) with
  | some rule =>
    have fires := List.find?_some found
    obtain ⟨membership, given, wanted, same, covers⟩ :=
      (reads (fun scope => scope.verdict = rule.scope.verdict)).mp
        ⟨rule, List.mem_of_find?_eq_some found, fires, rfl⟩
    have wanted : membership.scope.verdict = verdict := beq_iff_eq.mp wanted
    exact ⟨same.symm.trans wanted, membership, given, wanted, covers⟩
  | none =>
    rintro ⟨membership, given, same, covers⟩
    obtain ⟨rule, member, fires, _⟩ := (reads (fun _ => True)).mpr
      ⟨membership, given, by rw [same, beq_self_eq_true], trivial, covers⟩
    exact absurd fires (List.find?_eq_none.mp found rule member)

theorem exists_rule_of_verdict {verdict : Verdict} {rule : Rule}
    (member : rule ∈ rulesWhere (groupScopes memberships) (· == verdict))
    (fires : rule.fires ((groupScopes memberships).map Prod.snd) packet = true) :
    CoveredBy memberships verdict packet := by
  obtain ⟨membership, given, wanted, _, covers⟩ :=
    (exists_rule_fires_iff memberships (· == verdict) packet (fun _ => True)).mp
      ⟨rule, member, fires, trivial⟩
  exact ⟨membership, given, beq_iff_eq.mp wanted, covers⟩

theorem layoutRuleset_input :
    (layoutRuleset table priority memberships).input =
      rulesWhere (groupScopes memberships) (· == Verdict.drop) ++
        rulesWhere (groupScopes memberships) (· == Verdict.reject) := by
  simp [layoutRuleset]

/-- Every rule that matches a packet stands for a membership that covers it. -/
theorem coveredBy_of_fires {rule : Rule}
    (member : rule ∈ (layoutRuleset table priority memberships).input ++
      (layoutRuleset table priority memberships).prerouting)
    (fires : rule.fires (layoutRuleset table priority memberships).sets packet = true) :
    ∃ verdict, CoveredBy memberships verdict packet := by
  rw [layoutRuleset_input, List.mem_append, List.mem_append] at member
  rcases member with (dropping | rejecting) | redirecting
  · exact ⟨.drop, exists_rule_of_verdict memberships packet dropping fires⟩
  · exact ⟨.reject, exists_rule_of_verdict memberships packet rejecting fires⟩
  · obtain ⟨target, _, covered⟩ :=
      coveredBy_of_prerouting table priority memberships packet redirecting fires
    exact ⟨.redirect target, covered⟩

/-- The input chain drops what a drop covers and rejects what a reject covers and no drop
does, unless it comes from the host itself. -/
theorem inputVerdict_eq (isLocal : IpAddr → Bool) :
    (layoutRuleset table priority memberships).inputVerdict isLocal packet =
      if isLocal packet.source then .accepted
      else if CoveredBy memberships .drop packet then .dropped
      else if CoveredBy memberships .reject packet then .rejected
      else .accepted := by
  have drops := find_rulesWhere memberships packet .drop
  have rejects := find_rulesWhere memberships packet .reject
  rw [Ruleset.inputVerdict, layoutRuleset_input, List.find?_append]
  simp only [layoutRuleset]
  -- the drop rules stand before the reject rules, so the first match decides in that order
  cases dropped : (rulesWhere (groupScopes memberships) (· == Verdict.drop)).find? (fun rule =>
      rule.fires ((groupScopes memberships).map Prod.snd) packet) with
  | some rule =>
    rw [dropped] at drops
    simp only [Option.some_or, drops.1, if_pos drops.2]
  | none =>
    rw [dropped] at drops
    cases rejected : (rulesWhere (groupScopes memberships) (· == Verdict.reject)).find?
        (fun rule => rule.fires ((groupScopes memberships).map Prod.snd) packet) with
    | some rule =>
      rw [rejected] at rejects
      simp only [Option.none_or, rejects.1, if_neg drops, if_pos rejects.2]
    | none =>
      rw [rejected] at rejects
      simp only [Option.none_or, if_neg drops, if_neg rejects]

end Chains

/-! ### What normalisation leaves for packets -/

section Normalized

variable {memberships result : List Membership}

theorem survivor_eq_some_iff (redirect kept : Membership) :
    survivor memberships redirect = some kept ↔
      redirect.scope.verdict.isRedirect = true ∧
        (∃ port, OpenPort memberships redirect port) ∧
        kept = ⟨redirect.network, remaining memberships redirect⟩ := by
  have nonempty : (remaining memberships redirect).ports.isEmpty = false ↔
      ∃ port, OpenPort memberships redirect port := by
    rw [← Bool.not_eq_true, List.isEmpty_iff, List.eq_nil_iff_forall_not_mem]
    simp only [mem_remaining_ports, not_forall, not_not]
  simp only [survivor, Option.ite_none_right_eq_some, Bool.and_eq_true, Bool.not_eq_true',
    nonempty, Option.some.injEq, and_assoc]
  rw [@eq_comm _ kept]

/-- What is left of a redirect covers the TCP packets of its network whose port is open. -/
theorem covers_remaining_iff {redirect : Membership} {target : UInt16}
    (verdict : redirect.scope.verdict = .redirect target)
    (nonempty : ∃ port, OpenPort memberships redirect port) (packet : Packet) :
    Membership.covers ⟨redirect.network, remaining memberships redirect⟩ packet = true ↔
      redirect.network.contains packet.source = true ∧ packet.protocol = .tcp ∧
        OpenPort memberships redirect packet.port := by
  obtain ⟨port, isOpen⟩ := nonempty
  have tcp : (remaining memberships redirect).protocol = some .tcp := by
    rw [remaining, stripPorts_protocol, Scope.protocol_of_redirect verdict isOpen.mem]
  have ports : (remaining memberships redirect).ports.isEmpty = false := by
    rw [← Bool.not_eq_true, List.isEmpty_iff]
    exact List.ne_nil_of_mem ((mem_remaining_ports memberships redirect port).mpr isOpen)
  simp only [Membership.covers, tcp, ports, Option.isNone_some, Bool.false_or, Bool.and_eq_true,
    beq_iff_eq, Option.some.injEq, List.contains_iff_mem, mem_remaining_ports, and_assoc]
  rw [@eq_comm _ Protocol.tcp]

/-- Blocks come out of normalisation as they went in. -/
theorem coveredBy_normalized_block (normalized : normalizeMemberships memberships = .ok result)
    (verdict : Verdict) (blocks : verdict.isRedirect = false) (packet : Packet) :
    CoveredBy result verdict packet ↔ CoveredBy memberships verdict packet := by
  obtain ⟨_, rfl⟩ := (normalizeMemberships_eq_ok_iff _ _).mp normalized
  constructor
  · rintro ⟨membership, member, same, covers⟩
    rcases List.mem_append.mp member with kept | left
    · exact ⟨membership, (List.mem_filter.mp kept).1, same, covers⟩
    · obtain ⟨redirect, _, survives⟩ := List.mem_filterMap.mp left
      obtain ⟨redirects, _, rfl⟩ := (survivor_eq_some_iff _ _).mp survives
      rw [← same, remaining, stripPorts_verdict, redirects] at blocks
      exact absurd blocks (by simp)
  · rintro ⟨membership, member, same, covers⟩
    refine ⟨membership, List.mem_append.mpr (Or.inl (List.mem_filter.mpr ⟨member, ?_⟩)), same,
      covers⟩
    rw [same, blocks]
    rfl

/-- A redirect reaches a packet after normalisation exactly when the packet's port is open
in it. -/
theorem coveredBy_normalized_redirect
    (normalized : normalizeMemberships memberships = .ok result) (target : UInt16)
    (packet : Packet) :
    CoveredBy result (.redirect target) packet ↔
      ∃ redirect ∈ memberships, redirect.scope.verdict = .redirect target ∧
        redirect.network.contains packet.source = true ∧ packet.protocol = .tcp ∧
        OpenPort memberships redirect packet.port := by
  obtain ⟨_, rfl⟩ := (normalizeMemberships_eq_ok_iff _ _).mp normalized
  constructor
  · rintro ⟨membership, member, same, covers⟩
    rcases List.mem_append.mp member with kept | left
    · have blocks := (List.mem_filter.mp kept).2
      rw [same] at blocks
      exact absurd blocks (by simp [Verdict.isRedirect])
    · obtain ⟨redirect, given, survives⟩ := List.mem_filterMap.mp left
      obtain ⟨_, nonempty, rfl⟩ := (survivor_eq_some_iff _ _).mp survives
      rw [remaining, stripPorts_verdict] at same
      exact ⟨redirect, given, same, (covers_remaining_iff same nonempty packet).mp covers⟩
  · rintro ⟨redirect, given, verdict, inside⟩
    have nonempty : ∃ port, OpenPort memberships redirect port := ⟨packet.port, inside.2.2⟩
    refine ⟨⟨redirect.network, remaining memberships redirect⟩,
      List.mem_append.mpr (Or.inr (List.mem_filterMap.mpr ⟨redirect, given, ?_⟩)), ?_,
      (covers_remaining_iff verdict nonempty packet).mpr inside⟩
    · exact (survivor_eq_some_iff _ _).mpr ⟨by rw [verdict, Verdict.isRedirect], nonempty, rfl⟩
    · rw [remaining, stripPorts_verdict, verdict]

/-- Normalisation never makes a membership cover more. -/
theorem coveredBy_of_normalized (normalized : normalizeMemberships memberships = .ok result)
    {verdict : Verdict} {packet : Packet} (covered : CoveredBy result verdict packet) :
    CoveredBy memberships verdict packet := by
  cases verdict with
  | drop => exact (coveredBy_normalized_block normalized .drop rfl packet).mp covered
  | reject => exact (coveredBy_normalized_block normalized .reject rfl packet).mp covered
  | redirect target =>
    obtain ⟨redirect, member, verdict, inside, tcp, isOpen⟩ :=
      (coveredBy_normalized_redirect normalized target packet).mp covered
    refine ⟨redirect, member, verdict, ?_⟩
    rw [Membership.covers, inside, Scope.protocol_of_redirect verdict isOpen.mem, tcp,
      List.contains_iff_mem.mpr isOpen.mem, Bool.or_true]
    rfl

/-- A block that covers a packet closes the packet's port in every redirect of its
source. -/
theorem not_openPort_of_blocked {verdict : Verdict} (blocks : verdict.isRedirect = false)
    {packet : Packet} (covered : CoveredBy memberships verdict packet) {redirect : Membership}
    {target : UInt16} (redirects : redirect.scope.verdict = .redirect target)
    (inside : redirect.network.contains packet.source = true) (tcp : packet.protocol = .tcp) :
    ¬ OpenPort memberships redirect packet.port := by
  intro isOpen
  obtain ⟨blocker, member, same, covers⟩ := covered
  simp only [Membership.covers, Bool.and_eq_true, Bool.or_eq_true, beq_iff_eq] at covers
  obtain ⟨⟨holds, protocol⟩, ports⟩ := covers
  have overlaps : protocolsOverlap blocker.scope redirect.scope = true := by
    rw [protocolsOverlap, Scope.protocol_of_redirect redirects isOpen.mem, ← tcp]
    rcases protocol with absent | same <;> simp_all
  have uncovered := isOpen.2 blocker member (by rw [same, blocks])
    (networksOverlap_of_contains holds inside) overlaps
  simp only [Scope.coversPort, Bool.or_eq_false_iff] at uncovered
  rcases ports with empty | contains
  · exact absurd empty (by rw [uncovered.1.2]; simp)
  · exact absurd contains (by rw [uncovered.2]; simp)

theorem not_coveredBy_redirect_of_blocked
    (normalized : normalizeMemberships memberships = .ok result) (verdict : Verdict)
    (blocks : verdict.isRedirect = false) {packet : Packet}
    (covered : CoveredBy memberships verdict packet) (target : UInt16) :
    ¬ CoveredBy result (.redirect target) packet := by
  rw [coveredBy_normalized_redirect normalized]
  rintro ⟨redirect, _, redirects, inside, tcp, isOpen⟩
  exact not_openPort_of_blocked blocks covered redirects inside tcp isOpen

/-- Of two redirects of a list without clashes, one is free of a clash with the other. -/
theorem not_clash_or_not_clash (normalized : normalizeMemberships memberships = .ok result)
    {first second : Membership} (firstMember : first ∈ memberships)
    (secondMember : second ∈ memberships) :
    ¬ Clash memberships first second ∨ ¬ Clash memberships second first := by
  obtain ⟨calm, _⟩ := (normalizeMemberships_eq_ok_iff _ _).mp normalized
  have either : memberships.Pairwise fun first second =>
      ¬ Clash memberships first second ∨ ¬ Clash memberships second first := calm.imp Or.inl
  have self : ∀ membership ∈ memberships,
      ¬ Clash memberships membership membership ∨ ¬ Clash memberships membership membership := by
    refine fun membership _ => Or.inl ?_
    rintro ⟨target, other, firstVerdict, secondVerdict, different, _⟩
    rw [firstVerdict] at secondVerdict
    exact different (Verdict.redirect.inj secondVerdict)
  exact either.forall_of_forall_of_flip self (calm.imp Or.inr) firstMember secondMember

/-- After normalisation no packet has two redirect targets. -/
theorem redirect_target_unique (normalized : normalizeMemberships memberships = .ok result)
    {packet : Packet} {target other : UInt16}
    (reached : CoveredBy result (.redirect target) packet)
    (alsoReached : CoveredBy result (.redirect other) packet) : target = other := by
  rw [coveredBy_normalized_redirect normalized] at reached alsoReached
  obtain ⟨first, firstMember, firstVerdict, firstInside, _, firstOpen⟩ := reached
  obtain ⟨second, secondMember, secondVerdict, secondInside, _, secondOpen⟩ := alsoReached
  by_contra different
  have overlap := networksOverlap_of_contains secondInside firstInside
  rcases not_clash_or_not_clash normalized firstMember secondMember with calm | calm
  · exact calm ⟨target, other, firstVerdict, secondVerdict, different, overlap, packet.port,
      firstOpen, secondOpen.mem⟩
  · exact calm ⟨other, target, secondVerdict, firstVerdict, Ne.symm different,
      by rwa [networksOverlap_comm], packet.port, secondOpen, firstOpen.mem⟩

end Normalized

/-! ### Blocks win, redirects are unambiguous, and which redirects are complete -/

/-- A packet that a drop covers is dropped and one that only a reject covers is rejected,
neither is redirected, a packet that nothing covers meets no rule, and all redirects of a
packet agree. -/
theorem blocks_win_and_redirects_agree (table : String) (priority : Int)
    (memberships result : List Membership)
    (normalized : normalizeMemberships memberships = .ok result) (isLocal : IpAddr → Bool)
    (packet : Packet) (foreign : isLocal packet.source = false) :
    (CoveredBy memberships .drop packet →
      (layoutRuleset table priority result).verdict isLocal packet = .dropped ∧
        ∀ rule ∈ (layoutRuleset table priority result).prerouting,
          rule.fires (layoutRuleset table priority result).sets packet = false) ∧
    (¬ CoveredBy memberships .drop packet → CoveredBy memberships .reject packet →
      (layoutRuleset table priority result).verdict isLocal packet = .rejected ∧
        ∀ rule ∈ (layoutRuleset table priority result).prerouting,
          rule.fires (layoutRuleset table priority result).sets packet = false) ∧
    ((∀ membership ∈ memberships, membership.covers packet = false) →
      ∀ rule ∈ (layoutRuleset table priority result).input ++
          (layoutRuleset table priority result).prerouting,
        rule.fires (layoutRuleset table priority result).sets packet = false) ∧
    ∀ first ∈ (layoutRuleset table priority result).prerouting,
      ∀ second ∈ (layoutRuleset table priority result).prerouting,
        first.fires (layoutRuleset table priority result).sets packet = true →
        second.fires (layoutRuleset table priority result).sets packet = true →
        first.scope.verdict = second.scope.verdict := by
  have drops := coveredBy_normalized_block normalized .drop rfl packet
  have rejects := coveredBy_normalized_block normalized .reject rfl packet
  have input := inputVerdict_eq table priority result packet isLocal
  rw [foreign] at input
  simp only [Bool.false_eq_true, if_false, drops, rejects] at input
  have silent : (∀ target, ¬ CoveredBy result (.redirect target) packet) →
      ∀ rule ∈ (layoutRuleset table priority result).prerouting,
        rule.fires (layoutRuleset table priority result).sets packet = false := by
    intro unreached rule member
    refine Bool.eq_false_iff.mpr fun fires => ?_
    obtain ⟨target, _, covered⟩ := coveredBy_of_prerouting table priority result packet member fires
    exact unreached target covered
  refine ⟨fun covered => ?_, fun undropped covered => ?_, fun uncovered rule member => ?_,
    fun first firstMember second secondMember firstFires secondFires => ?_⟩
  · have unreached := not_coveredBy_redirect_of_blocked normalized .drop rfl covered
    rw [Ruleset.verdict, redirectTarget_eq_none table priority result packet unreached]
    exact ⟨by rw [input, if_pos covered], silent unreached⟩
  · have unreached := not_coveredBy_redirect_of_blocked normalized .reject rfl covered
    rw [Ruleset.verdict, redirectTarget_eq_none table priority result packet unreached]
    exact ⟨by rw [input, if_neg undropped, if_pos covered], silent unreached⟩
  · refine Bool.eq_false_iff.mpr fun fires => ?_
    obtain ⟨verdict, covered⟩ := coveredBy_of_fires table priority result packet member fires
    obtain ⟨membership, given, _, covers⟩ := coveredBy_of_normalized normalized covered
    exact absurd covers (by rw [uncovered membership given]; simp)
  · obtain ⟨target, firstVerdict, reached⟩ :=
      coveredBy_of_prerouting table priority result packet firstMember firstFires
    obtain ⟨other, secondVerdict, alsoReached⟩ :=
      coveredBy_of_prerouting table priority result packet secondMember secondFires
    rw [firstVerdict, secondVerdict, redirect_target_unique normalized reached alsoReached]

instance neZero_lengths : NeZero 33 := ⟨by decide⟩

/-- The IPv4 network with this address and prefix length. -/
def ipv4Network (address : BitVec 32) (length : Fin 33) : IpNetwork :=
  .v4 ⟨address, length, Nat.le_of_lt_succ length.isLt⟩

/-- A TCP drop of one port, as `Scope::new` builds it. -/
def dropPort (network : IpNetwork) (port : UInt16) : Membership :=
  ⟨network, some .tcp, [port], .drop, by simp, by simp [Verdict.isRedirect]⟩

/-- A TCP redirect of some ports, as `Scope::new` builds it. -/
def redirectPorts (network : IpNetwork) (ports : List UInt16) (target : UInt16) : Membership :=
  ⟨network, some .tcp, ports, .redirect target, by simp, by simp⟩

/-- A drop of `192.0.2.0/24` on port 443 wins over a redirect of `192.0.2.4` that keeps its
other port. -/
theorem blocks_win_and_redirects_agree_on_documentation_net :
    normalizeMemberships [dropPort (ipv4Network 0xC0000200#32 24) 443,
        redirectPorts (ipv4Network 0xC0000204#32 32) [80, 443] 2222] =
      .ok [dropPort (ipv4Network 0xC0000200#32 24) 443,
        redirectPorts (ipv4Network 0xC0000204#32 32) [80] 2222] ∧
    (layoutRuleset "bagel" (-10) [dropPort (ipv4Network 0xC0000200#32 24) 443,
        redirectPorts (ipv4Network 0xC0000204#32 32) [80] 2222]).verdict (fun _ => false)
      ⟨.v4 0xC0000204#32, .tcp, 443⟩ = .dropped := by
  have normalized : normalizeMemberships [dropPort (ipv4Network 0xC0000200#32 24) 443,
        redirectPorts (ipv4Network 0xC0000204#32 32) [80, 443] 2222] =
      .ok [dropPort (ipv4Network 0xC0000200#32 24) 443,
        redirectPorts (ipv4Network 0xC0000204#32 32) [80] 2222] := by rfl
  refine ⟨normalized, ?_⟩
  exact ((blocks_win_and_redirects_agree "bagel" (-10) _ _ normalized (fun _ => false)
    ⟨.v4 0xC0000204#32, .tcp, 443⟩ rfl).1 (by decide)).1

/-- A TCP packet meets a redirect rule exactly when its port is open in some redirect of its
source: named by the redirect and covered by no block on an overlapping network. -/
theorem redirect_rule_fires_iff_open_port (table : String) (priority : Int)
    (memberships result : List Membership)
    (normalized : normalizeMemberships memberships = .ok result) (packet : Packet)
    (tcp : packet.protocol = .tcp) :
    (∃ rule ∈ (layoutRuleset table priority result).prerouting,
        rule.fires (layoutRuleset table priority result).sets packet = true) ↔
      ∃ redirect ∈ memberships, redirect.scope.verdict.isRedirect = true ∧
        redirect.network.contains packet.source = true ∧
        OpenPort memberships redirect packet.port := by
  rw [exists_prerouting_fires_iff]
  constructor
  · rintro ⟨target, covered⟩
    obtain ⟨redirect, member, verdict, inside, _, isOpen⟩ :=
      (coveredBy_normalized_redirect normalized target packet).mp covered
    exact ⟨redirect, member, by rw [verdict, Verdict.isRedirect], inside, isOpen⟩
  · rintro ⟨redirect, member, redirects, inside, isOpen⟩
    obtain ⟨target, verdict⟩ := Verdict.isRedirect_iff.mp redirects
    exact ⟨target, (coveredBy_normalized_redirect normalized target packet).mpr
      ⟨redirect, member, verdict, inside, tcp, isOpen⟩⟩

theorem redirect_rule_fires_iff_open_port_on_documentation_net :
    ∃ rule ∈ (layoutRuleset "bagel" (-10)
        [redirectPorts (ipv4Network 0xC0000200#32 24) [80] 2222]).prerouting,
      rule.fires (layoutRuleset "bagel" (-10)
        [redirectPorts (ipv4Network 0xC0000200#32 24) [80] 2222]).sets
        ⟨.v4 0xC0000204#32, .tcp, 80⟩ = true := by
  refine (redirect_rule_fires_iff_open_port "bagel" (-10)
    [redirectPorts (ipv4Network 0xC0000200#32 24) [80] 2222] _ rfl
    ⟨.v4 0xC0000204#32, .tcp, 80⟩ rfl).mpr ?_
  exact ⟨_, List.mem_singleton_self _, rfl, by decide, by decide,
    by simp [redirectPorts, Verdict.isRedirect]⟩

/-- A block of one address takes the redirect away from the rest of its network: `192.0.2.2`
is redirected, it is not blocked, and no redirect rule matches it. -/
theorem partial_block_disables_redirect :
    normalizeMemberships [redirectPorts (ipv4Network 0xC0000200#32 24) [80] 2222,
        ⟨ipv4Network 0xC0000201#32 32, Scope.allPorts .drop⟩] =
      .ok [⟨ipv4Network 0xC0000201#32 32, Scope.allPorts .drop⟩] ∧
    CoveredBy [redirectPorts (ipv4Network 0xC0000200#32 24) [80] 2222,
        ⟨ipv4Network 0xC0000201#32 32, Scope.allPorts .drop⟩] (.redirect 2222)
      ⟨.v4 0xC0000202#32, .tcp, 80⟩ ∧
    (∀ verdict : Verdict, verdict.isRedirect = false →
      ¬ CoveredBy [redirectPorts (ipv4Network 0xC0000200#32 24) [80] 2222,
        ⟨ipv4Network 0xC0000201#32 32, Scope.allPorts .drop⟩] verdict
        ⟨.v4 0xC0000202#32, .tcp, 80⟩) ∧
    (layoutRuleset "bagel" (-10)
      [⟨ipv4Network 0xC0000201#32 32, Scope.allPorts .drop⟩]).prerouting = [] := by
  refine ⟨rfl, by decide, ?_, rfl⟩
  intro verdict blocks
  cases verdict with
  | drop => decide
  | reject => decide
  | redirect target => exact absurd blocks (by simp [Verdict.isRedirect])

end Bagel
