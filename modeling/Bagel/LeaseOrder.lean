/-
This file settles when the order of the leases matters to normalisation.

The verdict of a packet never depends on the order: the rules of two successful
normalisations of one list are the same up to the order inside a chain, and no
two redirects of a packet disagree. Success does depend on it, because a clash
has a direction. A clash in one direction only means that some block closes the
shared ports in one of the two redirects and not in the other; the networks of
the two are nested, so the redirect that keeps its ports is the inner one.
Sorting the list by prefix length therefore puts every such pair in the order
that succeeds, and putting the pair first in the other order fails.
-/

import Bagel.Precedence

namespace Bagel

/-! ### The verdicts agree -/

/-- Two lists of memberships that cover the same packets with the same verdicts are laid out
as rulesets that treat every packet alike. -/
theorem verdict_congr (table : String) (priority : Int) {first second : List Membership}
    (same : ∀ verdict packet, CoveredBy first verdict packet ↔ CoveredBy second verdict packet)
    (unique : ∀ packet target other, CoveredBy first (.redirect target) packet →
      CoveredBy first (.redirect other) packet → target = other)
    (isLocal : IpAddr → Bool) (packet : Packet) :
    (layoutRuleset table priority first).verdict isLocal packet =
      (layoutRuleset table priority second).verdict isLocal packet := by
  have input (packet : Packet) : (layoutRuleset table priority first).inputVerdict isLocal packet =
      (layoutRuleset table priority second).inputVerdict isLocal packet := by
    rw [inputVerdict_eq, inputVerdict_eq]
    simp only [same]
  have targets : (layoutRuleset table priority first).redirectTarget packet =
      (layoutRuleset table priority second).redirectTarget packet := by
    by_cases reached : ∃ target, CoveredBy first (.redirect target) packet
    · obtain ⟨target, covered⟩ := reached
      rw [redirectTarget_eq_some table priority first packet covered
          fun other also => unique packet other target also covered,
        redirectTarget_eq_some table priority second packet ((same _ _).mp covered)
          fun other also => unique packet other target ((same _ _).mpr also) covered]
    · have unreached := not_exists.mp reached
      rw [redirectTarget_eq_none table priority first packet unreached,
        redirectTarget_eq_none table priority second packet
          fun target covered => unreached target ((same _ _).mpr covered)]
  rw [Ruleset.verdict, Ruleset.verdict, targets]
  simp only [input]

/-- Two successful normalisations of one list, in whatever orders, cover the same packets. -/
theorem coveredBy_normalized_perm {memberships others result otherResult : List Membership}
    (permuted : others.Perm memberships)
    (normalized : normalizeMemberships memberships = .ok result)
    (otherNormalized : normalizeMemberships others = .ok otherResult) (verdict : Verdict)
    (packet : Packet) : CoveredBy result verdict packet ↔ CoveredBy otherResult verdict packet := by
  have block (verdict : Verdict) (blocks : verdict.isRedirect = false) :
      CoveredBy result verdict packet ↔ CoveredBy otherResult verdict packet := by
    rw [coveredBy_normalized_block normalized verdict blocks,
      coveredBy_normalized_block otherNormalized verdict blocks]
    exact exists_congr fun membership => and_congr_left fun _ => permuted.mem_iff.symm
  cases verdict with
  | drop => exact block .drop rfl
  | reject => exact block .reject rfl
  | redirect target =>
    rw [coveredBy_normalized_redirect normalized, coveredBy_normalized_redirect otherNormalized]
    refine exists_congr fun redirect => and_congr permuted.mem_iff.symm <| and_congr_right fun _ =>
      and_congr_right fun _ => and_congr_right fun _ => ?_
    exact ⟨OpenPort.perm permuted, OpenPort.perm permuted.symm⟩

/-! ### The orders that succeed and the orders that fail -/

/-- A redirect around another one, or equal to it, clashes with it only if the other clashes
back: a block on the inner network is a block on the outer one. -/
theorem clash_symm_of_outer {memberships : List Membership} {outer inner : Membership}
    (shorter : outer.network.prefixLength ≤ inner.network.prefixLength)
    (clash : Clash memberships outer inner) : Clash memberships inner outer := by
  obtain ⟨target, other, outerVerdict, innerVerdict, different, overlap, port, isOpen, shared⟩ :=
    clash
  have nested : networksOverlap outer.network inner.network = true := by
    rwa [networksOverlap_comm]
  refine ⟨other, target, innerVerdict, outerVerdict, Ne.symm different, nested, port,
    ⟨shared, fun blocker member blocks meets protocols => ?_⟩, isOpen.mem⟩
  refine isOpen.2 blocker member blocks (networksOverlap_of_inner nested shorter meets) ?_
  rw [protocolsOverlap, Scope.protocol_of_redirect outerVerdict isOpen.mem]
  rwa [protocolsOverlap, Scope.protocol_of_redirect innerVerdict shared] at protocols

/-- Without a pair of redirects that clash both ways, putting shorter prefixes first makes
normalisation succeed. -/
theorem exists_perm_normalized {memberships : List Membership}
    (oneWay : ∀ first ∈ memberships, ∀ second ∈ memberships,
      Clash memberships first second → ¬ Clash memberships second first) :
    ∃ others result, others.Perm memberships ∧ normalizeMemberships others = .ok result := by
  let shorter (first second : Membership) : Bool :=
    decide (first.network.prefixLength ≤ second.network.prefixLength)
  have permuted : (memberships.mergeSort shorter).Perm memberships :=
    List.mergeSort_perm memberships shorter
  have sorted : (memberships.mergeSort shorter).Pairwise fun first second => shorter first second :=
    List.pairwise_mergeSort
      (fun first second third before after => by
        simp only [shorter, decide_eq_true_eq] at before after ⊢
        omega)
      (fun first second => by
        simp only [shorter, Bool.or_eq_true, decide_eq_true_eq]
        omega)
      memberships
  refine ⟨memberships.mergeSort shorter, _, permuted,
    (normalizeMemberships_eq_ok_iff _ _).mpr ⟨?_, rfl⟩⟩
  refine (List.pairwise_iff_forall_sublist.mpr fun {first second} both clash => ?_)
  have clash : Clash memberships first second := clash.perm permuted.symm
  have length : shorter first second = true := List.pairwise_iff_forall_sublist.mp sorted both
  have firstMember := permuted.mem_iff.mp (both.subset List.mem_cons_self)
  have secondMember := permuted.mem_iff.mp (both.subset (List.mem_cons_of_mem _ List.mem_cons_self))
  exact oneWay first firstMember second secondMember clash
    (clash_symm_of_outer (by simpa [shorter] using length) clash)

/-- Putting a clash in front makes normalisation fail. -/
theorem exists_perm_rejected {memberships : List Membership} {first second : Membership}
    (firstMember : first ∈ memberships) (secondMember : second ∈ memberships)
    (clash : Clash memberships first second) :
    ∃ others, others.Perm memberships ∧ ∀ result, normalizeMemberships others ≠ .ok result := by
  have different : second ≠ first := by
    rintro rfl
    obtain ⟨target, other, firstVerdict, secondVerdict, targets, _⟩ := clash
    rw [firstVerdict] at secondVerdict
    exact targets (Verdict.redirect.inj secondVerdict)
  have secondLeft : second ∈ memberships.erase first :=
    (List.mem_erase_of_ne different).mpr secondMember
  have permuted : (first :: second :: (memberships.erase first).erase second).Perm memberships :=
    (((List.perm_cons_erase firstMember).trans
      ((List.perm_cons_erase secondLeft).cons first))).symm
  refine ⟨_, permuted, fun result normalized => ?_⟩
  obtain ⟨calm, _⟩ := (normalizeMemberships_eq_ok_iff _ _).mp normalized
  exact (List.pairwise_cons.mp calm).1 second List.mem_cons_self (clash.perm permuted)

/-- Two redirects that clash both ways make normalisation fail in every order. -/
theorem normalize_ne_ok_of_mutual {memberships result : List Membership}
    {first second : Membership} (firstMember : first ∈ memberships)
    (secondMember : second ∈ memberships) (clash : Clash memberships first second)
    (back : Clash memberships second first) : normalizeMemberships memberships ≠ .ok result := by
  intro normalized
  rcases not_clash_or_not_clash normalized firstMember secondMember with calm | calm
  · exact calm clash
  · exact calm back

/-! ### When the order does not matter -/

/-- Every order of a list of memberships fares alike: all fail, or all succeed and give every
packet the same verdict. -/
def OrderIndependent (memberships : List Membership) : Prop :=
  ∀ others : List Membership, others.Perm memberships →
    ((∃ result, normalizeMemberships memberships = .ok result) ↔
      ∃ result, normalizeMemberships others = .ok result) ∧
    ∀ result otherResult, normalizeMemberships memberships = .ok result →
      normalizeMemberships others = .ok otherResult →
      ∀ table priority isLocal packet,
        (layoutRuleset table priority result).verdict isLocal packet =
          (layoutRuleset table priority otherResult).verdict isLocal packet

/-- The order of the leases does not matter exactly when no two redirects clash at all, or
some two clash both ways. -/
theorem order_independent_iff (memberships : List Membership) :
    OrderIndependent memberships ↔
      (∀ first ∈ memberships, ∀ second ∈ memberships, ¬ Clash memberships first second) ∨
        ∃ first ∈ memberships, ∃ second ∈ memberships,
          Clash memberships first second ∧ Clash memberships second first := by
  constructor
  · intro independent
    by_contra neither
    obtain ⟨someClash, noMutual⟩ := not_or.mp neither
    push Not at someClash noMutual
    obtain ⟨first, firstMember, second, secondMember, clash⟩ := someClash
    obtain ⟨good, result, goodPerm, succeeds⟩ := exists_perm_normalized noMutual
    obtain ⟨bad, badPerm, fails⟩ := exists_perm_rejected firstMember secondMember clash
    obtain ⟨badResult, badSucceeds⟩ := (independent bad badPerm).1.mp
      ((independent good goodPerm).1.mpr ⟨result, succeeds⟩)
    exact fails badResult badSucceeds
  · intro condition others permuted
    refine ⟨?_, fun result otherResult normalized otherNormalized table priority isLocal packet =>
      verdict_congr table priority (coveredBy_normalized_perm permuted normalized otherNormalized)
        (fun packet target other reached also => redirect_target_unique normalized reached also)
        isLocal packet⟩
    rcases condition with calm | ⟨first, firstMember, second, secondMember, clash, back⟩
    · have succeeds (list : List Membership) (same : list.Perm memberships) :
          ∃ result, normalizeMemberships list = .ok result := by
        refine ⟨_, (normalizeMemberships_eq_ok_iff _ _).mpr
          ⟨List.pairwise_iff_forall_sublist.mpr fun {first second} both clash => ?_, rfl⟩⟩
        exact calm first (same.mem_iff.mp (both.subset List.mem_cons_self)) second
          (same.mem_iff.mp (both.subset (List.mem_cons_of_mem _ List.mem_cons_self)))
          (clash.perm same.symm)
      exact ⟨fun _ => succeeds others permuted, fun _ => succeeds memberships (List.Perm.refl _)⟩
    · constructor
      · rintro ⟨result, normalized⟩
        exact absurd normalized (normalize_ne_ok_of_mutual firstMember secondMember clash back)
      · rintro ⟨result, normalized⟩
        exact absurd normalized (normalize_ne_ok_of_mutual (permuted.mem_iff.mpr firstMember)
          (permuted.mem_iff.mpr secondMember) (clash.perm permuted) (back.perm permuted))

/-- A redirect of `192.0.2.0/24`, one of `192.0.2.2` to another target, and a drop of
`192.0.2.1`: normalisation succeeds when the wider redirect comes first and fails when it
comes second. -/
theorem lease_order_decides_normalization :
    [redirectPorts (ipv4Network 0xC0000202#32 32) [80] 3333,
        redirectPorts (ipv4Network 0xC0000200#32 24) [80] 2222,
        ⟨ipv4Network 0xC0000201#32 32, Scope.allPorts .drop⟩].Perm
      [redirectPorts (ipv4Network 0xC0000200#32 24) [80] 2222,
        redirectPorts (ipv4Network 0xC0000202#32 32) [80] 3333,
        ⟨ipv4Network 0xC0000201#32 32, Scope.allPorts .drop⟩] ∧
    normalizeMemberships [redirectPorts (ipv4Network 0xC0000200#32 24) [80] 2222,
        redirectPorts (ipv4Network 0xC0000202#32 32) [80] 3333,
        ⟨ipv4Network 0xC0000201#32 32, Scope.allPorts .drop⟩] =
      .ok [⟨ipv4Network 0xC0000201#32 32, Scope.allPorts .drop⟩,
        redirectPorts (ipv4Network 0xC0000202#32 32) [80] 3333] ∧
    normalizeMemberships [redirectPorts (ipv4Network 0xC0000202#32 32) [80] 3333,
        redirectPorts (ipv4Network 0xC0000200#32 24) [80] 2222,
        ⟨ipv4Network 0xC0000201#32 32, Scope.allPorts .drop⟩] =
      .error (.io "conflicting tarpit redirects for overlapping network 192.0.2.2/32") := by
  exact ⟨List.Perm.swap _ _ _, rfl, rfl⟩

end Bagel
