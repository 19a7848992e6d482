/-
This file settles what the keys of cookies and of challenges tell about the host or the name and
about the network they are derived for. Both texts stand behind each other with nothing between
them. A network says by its end where it begins, except for its first component: a host that ends
in digits can be read as a shorter host with a network of a longer first component.
-/

import Bagel.Gates
import Bagel.HostTexts

namespace Bagel

/-! ### What is hashed -/

namespace Server

variable {Digest : Type} (server : Server Digest)

/-- The bytes that `derive_cookie_key` hashes. -/
def cookieKeyInput (host networkPrefix : String) : List UInt8 :=
  Bytes.ofText host ++ Bytes.ofText networkPrefix ++ server.pkcs8Seed ++
    Bytes.ofText "1.0/DEFLATE"

/-- The bytes that `derive_pending_key` hashes. -/
def pendingKeyInput (host : String) : List UInt8 := server.cookieKeyInput host "pending"

/-- The bytes that `derive_challenge_key` hashes. -/
def challengeKeyInput (challengeName : Text) (clientIp : Option IpAddr) (expiry : Int) :
    List UInt8 :=
  Bytes.ofText "challenge\x00" ++ Bytes.ofText challengeName.value ++
    Bytes.ofText ((clientIp.map ipNetworkPrefix).getD "") ++ Bytes.ofInt 8 expiry ++
    server.keyFingerprint

theorem deriveCookieKey_sha256 (host networkPrefix : String) :
    server.deriveCookieKey host networkPrefix =
      server.sha256 (server.cookieKeyInput host networkPrefix) :=
  rfl

theorem derivePendingKey_sha256 (host : String) :
    server.derivePendingKey host = server.sha256 (server.pendingKeyInput host) :=
  rfl

theorem deriveChallengeKey_sha256 (challengeName : Text) (clientIp : Option IpAddr)
    (expiry : Int) :
    server.deriveChallengeKey challengeName clientIp expiry =
      server.sha256 (server.challengeKeyInput challengeName clientIp expiry) :=
  rfl

theorem cookieKeyInput_eq_iff {host host' networkPrefix networkPrefix' : String} :
    server.cookieKeyInput host networkPrefix = server.cookieKeyInput host' networkPrefix' ↔
      host ++ networkPrefix = host' ++ networkPrefix' := by
  unfold cookieKeyInput
  rw [List.append_left_inj, List.append_left_inj, ← Bytes.ofText_append, ← Bytes.ofText_append]
  exact ⟨Bytes.ofText_inj, congrArg Bytes.ofText⟩

end Server

/-! ### Networks behind a text -/

namespace SourceNetwork

/-- The text of a network, and none where there is no network. -/
def behind (network : Option SourceNetwork) : String := (network.map text).getD ""

/-- The first network is the second one with a text in front of its first component, where both
are of one family and have their other components in common. Where there is no second network,
the text is all of the first one. -/
inductive Moves (moved : String) : Option SourceNetwork → Option SourceNetwork → Prop where
  | v4 {bits bits' : BitVec 24} (later : bits.extractLsb' 0 16 = bits'.extractLsb' 0 16)
      (first : octet bits 16 = moved ++ octet bits' 16) :
      Moves moved (some (v4 bits)) (some (v4 bits'))
  | v6 {bits bits' : BitVec 64} (later : bits.extractLsb' 0 48 = bits'.extractLsb' 0 48)
      (first : segment bits 48 = moved ++ segment bits' 48) :
      Moves moved (some (v6 bits)) (some (v6 bits'))
  | missing {network : SourceNetwork} (whole : network.text = moved) :
      Moves moved (some network) none

theorem toList_text_v4 (bits : BitVec 24) :
    (v4 bits).text.toList = (octet bits 16).toList ++ '.' :: (octet bits 8).toList ++
      '.' :: (octet bits 0).toList ++ ".0/24".toList := by
  simp [text]

theorem toList_text_v6 (bits : BitVec 64) :
    (v6 bits).text.toList = (segment bits 48).toList ++ ':' :: (segment bits 32).toList ++
      ':' :: (segment bits 16).toList ++ ':' :: (segment bits 0).toList ++ "::/64".toList := by
  simp [text]

theorem octet_congr {bits bits' : BitVec 24}
    (later : bits.extractLsb' 0 16 = bits'.extractLsb' 0 16) (start : Nat) (low : start + 8 ≤ 16) :
    octet bits start = octet bits' start := by
  unfold octet
  rw [← BitVec.extractLsb'_extractLsb'_of_le low, later, BitVec.extractLsb'_extractLsb'_of_le low]

theorem segment_congr {bits bits' : BitVec 64}
    (later : bits.extractLsb' 0 48 = bits'.extractLsb' 0 48) (start : Nat)
    (low : start + 16 ≤ 48) : segment bits start = segment bits' start := by
  unfold segment
  rw [← BitVec.extractLsb'_extractLsb'_of_le low, later, BitVec.extractLsb'_extractLsb'_of_le low]

/-- Read from its end, a network is known up to its first component. -/
theorem moves_v4 {moved : String} {bits bits' : BitVec 24}
    (same : (v4 bits).text = moved ++ (v4 bits').text) :
    Moves moved (some (v4 bits)) (some (v4 bits')) := by
  have characters := congrArg String.toList same
  rw [String.toList_append, toList_text_v4, toList_text_v4, ← List.append_assoc,
    List.append_left_inj, ← List.append_assoc] at characters
  obtain ⟨rest, low⟩ := Lines.mark_append_inj (dot_notMem_octet bits 0) (dot_notMem_octet bits' 0)
    characters
  rw [← List.append_assoc] at rest
  obtain ⟨first, middle⟩ := Lines.mark_append_inj (dot_notMem_octet bits 8)
    (dot_notMem_octet bits' 8) rest
  have lows := octet_inj low
  have middles := octet_inj middle
  refine .v4 (BitVec.eq_of_toNat_eq ?_) (String.toList_inj.mp ?_)
  · simp only [BitVec.extractLsb'_toNat, Nat.shiftRight_eq_div_pow] at lows middles ⊢
    omega
  · rw [String.toList_append, first]

theorem moves_v6 {moved : String} {bits bits' : BitVec 64}
    (same : (v6 bits).text = moved ++ (v6 bits').text) :
    Moves moved (some (v6 bits)) (some (v6 bits')) := by
  have characters := congrArg String.toList same
  rw [String.toList_append, toList_text_v6, toList_text_v6, ← List.append_assoc,
    List.append_left_inj, ← List.append_assoc] at characters
  obtain ⟨rest, four⟩ := Lines.mark_append_inj (colon_notMem_segment bits 0)
    (colon_notMem_segment bits' 0) characters
  rw [← List.append_assoc] at rest
  obtain ⟨rest, three⟩ := Lines.mark_append_inj (colon_notMem_segment bits 16)
    (colon_notMem_segment bits' 16) rest
  rw [← List.append_assoc] at rest
  obtain ⟨first, two⟩ := Lines.mark_append_inj (colon_notMem_segment bits 32)
    (colon_notMem_segment bits' 32) rest
  have fours := segment_inj four
  have threes := segment_inj three
  have twos := segment_inj two
  refine .v6 (BitVec.eq_of_toNat_eq ?_) (String.toList_inj.mp ?_)
  · simp only [BitVec.extractLsb'_toNat, Nat.shiftRight_eq_div_pow] at fours threes twos ⊢
    omega
  · rw [String.toList_append, first]

/-- The last characters of a network. -/
def ending : SourceNetwork → List Char
  | v4 _ => "/24".toList
  | v6 _ => "/64".toList

theorem length_ending (network : SourceNetwork) : network.ending.length = 3 := by
  cases network <;> rfl

theorem not_ending_isSuffix (network : SourceNetwork) : ¬network.ending <:+ "ing".toList := by
  cases network with
  | v4 bits =>
    change ¬"/24".toList <:+ "ing".toList
    decide
  | v6 bits =>
    change ¬"/64".toList <:+ "ing".toList
    decide

theorem ending_isSuffix (network : SourceNetwork) : network.ending <:+ network.text.toList := by
  cases network with
  | v4 bits =>
    rw [toList_text_v4]
    exact List.IsSuffix.trans (by decide : "/24".toList <:+ ".0/24".toList)
      (List.suffix_append _ _)
  | v6 bits =>
    rw [toList_text_v6]
    exact List.IsSuffix.trans (by decide : "/64".toList <:+ "::/64".toList)
      (List.suffix_append _ _)

theorem endings_ne {bits : BitVec 24} {bits' : BitVec 64} :
    (v4 bits).ending ≠ (v6 bits').ending := by
  change "/24".toList ≠ "/64".toList
  decide

/-- Texts that end in networks end in one family. -/
theorem ending_eq {front front' : String} {first second : SourceNetwork}
    (same : front ++ first.text = front' ++ second.text) : first.ending = second.ending := by
  have inside : first.ending <:+ (front ++ first.text).toList := by
    rw [String.toList_append]
    exact (ending_isSuffix first).trans (List.suffix_append _ _)
  have inside' : second.ending <:+ (front ++ first.text).toList := by
    rw [same, String.toList_append]
    exact (ending_isSuffix second).trans (List.suffix_append _ _)
  refine (List.suffix_of_suffix_length_le inside inside' ?_).eq_of_length ?_
  · rw [length_ending, length_ending]
  · rw [length_ending, length_ending]

theorem behind_eq_append_iff {moved : String} (nonempty : moved ≠ "")
    {first second : Option SourceNetwork} :
    behind first = moved ++ behind second ↔ Moves moved first second := by
  constructor
  · intro same
    cases first with
    | none => exact absurd (String.append_eq_empty_iff.mp same.symm).1 nonempty
    | some network =>
      cases second with
      | none => exact .missing (same.trans (String.append_empty))
      | some network' =>
        have families : network.ending = network'.ending :=
          @ending_eq "" moved _ _ (String.empty_append.trans same)
        cases network with
        | v4 bits =>
          cases network' with
          | v4 bits' => exact moves_v4 same
          | v6 bits' => exact absurd families endings_ne
        | v6 bits =>
          cases network' with
          | v4 bits' => exact absurd families.symm endings_ne
          | v6 bits' => exact moves_v6 same
  · intro moves
    cases moves with
    | @v4 bits bits' later first =>
      refine String.toList_inj.mp ?_
      change (SourceNetwork.v4 bits).text.toList = (moved ++ (SourceNetwork.v4 bits').text).toList
      rw [String.toList_append, toList_text_v4, toList_text_v4, first, String.toList_append,
        octet_congr later 8 (by decide), octet_congr later 0 (by decide)]
      simp only [List.append_assoc]
    | @v6 bits bits' later first =>
      refine String.toList_inj.mp ?_
      change (SourceNetwork.v6 bits).text.toList = (moved ++ (SourceNetwork.v6 bits').text).toList
      rw [String.toList_append, toList_text_v6, toList_text_v6, first, String.toList_append,
        segment_congr later 32 (by decide), segment_congr later 16 (by decide),
        segment_congr later 0 (by decide)]
      simp only [List.append_assoc]
    | missing whole => exact whole.trans String.append_empty.symm

theorem behind_inj {first second : Option SourceNetwork} (same : behind first = behind second) :
    first = second := by
  cases first with
  | none =>
    cases second with
    | none => rfl
    | some network => exact absurd same.symm (text_ne_empty network)
  | some network =>
    cases second with
    | none => exact absurd same (text_ne_empty network)
    | some network' => exact congrArg some (text_injective same)

/-- The second text is the first one with the beginning of the first network. -/
def Overlaps (front : String) (first : Option SourceNetwork) (front' : String)
    (second : Option SourceNetwork) : Prop :=
  ∃ moved, moved ≠ "" ∧ front' = front ++ moved ∧ Moves moved first second

theorem Overlaps.ne {front front' : String} {first second : Option SourceNetwork}
    (overlaps : Overlaps front first front' second) : front ≠ front' := by
  obtain ⟨moved, nonempty, longer, -⟩ := overlaps
  intro same
  have lengths := congrArg (fun text => text.toList.length) (same.trans longer)
  rw [String.toList_append, List.length_append] at lengths
  have empty : moved.toList.length = 0 := by omega
  exact nonempty (String.toList_inj.mp (List.eq_nil_of_length_eq_zero empty))

/-- Texts with networks behind them are different, or parted differently, or the same parts. -/
theorem append_behind_eq_iff {front front' : String} {first second : Option SourceNetwork} :
    front ++ behind first = front' ++ behind second ↔
      front = front' ∧ first = second ∨ Overlaps front first front' second ∨
        Overlaps front' second front first := by
  have overlap {front front' : String} {first second : Option SourceNetwork}
      (overlaps : Overlaps front first front' second) :
      front ++ behind first = front' ++ behind second := by
    obtain ⟨moved, nonempty, rfl, moves⟩ := overlaps
    rw [(behind_eq_append_iff nonempty).mpr moves, String.append_assoc]
  have split {front front' : String} {first second : Option SourceNetwork} {moved : List Char}
      (longer : front'.toList = front.toList ++ moved)
      (rest : (behind first).toList = moved ++ (behind second).toList) :
      front = front' ∧ first = second ∨ Overlaps front first front' second := by
    have fronts : front' = front ++ String.ofList moved := by
      refine String.toList_inj.mp ?_
      rw [String.toList_append, String.toList_ofList, longer]
    have networks : behind first = String.ofList moved ++ behind second := by
      refine String.toList_inj.mp ?_
      rw [String.toList_append, String.toList_ofList, rest]
    by_cases nothing : String.ofList moved = ""
    · rw [nothing, String.append_empty] at fronts
      rw [nothing, String.empty_append] at networks
      exact .inl ⟨fronts.symm, behind_inj networks⟩
    · exact .inr ⟨String.ofList moved, nothing, fronts, (behind_eq_append_iff nothing).mp networks⟩
  constructor
  · intro same
    have characters := congrArg String.toList same
    rw [String.toList_append, String.toList_append, List.append_eq_append_iff] at characters
    rcases characters with ⟨moved, longer, rest⟩ | ⟨moved, longer, rest⟩
    · exact (split longer rest).imp id .inl
    · exact (split longer rest).imp (fun both => ⟨both.1.symm, both.2.symm⟩) .inr
  · rintro (⟨rfl, rfl⟩ | overlaps | overlaps)
    · rfl
    · exact overlap overlaps
    · exact (overlap overlaps).symm

end SourceNetwork

/-! ### Keys -/

/-- Two hosts of one text, of which not both are known to be the address. -/
def CanonicalHost.Twins (host host' : CanonicalHost) : Prop :=
  host.text = host'.text ∧ host.ip ≠ host'.ip

theorem CanonicalHost.eq_of_text_eq {host host' : CanonicalHost} (same : host.text = host'.text)
    (apart : ¬host.Twins host') : host = host' := by
  obtain ⟨text, ip⟩ := host
  obtain ⟨text', ip'⟩ := host'
  cases same
  have addresses : ip = ip' := Decidable.not_not.mp fun different => apart ⟨rfl, different⟩
  rw [addresses]

section Keys

variable {Digest : Type} (server : Server Digest)

open SourceNetwork

theorem Server.cookieKeyInput_inj_iff (host host' : CanonicalHost)
    (network network' : SourceNetwork) :
    (server.cookieKeyInput host.text network.text =
        server.cookieKeyInput host'.text network'.text → host = host' ∧ network = network') ↔
      ¬Overlaps host.text (some network) host'.text (some network') ∧
        ¬Overlaps host'.text (some network') host.text (some network) ∧
          (network = network' → ¬host.Twins host') := by
  have parted : server.cookieKeyInput host.text network.text =
      server.cookieKeyInput host'.text network'.text ↔
        host.text = host'.text ∧ some network = some network' ∨
          Overlaps host.text (some network) host'.text (some network') ∨
            Overlaps host'.text (some network') host.text (some network) :=
    server.cookieKeyInput_eq_iff.trans
      (@append_behind_eq_iff host.text host'.text (some network) (some network'))
  rw [parted]
  constructor
  · intro separate
    refine ⟨fun overlaps => ?_, fun overlaps => ?_, fun same twins => ?_⟩
    · exact overlaps.ne (congrArg _ (separate (.inr (.inl overlaps))).1)
    · exact overlaps.ne (congrArg _ (separate (.inr (.inr overlaps))).1.symm)
    · exact twins.2 (congrArg _ (separate (.inl ⟨twins.1, congrArg some same⟩)).1)
  · rintro ⟨forwards, backwards, apart⟩ (⟨texts, networks⟩ | overlaps | overlaps)
    · have networks := Option.some.inj networks
      exact ⟨CanonicalHost.eq_of_text_eq texts (apart networks), networks⟩
    · exact absurd overlaps forwards
    · exact absurd overlaps backwards

/-- A pending key has no network in it. -/
theorem Server.cookieKeyInput_ne_pendingKeyInput (host other : String) (network : SourceNetwork) :
    server.cookieKeyInput host network.text ≠ server.pendingKeyInput other := by
  intro same
  have characters := congrArg String.toList (server.cookieKeyInput_eq_iff.mp same)
  rw [String.toList_append, String.toList_append] at characters
  have inside := (ending_isSuffix network).trans (List.suffix_append host.toList _)
  rw [characters] at inside
  have pending : "ing".toList <:+ other.toList ++ "pending".toList :=
    List.IsSuffix.trans (by decide) (List.suffix_append _ _)
  exact absurd (List.suffix_of_suffix_length_le inside pending (length_ending network).le)
    (not_ending_isSuffix network)

theorem Server.challengeKeyInput_eq_iff {name name' : Text} {ip ip' : Option IpAddr}
    {bucket bucket' : Int64} :
    server.challengeKeyInput name ip bucket.toInt =
        server.challengeKeyInput name' ip' bucket'.toInt ↔
      name.value ++ behind (ip.map .fromIp) = name'.value ++ behind (ip'.map .fromIp) ∧
        bucket = bucket' := by
  have prefixes (ip : Option IpAddr) :
      (ip.map ipNetworkPrefix).getD "" = behind (ip.map .fromIp) := by
    cases ip <;> rfl
  unfold challengeKeyInput
  rw [prefixes, prefixes, List.append_left_inj]
  constructor
  · intro same
    obtain ⟨front, numbers⟩ :=
      List.append_inj' same (by rw [Bytes.length_ofInt, Bytes.length_ofInt])
    rw [List.append_assoc, List.append_assoc, List.append_right_inj, ← Bytes.ofText_append,
      ← Bytes.ofText_append] at front
    refine ⟨Bytes.ofText_inj front, Int64.toInt_inj.mp (Bytes.ofInt_inj numbers ?_)⟩
    have low := bucket.le_toInt
    have high := bucket.toInt_lt
    have low' := bucket'.le_toInt
    have high' := bucket'.toInt_lt
    rw [abs_lt]
    constructor <;> omega
  · rintro ⟨texts, rfl⟩
    rw [List.append_assoc (Bytes.ofText "challenge\x00"), ← Bytes.ofText_append, texts,
      Bytes.ofText_append]
    simp only [List.append_assoc]

/-- Challenge keys of one bucket differ unless the names overlap. -/
theorem Server.challengeKeyInput_inj_iff (name name' : Text) (ip ip' : Option IpAddr)
    (bucket bucket' : Int64) :
    (server.challengeKeyInput name ip bucket.toInt =
        server.challengeKeyInput name' ip' bucket'.toInt →
      name = name' ∧ ip.map fromIp = ip'.map fromIp ∧ bucket = bucket') ↔
      (bucket = bucket' → ¬Overlaps name.value (ip.map .fromIp) name'.value (ip'.map .fromIp) ∧
        ¬Overlaps name'.value (ip'.map .fromIp) name.value (ip.map .fromIp)) := by
  rw [server.challengeKeyInput_eq_iff, append_behind_eq_iff]
  constructor
  · intro separate same
    refine ⟨fun overlaps => ?_, fun overlaps => ?_⟩
    · exact overlaps.ne (congrArg _ (separate ⟨.inr (.inl overlaps), same⟩).1)
    · exact overlaps.ne (congrArg _ (separate ⟨.inr (.inr overlaps), same⟩).1.symm)
  · rintro apart ⟨⟨names, networks⟩ | overlaps | overlaps, same⟩
    · exact ⟨Text.ext names, networks, same⟩
    · exact absurd overlaps (apart same).1
    · exact absurd overlaps (apart same).2

end Keys

/-- Which inputs of keys are told apart: those of two hosts or two names of which neither ends in
the beginning of a network behind the other. No input of a pending key is that of another key. -/
theorem keyInputs_separate_iff {Digest : Type} (server : Server Digest) :
    (∀ host host' network network',
      (server.cookieKeyInput host.text network.text =
          server.cookieKeyInput host'.text network'.text → host = host' ∧ network = network') ↔
        ¬SourceNetwork.Overlaps host.text (some network) host'.text (some network') ∧
          ¬SourceNetwork.Overlaps host'.text (some network') host.text (some network) ∧
            (network = network' → ¬CanonicalHost.Twins host host')) ∧
      (∀ host network other,
        server.cookieKeyInput host (SourceNetwork.text network) ≠ server.pendingKeyInput other) ∧
        ∀ name name' ip ip' bucket bucket',
          (server.challengeKeyInput name ip (Int64.toInt bucket) =
              server.challengeKeyInput name' ip' (Int64.toInt bucket') →
            name = name' ∧ ip.map SourceNetwork.fromIp = ip'.map SourceNetwork.fromIp ∧
              bucket = bucket') ↔
            (bucket = bucket' →
              ¬SourceNetwork.Overlaps name.value (ip.map .fromIp) name'.value (ip'.map .fromIp) ∧
                ¬SourceNetwork.Overlaps name'.value (ip'.map .fromIp) name.value
                  (ip.map .fromIp)) :=
  ⟨server.cookieKeyInput_inj_iff,
    fun host network other => server.cookieKeyInput_ne_pendingKeyInput host other network,
    server.challengeKeyInput_inj_iff⟩

namespace SampleKeys

def server : Server Unit := ⟨fun _ => (), [], [], fun _ _ _ _ => true⟩

/-- The digit at the end of a host belongs to the network of another one. -/
theorem inputs_not_separate :
    ¬∀ (authority authority' : String) (host host' : CanonicalHost)
      (network network' : SourceNetwork), CanonicalHost.parse authority = .ok host →
        CanonicalHost.parse authority' = .ok host' →
          server.cookieKeyInput host.text network.text =
            server.cookieKeyInput host'.text network'.text →
              host = host' ∧ network = network' := by
  intro every
  have separate := every "one.example" "one.example1" ⟨"one.example", none⟩ ⟨"one.example1", none⟩
    (.v4 0x0a0000#24) (.v4 0x000000#24) (by decide) (by decide)
    (server.cookieKeyInput_eq_iff.mpr (by decide))
  exact absurd separate.1 (by decide)

end SampleKeys

end Bagel
