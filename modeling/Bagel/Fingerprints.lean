/-
This file proves that the fingerprint of a hello ignores what browsers randomise: the order of the
cipher suites and of the extensions, GREASE wherever it may stand, the random and the session.

The decoder goes through the extensions in their order, but an extension of a kind comes once, so
what it gives does not depend on where it stands (`Finds.eq_of_alike`). The rest of the fingerprint
is counted or sorted. In the other direction the texts of the fingerprint stand at fixed places, so
different counts and different codes of versions remain different.
-/

import Bagel.HelloOutlines
import Bagel.Library.Decimal
import Mathlib.Data.Finset.Card

namespace Bagel

open LengthPrefixed (framed)

/-! ### What may differ -/

/-- Data of an extension that differ in entries that are GREASE alone. -/
inductive HelloExtension.DataAlike (kind : UInt16) : List UInt8 → List UInt8 → Prop where
  | same (data : List UInt8) : DataAlike kind data data
  | identifiers (listed : kind = 0x000A ∨ kind = 0x000D) {values others : Identifiers}
      (alike : values.plain = others.plain) :
      DataAlike kind (framed 2 values.bytes) (framed 2 others.bytes)
  | versions (listed : kind = 0x002B) {values others : Identifiers}
      (alike : values.plain = others.plain) :
      DataAlike kind (framed 1 values.bytes) (framed 1 others.bytes)
  | protocols (listed : kind = 0x0010) {offered others : List AlpnProtocol}
      (alike : AlpnProtocol.plain offered = AlpnProtocol.plain others) :
      DataAlike kind (framed 2 (offered.flatMap AlpnProtocol.bytes))
        (framed 2 (others.flatMap AlpnProtocol.bytes))

open HelloExtension (DataAlike)

theorem HelloExtension.DataAlike.symm {kind : UInt16} {data other : List UInt8}
    (alike : DataAlike kind data other) : DataAlike kind other data := by
  cases alike with
  | same => exact .same data
  | identifiers listed alike => exact .identifiers listed alike.symm
  | versions listed alike => exact .versions listed alike.symm
  | protocols listed alike => exact .protocols listed alike.symm

namespace HelloOutline

/-- The extensions that are not GREASE. -/
def plain (outline : HelloOutline) : List HelloExtension :=
  outline.listed.filter fun item => !isGrease item.kind

/-- Outlines that differ by the order of the cipher suites, by that of the extensions, by GREASE
and by the random and the session alone. The extensions that are not GREASE can be paired off. -/
structure Alike (outline other : HelloOutline) : Prop where
  version : outline.version = other.version
  compression : outline.compression = other.compression
  ciphers : outline.ciphers.plain.Perm other.ciphers.plain
  extensions : ∃ pairs : List (HelloExtension × HelloExtension),
    outline.plain.Perm (pairs.map Prod.fst) ∧ other.plain.Perm (pairs.map Prod.snd) ∧
      ∀ pair ∈ pairs, pair.1.kind = pair.2.kind ∧
        DataAlike pair.1.kind pair.1.data pair.2.data

variable {outline other : HelloOutline}

theorem Alike.symm (alike : outline.Alike other) : other.Alike outline := by
  obtain ⟨pairs, fronts, backs, similar⟩ := alike.extensions
  refine ⟨alike.version.symm, alike.compression.symm, alike.ciphers.symm, pairs.map Prod.swap,
    ?_, ?_, ?_⟩
  · rw [List.map_map]
    exact backs
  · rw [List.map_map]
    exact fronts
  · intro pair member
    obtain ⟨swapped, paired, rfl⟩ := List.mem_map.mp member
    obtain ⟨kinds, data⟩ := similar swapped paired
    exact ⟨kinds.symm, kinds ▸ data.symm⟩

/-- The kinds that are counted are the same but for their order. -/
theorem Alike.kinds (alike : outline.Alike other) :
    (Identifiers.plain (outline.listed.map HelloExtension.kind)).Perm
      (Identifiers.plain (other.listed.map HelloExtension.kind)) := by
  obtain ⟨pairs, fronts, backs, similar⟩ := alike.extensions
  have counted : ∀ outline : HelloOutline,
      Identifiers.plain (outline.listed.map HelloExtension.kind) =
        outline.plain.map HelloExtension.kind := by
    intro outline
    rw [Identifiers.plain, List.filter_map]
    rfl
  rw [counted, counted]
  refine (fronts.map HelloExtension.kind).trans (.trans ?_ (backs.map HelloExtension.kind).symm)
  rw [List.map_map, List.map_map]
  refine .of_eq (List.map_congr_left fun pair member => ?_)
  exact (similar pair member).1

/-- An extension that is not GREASE has one like it. -/
theorem Alike.exists_of_mem (alike : outline.Alike other) {item : HelloExtension}
    (member : item ∈ outline.listed) (plain : isGrease item.kind = false) :
    ∃ like ∈ other.listed, like.kind = item.kind ∧ DataAlike item.kind item.data like.data := by
  obtain ⟨pairs, fronts, backs, similar⟩ := alike.extensions
  have kept : item ∈ outline.plain := List.mem_filter.mpr ⟨member, by rw [plain]; rfl⟩
  obtain ⟨pair, paired, rfl⟩ := List.mem_map.mp (fronts.mem_iff.mp kept)
  have kept' := backs.mem_iff.mpr (List.mem_map_of_mem paired)
  obtain ⟨kinds, data⟩ := similar pair paired
  exact ⟨pair.2, (List.mem_filter.mp kept').1, kinds.symm, data⟩

/-! ### What the extension of a kind gives -/

section Finds

variable {Value : Type}

/-- The value that the extension of a kind gives, or an initial value if there is none. -/
def Finds (outline : HelloOutline) (code : UInt16) (initial : Value)
    (Given : List UInt8 → Value → Prop) (value : Value) : Prop :=
  ((∀ item ∈ outline.listed, item.kind ≠ code) ∧ value = initial) ∨
    ∃ item ∈ outline.listed, item.kind = code ∧ Given item.data value

/-- What the extension of a kind gives does not depend on its place, nor on GREASE. -/
theorem Finds.eq_of_alike {code : UInt16} {initial value value' : Value}
    {Given : List UInt8 → Value → Prop} (plain : isGrease code = false)
    (unique : ∀ {data data' value value'}, DataAlike code data data' → Given data value →
      Given data' value' → value = value')
    (alike : outline.Alike other) (once : (other.listed.map HelloExtension.kind).Nodup)
    (found : outline.Finds code initial Given value)
    (found' : other.Finds code initial Given value') : value = value' := by
  rcases found with ⟨none, rfl⟩ | ⟨item, member, rfl, given⟩
  · rcases found' with ⟨-, rfl⟩ | ⟨item, member, rfl, -⟩
    · rfl
    · obtain ⟨like, member', kind, -⟩ := alike.symm.exists_of_mem member plain
      exact absurd kind (none like member')
  · obtain ⟨like, member', kind, data⟩ := alike.exists_of_mem member plain
    rcases found' with ⟨none, -⟩ | ⟨item', listed, kind', given'⟩
    · exact absurd kind (none like member')
    · have same := List.inj_on_of_nodup_map once member' listed (kind.trans kind'.symm)
      subst same
      exact unique data given given'

end Finds

/-- The highest of the versions in the data of an extension. -/
def HighestIn (data : List UInt8) (highest : UInt16) : Prop :=
  ∃ values : Identifiers, data = framed 1 values.bytes ∧ values.plain.max? = some highest

/-- The highest version that a client supports: of those that the extension lists, or the version
of the hello itself. -/
def HasHighest (outline : HelloOutline) (highest : UInt16) : Prop :=
  outline.Finds 0x002B outline.version HighestIn highest

/-- The signature algorithms in the data of an extension. -/
def SignaturesIn (data : List UInt8) (signatures : Identifiers) : Prop :=
  ∃ values : Identifiers, data = framed 2 values.bytes ∧ signatures = values.plain

/-- The protocols in the data of an extension. -/
def ProtocolsIn (data : List UInt8) (protocols : List (List UInt8)) : Prop :=
  ∃ offered : List AlpnProtocol, data = framed 2 (offered.flatMap AlpnProtocol.bytes) ∧
    protocols = AlpnProtocol.plain offered

theorem plain_eq_of_framed {width : Nat} {values others : Identifiers}
    (same : framed width values.bytes = framed width others.bytes) :
    values.plain = others.plain := by
  rw [Identifiers.bytes_inj (LengthPrefixed.framed_inj same)]

theorem highest_unique {data data' : List UInt8} {highest highest' : UInt16}
    (alike : DataAlike 0x002B data data') (given : HighestIn data highest)
    (given' : HighestIn data' highest') : highest = highest' := by
  obtain ⟨values, spelled, max⟩ := given
  obtain ⟨values', spelled', max'⟩ := given'
  have plain : values.plain = values'.plain := by
    cases alike with
    | same => exact plain_eq_of_framed (spelled.symm.trans spelled')
    | identifiers listed _ => exact absurd listed (by decide)
    | versions _ alike =>
      exact (plain_eq_of_framed spelled).symm.trans (alike.trans (plain_eq_of_framed spelled'))
    | protocols listed _ => exact absurd listed (by decide)
  rw [plain, max'] at max
  exact (Option.some.inj max).symm

theorem signatures_unique {data data' : List UInt8} {signatures signatures' : Identifiers}
    (alike : DataAlike 0x000D data data') (given : SignaturesIn data signatures)
    (given' : SignaturesIn data' signatures') : signatures = signatures' := by
  obtain ⟨values, spelled, rfl⟩ := given
  obtain ⟨values', spelled', rfl⟩ := given'
  cases alike with
  | same => exact plain_eq_of_framed (spelled.symm.trans spelled')
  | identifiers _ alike =>
    exact (plain_eq_of_framed spelled).symm.trans (alike.trans (plain_eq_of_framed spelled'))
  | versions listed _ => exact absurd listed (by decide)
  | protocols listed _ => exact absurd listed (by decide)

theorem protocols_eq_of_framed {offered others : List AlpnProtocol}
    (same : framed 2 (offered.flatMap AlpnProtocol.bytes) =
      framed 2 (others.flatMap AlpnProtocol.bytes)) : offered = others :=
  LengthPrefixed.flatMap_inj AlpnProtocol.bytes_ne_nil AlpnProtocol.bytes_append_inj
    (LengthPrefixed.framed_inj same)

theorem protocols_unique {data data' : List UInt8} {protocols protocols' : List (List UInt8)}
    (alike : DataAlike 0x0010 data data') (given : ProtocolsIn data protocols)
    (given' : ProtocolsIn data' protocols') : protocols = protocols' := by
  obtain ⟨offered, spelled, rfl⟩ := given
  obtain ⟨offered', spelled', rfl⟩ := given'
  cases alike with
  | same => rw [protocols_eq_of_framed (spelled.symm.trans spelled')]
  | identifiers listed _ => exact absurd listed (by decide)
  | versions listed _ => exact absurd listed (by decide)
  | protocols _ alike =>
    rw [← protocols_eq_of_framed spelled, ← protocols_eq_of_framed spelled']
    exact alike

/-! ### What is read -/

/-- The fields that a fingerprint is made of, as an outline gives them. -/
structure Reads (outline : HelloOutline) (hello : ClientHello) : Prop where
  ciphers : hello.cipherSuites = outline.ciphers.plain
  once : (outline.listed.map HelloExtension.kind).Nodup
  extensions :
    hello.extensions = Identifiers.plain (outline.listed.map HelloExtension.kind)
  version : ∃ highest, outline.HasHighest highest ∧ hello.tlsVersion = .ofU16 highest
  signatures : outline.Finds 0x000D [] SignaturesIn hello.signatureAlgorithms
  protocols : outline.Finds 0x0010 [] ProtocolsIn hello.alpn

section Entered

variable {last : List UInt16 × ClientHello}
  (entered : outline.listed.foldlM ClientHello.enter ([], outline.hello) = .ok last)

include entered

theorem version_of_enter_all :
    ∃ highest, outline.HasHighest highest ∧ last.2.tlsVersion = .ofU16 highest := by
  have found := ClientHello.field_of_enter_all ClientHello.tlsVersion 0x002B
    (fun _ data version => ∃ highest, HighestIn data highest ∧ version = .ofU16 highest)
    (fun _ _ => rfl) ?_ ?_ entered
  · rcases found with ⟨none, same⟩ | ⟨item, member, kind, highest, given, same⟩
    · exact ⟨outline.version, .inl ⟨none, rfl⟩, same⟩
    · exact ⟨highest, .inr ⟨item, member, kind, given⟩, same⟩
  · intro hello kind data after told other
    cases told with
    | versions _ => exact absurd rfl other
    | signatures _ | protocols _ | other _ _ _ _ => rfl
  · intro hello kind data after told code
    cases told with
    | versions max => exact ⟨_, ⟨_, rfl, max⟩, rfl⟩
    | signatures _ | protocols _ => exact absurd code (by decide)
    | other _ _ _ none => exact absurd code none.1

theorem signatures_of_enter_all :
    outline.Finds 0x000D [] SignaturesIn last.2.signatureAlgorithms := by
  have found := ClientHello.field_of_enter_all ClientHello.signatureAlgorithms 0x000D
    (fun _ data signatures => SignaturesIn data signatures) (fun _ _ => rfl) ?_ ?_ entered
  · exact found
  · intro hello kind data after told other
    cases told with
    | signatures _ => exact absurd rfl other
    | versions _ | protocols _ | other _ _ _ _ => rfl
  · intro hello kind data after told code
    cases told with
    | signatures values => exact ⟨values, rfl, rfl⟩
    | versions _ | protocols _ => exact absurd code (by decide)
    | other _ _ _ none => exact absurd code none.2.1

theorem protocols_of_enter_all : outline.Finds 0x0010 [] ProtocolsIn last.2.alpn := by
  have found := ClientHello.field_of_enter_all ClientHello.alpn 0x0010
    (fun before data alpn => ∃ protocols, ProtocolsIn data protocols ∧ alpn = before ++ protocols)
    (fun _ _ => rfl) ?_ ?_ entered
  · rcases found with ⟨none, same⟩ | ⟨item, member, kind, protocols, given, same⟩
    · exact .inl ⟨none, same⟩
    · refine .inr ⟨item, member, kind, ?_⟩
      have whole : last.2.alpn = protocols := same
      rw [whole]
      exact given
  · intro hello kind data after told other
    cases told with
    | protocols _ => exact absurd rfl other
    | versions _ | signatures _ | other _ _ _ _ => rfl
  · intro hello kind data after told code
    cases told with
    | protocols offered => exact ⟨_, ⟨offered, rfl, rfl⟩, rfl⟩
    | versions _ | signatures _ => exact absurd code (by decide)
    | other _ _ _ none => exact absurd code none.2.2

theorem reads_of_enter_all : outline.Reads last.2 := by
  obtain ⟨-, once, ciphers, extensions⟩ := ClientHello.enter_all entered
  exact ⟨ciphers, once, extensions, version_of_enter_all entered,
    signatures_of_enter_all entered, protocols_of_enter_all entered⟩

end Entered

/-- A hello that is decoded has the fields that its outline gives, and the fingerprint of them. -/
theorem exists_reads_of_decode {sha256 : List UInt8 → Vector UInt8 32} {hello : ClientHello}
    (decoded : ClientHello.decode sha256 outline.bytes = .ok hello) :
    ∃ fields, outline.Reads fields ∧ hello.ja4 = ClientHello.computeJa4 sha256 fields := by
  obtain ⟨last, entered, rfl⟩ := ClientHello.exists_of_decode_outline decoded
  exact ⟨last.2, reads_of_enter_all entered, rfl⟩

end HelloOutline

/-! ### The text of a fingerprint -/

namespace ClientHello

theorem sorted_perm (identifiers : Identifiers) : (sorted identifiers).Perm identifiers :=
  List.mergeSort_perm identifiers _

theorem sorted_eq_of_perm {identifiers others : Identifiers} (perm : identifiers.Perm others) :
    sorted identifiers = sorted others := by
  have total : ∀ first second : UInt16,
      (decide (first ≤ second) || decide (second ≤ first)) = true := by
    intro first second
    rw [Bool.or_eq_true, decide_eq_true_iff, decide_eq_true_iff]
    exact Nat.le_total first.toNat second.toNat
  have transitive : ∀ first second third : UInt16, decide (first ≤ second) = true →
      decide (second ≤ third) = true → decide (first ≤ third) = true := by
    intro first second third below above
    rw [decide_eq_true_iff] at below above ⊢
    exact Nat.le_trans below above
  have sorts : ∀ identifiers : Identifiers, (sorted identifiers).Pairwise
      fun first second => decide (first ≤ second) = true :=
    fun identifiers => List.pairwise_mergeSort transitive total identifiers
  have same : (sorted identifiers).Perm (sorted others) :=
    (sorted_perm identifiers).trans (perm.trans (sorted_perm others).symm)
  refine same.eq_of_pairwise ?_ (sorts identifiers) (sorts others)
  intro first second _ _ below above
  rw [decide_eq_true_iff] at below above
  exact UInt16.toNat_inj.mp (Nat.le_antisymm below above)

variable {sha256 : List UInt8 → Vector UInt8 32} {first second : ClientHello}

/-- The order of the cipher suites and of the extensions makes no difference. -/
theorem computeJa4_congr (version : first.tlsVersion = second.tlsVersion)
    (ciphers : first.cipherSuites.Perm second.cipherSuites)
    (extensions : first.extensions.Perm second.extensions) (alpn : first.alpn = second.alpn)
    (signatures : first.signatureAlgorithms = second.signatureAlgorithms) :
    computeJa4 sha256 first = computeJa4 sha256 second := by
  have named : first.extensions.contains 0 = second.extensions.contains 0 := by
    rw [Bool.eq_iff_iff, List.contains_iff_mem, List.contains_iff_mem]
    exact extensions.mem_iff
  have kept : sorted (first.extensions.filter fun kind => !(kind == 0 || kind == 16)) =
      sorted (second.extensions.filter fun kind => !(kind == 0 || kind == 16)) :=
    sorted_eq_of_perm (extensions.filter _)
  unfold computeJa4
  rw [version, named, ciphers.length_eq, extensions.length_eq, alpn, signatures,
    sorted_eq_of_perm ciphers, kept]

theorem length_hexEncode (bytes : List UInt8) : (hexEncode bytes).length = 2 * bytes.length := by
  induction bytes with
  | nil => rfl
  | cons byte bytes inductionHypothesis =>
    rw [hexEncode, List.flatMap_cons, List.length_append]
    change 2 + (hexEncode bytes).length = 2 * (bytes.length + 1)
    omega

theorem hexEncode_inj {bytes others : List UInt8} (same : hexEncode bytes = hexEncode others) :
    bytes = others := by
  induction bytes generalizing others with
  | nil =>
    cases others with
    | nil => rfl
    | cons other others => cases same
  | cons byte bytes inductionHypothesis =>
    cases others with
    | nil => cases same
    | cons other others =>
      obtain ⟨high, same⟩ := List.cons.inj same
      obtain ⟨low, same⟩ := List.cons.inj same
      have below := byte.toNat_lt
      have below' := other.toNat_lt
      have high := Decimal.digitChar_inj (by omega) (by omega) high
      have low := Decimal.digitChar_inj (by omega) (by omega) low
      have first : byte = other := UInt8.toNat_inj.mp (by omega)
      rw [first, inductionHypothesis same]

theorem comma_notMem_hexEncode (bytes : List UInt8) : ',' ∉ hexEncode bytes := by
  have digits : ∀ value : Fin 16, hexDigit value.val ≠ ',' := by
    decide
  intro comma
  obtain ⟨byte, -, inside⟩ := List.mem_flatMap.mp comma
  have below := byte.toNat_lt
  rcases List.mem_cons.mp inside with high | inside
  · exact digits ⟨byte.toNat / 16, by omega⟩ high.symm
  · exact digits ⟨byte.toNat % 16, by omega⟩ (List.mem_singleton.mp inside).symm

/-- The four digits of an identifier. -/
def fourDigits (value : UInt16) : List Char := hexEncode (Bytes.big 2 value.toNat)

theorem fourDigits_ne_nil (value : UInt16) : fourDigits value ≠ [] := by
  intro none
  have count := congrArg List.length none
  rw [fourDigits, length_hexEncode, Bytes.length_big] at count
  cases count

theorem fourDigits_inj {value other : UInt16} (same : fourDigits value = fourDigits other) :
    value = other :=
  UInt16.toNat_inj.mp (Bytes.big_inj value.toNat_lt other.toNat_lt (hexEncode_inj same))

theorem splitOn_text {identifiers : Identifiers} (some : identifiers ≠ []) :
    identifiers.text.splitOn ',' = identifiers.map fourDigits := by
  refine List.splitOn_intercalate ',' ?_ ?_
  · intro digits member
    obtain ⟨value, -, rfl⟩ := List.mem_map.mp member
    exact comma_notMem_hexEncode _
  · exact fun none => some (List.map_eq_nil_iff.mp none)

/-- The text of some identifiers is not empty. -/
theorem text_ne_nil {identifiers : Identifiers} (some : identifiers ≠ []) :
    identifiers.text ≠ [] := by
  intro none
  have parts := splitOn_text some
  rw [none] at parts
  cases identifiers with
  | nil => exact some rfl
  | cons value identifiers => exact fourDigits_ne_nil value (List.cons.inj parts).1.symm

theorem text_inj {identifiers others : Identifiers} (same : identifiers.text = others.text) :
    identifiers = others := by
  by_cases none : identifiers = []
  · subst none
    by_contra differ
    exact text_ne_nil (Ne.symm differ) same.symm
  · by_cases none' : others = []
    · subst none'
      exact absurd same (text_ne_nil none)
    · have parts := splitOn_text none
      rw [same, splitOn_text none'] at parts
      exact (List.map_injective_iff.mpr (fun _ _ => fourDigits_inj) parts).symm

theorem length_truncatedHash (value : List Char) : (truncatedHash sha256 value).length = 12 := by
  unfold truncatedHash
  split
  · exact List.length_replicate
  · rw [length_hexEncode, List.length_take, Vector.length_toList]
    rfl

theorem length_alpnTag (protocol : List UInt8) : (alpnTag protocol).length = 2 := by
  unfold alpnTag
  split
  · split <;> rfl
  · rfl

theorem twoDigits_inj {count other : Nat} (same : twoDigits count = twoDigits other) :
    min count 99 = min other 99 := by
  have bound := Nat.min_le_right count 99
  have bound' := Nat.min_le_right other 99
  obtain ⟨tens, rest⟩ := List.cons.inj same
  obtain ⟨ones, -⟩ := List.cons.inj rest
  have tens := Decimal.digitChar_inj (by omega) (by omega) tens
  have ones := Decimal.digitChar_inj (by omega) (by omega) ones
  omega

/-- The texts of a fingerprint stand at fixed places. -/
theorem computeJa4_inj (same : computeJa4 sha256 first = computeJa4 sha256 second) :
    first.tlsVersion.text = second.tlsVersion.text ∧
      min first.cipherSuites.length 99 = min second.cipherSuites.length 99 ∧
        truncatedHash sha256 (sorted first.cipherSuites).text =
          truncatedHash sha256 (sorted second.cipherSuites).text := by
  unfold computeJa4 at same
  have hashes : ∀ value other : List Char,
      (truncatedHash sha256 value).length = (truncatedHash sha256 other).length := by
    intro value other
    rw [length_truncatedHash, length_truncatedHash]
  obtain ⟨same, -⟩ := List.append_inj' same (hashes _ _)
  obtain ⟨same, -⟩ := List.append_inj' same rfl
  obtain ⟨same, hash⟩ := List.append_inj' same (hashes _ _)
  obtain ⟨same, -⟩ := List.append_inj' same rfl
  obtain ⟨same, -⟩ := List.append_inj' same (by rw [length_alpnTag, length_alpnTag])
  obtain ⟨same, -⟩ := List.append_inj' same rfl
  obtain ⟨same, counts⟩ := List.append_inj' same rfl
  obtain ⟨same, -⟩ := List.append_inj' same rfl
  obtain ⟨-, version⟩ := List.append_inj same rfl
  exact ⟨String.toList_injective version, twoDigits_inj counts, hash⟩

end ClientHello

/-! ### Fingerprints of outlines -/

section Outlines

open ClientHello (decode sorted truncatedHash)

variable {sha256 : List UInt8 → Vector UInt8 32} {outline other : HelloOutline}
  {hello hello' : ClientHello}

/-- Alike outlines have one fingerprint. -/
theorem ja4_eq_of_alike (alike : outline.Alike other)
    (decoded : decode sha256 outline.bytes = .ok hello)
    (decoded' : decode sha256 other.bytes = .ok hello') : hello.ja4 = hello'.ja4 := by
  obtain ⟨fields, reads, ja4⟩ := HelloOutline.exists_reads_of_decode decoded
  obtain ⟨fields', reads', ja4'⟩ := HelloOutline.exists_reads_of_decode decoded'
  rw [ja4, ja4']
  apply ClientHello.computeJa4_congr
  · obtain ⟨highest, found, version⟩ := reads.version
    obtain ⟨highest', found', version'⟩ := reads'.version
    unfold HelloOutline.HasHighest at found found'
    rw [← alike.version] at found'
    rw [version, version', HelloOutline.Finds.eq_of_alike (by decide)
      HelloOutline.highest_unique alike reads'.once found found']
  · rw [reads.ciphers, reads'.ciphers]
    exact alike.ciphers
  · rw [reads.extensions, reads'.extensions]
    exact alike.kinds
  · exact HelloOutline.Finds.eq_of_alike (by decide) HelloOutline.protocols_unique alike
      reads'.once reads.protocols reads'.protocols
  · exact HelloOutline.Finds.eq_of_alike (by decide) HelloOutline.signatures_unique alike
      reads'.once reads.signatures reads'.signatures

/-- An outline is like itself. -/
theorem HelloOutline.Alike.refl (outline : HelloOutline) : outline.Alike outline := by
  refine ⟨rfl, rfl, .refl _, outline.plain.map fun item => (item, item), ?_, ?_, ?_⟩
  · rw [List.map_map]
    exact .of_eq (List.map_id _).symm
  · rw [List.map_map]
    exact .of_eq (List.map_id _).symm
  · intro pair member
    obtain ⟨item, -, rfl⟩ := List.mem_map.mp member
    exact ⟨rfl, .same item.data⟩

/-- What a fingerprint tells of an outline. -/
theorem told_of_ja4_eq (decoded : decode sha256 outline.bytes = .ok hello)
    (decoded' : decode sha256 other.bytes = .ok hello') (same : hello.ja4 = hello'.ja4) :
    (∀ highest highest', outline.HasHighest highest → other.HasHighest highest' →
      (TlsVersion.ofU16 highest).text = (TlsVersion.ofU16 highest').text) ∧
      min outline.ciphers.plain.length 99 = min other.ciphers.plain.length 99 ∧
        truncatedHash sha256 (sorted outline.ciphers.plain).text =
          truncatedHash sha256 (sorted other.ciphers.plain).text := by
  obtain ⟨fields, reads, ja4⟩ := HelloOutline.exists_reads_of_decode decoded
  obtain ⟨fields', reads', ja4'⟩ := HelloOutline.exists_reads_of_decode decoded'
  rw [ja4, ja4'] at same
  obtain ⟨versions, counts, hashes⟩ := ClientHello.computeJa4_inj same
  rw [reads.ciphers, reads'.ciphers] at counts hashes
  refine ⟨fun highest highest' has has' => ?_, counts, hashes⟩
  obtain ⟨found, has₂, version⟩ := reads.version
  obtain ⟨found', has₂', version'⟩ := reads'.version
  rw [version, version'] at versions
  have first : highest = found := HelloOutline.Finds.eq_of_alike (by decide)
    HelloOutline.highest_unique (.refl outline) reads.once has has₂
  have second : highest' = found' := HelloOutline.Finds.eq_of_alike (by decide)
    HelloOutline.highest_unique (.refl other) reads'.once has' has₂'
  rw [first, second]
  exact versions

end Outlines

open ClientHello (decode sorted truncatedHash) in
/-- Every body that is decoded is spelled by an outline, which has a highest version. The
fingerprints of alike outlines are the same. Those of outlines are different if the cipher suites
are not as many, up to 99, or the codes of the highest versions differ; and if the cipher suites are
others at all, unless the hash takes two texts to one. -/
theorem ja4_ignores_randomised (sha256 : List UInt8 → Vector UInt8 32) :
    (∀ body hello, decode sha256 body = .ok hello →
      ∃ outline : HelloOutline, outline.bytes = body ∧ ∃ highest, outline.HasHighest highest) ∧
      ∀ (outline other : HelloOutline) (hello hello' : ClientHello),
        decode sha256 outline.bytes = .ok hello → decode sha256 other.bytes = .ok hello' →
          (outline.Alike other → hello.ja4 = hello'.ja4) ∧
          (min outline.ciphers.plain.length 99 ≠ min other.ciphers.plain.length 99 →
            hello.ja4 ≠ hello'.ja4) ∧
          (∀ highest highest', outline.HasHighest highest → other.HasHighest highest' →
            (TlsVersion.ofU16 highest).text ≠ (TlsVersion.ofU16 highest').text →
              hello.ja4 ≠ hello'.ja4) ∧
          (outline.ciphers.plain.toFinset ≠ other.ciphers.plain.toFinset →
            hello.ja4 ≠ hello'.ja4 ∨
              (sorted outline.ciphers.plain).text ≠ (sorted other.ciphers.plain).text ∧
                truncatedHash sha256 (sorted outline.ciphers.plain).text =
                  truncatedHash sha256 (sorted other.ciphers.plain).text) := by
  constructor
  · intro body hello decoded
    obtain ⟨outline, rfl, -⟩ := ClientHello.exists_outline_of_decode decoded
    obtain ⟨fields, reads, -⟩ := HelloOutline.exists_reads_of_decode decoded
    obtain ⟨highest, has, -⟩ := reads.version
    exact ⟨outline, rfl, highest, has⟩
  · intro outline other hello hello' decoded decoded'
    refine ⟨fun alike => ja4_eq_of_alike alike decoded decoded', ?_, ?_, ?_⟩
    · intro counts same
      exact counts (told_of_ja4_eq decoded decoded' same).2.1
    · intro highest highest' has has' codes same
      exact codes ((told_of_ja4_eq decoded decoded' same).1 highest highest' has has')
    · intro sets
      by_cases same : hello.ja4 = hello'.ja4
      · refine .inr ⟨fun texts => sets ?_, (told_of_ja4_eq decoded decoded' same).2.2⟩
        have sort := ClientHello.text_inj texts
        have perm := (ClientHello.sorted_perm outline.ciphers.plain).symm
        rw [sort] at perm
        exact List.toFinset_eq_of_perm _ _
          (perm.trans (ClientHello.sorted_perm other.ciphers.plain))
      · exact .inl same

namespace SampleOutlines

open ClientHello (decode)

/-- The extension with the supported versions. -/
def versions (values : Identifiers) (short : (framed 1 values.bytes).length < 2 ^ 16) :
    HelloExtension where
  kind := 0x002B
  data := framed 1 values.bytes
  short := short

/-- An extension without data. -/
def bare (kind : UInt16) : HelloExtension where
  kind := kind
  data := []
  short := Nat.two_pow_pos 16

theorem short_of_some {listed : List HelloExtension}
    (short : (listed.flatMap HelloExtension.bytes).length < 2 ^ 16) :
    ∀ other ∈ some listed, (other.flatMap HelloExtension.bytes).length < 2 ^ 16 := by
  rintro other ⟨⟩
  exact short

/-- A hello of TLS 1.2 with some cipher suites and extensions. -/
def outlineOf (random : UInt8) (ciphers : Identifiers) (listed : List HelloExtension)
    (short : ciphers.bytes.length < 2 ^ 16)
    (short' : (listed.flatMap HelloExtension.bytes).length < 2 ^ 16) : HelloOutline where
  version := 0x0303
  random := List.replicate 32 random
  session := []
  ciphers := ciphers
  compression := [0]
  extensions := some listed
  random_length := List.length_replicate
  session_short := Nat.two_pow_pos 8
  ciphers_short := short
  compression_short := Nat.one_lt_two_pow (Nat.succ_ne_zero 7)
  extensions_short := short_of_some short'

theorem single_version_short (version : UInt16) :
    (framed 1 (Identifiers.bytes [version])).length < 2 ^ 16 := by
  rw [LengthPrefixed.framed, List.length_append, Bytes.length_big, Identifiers.bytes,
    List.flatMap_singleton, Bytes.length_big]
  decide

theorem greased_short : (framed 1 (Identifiers.bytes [0x2A2A, 0x0304])).length < 2 ^ 16 := by
  decide

/-- The extension with one supported version. -/
def version (value : UInt16) : HelloExtension := versions [value] (single_version_short value)

theorem single_short : (Identifiers.bytes [0x1301]).length < 2 ^ 16 := by
  decide

theorem pair_short : (Identifiers.bytes [0x1301, 0x1302]).length < 2 ^ 16 := by
  decide

theorem triple_short : (Identifiers.bytes [0x0A0A, 0x1302, 0x1301]).length < 2 ^ 16 := by
  decide

theorem plainList_short :
    ([version 0x0304, bare 0x0017].flatMap HelloExtension.bytes).length < 2 ^ 16 := by
  decide

theorem greasedList_short :
    ([bare 0x1A1A, bare 0x0017, versions [0x2A2A, 0x0304] greased_short].flatMap
      HelloExtension.bytes).length < 2 ^ 16 := by
  decide

theorem draftList_short : ([version 0x0305].flatMap HelloExtension.bytes).length < 2 ^ 16 := by
  decide

theorem laterList_short : ([version 0x0306].flatMap HelloExtension.bytes).length < 2 ^ 16 := by
  decide

/-- Two cipher suites and two extensions. -/
def plain : HelloOutline :=
  outlineOf 7 [0x1301, 0x1302] [version 0x0304, bare 0x0017] pair_short plainList_short

/-- The same in another order, with GREASE everywhere and another random. -/
def greased : HelloOutline :=
  outlineOf 9 [0x0A0A, 0x1302, 0x1301]
    [bare 0x1A1A, bare 0x0017, versions [0x2A2A, 0x0304] greased_short] triple_short
    greasedList_short

/-- One cipher suite, and a version that the code does not know. -/
def draft : HelloOutline := outlineOf 7 [0x1301] [version 0x0305] single_short draftList_short

/-- One cipher suite, and another version that the code does not know. -/
def later : HelloOutline := outlineOf 7 [0x1301] [version 0x0306] single_short laterList_short

theorem alike : plain.Alike greased := by
  refine ⟨rfl, rfl, ?_, [(bare 0x0017, bare 0x0017),
    (version 0x0304, versions [0x2A2A, 0x0304] greased_short)], ?_, ?_, ?_⟩
  · exact .swap 0x1302 0x1301 []
  · exact .swap (bare 0x0017) (version 0x0304) []
  · exact .refl _
  · intro pair member
    rcases List.mem_cons.mp member with rfl | member
    · exact ⟨rfl, .same []⟩
    · rw [List.mem_singleton.mp member]
      exact ⟨rfl, .versions rfl rfl⟩

theorem plain_decoded : ∃ hello, decode Sha256.hash plain.bytes = .ok hello := ⟨_, rfl⟩

theorem greased_decoded : ∃ hello, decode Sha256.hash greased.bytes = .ok hello := ⟨_, rfl⟩

theorem draft_decoded : ∃ hello, decode Sha256.hash draft.bytes = .ok hello := ⟨_, rfl⟩

theorem ja4_of_greased : ∃ hello hello' hello'', decode Sha256.hash plain.bytes = .ok hello ∧
    decode Sha256.hash greased.bytes = .ok hello' ∧
      decode Sha256.hash draft.bytes = .ok hello'' ∧
        hello.ja4 = hello'.ja4 ∧ hello.ja4 ≠ hello''.ja4 := by
  obtain ⟨hello, decoded⟩ := plain_decoded
  obtain ⟨hello', decoded'⟩ := greased_decoded
  obtain ⟨hello'', decoded''⟩ := draft_decoded
  obtain ⟨same, -⟩ :=
    (ja4_ignores_randomised Sha256.hash).2 plain greased hello hello' decoded decoded'
  obtain ⟨-, counts, -⟩ :=
    (ja4_ignores_randomised Sha256.hash).2 plain draft hello hello'' decoded decoded''
  exact ⟨hello, hello', hello'', decoded, decoded', decoded'', same alike, counts (by decide)⟩

theorem highest_version {outline : HelloOutline} {value : UInt16}
    (member : version value ∈ outline.listed) (known : isGrease value = false) :
    outline.HasHighest value := by
  refine .inr ⟨version value, member, rfl, [value], rfl, ?_⟩
  rw [Identifiers.plain, List.filter_cons_of_pos (by rw [known]; rfl)]
  rfl

/-- Versions that the code does not know share a code, so that the highest versions differ where the
fingerprints do not. -/
theorem ja4_of_unknown_versions : ¬∀ (outline other : HelloOutline) (hello hello' : ClientHello),
    decode Sha256.hash outline.bytes = .ok hello → decode Sha256.hash other.bytes = .ok hello' →
      (min outline.ciphers.plain.toFinset.card 99 ≠ min other.ciphers.plain.toFinset.card 99 ∨
        ∃ highest highest', outline.HasHighest highest ∧ other.HasHighest highest' ∧
          highest ≠ highest') → hello.ja4 ≠ hello'.ja4 := by
  intro differ
  have decoded : ∃ hello, decode Sha256.hash draft.bytes = .ok hello ∧
      decode Sha256.hash later.bytes = .ok hello := ⟨_, rfl, rfl⟩
  obtain ⟨hello, first, second⟩ := decoded
  have draft_highest : draft.HasHighest 0x0305 :=
    highest_version List.mem_cons_self (by decide)
  have later_highest : later.HasHighest 0x0306 :=
    highest_version List.mem_cons_self (by decide)
  exact differ draft later hello hello first second
    (.inr ⟨0x0305, 0x0306, draft_highest, later_highest, by decide⟩) rfl

end SampleOutlines

end Bagel
