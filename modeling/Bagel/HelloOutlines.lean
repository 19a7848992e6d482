/-
This file spells the body of a TLS hello out into its parts, and says what the decoder makes of
them. Every body that is decoded is spelled by an outline, and the fields of the decoded hello are
those of the outline: the identifiers that are not GREASE in their order, and what the one extension
of a kind says.
-/

import Bagel.ClientHello
import Bagel.WireFields

namespace Bagel

open LengthPrefixed (framed)

/-! ### Identifiers -/

namespace Identifiers

/-- The bytes that spell identifiers. -/
def bytes (identifiers : Identifiers) : List UInt8 :=
  identifiers.flatMap fun value => Bytes.big 2 value.toNat

/-- The identifiers that are not GREASE. -/
def plain (identifiers : Identifiers) : Identifiers :=
  identifiers.filter fun value => !isGrease value

theorem pairs_eq_some_iff {data : List UInt8} {values : List UInt16} :
    pairs data = some values ↔ data = bytes values := by
  induction data using pairs.induct generalizing values with
  | case1 =>
    cases values with
    | nil => exact ⟨fun _ => rfl, fun _ => rfl⟩
    | cons value values => exact ⟨fun same => (by cases same), fun same => (by cases same)⟩
  | case2 byte =>
    cases values with
    | nil => exact ⟨fun same => (by cases same), fun same => (by cases same)⟩
    | cons value values => exact ⟨fun same => (by cases same), fun same => (by cases same)⟩
  | case3 high low rest inductionHypothesis =>
    rw [pairs, Option.map_eq_some_iff]
    constructor
    · rintro ⟨others, read, rfl⟩
      have first : Bytes.big 2 (UInt16.ofNat (Bytes.number [high, low])).toNat = [high, low] :=
        Cursor.big_ofNat_number rfl
      rw [inductionHypothesis.mp read, bytes, bytes, List.flatMap_cons, first]
      rfl
    · intro spelled
      cases values with
      | nil => cases spelled
      | cons value values =>
        rw [bytes, List.flatMap_cons] at spelled
        have parts : [high, low] ++ rest = Bytes.big 2 value.toNat ++ bytes values := spelled
        obtain ⟨first, others⟩ := List.append_inj parts (Bytes.length_big 2 value.toNat).symm
        refine ⟨values, inductionHypothesis.mpr others, ?_⟩
        rw [first, Cursor.ofNat_number_big]

theorem bytes_inj {values others : Identifiers} (same : bytes values = bytes others) :
    values = others := by
  have first := pairs_eq_some_iff.mpr (rfl : bytes values = bytes values)
  rw [same, pairs_eq_some_iff.mpr rfl] at first
  exact (Option.some.inj first).symm

theorem tryFrom_eq_ok_iff {data : List UInt8} {identifiers : Identifiers} :
    tryFrom data = .ok identifiers ↔
      ∃ values, data = bytes values ∧ data.length ≤ 1024 ∧ identifiers = plain values := by
  unfold tryFrom
  cases read : pairs data with
  | none =>
    refine ⟨fun same => (by cases same), ?_⟩
    rintro ⟨values, spelled, -⟩
    rw [pairs_eq_some_iff.mpr spelled] at read
    cases read
  | some values =>
    have spelled := pairs_eq_some_iff.mp read
    dsimp only
    split
    · next long =>
      refine ⟨fun same => (by cases same), ?_⟩
      rintro ⟨values', -, short, -⟩
      exact absurd short (Nat.not_le.mpr long)
    · next short =>
      constructor
      · rintro ⟨⟩
        exact ⟨values, spelled, Nat.le_of_not_lt short, rfl⟩
      · rintro ⟨values', spelled', -, rfl⟩
        rw [bytes_inj (spelled.symm.trans spelled')]
        rfl

end Identifiers

/-! ### Protocols -/

/-- A protocol that a client offers. -/
structure AlpnProtocol where
  name : List UInt8
  short : name.length < 2 ^ 8

namespace AlpnProtocol

def bytes (protocol : AlpnProtocol) : List UInt8 := framed 1 protocol.name

def isGrease (protocol : AlpnProtocol) : Bool :=
  protocol.name.length = 2 && Bagel.isGrease (UInt16.ofNat (Bytes.number protocol.name))

/-- The protocols that are not GREASE. -/
def plain (protocols : List AlpnProtocol) : List (List UInt8) :=
  (protocols.filter fun protocol => !protocol.isGrease).map name

theorem bytes_ne_nil (protocol : AlpnProtocol) : protocol.bytes ≠ [] :=
  LengthPrefixed.framed_ne_nil (by decide) protocol.name

theorem bytes_append_inj {protocol other : AlpnProtocol} {rest tail : List UInt8}
    (same : protocol.bytes ++ rest = other.bytes ++ tail) : protocol = other ∧ rest = tail := by
  obtain ⟨names, rests⟩ := LengthPrefixed.framed_append_inj protocol.short other.short same
  cases protocol
  cases other
  cases names
  exact ⟨rfl, rests⟩

end AlpnProtocol

namespace ClientHello

/-- What the decoder does with one protocol. -/
def offer (hello : ClientHello) (protocol : AlpnProtocol) : Except CaptureError ClientHello :=
  if protocol.name.isEmpty then .error .invalid
  else if protocol.isGrease then .ok hello
  else .ok { hello with alpn := hello.alpn ++ [protocol.name] }

theorem protocol_eq_ok_iff (hello next : ClientHello) (remaining rest : List UInt8) :
    protocol hello remaining = .ok (next, rest) ↔
      ∃ item : AlpnProtocol, remaining = item.bytes ++ rest ∧ hello.offer item = .ok next := by
  have branches : ∀ (item : AlpnProtocol) (left : List UInt8),
      (if item.name.isEmpty then .error .invalid
        else if item.isGrease then .ok (hello, left)
        else .ok ({ hello with alpn := hello.alpn ++ [item.name] }, left) :
          Except CaptureError (ClientHello × List UInt8)) = .ok (next, rest) ↔
        hello.offer item = .ok next ∧ left = rest := by
    intro item left
    unfold offer
    split
    · exact ⟨fun same => (by cases same), fun both => (by cases both.1)⟩
    · split
      · constructor
        · rintro ⟨⟩
          exact ⟨rfl, rfl⟩
        · rintro ⟨⟨⟩, rfl⟩
          rfl
      · constructor
        · rintro ⟨⟩
          exact ⟨rfl, rfl⟩
        · rintro ⟨⟨⟩, rfl⟩
          rfl
  unfold protocol
  rw [Transaction.bind_eq_ok_iff]
  constructor
  · rintro ⟨⟨name, left⟩, read, taken⟩
    obtain ⟨short, rfl⟩ := Cursor.vectorU8_eq_ok_iff.mp read
    obtain ⟨offered, rfl⟩ := (branches ⟨name, short⟩ left).mp taken
    exact ⟨⟨name, short⟩, rfl, offered⟩
  · rintro ⟨item, rfl, offered⟩
    exact ⟨(item.name, rest), Cursor.vectorU8_eq_ok_iff.mpr ⟨item.short, rfl⟩,
      (branches item rest).mpr ⟨offered, rfl⟩⟩

theorem offer_all {protocols : List AlpnProtocol} {hello last : ClientHello}
    (offered : protocols.foldlM offer hello = .ok last) :
    last = { hello with alpn := hello.alpn ++ AlpnProtocol.plain protocols } := by
  induction protocols generalizing hello with
  | nil =>
    cases offered
    rw [AlpnProtocol.plain, List.filter_nil, List.map_nil, List.append_nil]
  | cons protocol protocols inductionHypothesis =>
    obtain ⟨next, first, others⟩ := Transaction.bind_eq_ok_iff.mp offered
    rw [inductionHypothesis others]
    unfold offer at first
    split at first
    · cases first
    · split at first
      · next grease =>
        cases first
        rw [AlpnProtocol.plain, AlpnProtocol.plain,
          List.filter_cons_of_neg (by rw [grease]; decide)]
      · next other =>
        cases first
        rw [AlpnProtocol.plain, AlpnProtocol.plain,
          List.filter_cons_of_pos (by rw [Bool.not_eq_true] at other; rw [other]; rfl),
          List.map_cons, List.append_assoc, List.singleton_append]

/-! ### Extensions -/

/-- What the data of an extension say, for the kinds that a fingerprint is made of. -/
inductive Tells (hello : ClientHello) : UInt16 → List UInt8 → ClientHello → Prop where
  | versions {values : Identifiers} {highest : UInt16}
      (max : (Identifiers.plain values).max? = some highest) :
      Tells hello 0x002B (framed 1 (Identifiers.bytes values))
        { hello with tlsVersion := .ofU16 highest }
  | signatures (values : Identifiers) :
      Tells hello 0x000D (framed 2 (Identifiers.bytes values))
        { hello with signatureAlgorithms := Identifiers.plain values }
  | protocols (protocols : List AlpnProtocol) :
      Tells hello 0x0010 (framed 2 (protocols.flatMap AlpnProtocol.bytes))
        { hello with alpn := hello.alpn ++ AlpnProtocol.plain protocols }
  | other {kind : UInt16} {data : List UInt8} (sni : List Char) (ellipticCurves : Identifiers)
      (ecPointFormats : List UInt8) (none : kind ≠ 0x002B ∧ kind ≠ 0x000D ∧ kind ≠ 0x0010) :
      Tells hello kind data { hello with sni, ellipticCurves, ecPointFormats }

/-- The payload is all that is behind its length. -/
theorem eq_framed_of_payload {width : Nat} {data part : List UInt8}
    {vector : Cursor (List UInt8)}
    (spells : ∀ remaining rest, vector remaining = .ok (part, rest) →
      remaining = framed width part ++ rest)
    (read : (vector data >>= fun listed => Cursor.finish listed.2 >>= fun _ =>
      if listed.1.isEmpty then (.error .invalid : Except CaptureError (List UInt8))
      else .ok listed.1) = .ok part) :
    data = framed width part := by
  obtain ⟨⟨listed, rest⟩, taken, read⟩ := Transaction.bind_eq_ok_iff.mp read
  obtain ⟨done, finished, read⟩ := Transaction.bind_eq_ok_iff.mp read
  obtain rfl := Cursor.finish_eq_ok_iff.mp finished
  split at read
  · cases read
  · cases read
    have spelled := spells data [] taken
    rw [List.append_nil] at spelled
    exact spelled

theorem payload_eq_ok {kind : ExtensionKind} {data part : List UInt8}
    (read : payload kind data = .ok part) :
    data = framed (if kind = .pointFormats ∨ kind = .supportedVersions then 1 else 2) part := by
  cases kind with
  | pointFormats | supportedVersions =>
    exact eq_framed_of_payload (fun _ _ taken => (Cursor.vectorU8_eq_ok_iff.mp taken).2) read
  | serverName | supportedGroups | signatureAlgorithms | alpn | unknown =>
    exact eq_framed_of_payload (fun _ _ taken => (Cursor.vectorU16_eq_ok_iff.mp taken).2) read

theorem serverName_sni {state next : List UInt8 × ClientHello} {remaining rest : List UInt8}
    (read : serverName state remaining = .ok (next, rest)) :
    ∃ sni, next.2 = { state.2 with sni } := by
  obtain ⟨nameType, first, read⟩ := Transaction.bind_eq_ok_iff.mp read
  obtain ⟨name, second, read⟩ := Transaction.bind_eq_ok_iff.mp read
  dsimp only at read
  split at read
  · cases read
  · split at read
    · split at read
      · cases read
      · cases read
        exact ⟨_, rfl⟩
    · cases read
      exact ⟨state.2.sni, rfl⟩

theorem serverNames_sni {types last : List UInt8} {hello after : ClientHello}
    {names : List UInt8}
    (read : Cursor.whileSome serverName (types, hello) names = .ok (last, after)) :
    ∃ sni, after = { hello with sni } := by
  have preserves : ∀ (state next : List UInt8 × ClientHello) (remaining rest : List UInt8),
      (∃ sni, state.2 = { hello with sni }) → serverName state remaining = .ok (next, rest) →
        ∃ sni, next.2 = { hello with sni } := by
    rintro state next remaining rest ⟨sni, same⟩ passed
    obtain ⟨sni', same'⟩ := serverName_sni passed
    exact ⟨sni', by rw [same', same]⟩
  exact Cursor.loop_preserves preserves ⟨hello.sni, rfl⟩ read

section Extended

variable {hello after : ClientHello} {data : List UInt8}

theorem tells_versions (extended : hello.extension .supportedVersions data = .ok after) :
    Tells hello 0x002B data after := by
  obtain ⟨part, listed, read⟩ := Transaction.bind_eq_ok_iff.mp extended
  obtain ⟨identifiers, numbers, read⟩ := Transaction.bind_eq_ok_iff.mp read
  obtain ⟨values, rfl, -, rfl⟩ := Identifiers.tryFrom_eq_ok_iff.mp numbers
  have spelled : data = framed 1 (Identifiers.bytes values) := payload_eq_ok listed
  split at read
  · cases read
  · next highest max =>
    cases read
    rw [spelled]
    exact .versions max

theorem tells_signatures (extended : hello.extension .signatureAlgorithms data = .ok after) :
    Tells hello 0x000D data after := by
  obtain ⟨part, listed, read⟩ := Transaction.bind_eq_ok_iff.mp extended
  obtain ⟨identifiers, numbers, read⟩ := Transaction.bind_eq_ok_iff.mp read
  obtain ⟨values, rfl, -, rfl⟩ := Identifiers.tryFrom_eq_ok_iff.mp numbers
  have spelled : data = framed 2 (Identifiers.bytes values) := payload_eq_ok listed
  cases read
  rw [spelled]
  exact .signatures values

theorem tells_protocols (extended : hello.extension .alpn data = .ok after) :
    Tells hello 0x0010 data after := by
  obtain ⟨part, listed, read⟩ := Transaction.bind_eq_ok_iff.mp extended
  have spelled : data = framed 2 part := payload_eq_ok listed
  by_cases long : 2048 < data.length
  · rw [if_pos long] at read
    cases read
  · rw [if_neg long] at read
    obtain ⟨protocols, rfl, offered⟩ :=
      (Cursor.whileSome_eq_ok_iff AlpnProtocol.bytes_ne_nil protocol_eq_ok_iff).mp read
    rw [spelled, offer_all offered]
    exact .protocols protocols

/-- The other kinds have to do with none of the fields that a fingerprint is made of. -/
theorem exists_of_other {kind : ExtensionKind}
    (none : kind ≠ .supportedVersions ∧ kind ≠ .signatureAlgorithms ∧ kind ≠ .alpn)
    (extended : hello.extension kind data = .ok after) :
    ∃ sni ellipticCurves ecPointFormats,
      after = { hello with sni, ellipticCurves, ecPointFormats } := by
  cases kind with
  | supportedVersions => exact absurd rfl none.1
  | signatureAlgorithms => exact absurd rfl none.2.1
  | alpn => exact absurd rfl none.2.2
  | serverName =>
    obtain ⟨part, listed, read⟩ := Transaction.bind_eq_ok_iff.mp extended
    obtain ⟨⟨types, named⟩, names, read⟩ := Transaction.bind_eq_ok_iff.mp read
    obtain ⟨sni, rfl⟩ := serverNames_sni names
    cases read
    exact ⟨sni, hello.ellipticCurves, hello.ecPointFormats, rfl⟩
  | supportedGroups =>
    obtain ⟨part, listed, read⟩ := Transaction.bind_eq_ok_iff.mp extended
    obtain ⟨curves, values, read⟩ := Transaction.bind_eq_ok_iff.mp read
    cases read
    exact ⟨hello.sni, curves, hello.ecPointFormats, rfl⟩
  | pointFormats =>
    obtain ⟨part, listed, read⟩ := Transaction.bind_eq_ok_iff.mp extended
    cases read
    exact ⟨hello.sni, hello.ellipticCurves, part, rfl⟩
  | unknown =>
    cases extended
    exact ⟨hello.sni, hello.ellipticCurves, hello.ecPointFormats, rfl⟩

/-- The codes of these kinds are those of no other kind. -/
theorem ofU16_ne {kind : UInt16} (versions : kind ≠ 0x002B) (signatures : kind ≠ 0x000D)
    (protocols : kind ≠ 0x0010) :
    ExtensionKind.ofU16 kind ≠ .supportedVersions ∧
      ExtensionKind.ofU16 kind ≠ .signatureAlgorithms ∧ ExtensionKind.ofU16 kind ≠ .alpn := by
  unfold ExtensionKind.ofU16
  rw [if_neg signatures, if_neg protocols, if_neg versions]
  split
  · decide
  · split
    · decide
    · split <;> decide

/-- An extension that is read changes what it says. -/
theorem tells_of_extension {kind : UInt16}
    (extended : hello.extension (.ofU16 kind) data = .ok after) : Tells hello kind data after := by
  by_cases versions : kind = 0x002B
  · subst versions
    exact tells_versions extended
  · by_cases signatures : kind = 0x000D
    · subst signatures
      exact tells_signatures extended
    · by_cases protocols : kind = 0x0010
      · subst protocols
        exact tells_protocols extended
      · obtain ⟨sni, curves, formats, rfl⟩ :=
          exists_of_other (ofU16_ne versions signatures protocols) extended
        exact .other sni curves formats ⟨versions, signatures, protocols⟩

end Extended

end ClientHello

/-! ### The list of extensions -/

/-- An extension as it is spelled. -/
structure HelloExtension where
  kind : UInt16
  data : List UInt8
  short : data.length < 2 ^ 16

namespace HelloExtension

def bytes (item : HelloExtension) : List UInt8 :=
  Bytes.big 2 item.kind.toNat ++ framed 2 item.data

theorem bytes_ne_nil (item : HelloExtension) : item.bytes ≠ [] := by
  unfold bytes
  exact fun none => LengthPrefixed.framed_ne_nil (by decide) _ (List.append_eq_nil_iff.mp none).2

theorem bytes_append_inj {item other : HelloExtension} {rest tail : List UInt8}
    (same : item.bytes ++ rest = other.bytes ++ tail) : item = other ∧ rest = tail := by
  rw [bytes, bytes, List.append_assoc, List.append_assoc] at same
  obtain ⟨kinds, same⟩ := List.append_inj same (by rw [Bytes.length_big, Bytes.length_big])
  obtain ⟨data, rests⟩ := LengthPrefixed.framed_append_inj item.short other.short same
  have kind : item.kind = other.kind :=
    UInt16.toNat_inj.mp (Bytes.big_inj item.kind.toNat_lt other.kind.toNat_lt kinds)
  cases item
  cases other
  cases kind
  cases data
  exact ⟨rfl, rests⟩

end HelloExtension

namespace ClientHello

/-- What the decoder does with one extension, after those of some kinds. -/
def enter (state : List UInt16 × ClientHello) (item : HelloExtension) :
    Except CaptureError (List UInt16 × ClientHello) :=
  if state.1.contains item.kind then .error .invalid
  else if 512 < state.1.length + 1 then .error .limited
  else do
    let hello :=
      if isGrease item.kind then state.2
      else { state.2 with extensions := state.2.extensions ++ [item.kind] }
    let hello ← hello.extension (.ofU16 item.kind) item.data
    return (item.kind :: state.1, hello)

theorem nextExtension_eq_ok_iff (state next : List UInt16 × ClientHello)
    (remaining rest : List UInt8) :
    nextExtension state remaining = .ok (next, rest) ↔
      ∃ item : HelloExtension, remaining = item.bytes ++ rest ∧ enter state item = .ok next := by
  have branches : ∀ (item : HelloExtension) (left : List UInt8),
      (if state.1.contains item.kind then .error .invalid
        else if 512 < state.1.length + 1 then .error .limited
        else
          (if isGrease item.kind then state.2
            else { state.2 with extensions := state.2.extensions ++ [item.kind] }).extension
              (.ofU16 item.kind) item.data >>= fun hello =>
                pure ((item.kind :: state.1, hello), left) :
          Except CaptureError ((List UInt16 × ClientHello) × List UInt8)) = .ok (next, rest) ↔
        enter state item = .ok next ∧ left = rest := by
    intro item left
    unfold enter
    split
    · exact ⟨fun same => (by cases same), fun both => (by cases both.1)⟩
    · split
      · exact ⟨fun same => (by cases same), fun both => (by cases both.1)⟩
      · rw [Transaction.bind_eq_ok_iff]
        dsimp only
        rw [Transaction.bind_eq_ok_iff]
        constructor
        · rintro ⟨hello, extended, same⟩
          cases same
          exact ⟨⟨hello, extended, rfl⟩, rfl⟩
        · rintro ⟨⟨hello, extended, same⟩, rfl⟩
          cases same
          exact ⟨hello, extended, rfl⟩
  unfold nextExtension
  rw [Transaction.bind_eq_ok_iff]
  constructor
  · rintro ⟨⟨kind, left⟩, first, read⟩
    obtain ⟨⟨data, left'⟩, second, taken⟩ := Transaction.bind_eq_ok_iff.mp read
    obtain ⟨short, spelled⟩ := Cursor.vectorU16_eq_ok_iff.mp second
    obtain ⟨entered, rfl⟩ := (branches ⟨kind, data, short⟩ left').mp taken
    refine ⟨⟨kind, data, short⟩, ?_, entered⟩
    rw [Cursor.u16_eq_ok_iff.mp first, spelled, HelloExtension.bytes, List.append_assoc]
  · rintro ⟨item, rfl, entered⟩
    refine ⟨(item.kind, framed 2 item.data ++ rest), Cursor.u16_eq_ok_iff.mpr ?_, ?_⟩
    · rw [HelloExtension.bytes, List.append_assoc]
    · refine Transaction.bind_eq_ok_iff.mpr
        ⟨(item.data, rest), Cursor.vectorU16_eq_ok_iff.mpr ⟨item.short, rfl⟩, ?_⟩
      exact (branches item rest).mpr ⟨entered, rfl⟩

/-- An extension that is entered is of a new kind, is counted unless it is GREASE, and changes what
it says. -/
theorem enter_eq_ok {state next : List UInt16 × ClientHello} {item : HelloExtension}
    (entered : enter state item = .ok next) :
    item.kind ∉ state.1 ∧ next.1 = item.kind :: state.1 ∧
      Tells { state.2 with extensions := state.2.extensions ++ Identifiers.plain [item.kind] }
        item.kind item.data next.2 := by
  unfold enter at entered
  split at entered
  · cases entered
  · next fresh =>
    rw [List.contains_iff_mem] at fresh
    split at entered
    · cases entered
    · obtain ⟨hello, extended, same⟩ := Transaction.bind_eq_ok_iff.mp entered
      cases same
      refine ⟨fresh, rfl, ?_⟩
      have counted : (if isGrease item.kind then state.2
          else { state.2 with extensions := state.2.extensions ++ [item.kind] }) =
          { state.2 with extensions := state.2.extensions ++ Identifiers.plain [item.kind] } := by
        cases grease : isGrease item.kind with
        | true =>
          rw [Identifiers.plain, List.filter_cons_of_neg (by rw [grease]; decide), List.filter_nil,
            List.append_nil]
          rfl
        | false =>
          rw [Identifiers.plain, List.filter_cons_of_pos (by rw [grease]; rfl), List.filter_nil]
          rfl
      rw [← counted]
      exact tells_of_extension extended

section Entered

variable {items : List HelloExtension} {state last : List UInt16 × ClientHello}

theorem Tells.kept {hello after : ClientHello} {kind : UInt16} {data : List UInt8}
    (told : Tells hello kind data after) :
    after.cipherSuites = hello.cipherSuites ∧ after.extensions = hello.extensions := by
  cases told with
  | versions _ | signatures _ | protocols _ | other _ _ _ _ => exact ⟨rfl, rfl⟩

/-- Extensions that are entered are of different kinds, and are counted in their order. -/
theorem enter_all (entered : items.foldlM enter state = .ok last) :
    (∀ item ∈ items, item.kind ∉ state.1) ∧ (items.map HelloExtension.kind).Nodup ∧
      last.2.cipherSuites = state.2.cipherSuites ∧
        last.2.extensions =
          state.2.extensions ++ Identifiers.plain (items.map HelloExtension.kind) := by
  induction items generalizing state with
  | nil =>
    cases entered
    refine ⟨fun item member => absurd member List.not_mem_nil, List.nodup_nil, rfl, ?_⟩
    rw [List.map_nil, Identifiers.plain, List.filter_nil, List.append_nil]
  | cons item items inductionHypothesis =>
    obtain ⟨next, first, others⟩ := Transaction.bind_eq_ok_iff.mp entered
    obtain ⟨fresh, kinds, told⟩ := enter_eq_ok first
    obtain ⟨apart, once, ciphers, extensions⟩ := inductionHypothesis others
    obtain ⟨sameCiphers, counted⟩ := told.kept
    rw [kinds] at apart
    refine ⟨?_, ?_, ciphers.trans sameCiphers, ?_⟩
    · intro other member
      rcases List.mem_cons.mp member with rfl | later
      · exact fresh
      · exact fun before => apart other later (List.mem_cons_of_mem _ before)
    · rw [List.map_cons, List.nodup_cons]
      refine ⟨fun again => ?_, once⟩
      obtain ⟨other, later, same⟩ := List.mem_map.mp again
      exact apart other later (same ▸ List.mem_cons_self)
    · rw [extensions, counted, List.append_assoc, List.map_cons, Identifiers.plain,
        Identifiers.plain, Identifiers.plain, ← List.filter_append, List.singleton_append]

/-- A field that one kind of extension alone has to do with is given by the extension of this kind,
if there is one. -/
theorem field_of_enter_all {Value : Type} (field : ClientHello → Value) (code : UInt16)
    (Given : Value → List UInt8 → Value → Prop)
    (counts : ∀ hello extensions, field { hello with extensions } = field hello)
    (other : ∀ hello kind data after, Tells hello kind data after → kind ≠ code →
      field after = field hello)
    (own : ∀ hello kind data after, Tells hello kind data after → kind = code →
      Given (field hello) data (field after))
    (entered : items.foldlM enter state = .ok last) :
    ((∀ item ∈ items, item.kind ≠ code) ∧ field last.2 = field state.2) ∨
      ∃ item ∈ items, item.kind = code ∧ Given (field state.2) item.data (field last.2) := by
  induction items generalizing state with
  | nil =>
    cases entered
    exact .inl ⟨fun item member => absurd member List.not_mem_nil, rfl⟩
  | cons item items inductionHypothesis =>
    obtain ⟨next, first, others⟩ := Transaction.bind_eq_ok_iff.mp entered
    obtain ⟨-, kinds, told⟩ := enter_eq_ok first
    obtain ⟨apart, -⟩ := enter_all others
    rw [kinds] at apart
    by_cases code' : item.kind = code
    · have given := own _ _ _ _ told code'
      rw [counts state.2] at given
      refine .inr ⟨item, List.mem_cons_self, code', ?_⟩
      -- The kind does not come again.
      rcases inductionHypothesis others with ⟨-, same⟩ | ⟨again, member, kind, -⟩
      · rw [same]
        exact given
      · exact absurd (kind.trans code'.symm ▸ List.mem_cons_self) (apart again member)
    · have same : field next.2 = field state.2 :=
        (other _ _ _ _ told code').trans (counts state.2 _)
      rw [← same]
      rcases inductionHypothesis others with ⟨none, later⟩ | ⟨again, member, given⟩
      · refine .inl ⟨fun other member => ?_, later⟩
        rcases List.mem_cons.mp member with rfl | later
        · exact code'
        · exact none other later
      · exact .inr ⟨again, List.mem_cons_of_mem _ member, given⟩

end Entered

end ClientHello

/-! ### Outlines -/

/-- The parts of the body of a hello. The extensions may be missing as a whole. -/
structure HelloOutline where
  version : UInt16
  random : List UInt8
  session : List UInt8
  ciphers : Identifiers
  compression : List UInt8
  extensions : Option (List HelloExtension)
  random_length : random.length = 32
  session_short : session.length < 2 ^ 8
  ciphers_short : ciphers.bytes.length < 2 ^ 16
  compression_short : compression.length < 2 ^ 8
  extensions_short : ∀ listed ∈ extensions, (listed.flatMap HelloExtension.bytes).length < 2 ^ 16

namespace HelloOutline

def listed (outline : HelloOutline) : List HelloExtension := outline.extensions.getD []

def ending : Option (List HelloExtension) → List UInt8
  | none => []
  | some listed => framed 2 (listed.flatMap HelloExtension.bytes)

def bytes (outline : HelloOutline) : List UInt8 :=
  Bytes.big 2 outline.version.toNat ++ (outline.random ++ (framed 1 outline.session ++
    (framed 2 outline.ciphers.bytes ++ (framed 1 outline.compression ++
      ending outline.extensions))))

/-- The hello before its extensions are read. -/
def hello (outline : HelloOutline) : ClientHello where
  ja4 := []
  tlsVersion := .ofU16 outline.version
  cipherSuites := outline.ciphers.plain
  extensions := []
  ellipticCurves := []
  ecPointFormats := []
  sni := []
  alpn := []
  signatureAlgorithms := []

theorem ending_inj {extensions others : Option (List HelloExtension)}
    (same : ending extensions = ending others) : extensions = others := by
  cases extensions with
  | none =>
    cases others with
    | none => rfl
    | some others => exact absurd same.symm (LengthPrefixed.framed_ne_nil (by decide) _)
  | some listed =>
    cases others with
    | none => exact absurd same (LengthPrefixed.framed_ne_nil (by decide) _)
    | some others =>
      have spelled := LengthPrefixed.framed_inj same
      rw [LengthPrefixed.flatMap_inj HelloExtension.bytes_ne_nil HelloExtension.bytes_append_inj
        spelled]

/-- A body is spelled by one outline at most. -/
theorem bytes_inj {outline other : HelloOutline} (same : outline.bytes = other.bytes) :
    outline = other := by
  unfold bytes at same
  obtain ⟨versions, same⟩ := List.append_inj same (by rw [Bytes.length_big, Bytes.length_big])
  obtain ⟨randoms, same⟩ :=
    List.append_inj same (outline.random_length.trans other.random_length.symm)
  obtain ⟨sessions, same⟩ :=
    LengthPrefixed.framed_append_inj outline.session_short other.session_short same
  obtain ⟨ciphers, same⟩ :=
    LengthPrefixed.framed_append_inj outline.ciphers_short other.ciphers_short same
  obtain ⟨compressions, same⟩ :=
    LengthPrefixed.framed_append_inj outline.compression_short other.compression_short same
  have extensions := ending_inj same
  have ciphers := Identifiers.bytes_inj ciphers
  have version : outline.version = other.version :=
    UInt16.toNat_inj.mp (Bytes.big_inj outline.version.toNat_lt other.version.toNat_lt versions)
  cases outline
  cases other
  cases version
  cases randoms
  cases sessions
  cases ciphers
  cases compressions
  cases extensions
  rfl

end HelloOutline

namespace ClientHello

open HelloOutline (ending)

theorem readExtensions_eq_ok {hello after : ClientHello} {input : List UInt8}
    (read : hello.readExtensions input = .ok after) :
    ∃ extensions : Option (List HelloExtension), input = ending extensions ∧
      (∀ listed ∈ extensions, (listed.flatMap HelloExtension.bytes).length < 2 ^ 16) ∧
        ∃ kinds, (extensions.getD []).foldlM enter ([], hello) = .ok (kinds, after) := by
  unfold readExtensions at read
  split at read
  · next nothing =>
    cases read
    exact ⟨none, List.isEmpty_iff.mp nothing, fun listed member => (by cases member), [], rfl⟩
  · obtain ⟨⟨part, rest⟩, vector, others⟩ := Transaction.bind_eq_ok_iff.mp read
    obtain ⟨done, finished, looped⟩ := Transaction.bind_eq_ok_iff.mp others
    obtain ⟨⟨kinds, last⟩, looped, same⟩ := Transaction.bind_eq_ok_iff.mp looped
    cases same
    obtain ⟨short, spelled⟩ := Cursor.vectorU16_eq_ok_iff.mp vector
    rw [Cursor.finish_eq_ok_iff.mp finished, List.append_nil] at spelled
    obtain ⟨listed, rfl, entered⟩ :=
      (Cursor.whileSome_eq_ok_iff HelloExtension.bytes_ne_nil nextExtension_eq_ok_iff).mp looped
    refine ⟨some listed, spelled, ?_, kinds, entered⟩
    rintro other ⟨⟩
    exact short

/-- A body that is decoded is spelled by an outline, and the decoder goes through its extensions. -/
theorem exists_outline_of_decode {sha256 : List UInt8 → Vector UInt8 32} {body : List UInt8}
    {hello : ClientHello} (decoded : decode sha256 body = .ok hello) :
    ∃ outline : HelloOutline, outline.bytes = body ∧
      ∃ last, outline.listed.foldlM enter ([], outline.hello) = .ok last ∧
        hello = { last.2 with ja4 := computeJa4 sha256 last.2 } := by
  unfold decode at decoded
  obtain ⟨⟨version, behind⟩, first, decoded⟩ := Transaction.bind_eq_ok_iff.mp decoded
  obtain ⟨⟨random, behind₂⟩, second, decoded⟩ := Transaction.bind_eq_ok_iff.mp decoded
  obtain ⟨⟨session, behind₃⟩, third, decoded⟩ := Transaction.bind_eq_ok_iff.mp decoded
  dsimp only at decoded
  split at decoded
  · cases decoded
  · obtain ⟨⟨cipherBytes, behind₄⟩, fourth, decoded⟩ := Transaction.bind_eq_ok_iff.mp decoded
    dsimp only at decoded
    split at decoded
    · cases decoded
    · obtain ⟨cipherSuites, ciphers, decoded⟩ := Transaction.bind_eq_ok_iff.mp decoded
      obtain ⟨⟨compression, behind₅⟩, fifth, decoded⟩ := Transaction.bind_eq_ok_iff.mp decoded
      dsimp only at decoded
      split at decoded
      · cases decoded
      · obtain ⟨last, read, same⟩ := Transaction.bind_eq_ok_iff.mp decoded
        cases same
        obtain ⟨randomLength, parts₂⟩ := Cursor.take_eq_ok_iff.mp second
        obtain ⟨sessionShort, parts₃⟩ := Cursor.vectorU8_eq_ok_iff.mp third
        obtain ⟨ciphersShort, parts₄⟩ := Cursor.vectorU16_eq_ok_iff.mp fourth
        obtain ⟨values, rfl, -, rfl⟩ := Identifiers.tryFrom_eq_ok_iff.mp ciphers
        obtain ⟨compressionShort, parts₅⟩ := Cursor.vectorU8_eq_ok_iff.mp fifth
        obtain ⟨extensions, ended, extensionsShort, kinds, entered⟩ := readExtensions_eq_ok read
        refine ⟨⟨version, random, session, values, compression, extensions, randomLength,
          sessionShort, ciphersShort, compressionShort, extensionsShort⟩, ?_, (kinds, last),
          entered, rfl⟩
        rw [Cursor.u16_eq_ok_iff.mp first, parts₂, parts₃, parts₄, parts₅, ended]
        rfl

/-- What the decoder makes of an outline. -/
theorem exists_of_decode_outline {sha256 : List UInt8 → Vector UInt8 32}
    {outline : HelloOutline} {hello : ClientHello}
    (decoded : decode sha256 outline.bytes = .ok hello) :
    ∃ last, outline.listed.foldlM enter ([], outline.hello) = .ok last ∧
      hello = { last.2 with ja4 := computeJa4 sha256 last.2 } := by
  obtain ⟨other, same, rest⟩ := exists_outline_of_decode decoded
  rw [HelloOutline.bytes_inj same] at rest
  exact rest

end ClientHello

end Bagel
