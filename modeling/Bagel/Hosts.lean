/-
This file models `host.rs`: the canonical host that one authority names, with the parsers of
addresses of the standard library that it relies on, and the two places that read the host of
a request. The pipeline takes the authority of the URI and the `Host` header together and
refuses a request where they disagree. The internal routes take the header and, where it is
missing or cannot be read, the authority.
-/

import Bagel.Headers
import Bagel.Network
import Bagel.Library.Transaction

namespace Bagel

/-! ### Parsing addresses -/

/-- A parser: what it read and what is left, if it did not fail. -/
abbrev Parser (Value : Type) := List Char → Option (Value × List Char)

namespace Parser

/-- `read_given_char` -/
def given (character : Char) : Parser Unit
  | head :: rest => if head = character then some ((), rest) else none
  | [] => none

def digitValue (radix : Nat) (character : Char) : Option Nat :=
  let value :=
    if character.isDigit then some (character.toNat - '0'.toNat)
    else if 'a' ≤ character ∧ character ≤ 'f' then some (character.toNat - 'a'.toNat + 10)
    else if 'A' ≤ character ∧ character ≤ 'F' then some (character.toNat - 'A'.toNat + 10)
    else none
  value.filter fun value => decide (value < radix)

/-- The digits at the start, with their number and value. -/
def digits (radix : Nat) (count value : Nat) : List Char → (Nat × Nat) × List Char
  | [] => ((count, value), [])
  | head :: rest =>
    match digitValue radix head with
    | some digit => digits radix (count + 1) (value * radix + digit) rest
    | none => ((count, value), head :: rest)

/-- `read_number` of at most `maxDigits` digits below `limit`. -/
def number (radix maxDigits limit : Nat) (allowZeroPrefix : Bool) : Parser Nat := fun text =>
  let ((count, value), rest) := digits radix 0 0 text
  if count = 0 ∨ maxDigits < count then none
  else if !allowZeroPrefix && text.head? == some '0' && decide (1 < count) then none
  else if value < limit then some (value, rest)
  else none

/-- `read_separator`: the separator stands before every part but the first. -/
def separated {Value : Type} (separator : Char) (index : Nat) (inner : Parser Value) :
    Parser Value := fun text =>
  if index = 0 then inner text
  else do
    let (_, rest) ← given separator text
    inner rest

/-- `read_ipv4_addr` -/
def ipv4 : Parser (BitVec 32) := fun text => do
  let octet := number 10 3 256 false
  let (first, rest) ← octet text
  let (second, rest) ← separated '.' 1 octet rest
  let (third, rest) ← separated '.' 2 octet rest
  let (fourth, rest) ← separated '.' 3 octet rest
  return (BitVec.ofNat 32 (((first * 256 + second) * 256 + third) * 256 + fourth), rest)

/-- `read_groups` of `read_ipv6_addr`: up to `room` groups, the last two of which may be an IPv4
address. It answers with the groups, whether it read an IPv4 address, and what is left. -/
def groups : (room index : Nat) → List Char → (List Nat × Bool) × List Char
  | 0, _, text => (([], false), text)
  | room + 1, index, text =>
    match if 0 < room then separated ':' index ipv4 text else none with
    | some (address, rest) =>
      (([(address.extractLsb' 16 16).toNat, (address.extractLsb' 0 16).toNat], true), rest)
    | none =>
      match separated ':' index (number 16 4 65536 true) text with
      | some (group, rest) =>
        let ((others, embedded), rest) := groups room (index + 1) rest
        ((group :: others, embedded), rest)
      | none => (([], false), text)

def ofGroups (values : List Nat) : BitVec 128 :=
  BitVec.ofNat 128 (values.foldl (fun value group => value * 65536 + group) 0)

/-- `read_ipv6_addr` -/
def ipv6 : Parser (BitVec 128) := fun text =>
  let ((front, embedded), rest) := groups 8 0 text
  if front.length = 8 then some (ofGroups front, rest)
  else if embedded then none
  else do
    let (_, rest) ← given ':' rest
    let (_, rest) ← given ':' rest
    let ((back, _), rest) := groups (7 - front.length) 0 rest
    let zeros := List.replicate (8 - front.length - back.length) 0
    return (ofGroups (front ++ zeros ++ back), rest)

/-- `parse_with`: nothing may be left. -/
def whole {Value : Type} (parser : Parser Value) (text : List Char) : Option Value :=
  match parser text with
  | some (value, []) => some value
  | _ => none

end Parser

/-- `Ipv4Addr::from_str` -/
def parseIpv4 (text : List Char) : Option (BitVec 32) :=
  if text.length ≤ 15 then Parser.whole Parser.ipv4 text else none

/-- `Ipv6Addr::from_str` -/
def parseIpv6 (text : List Char) : Option (BitVec 128) := Parser.whole Parser.ipv6 text

/-- `IpAddr::from_str` -/
def parseIp (text : List Char) : Option IpAddr :=
  (parseIpv4 text).map .v4 <|> (parseIpv6 text).map .v6

/-- The `Display` of an address. -/
def IpAddr.text : IpAddr → String
  | v4 address => dottedQuad address
  | v6 address => colonHex address

/-- A character of an address: a digit of any base up to sixteen, or a separator. -/
def IsAddressCharacter (character : Char) : Prop :=
  character = '.' ∨ character = ':' ∨ ∃ digit < 16, character = digit.digitChar

theorem isAddressCharacter_of_mem_toDigits {base number : Nat} (large : 1 < base)
    (small : base ≤ 16) {character : Char} (member : character ∈ Nat.toDigits base number) :
    IsAddressCharacter character := by
  obtain ⟨digit, below, same⟩ := Decimal.exists_of_mem_toDigits large member
  exact .inr (.inr ⟨digit, Nat.lt_of_lt_of_le below small, same⟩)

theorem isAddressCharacter_dottedQuad {address : BitVec 32} {character : Char}
    (member : character ∈ (dottedQuad address).toList) : IsAddressCharacter character := by
  rw [dottedQuad, String.toList_intercalate] at member
  rcases Parts.mem_intercalate member with dot | ⟨part, listed, inside⟩
  · exact .inl (List.mem_singleton.mp dot)
  · obtain ⟨text, shown, rfl⟩ := List.mem_map.mp listed
    obtain ⟨start, -, rfl⟩ := List.mem_map.mp shown
    rw [Decimal.toList_toString] at inside
    exact isAddressCharacter_of_mem_toDigits (by decide) (by decide) inside

theorem isAddressCharacter_hexSegments {values : List Nat} {character : Char}
    (member : character ∈ (hexSegments values).toList) : IsAddressCharacter character := by
  rw [hexSegments, String.toList_intercalate] at member
  rcases Parts.mem_intercalate member with colon | ⟨part, listed, inside⟩
  · exact .inr (.inl (List.mem_singleton.mp colon))
  · obtain ⟨text, shown, rfl⟩ := List.mem_map.mp listed
    obtain ⟨value, -, rfl⟩ := List.mem_map.mp shown
    rw [String.toList_ofList] at inside
    exact isAddressCharacter_of_mem_toDigits (by decide) (by decide) inside

theorem isAddressCharacter_text {address : IpAddr} {character : Char}
    (member : character ∈ address.text.toList) : IsAddressCharacter character := by
  cases address with
  | v4 address => exact isAddressCharacter_dottedQuad member
  | v6 address =>
    unfold IpAddr.text colonHex at member
    dsimp only at member
    split at member
    · rw [String.toList_append] at member
      rcases List.mem_append.mp member with front | quad
      · have every : ("::ffff:".toList.all fun character =>
            character = ':' ∨ character = Nat.digitChar 15) = true := by decide
        have found := of_decide_eq_true (List.all_eq_true.mp every character front)
        exact found.elim (fun colon => .inr (.inl colon))
          fun digit => .inr (.inr ⟨15, by decide, digit⟩)
      · exact isAddressCharacter_dottedQuad quad
    · split at member
      · simp only [String.toList_append, List.mem_append] at member
        rcases member with (front | colons) | back
        · exact isAddressCharacter_hexSegments front
        · have every : ("::".toList.all fun character => character = ':') = true := by
            decide
          have found := of_decide_eq_true (List.all_eq_true.mp every character colons)
          exact .inr (.inl found)
        · exact isAddressCharacter_hexSegments back
      · exact isAddressCharacter_hexSegments member

theorem length_dottedQuad_le (address : BitVec 32) :
    (dottedQuad address).toList.length ≤ 16 := by
  rw [dottedQuad, String.toList_intercalate]
  refine (Parts.length_intercalate_le 3 ?_).trans (by simp)
  intro part listed
  obtain ⟨text, shown, rfl⟩ := List.mem_map.mp listed
  obtain ⟨start, -, rfl⟩ := List.mem_map.mp shown
  rw [Decimal.toList_toString, Nat.length_toDigits_le_iff (by decide) (by decide)]
  have octet := (address.extractLsb' start 8).isLt
  omega

theorem length_hexSegments_le {values : List Nat} (small : ∀ value ∈ values, value < 65536) :
    (hexSegments values).toList.length ≤ 5 * values.length := by
  rw [hexSegments, String.toList_intercalate]
  refine (Parts.length_intercalate_le 4 ?_).trans (by simp [Nat.mul_comm])
  intro part listed
  obtain ⟨text, shown, rfl⟩ := List.mem_map.mp listed
  obtain ⟨value, among, rfl⟩ := List.mem_map.mp shown
  rw [String.toList_ofList, Nat.length_toDigits_le_iff (by decide) (by decide)]
  exact Nat.lt_of_lt_of_le (small value among) (by decide)

theorem lt_of_mem_segments {address : BitVec 128} {value : Nat}
    (listed : value ∈ segments address) : value < 65536 := by
  obtain ⟨start, -, rfl⟩ := List.mem_map.mp listed
  exact (address.extractLsb' start 16).isLt

theorem IpAddr.length_text_le (address : IpAddr) : address.text.toList.length ≤ 82 := by
  cases address with
  | v4 address => exact (length_dottedQuad_le address).trans (by decide)
  | v6 address =>
    have eight : (segments address).length = 8 := rfl
    unfold IpAddr.text colonHex
    dsimp only
    split
    · have front : "::ffff:".toList.length = 7 := by decide
      have quad := length_dottedQuad_le (address.extractLsb' 0 32)
      rw [String.toList_append, List.length_append]
      omega
    · split
      · generalize longestZeroRun 0 (0, 0) (0, 0) (segments address) = run
        have front : (hexSegments ((segments address).take run.1)).toList.length ≤
            5 * ((segments address).take run.1).length :=
          length_hexSegments_le fun value listed =>
            lt_of_mem_segments (List.mem_of_mem_take listed)
        have back : (hexSegments ((segments address).drop (run.1 + run.2))).toList.length ≤
            5 * ((segments address).drop (run.1 + run.2)).length :=
          length_hexSegments_le fun value listed =>
            lt_of_mem_segments (List.mem_of_mem_drop listed)
        have colons : "::".toList.length = 2 := by decide
        rw [List.length_take] at front
        rw [List.length_drop] at back
        rw [String.toList_append, String.toList_append, List.length_append, List.length_append]
        omega
      · have whole : (hexSegments (segments address)).toList.length ≤ _ :=
          length_hexSegments_le fun value => lt_of_mem_segments
        omega

theorem visible_of_isAddressCharacter {character : Char} (address : IsAddressCharacter character) :
    ∃ byte, isVisible byte = true ∧ Char.ofUInt8 byte = character := by
  rcases address with rfl | rfl | ⟨digit, small, rfl⟩
  · exact ⟨46, by decide⟩
  · exact ⟨58, by decide⟩
  · have every : ∀ digit : Fin 16, ∃ byte, isVisible byte = true ∧
        Char.ofUInt8 byte = digit.val.digitChar := by
      intro digit
      refine ⟨UInt8.ofNat digit.val.digitChar.toNat, ?_⟩
      revert digit
      decide
    exact every ⟨digit, small⟩

theorem IpAddr.fromStr_text (address : IpAddr) :
    ∃ value, HeaderValue.fromStr address.text = some value ∧
      value.toStr = some address.text := by
  obtain ⟨value, written, readable, characters⟩ :=
    HeaderValue.fromStr_of_visible fun character (member : character ∈ address.text.toList) =>
      visible_of_isAddressCharacter (isAddressCharacter_text member)
  rw [String.ofList_toList] at written
  refine ⟨value, written, ?_⟩
  rw [HeaderValue.toStr_of_readable readable, characters, String.ofList_toList]

/-- An IP address is a valid header value. -/
def HeaderValue.ofIp (address : IpAddr) : HeaderValue :=
  (HeaderValue.fromStr address.text).get (by
    obtain ⟨value, written, -⟩ := address.fromStr_text
    rw [written]
    rfl)

/-! ### Canonical hosts -/

structure CanonicalHost where
  text : String
  ip : Option IpAddr
  deriving DecidableEq

namespace CanonicalHost

def fromIp (ip : IpAddr) : CanonicalHost := ⟨ip.text, some ip⟩

/-- `is_valid_dns_name` -/
def isValidDnsName (name : List Char) : Bool :=
  !name.isEmpty && decide (name.length ≤ 253) && (name.splitOn '.').all fun label =>
    !label.isEmpty && decide (label.length ≤ 63) && label.all fun character =>
      character.isLower || character.isDigit || character == '-' || character == '_'

/-- `u16::from_str`, which allows a leading plus sign. -/
def parsesU16 (text : List Char) : Bool :=
  let digits := match text with
    | '+' :: rest => rest
    | digits => digits
  !digits.isEmpty && digits.all Char.isDigit &&
    decide (digits.foldl (fun value digit => 10 * value + (digit.toNat - '0'.toNat)) 0 < 65536)

/-- `validate_port` -/
def validatePort (port : List Char) : Except String Unit :=
  if port.isEmpty || !parsesU16 port then
    .error ("invalid port '" ++ String.ofList port ++ "'")
  else .ok ()

/-- A bracketed IPv6 literal, after the opening bracket. -/
def parseBracketed (rest : List Char) : Except String CanonicalHost := do
  let (literal, tail) ← match Parts.splitOnce ']' rest with
    | some sides => .ok sides
    | none => .error "unterminated IPv6 literal"
  match tail with
  | [] => pure ()
  | ':' :: port => validatePort port
  | _ => throw "malformed authority after IPv6 literal"
  if literal.contains '%' then throw "scoped IPv6 zone identifiers are not allowed"
  match parseIpv6 literal with
  | some ip => return fromIp (.v6 ip)
  | none => throw "invalid IPv6 literal"

/-- The name of a host without its port. -/
def parseName (host : List Char) : Except String CanonicalHost :=
  if host.isEmpty then .error "empty host"
  else
    match parseIpv4 host with
    | some ip => .ok (fromIp (.v4 ip))
    | none =>
      if host.any fun character => 128 ≤ character.toNat then
        .error "non-ASCII host, expected the punycode A-label form"
      else
        let lower := host.map Char.toLower
        let name := if lower.getLast? = some '.' then lower.dropLast else lower
        if isValidDnsName name then .ok ⟨String.ofList name, none⟩
        else .error "invalid DNS host"

/-- `CanonicalHost::parse` -/
def parse (authority : String) : Except String CanonicalHost :=
  let text := authority.toList
  if text.contains '@' then .error "authority must not contain user information"
  else
    match text with
    | '[' :: rest => parseBracketed rest
    | _ =>
      match Parts.splitOnce ':' text with
      | some (host, port) =>
        if port.contains ':' then .error "IPv6 literals require brackets"
        else do
          validatePort port
          parseName host
      | none => parseName text

theorem length_fromIp_le (ip : IpAddr) : (fromIp ip).text.toList.length ≤ 253 :=
  ip.length_text_le.trans (by decide)

theorem length_parseBracketed_le {rest : List Char} {host : CanonicalHost}
    (parsed : parseBracketed rest = .ok host) : host.text.toList.length ≤ 253 := by
  have address : ∀ literal, (match parseIpv6 literal with
        | some ip => (.ok (fromIp (.v6 ip)) : Except String CanonicalHost)
        | none => .error "invalid IPv6 literal") = .ok host →
      host.text.toList.length ≤ 253 := by
    intro literal named
    split at named
    · rw [← Except.ok.inj named]
      exact length_fromIp_le _
    · cases named
  unfold parseBracketed at parsed
  cases sides : Parts.splitOnce ']' rest with
  | none =>
    rw [sides] at parsed
    cases parsed
  | some sides' =>
    rw [sides] at parsed
    obtain ⟨literal, tail⟩ := sides'
    simp only [bind, Except.bind] at parsed
    split at parsed
    · split at parsed
      · cases parsed
      · exact address _ parsed
    · split at parsed
      · cases parsed
      · split at parsed
        · cases parsed
        · exact address _ parsed
    · cases parsed

theorem length_parseName_le {name : List Char} {host : CanonicalHost}
    (parsed : parseName name = .ok host) : host.text.toList.length ≤ 253 := by
  unfold parseName at parsed
  split at parsed
  · cases parsed
  split at parsed
  · rw [← Except.ok.inj parsed]
    exact length_fromIp_le _
  split at parsed
  · cases parsed
  dsimp only at parsed
  generalize (if (name.map Char.toLower).getLast? = some '.' then (name.map Char.toLower).dropLast
    else name.map Char.toLower) = lower at parsed
  split at parsed
  · next valid =>
    rw [← Except.ok.inj parsed, String.toList_ofList]
    simp only [isValidDnsName, Bool.and_eq_true, decide_eq_true_eq] at valid
    exact valid.1.2
  · cases parsed

/-- A host has a short text. -/
theorem length_parse_le {authority : String} {host : CanonicalHost}
    (parsed : parse authority = .ok host) : host.text.toList.length ≤ 253 := by
  unfold parse at parsed
  dsimp only at parsed
  split at parsed
  · cases parsed
  split at parsed
  · exact length_parseBracketed_le parsed
  split at parsed
  · split at parsed
    · cases parsed
    · obtain ⟨-, -, named⟩ := Transaction.bind_eq_ok_iff.mp parsed
      exact length_parseName_le named
  · exact length_parseName_le parsed

end CanonicalHost

/-! ### The host of a request -/

/-- `canonicalize_authority` -/
def canonicalizeAuthority (uri header : Option String) : Except String CanonicalHost :=
  match uri, header with
  | some uri, some header => do
    let fromUri ← CanonicalHost.parse uri
    let fromHeader ← CanonicalHost.parse header
    if fromUri ≠ fromHeader then throw "URI authority and Host header disagree"
    return fromUri
  | some authority, none => CanonicalHost.parse authority
  | none, some authority => CanonicalHost.parse authority
  | none, none => .error "no usable authority"

/-- The `Host` header as the server reads it. -/
def headerHost (headers : HeaderMap) : Option String := (headers.get .host).bind HeaderValue.toStr

/-- `canonical_request_host` -/
def canonicalRequestHost (authority : Option String) (headers : HeaderMap) :
    Option CanonicalHost :=
  (headerHost headers <|> authority).bind fun raw => (CanonicalHost.parse raw).toOption

/-- The authority of a request that the pipeline accepts names its host. -/
theorem parse_of_accepted {uri : String} {header : Option String} {host : CanonicalHost}
    (accepted : canonicalizeAuthority (some uri) header = .ok host) :
    CanonicalHost.parse uri = .ok host := by
  unfold canonicalizeAuthority at accepted
  cases header with
  | none => exact accepted
  | some text =>
    simp only [Transaction.bind_eq_ok_iff] at accepted
    obtain ⟨fromUri, parsed, _, -, rest⟩ := accepted
    split at rest
    · cases rest
    · rw [parsed, Except.ok.inj rest]

/-- A request that the pipeline accepts has the same host on the internal routes. -/
theorem canonicalRequestHost_of_accepted {authority : Option String} {headers : HeaderMap}
    {host : CanonicalHost}
    (accepted : canonicalizeAuthority authority (headerHost headers) = .ok host) :
    canonicalRequestHost authority headers = some host := by
  unfold canonicalRequestHost
  unfold canonicalizeAuthority at accepted
  cases header : headerHost headers with
  | none =>
    cases authority with
    | none =>
      rw [header] at accepted
      cases accepted
    | some authority =>
      simp only [header] at accepted
      simp [accepted, Except.toOption]
  | some text =>
    cases authority with
    | none =>
      simp only [header] at accepted
      simp [accepted, Except.toOption]
    | some authority =>
      simp only [header, Transaction.bind_eq_ok_iff] at accepted
      obtain ⟨fromUri, -, fromHeader, parsed, rest⟩ := accepted
      split at rest
      · cases rest
      · next agree =>
        have same : fromUri = fromHeader := Classical.not_not.mp agree
        have result : fromUri = host := Except.ok.inj rest
        simp [parsed, Except.toOption, ← same, result]

/-- Wherever a request carries an authority besides a `Host` header that names a host, the
authority names the same host. -/
def AuthorityNamesHeader (authority header : Option String) : Prop :=
  ∀ uri text host, authority = some uri → header = some text →
    CanonicalHost.parse text = .ok host → CanonicalHost.parse uri = .ok host

/-- With both at hand the pipeline takes a host exactly when both name it. -/
theorem canonicalizeAuthority_both {uri text : String} {host : CanonicalHost} :
    canonicalizeAuthority (some uri) (some text) = .ok host ↔
      CanonicalHost.parse uri = .ok host ∧ CanonicalHost.parse text = .ok host := by
  unfold canonicalizeAuthority
  simp only [Transaction.bind_eq_ok_iff]
  constructor
  · rintro ⟨fromUri, parsed, fromHeader, read, rest⟩
    split at rest
    · cases rest
    · next agree =>
      cases rest
      rw [← Classical.not_not.mp agree] at read
      exact ⟨parsed, read⟩
  · rintro ⟨parsed, read⟩
    refine ⟨host, parsed, host, read, ?_⟩
    rw [if_neg (not_not.mpr rfl)]
    rfl

/-- The internal routes read the header alone where there is one, the pipeline reads both. They
come to the same host, or both to none, exactly when the authority has nothing to add. -/
theorem canonicalRequestHost_eq_iff (authority : Option String) (headers : HeaderMap) :
    canonicalRequestHost authority headers =
        (canonicalizeAuthority authority (headerHost headers)).toOption ↔
      AuthorityNamesHeader authority (headerHost headers) := by
  unfold canonicalRequestHost
  cases headerHost headers with
  | none =>
    refine iff_of_true ?_ fun uri text host _ named => nomatch named
    cases authority with
    | none => rfl
    | some uri => rfl
  | some text =>
    cases authority with
    | none => exact iff_of_true rfl fun uri text host present => nomatch present
    | some uri =>
      have first : ((some text <|> some uri).bind fun raw =>
          (CanonicalHost.parse raw).toOption) = (CanonicalHost.parse text).toOption := rfl
      rw [first]
      constructor
      · rintro same uri text host ⟨⟩ ⟨⟩ read
        rw [read] at same
        cases taken : canonicalizeAuthority (some uri) (some text) with
        | error reason =>
          rw [taken] at same
          cases same
        | ok other =>
          rw [taken] at same
          cases same
          exact (canonicalizeAuthority_both.mp taken).1
      · intro alike
        cases read : CanonicalHost.parse text with
        | error reason =>
          cases taken : canonicalizeAuthority (some uri) (some text) with
          | error => rfl
          | ok host =>
            have named := (canonicalizeAuthority_both.mp taken).2
            rw [read] at named
            cases named
        | ok host =>
          rw [canonicalizeAuthority_both.mpr ⟨alike uri text host rfl rfl read, read⟩]

namespace SampleHosts

/-- A `Host` header that an origin would take, behind an authority that names another host. -/
def headers : HeaderMap := Multimap.empty.insert .host ⟨Bytes.ofText "b.example", by decide⟩

theorem headerHost_headers : headerHost headers = some "b.example" := by
  unfold headerHost headers Multimap.get
  rw [Multimap.getAll_insert, if_pos rfl]
  decide

/-- A beacon or verify request for two hosts is answered for the host of its header, where the
pipeline rejects it. -/
theorem two_hosts :
    canonicalRequestHost (some "a.example") headers = some ⟨"b.example", none⟩ ∧
      canonicalizeAuthority (some "a.example") (headerHost headers) =
        .error "URI authority and Host header disagree" ∧
      canonicalRequestHost (some "a.example") headers ≠
        (canonicalizeAuthority (some "a.example") (headerHost headers)).toOption := by
  unfold canonicalRequestHost
  rw [headerHost_headers]
  decide

end SampleHosts

end Bagel
