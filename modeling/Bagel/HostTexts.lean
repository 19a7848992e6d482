/-
This file proves what the canonical hosts that authorities are parsed to have in common, and
where there are two of them for one text. A name is tried as an IPv4 address before the dot at
its end is removed, so an address with a dot behind it becomes a DNS name with the text of the
address. And a port is what `u16::from_str` reads, which takes a plus sign.
-/

import Bagel.AddressTexts

namespace Bagel

namespace CanonicalHost

def isIp (host : CanonicalHost) : Bool := host.ip.isSome

/-! ### The parts of an authority -/

/-- The name in front of the port, which an authority in brackets has not. -/
def namePart (authority : String) : Option (List Char) :=
  match authority.toList with
  | '[' :: _ => none
  | text => some ((Parts.splitOnce ':' text).elim text Prod.fst)

def portPart (authority : String) : Option (List Char) :=
  match authority.toList with
  | '[' :: rest =>
    match Parts.splitOnce ']' rest with
    | some (_, ':' :: port) => some port
    | _ => none
  | text => (Parts.splitOnce ':' text).map Prod.snd

theorem parsesU16_of_validatePort {port : List Char} (valid : validatePort port = .ok ()) :
    parsesU16 port = true := by
  unfold validatePort at valid
  split at valid
  · cases valid
  · next accepted =>
    rw [Bool.or_eq_true, not_or, Bool.not_eq_true', Bool.not_eq_false] at accepted
    exact accepted.2

/-- What an authority in brackets is parsed to. -/
theorem parseBracketed_cases {rest : List Char} {host : CanonicalHost}
    (parsed : parseBracketed rest = .ok host) :
    ∃ literal tail address, Parts.splitOnce ']' rest = some (literal, tail) ∧
      parseIpv6 literal = some address ∧ host = fromIp (.v6 address) ∧
        ∀ port, tail = ':' :: port → parsesU16 port = true := by
  unfold parseBracketed at parsed
  cases sides : Parts.splitOnce ']' rest with
  | none =>
    rw [sides] at parsed
    cases parsed
  | some sides' =>
    obtain ⟨literal, tail⟩ := sides'
    cases read : parseIpv6 literal with
    | none =>
      simp only [sides, bind, Except.bind, read] at parsed
      split at parsed
      · split at parsed
        · cases parsed
        · cases parsed
      · split at parsed
        · cases parsed
        · split at parsed
          · cases parsed
          · cases parsed
      · cases parsed
    | some address =>
      simp only [sides, bind, Except.bind, read] at parsed
      split at parsed
      · split at parsed
        · cases parsed
        · refine ⟨literal, [], address, rfl, read, (Except.ok.inj parsed).symm, ?_⟩
          exact fun port absent => absurd absent.symm (List.cons_ne_nil ':' port)
      · next port =>
        split at parsed
        · cases parsed
        · next valid =>
          split at parsed
          · cases parsed
          · refine ⟨literal, ':' :: port, address, rfl, read, (Except.ok.inj parsed).symm, ?_⟩
            intro other alike
            rw [← (List.cons.inj alike).2]
            exact parsesU16_of_validatePort valid
      · cases parsed

/-- A name as it is looked up: in lower case and without a dot at its end. -/
def lookupName (name : List Char) : List Char :=
  let lower := name.map Char.toLower
  if lower.getLast? = some '.' then lower.dropLast else lower

/-- What a name is parsed to. -/
theorem parseName_cases {name : List Char} {host : CanonicalHost}
    (parsed : parseName name = .ok host) :
    (∃ address, parseIpv4 name = some address ∧ host = fromIp (.v4 address)) ∨
      parseIpv4 name = none ∧ isValidDnsName (lookupName name) = true ∧
        host = ⟨String.ofList (lookupName name), none⟩ := by
  unfold parseName at parsed
  split at parsed
  · cases parsed
  split at parsed
  · next address read => exact .inl ⟨address, read, (Except.ok.inj parsed).symm⟩
  · next unread =>
    split at parsed
    · cases parsed
    have named : (if isValidDnsName (lookupName name) = true then
        (.ok ⟨String.ofList (lookupName name), none⟩ : Except String CanonicalHost)
      else .error "invalid DNS host") = .ok host := parsed
    split at named
    · next valid => exact .inr ⟨unread, valid, (Except.ok.inj named).symm⟩
    · cases named

theorem portPart_of_bracket {authority : String} {rest literal tail : List Char}
    (bracket : authority.toList = '[' :: rest)
    (sides : Parts.splitOnce ']' rest = some (literal, tail)) {port : List Char}
    (present : port ∈ portPart authority) : tail = ':' :: port := by
  simp only [portPart, bracket, sides] at present
  split at present
  · next found =>
    cases found
    cases present
    rfl
  · cases present

/-- An authority without brackets is divided at its first colon. -/
theorem parts_of_plain {authority : String}
    (plain : ∀ rest, authority.toList = '[' :: rest → False) :
    namePart authority =
        some ((Parts.splitOnce ':' authority.toList).elim authority.toList Prod.fst) ∧
      portPart authority = (Parts.splitOnce ':' authority.toList).map Prod.snd := by
  constructor
  · unfold namePart
    split
    · next bracket => exact (plain _ bracket).elim
    · rfl
  · unfold portPart
    split
    · next bracket => exact (plain _ bracket).elim
    · rfl

/-- What an authority is parsed to. -/
theorem parse_cases {authority : String} {host : CanonicalHost}
    (parsed : parse authority = .ok host) :
    ((namePart authority = none ∧ ∃ address, host = fromIp (.v6 address)) ∨
      ∃ name, namePart authority = some name ∧ parseName name = .ok host) ∧
        ∀ port ∈ portPart authority, parsesU16 port = true := by
  unfold parse at parsed
  dsimp only at parsed
  split at parsed
  · cases parsed
  split at parsed
  · next rest bracket =>
    obtain ⟨literal, tail, address, sides, -, same, ported⟩ := parseBracketed_cases parsed
    have unnamed : namePart authority = none := by simp only [namePart, bracket]
    exact ⟨.inl ⟨unnamed, address, same⟩,
      fun port present => ported port (portPart_of_bracket bracket sides present)⟩
  · next plain =>
    obtain ⟨named, ported⟩ := parts_of_plain plain
    rw [named, ported]
    split at parsed
    · next name port sides =>
      split at parsed
      · cases parsed
      · obtain ⟨⟨⟩, valid, named⟩ := Transaction.bind_eq_ok_iff.mp parsed
        rw [sides]
        refine ⟨.inr ⟨name, rfl, named⟩, fun other alike => ?_⟩
        cases alike
        exact parsesU16_of_validatePort valid
    · next sides =>
      rw [sides]
      exact ⟨.inr ⟨_, rfl, parsed⟩, fun port absent => absurd absent (Option.not_mem_none port)⟩

/-! ### Names -/

/-- A character of a DNS name. -/
def IsDnsCharacter (character : Char) : Prop :=
  character = '.' ∨ character.isLower = true ∨ character.isDigit = true ∨ character = '-' ∨
    character = '_'

theorem isDnsCharacter_of_label {label : List Char} (characters : ∀ character ∈ label,
      (character.isLower || character.isDigit || character == '-' || character == '_') = true) :
    ∀ character ∈ label, IsDnsCharacter character ∧ character ≠ '.' := by
  intro character member
  have kind := characters character member
  refine ⟨?_, ?_⟩
  · simp only [Bool.or_eq_true, beq_iff_eq] at kind
    rcases kind with ((lower | digit) | dash) | line
    · exact .inr (.inl lower)
    · exact .inr (.inr (.inl digit))
    · exact .inr (.inr (.inr (.inl dash)))
    · exact .inr (.inr (.inr (.inr line)))
  · rintro rfl
    exact absurd kind (by decide)

/-- The characters of a valid name, and that it has no dot at its end. -/
theorem isDnsCharacter_of_isValidDnsName {name : List Char} (valid : isValidDnsName name = true) :
    name ≠ [] ∧ name.getLast? ≠ some '.' ∧ ∀ character ∈ name, IsDnsCharacter character := by
  simp only [isValidDnsName, Bool.and_eq_true, Bool.not_eq_true', List.all_eq_true] at valid
  obtain ⟨⟨nonempty, -⟩, labels⟩ := valid
  have joined : ['.'].intercalate (name.splitOn '.') = name := List.intercalate_splitOn '.'
  have each : ∀ label ∈ name.splitOn '.',
      ∀ character ∈ label, IsDnsCharacter character ∧ character ≠ '.' := fun label listed =>
    isDnsCharacter_of_label (labels label listed).2
  have some : name.splitOn '.' ≠ [] := List.splitOn_ne_nil '.' name
  refine ⟨fun empty => ?_, fun dot => ?_, fun character member => ?_⟩
  · rw [empty] at nonempty
    cases nonempty
  · have filled : ∀ label ∈ name.splitOn '.', label ≠ [] := by
      rintro label listed rfl
      cases (labels [] listed).1.1
    obtain ⟨label, listed, last⟩ : ∃ label ∈ name.splitOn '.',
        (['.'].intercalate (name.splitOn '.')).getLast? = label.getLast? :=
      Parts.exists_getLast?_intercalate some filled
    rw [joined, dot] at last
    exact (each label listed '.' (List.mem_of_getLast? last.symm)).2 rfl
  · rw [← joined] at member
    rcases Parts.mem_intercalate member with dot | ⟨label, listed, inside⟩
    · exact .inl (List.mem_singleton.mp dot)
    · exact (each label listed character inside).1

/-- What is said of ASCII characters is checked for each code. -/
theorem forall_of_codes {motive : Char → Prop} (every : ∀ code : Fin 128, motive (Char.ofNat code))
    {character : Char} (ascii : character.toNat < 128) : motive character := by
  have found := every ⟨character.toNat, ascii⟩
  rwa [Char.ofNat_toNat] at found

theorem toNat_lt_of_isDnsCharacter {character : Char} (dns : IsDnsCharacter character) :
    character.toNat < 128 := by
  rcases dns with rfl | lower | digit | rfl | rfl
  · decide
  · exact Nat.lt_of_le_of_lt (of_decide_eq_true (Bool.and_eq_true_iff.mp lower).2) (by decide)
  · exact Nat.lt_of_le_of_lt (of_decide_eq_true (Bool.and_eq_true_iff.mp digit).2) (by decide)
  · decide
  · decide

/-- A character that does not divide an authority. -/
def IsPlain (character : Char) : Prop := character ≠ '@' ∧ character ≠ '[' ∧ character ≠ ':'

/-- A character of a DNS name is in lower case. -/
theorem plain_of_isDnsCharacter {character : Char} (dns : IsDnsCharacter character) :
    character.toLower = character ∧ IsPlain character := by
  have every : ∀ code : Fin 128, IsDnsCharacter (Char.ofNat code) →
      (Char.ofNat code).toLower = Char.ofNat code ∧ IsPlain (Char.ofNat code) := by
    unfold IsDnsCharacter IsPlain
    decide
  exact forall_of_codes (motive := fun character => IsDnsCharacter character →
    character.toLower = character ∧ IsPlain character) every (toNat_lt_of_isDnsCharacter dns) dns

theorem isDigit_of_digitValue {character : Char}
    (digit : (Parser.digitValue 10 character).isSome = true) : character.isDigit = true := by
  obtain ⟨value, found⟩ := Option.isSome_iff_exists.mp digit
  obtain ⟨same, small⟩ := Option.filter_eq_some_iff.mp found
  have bound : value < 10 := of_decide_eq_true small
  split at same
  · assumption
  · split at same
    · have read := Option.some.inj same
      omega
    · split at same
      · have read := Option.some.inj same
        omega
      · cases same

theorem isDnsCharacter_of_quad {character : Char} (quad : Parser.IsQuadCharacter character) :
    IsDnsCharacter character := by
  rcases quad with dot | digit
  · exact .inl dot
  · exact .inr (.inr (.inl (isDigit_of_digitValue digit)))

/-- A digit or dot is the lower case of itself only. -/
theorem toLower_of_quad {character : Char} (quad : Parser.IsQuadCharacter character.toLower) :
    character.toLower = character := by
  cases upper : character.isUpper with
  | false => exact dif_neg (of_decide_eq_false upper)
  | true =>
    have small : character.toNat < 128 :=
      Nat.lt_of_le_of_lt (of_decide_eq_true upper).2 (by decide)
    have letter : character.toLower ≠ '.' ∧ character.toLower.isDigit = false :=
      forall_of_codes (motive := fun character => character.isUpper = true →
        character.toLower ≠ '.' ∧ character.toLower.isDigit = false) (by decide) small upper
    rcases quad with dot | digit
    · exact absurd dot letter.1
    · rw [isDigit_of_digitValue digit] at letter
      cases letter.2

theorem eq_of_map_toLower {name text : List Char} (same : name.map Char.toLower = text)
    (quad : ∀ character ∈ text, Parser.IsQuadCharacter character) : name = text := by
  rw [← same] at quad ⊢
  have each : name.map Char.toLower = name.map id := List.map_congr_left fun character member =>
    toLower_of_quad (quad _ (List.mem_map_of_mem member))
  rw [each, List.map_id]

/-! ### Canonical hosts -/

/-- The hosts that are the only ones with their text: an address, or a name that is none. -/
inductive Canonical : CanonicalHost → Prop
  | address (ip : IpAddr) : Canonical (fromIp ip)
  | name {name : List Char} (valid : isValidDnsName name = true) (other : parseIpv4 name = none) :
    Canonical ⟨String.ofList name, none⟩

theorem parseIpv6_of_colonless {text : List Char} (colonless : ':' ∉ text) :
    parseIpv6 text = none := by
  rw [parseIpv6, Parser.whole, Parser.ipv6_of_colonless colonless]

theorem parseIpv6_of_isValidDnsName {name : List Char} (valid : isValidDnsName name = true) :
    parseIpv6 name = none := by
  obtain ⟨-, -, characters⟩ := isDnsCharacter_of_isValidDnsName valid
  exact parseIpv6_of_colonless fun colon =>
    (plain_of_isDnsCharacter (characters ':' colon)).2.2.2 rfl

/-- A canonical host has the address that its text is, if it is one. -/
theorem Canonical.parseIp_text {host : CanonicalHost} (canonical : host.Canonical) :
    parseIp host.text.toList = host.ip := by
  cases canonical with
  | address ip => exact Bagel.parseIp_text ip
  | name valid other =>
    dsimp only
    rw [String.toList_ofList, parseIp, other, parseIpv6_of_isValidDnsName valid]
    rfl

theorem Canonical.eq_iff_text_eq {host host' : CanonicalHost} (canonical : host.Canonical)
    (canonical' : host'.Canonical) : host = host' ↔ host.text = host'.text := by
  refine ⟨congrArg text, fun same => ?_⟩
  have addresses : host.ip = host'.ip := by
    rw [← canonical.parseIp_text, ← canonical'.parseIp_text, same]
  obtain ⟨text, ip⟩ := host
  obtain ⟨text', ip'⟩ := host'
  cases same
  cases addresses
  rfl

/-- The text of a host as an authority. -/
def spelled (host : CanonicalHost) : String :=
  if (parseIpv6 host.text.toList).isSome then "[" ++ host.text ++ "]" else host.text

theorem parse_of_plain {text : List Char} (plain : ∀ character ∈ text, IsPlain character) :
    parse (String.ofList text) = parseName text := by
  have unnamed : ¬ text.contains '@' = true := fun found =>
    (plain '@' (List.contains_iff_mem.mp found)).1 rfl
  have whole : Parts.splitOnce ':' text = none :=
    Parts.splitOnce_of_notMem fun colon => (plain ':' colon).2.2 rfl
  unfold parse
  dsimp only
  rw [String.toList_ofList, if_neg unnamed]
  split
  · exact absurd rfl (plain '[' List.mem_cons_self).2.1
  · rw [whole]

theorem parseName_of_isValidDnsName {name : List Char} (valid : isValidDnsName name = true)
    (other : parseIpv4 name = none) : parseName name = .ok ⟨String.ofList name, none⟩ := by
  obtain ⟨nonempty, undotted, characters⟩ := isDnsCharacter_of_isValidDnsName valid
  have lower : name.map Char.toLower = name :=
    (List.map_congr_left fun character member =>
      (plain_of_isDnsCharacter (characters character member)).1).trans (List.map_id name)
  have lookup : lookupName name = name := by
    unfold lookupName
    rw [lower, if_neg undotted]
  have ascii : ¬ (name.any fun character => 128 ≤ character.toNat) = true := by
    intro found
    obtain ⟨character, member, large⟩ := List.any_eq_true.mp found
    exact absurd (toNat_lt_of_isDnsCharacter (characters character member))
      (Nat.not_lt_of_le (of_decide_eq_true large))
  unfold parseName
  rw [if_neg (by rwa [List.isEmpty_iff]), other]
  dsimp only
  rw [if_neg ascii]
  show (if isValidDnsName (lookupName name) = true then
    (.ok ⟨String.ofList (lookupName name), none⟩ : Except String CanonicalHost)
      else .error "invalid DNS host") = _
  rw [lookup, if_pos valid]

theorem parseName_of_parseIpv4 {name : List Char} {address : BitVec 32}
    (read : parseIpv4 name = some address) : parseName name = .ok (fromIp (.v4 address)) := by
  have nonempty : ¬ name.isEmpty = true := by
    intro empty
    rw [List.isEmpty_iff.mp empty] at read
    cases read
  rw [parseName, if_neg nonempty, read]

theorem ne_of_isAddressCharacter {character : Char} (address : IsAddressCharacter character) :
    character ≠ '@' ∧ character ≠ ']' ∧ character ≠ '%' := by
  rcases address with rfl | rfl | ⟨digit, small, rfl⟩
  · decide
  · decide
  · have every : ∀ digit : Fin 16, digit.val.digitChar ≠ '@' ∧ digit.val.digitChar ≠ ']' ∧
        digit.val.digitChar ≠ '%' := by decide
    exact every ⟨digit, small⟩

theorem parse_in_brackets {text : String} {address : BitVec 128}
    (characters : ∀ character ∈ text.toList, IsAddressCharacter character)
    (read : parseIpv6 text.toList = some address) :
    parse ("[" ++ text ++ "]") = .ok (fromIp (.v6 address)) := by
  have shape : ("[" ++ text ++ "]").toList = '[' :: (text.toList ++ [']']) := by
    rw [String.toList_append, String.toList_append]
    rfl
  have unnamed : ¬ ('[' :: (text.toList ++ [']'])).contains '@' = true := by
    intro found
    rcases List.mem_cons.mp (List.contains_iff_mem.mp found) with bracket | rest
    · exact absurd bracket (by decide)
    · rcases List.mem_append.mp rest with inside | bracket
      · exact (ne_of_isAddressCharacter (characters '@' inside)).1 rfl
      · exact absurd (List.mem_singleton.mp bracket) (by decide)
  have sides : Parts.splitOnce ']' (text.toList ++ [']']) = some (text.toList, []) :=
    Parts.splitOnce_append
      (fun inside => (ne_of_isAddressCharacter (characters ']' inside)).2.1 rfl) []
  have unscoped : ¬ text.toList.contains '%' = true := fun found =>
    (ne_of_isAddressCharacter (characters '%' (List.contains_iff_mem.mp found))).2.2 rfl
  unfold parse
  dsimp only
  rw [shape, if_neg unnamed]
  show parseBracketed (text.toList ++ [']']) = _
  unfold parseBracketed
  rw [sides]
  simp only [bind, Except.bind]
  rw [if_neg unscoped, read]
  rfl

/-- A canonical host is what its text is parsed to. -/
theorem Canonical.parse_spelled {host : CanonicalHost} (canonical : host.Canonical) :
    parse host.spelled = .ok host := by
  unfold spelled
  cases canonical with
  | address ip =>
    cases ip with
    | v4 address =>
      have read : parseIpv4 (fromIp (.v4 address)).text.toList = some address :=
        parseIpv4_dottedQuad address
      have plain : ∀ character ∈ (fromIp (.v4 address)).text.toList, IsPlain character :=
        fun character member => (plain_of_isDnsCharacter
          (isDnsCharacter_of_quad (isQuadCharacter_of_parseIpv4 read character member))).2
      have other : parseIpv6 (fromIp (.v4 address)).text.toList = none :=
        parseIpv6_of_colonless fun colon => (plain ':' colon).2.2 rfl
      have parsed := parse_of_plain plain
      rw [String.ofList_toList] at parsed
      rw [other, Option.isSome_none, if_neg Bool.false_ne_true, parsed]
      exact parseName_of_parseIpv4 read
    | v6 address =>
      have read : parseIpv6 (fromIp (.v6 address)).text.toList = some address :=
        parseIpv6_colonHex address
      rw [read, Option.isSome_some, if_pos rfl]
      exact parse_in_brackets (fun character member => isAddressCharacter_text member) read
  | name valid other =>
    obtain ⟨-, -, characters⟩ := isDnsCharacter_of_isValidDnsName valid
    dsimp only
    rw [String.toList_ofList, parseIpv6_of_isValidDnsName valid, Option.isSome_none,
      if_neg Bool.false_ne_true, parse_of_plain fun character member =>
        (plain_of_isDnsCharacter (characters character member)).2]
    exact parseName_of_isValidDnsName valid other

/-! ### Which authorities have canonical hosts -/

theorem lookupName_cases (name : List Char) :
    name.map Char.toLower = lookupName name ∨
      name.map Char.toLower = lookupName name ++ ['.'] := by
  unfold lookupName
  dsimp only
  split
  · next dot => exact .inr (List.dropLast_append_getLast? '.' dot).symm
  · exact .inl rfl

/-- A name that is no address with a dot behind it. -/
theorem canonical_of_parseName {name : List Char} {host : CanonicalHost}
    (parsed : parseName name = .ok host)
    (undotted : ∀ quad, name = quad ++ ['.'] → parseIpv4 quad = none) : host.Canonical := by
  rcases parseName_cases parsed with ⟨address, -, rfl⟩ | ⟨unread, valid, rfl⟩
  · exact .address (.v4 address)
  · refine .name valid ?_
    cases read : parseIpv4 (lookupName name) with
    | none => rfl
    | some address =>
      -- digits and dots are in lower case already, so the name was written so
      have quad := isQuadCharacter_of_parseIpv4 read
      rcases lookupName_cases name with same | dotted
      · have whole : name = lookupName name := eq_of_map_toLower same quad
        rw [← whole, unread] at read
        cases read
      · have whole : name = lookupName name ++ ['.'] := by
          refine eq_of_map_toLower dotted fun character member => ?_
          rcases List.mem_append.mp member with inside | dot
          · exact quad character inside
          · exact .inl (List.mem_singleton.mp dot)
        rw [undotted _ whole] at read
        cases read

/-- An address with a dot behind it becomes a name with its text. -/
theorem eq_of_parseName_dotted {quad : List Char} {address : BitVec 32} {host : CanonicalHost}
    (read : parseIpv4 quad = some address) (parsed : parseName (quad ++ ['.']) = .ok host) :
    host = ⟨String.ofList quad, none⟩ := by
  have lower : (quad ++ ['.']).map Char.toLower = quad ++ ['.'] := by
    rw [List.map_append]
    refine congrArg (· ++ ['.']) ((List.map_congr_left fun character member => ?_).trans
      (List.map_id quad))
    have dns := isDnsCharacter_of_quad (isQuadCharacter_of_parseIpv4 read character member)
    exact (plain_of_isDnsCharacter dns).1
  have lookup : lookupName (quad ++ ['.']) = quad := by
    unfold lookupName
    dsimp only
    rw [lower, List.getLast?_concat, if_pos rfl, List.dropLast_concat]
  rcases parseName_cases parsed with ⟨other, again, -⟩ | ⟨-, -, named⟩
  · rw [parseIpv4_with_dot read] at again
    cases again
  · rwa [lookup] at named

/-- What `u16::from_str` reads is a string of digits, unless it has a sign. -/
theorem digits_iff_of_parsesU16 {port : List Char} (parses : parsesU16 port = true) :
    (port ≠ [] ∧ ∀ digit ∈ port, digit.isDigit = true) ↔ port.head? ≠ some '+' := by
  cases port with
  | nil => cases parses
  | cons head rest =>
    rw [List.head?_cons]
    constructor
    · rintro ⟨-, digits⟩ sign
      have digit := digits head List.mem_cons_self
      rw [Option.some.inj sign] at digit
      cases digit
    · intro unsigned
      have plain : head ≠ '+' := fun sign => unsigned (congrArg some sign)
      refine ⟨List.cons_ne_nil head rest, ?_⟩
      unfold parsesU16 at parses
      dsimp only at parses
      split at parses
      · next same => exact absurd (List.cons.inj same).1 plain
      · rw [Bool.and_eq_true, Bool.and_eq_true] at parses
        exact List.all_eq_true.mp parses.1.2

/-- What is relied on for the host of an authority: it is what its text is parsed to, a text that
is an address is known to be one, and the port is a number. -/
structure Stands (authority : String) (host : CanonicalHost) : Prop where
  reparsed : parse host.spelled = .ok host
  address : (parseIp host.text.toList).isSome = true → host.isIp = true
  port : ∀ port ∈ portPart authority, port ≠ [] ∧ ∀ digit ∈ port, digit.isDigit = true

/-- An authority without an address that has a dot behind it, and without a sign in front of its
port. -/
structure Regular (authority : String) : Prop where
  name : ∀ quad, namePart authority = some (quad ++ ['.']) → parseIpv4 quad = none
  port : ∀ port ∈ portPart authority, port.head? ≠ some '+'

theorem canonical_of_regular {authority : String} {host : CanonicalHost}
    (parsed : parse authority = .ok host) (regular : Regular authority) : host.Canonical := by
  obtain ⟨⟨-, address, rfl⟩ | ⟨name, named, parsed⟩, -⟩ := parse_cases parsed
  · exact .address (.v6 address)
  · refine canonical_of_parseName parsed fun quad dotted => regular.name quad ?_
    rw [named, dotted]

/-- A host stands exactly when its authority is regular. -/
theorem stands_iff_regular {authority : String} {host : CanonicalHost}
    (parsed : parse authority = .ok host) : Stands authority host ↔ Regular authority := by
  obtain ⟨named, ported⟩ := parse_cases parsed
  constructor
  · intro stands
    refine ⟨fun quad dotted => ?_, fun port present =>
      (digits_iff_of_parsesU16 (ported port present)).mp (stands.port port present)⟩
    cases read : parseIpv4 quad with
    | none => rfl
    | some address =>
      rcases named with ⟨bracketed, -⟩ | ⟨name, split, parsed⟩
      · rw [bracketed] at dotted
        cases dotted
      · rw [dotted] at split
        cases split
        rw [eq_of_parseName_dotted read parsed] at stands
        have literal : (parseIp (String.ofList quad).toList).isSome = true := by
          rw [String.toList_ofList, parseIp, read]
          rfl
        cases stands.address literal
  · intro regular
    have canonical := canonical_of_regular parsed regular
    refine ⟨canonical.parse_spelled, fun literal => ?_, fun port present =>
      (digits_iff_of_parsesU16 (ported port present)).mpr (regular.port port present)⟩
    rwa [canonical.parseIp_text] at literal

/-- Two authorities are parsed to equal hosts exactly when the texts of the hosts are equal, and
both hosts stand, exactly when both authorities are regular. -/
theorem one_value_iff_regular {first second : String} {host host' : CanonicalHost}
    (parsed : parse first = .ok host) (parsed' : parse second = .ok host') :
    ((host = host' ↔ host.text = host'.text) ∧ Stands first host ∧ Stands second host') ↔
      Regular first ∧ Regular second := by
  rw [stands_iff_regular parsed, stands_iff_regular parsed']
  refine ⟨fun value => value.2, fun ⟨regular, regular'⟩ => ⟨?_, regular, regular'⟩⟩
  exact (canonical_of_regular parsed regular).eq_iff_text_eq (canonical_of_regular parsed' regular')

end CanonicalHost

namespace SampleAuthorities

open CanonicalHost

/-- Another case, a port and a dot at the end of a name, and an address in brackets. -/
theorem regular_stand :
    ((CanonicalHost.mk "example.com" none = fromIp (.v6 1) ↔
        "example.com" = (fromIp (.v6 1)).text) ∧
      Stands "eXaMpLe.CoM.:443" ⟨"example.com", none⟩ ∧ Stands "[0::1]:80" (fromIp (.v6 1))) := by
  have regular : Regular "eXaMpLe.CoM.:443" := by
    refine ⟨fun quad dotted => ?_, by decide⟩
    have name : namePart "eXaMpLe.CoM.:443" = some ("eXaMpLe.CoM".toList ++ ['.']) := by decide
    rw [name] at dotted
    rw [← List.append_cancel_right (Option.some.inj dotted)]
    decide
  have regular' : Regular "[0::1]:80" := ⟨fun quad dotted => (nomatch dotted), by decide⟩
  exact (one_value_iff_regular (by decide) (by decide)).mpr ⟨regular, regular'⟩

/-- Two authorities with hosts of one text, of which one is not known to be an address, and one
with a sign in front of its port. -/
theorem dotted_address_and_signed_port :
    CanonicalHost.parse "192.0.2.1." = .ok ⟨"192.0.2.1", none⟩ ∧
      CanonicalHost.parse "192.0.2.1" = .ok ⟨"192.0.2.1", some (.v4 0xC0000201#32)⟩ ∧
        ¬ Stands "192.0.2.1." ⟨"192.0.2.1", none⟩ ∧
          ¬ ((⟨"192.0.2.1", none⟩ : CanonicalHost) = ⟨"192.0.2.1", some (.v4 0xC0000201#32)⟩ ↔
            "192.0.2.1" = "192.0.2.1") ∧
            CanonicalHost.parse "a.example:+80" = .ok ⟨"a.example", none⟩ ∧
              portPart "a.example:+80" = some ['+', '8', '0'] ∧
                ¬ Stands "a.example:+80" ⟨"a.example", none⟩ := by
  refine ⟨by decide, by decide, fun stands => ?_, by decide, by decide, by decide, fun stands => ?_⟩
  · have address : CanonicalHost.isIp ⟨"192.0.2.1", none⟩ = true := stands.address (by decide)
    cases address
  · obtain ⟨-, digits⟩ := stands.port ['+', '8', '0'] (by decide)
    have digit := digits '+' List.mem_cons_self
    cases digit

end SampleAuthorities

end Bagel
