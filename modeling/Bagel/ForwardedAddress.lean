/-
This file settles what a client can do to the address that is taken from a forwarding header.

A proxy appends the host that connected to it, so that what a client wrote itself stands in
front. The entries are gone through from the back up to the first address that is not trusted,
and an entry that is no plain address is passed over. The part in front counts therefore exactly
where the host of the client is named in another way, with a port or in brackets, and no address
behind it ends the search.
-/

import Bagel.AddressTexts
import Bagel.Bindings

namespace Bagel

namespace TrustedProxies

/-- The ways to name a host in an entry: a plain address, one with a port, and one in brackets. -/
inductive NamesHost : List Char → IpAddr → Prop where
  | plain {text : List Char} {ip : IpAddr} (parsed : parseIp text = some ip) : NamesHost text ip
  | withPort {text port : List Char} {address : BitVec 32}
      (parsed : parseIpv4 text = some address) : NamesHost (text ++ ':' :: port) (.v4 address)
  | inBrackets {text rest : List Char} {address : BitVec 128}
      (parsed : parseIpv6 text = some address) (ends : rest = [] ∨ rest.head? = some ':') :
      NamesHost ('[' :: (text ++ ']' :: rest)) (.v6 address)

/-- An entry that is read as an address names no other one. -/
theorem NamesHost.eq_of_parseIp {entry : List Char} {host ip : IpAddr}
    (names : NamesHost entry host) (parsed : parseIp entry = some ip) : ip = host := by
  cases names with
  | plain parsed' => exact Option.some.inj (parsed.symm.trans parsed')
  | withPort parsed' =>
    rw [parseIp_with_port parsed'] at parsed
    cases parsed
  | inBrackets parsed' ends =>
    rw [parseIp_in_brackets] at parsed
    cases parsed

variable (trusted : TrustedProxies)

/-- An entry at which the search ends. -/
def EndsSearch (entry : List Char) : Prop :=
  ∃ ip, parseIp (trim entry) = some ip ∧ trusted.contains ip = false

variable {trusted} {peer : IpAddr}

/-! ### The search -/

/-- Behind an entry that ends the search nothing else is looked at. -/
theorem nearest_append_of_endsSearch {near : List (List Char)}
    (ends : ∃ entry ∈ near, trusted.EndsSearch entry) (firstValid firstValid' : Option IpAddr)
    (far far' : List (List Char)) :
    trusted.nearest peer firstValid (near ++ far) =
      trusted.nearest peer firstValid' (near ++ far') := by
  induction near generalizing firstValid firstValid' with
  | nil =>
    obtain ⟨entry, absent, -⟩ := ends
    cases absent
  | cons head rest inductionHypothesis =>
    obtain ⟨entry, member, ends⟩ := ends
    rw [List.cons_append, List.cons_append, nearest, nearest]
    have later (other : ¬ trusted.EndsSearch head) : ∃ entry ∈ rest, trusted.EndsSearch entry := by
      rcases List.mem_cons.mp member with rfl | member
      · exact absurd ends other
      · exact ⟨entry, member, ends⟩
    cases parsed : parseIp (trim head) with
    | none =>
      refine inductionHypothesis (later ?_) _ _
      rintro ⟨ip, parsed', -⟩
      rw [parsed] at parsed'
      cases parsed'
    | some ip =>
      dsimp only
      by_cases inside : trusted.contains ip = true
      · rw [if_pos inside, if_pos inside]
        refine inductionHypothesis (later ?_) _ _
        rintro ⟨other, parsed', outside⟩
        rw [parsed] at parsed'
        rw [← Option.some.inj parsed', inside] at outside
        cases outside
      · rw [if_neg inside, if_neg inside]

/-- If no entry ends the search, it goes on with the first valid address so far, which is a
trusted one. -/
theorem nearest_append_of_not_endsSearch {near : List (List Char)}
    (unended : ∀ entry ∈ near, ¬ trusted.EndsSearch entry) {firstValid : Option IpAddr}
    (inside : ∀ ip ∈ firstValid, trusted.contains ip = true) :
    ∃ valid : Option IpAddr, (∀ ip ∈ valid, trusted.contains ip = true) ∧
      ∀ far, trusted.nearest peer firstValid (near ++ far) = trusted.nearest peer valid far := by
  induction near generalizing firstValid with
  | nil => exact ⟨firstValid, inside, fun _ => rfl⟩
  | cons head rest inductionHypothesis =>
    obtain ⟨first, others⟩ := List.forall_mem_cons.mp unended
    cases parsed : parseIp (trim head) with
    | none =>
      obtain ⟨valid, inside', same⟩ := inductionHypothesis others inside
      refine ⟨valid, inside', fun far => ?_⟩
      rw [List.cons_append, nearest, parsed]
      exact same far
    | some ip =>
      have known : trusted.contains ip = true := by
        by_contra outside
        exact first ⟨ip, parsed, Bool.not_eq_true _ ▸ outside⟩
      have inside' : ∀ other ∈ firstValid <|> some ip, trusted.contains other = true := by
        cases firstValid with
        | none =>
          rintro other ⟨⟩
          exact known
        | some earlier => exact inside
      obtain ⟨valid, inside'', same⟩ := inductionHypothesis others inside'
      refine ⟨valid, inside'', fun far => ?_⟩
      rw [List.cons_append, nearest, parsed]
      dsimp only
      rw [if_pos known]
      exact same far

/-! ### What stands in front -/

/-- The entries of a header from the back, of which those of the suffix come first. -/
theorem entries_append (front suffix : String) {first : List Char} {others : List (List Char)}
    (entries : suffix.toList.splitOn ',' = first :: others) :
    ((front ++ ", " ++ suffix).toList.splitOn ',').reverse =
      (others.reverse ++ [' ' :: first]) ++ (front.toList.splitOn ',').reverse := by
  have mark : ", ".toList = [',', ' '] := rfl
  have blank : (' ' :: suffix.toList).splitOn ',' = (' ' :: first) :: others := by
    rw [List.splitOn_cons_eq_if_modifyHead, if_neg (by decide), entries]
    rfl
  rw [String.toList_append, String.toList_append, mark, List.append_assoc, List.cons_append,
    List.cons_append, List.nil_append, List.splitOn_append_cons_self, blank, List.reverse_append,
    List.reverse_cons]

theorem trim_blank (entry : List Char) : trim (' ' :: entry) = trim entry :=
  Parts.trim_cons_of_blank (by decide) entry

theorem clientIp_of_front (inside : trusted.contains peer = true) (front suffix : String)
    {first : List Char} {others : List (List Char)}
    (entries : suffix.toList.splitOn ',' = first :: others) :
    trusted.clientIp peer (some (front ++ ", " ++ suffix)) =
      trusted.nearest peer none ((others.reverse ++ [' ' :: first]) ++
        (front.toList.splitOn ',').reverse) := by
  rw [clientIp, if_pos inside, peel, entries_append front suffix entries]

/-- The text of an address is one entry, as it stands. -/
theorem entry_of_text (host : IpAddr) :
    host.text.toList.splitOn ',' = [host.text.toList] ∧
      parseIp (trim host.text.toList) = some host := by
  have every (character : Char) (member : character ∈ host.text.toList) :
      character ≠ ',' ∧ isWhitespace character = false := by
    rcases isAddressCharacter_text member with rfl | rfl | ⟨digit, small, rfl⟩
    · decide
    · decide
    · have digits : ∀ digit : Fin 16,
          digit.val.digitChar ≠ ',' ∧ isWhitespace digit.val.digitChar = false := by decide
      exact digits ⟨digit, small⟩
  have clean : trim host.text.toList = host.text.toList := by
    have front : host.text.toList.dropWhile isWhitespace = host.text.toList :=
      List.dropWhile_eq_self_iff.mpr fun some =>
        Bool.not_eq_true _ ▸ (every _ (List.getElem_mem some)).2
    have back : host.text.toList.rdropWhile isWhitespace = host.text.toList :=
      List.rdropWhile_eq_self_iff.mpr fun some =>
        Bool.not_eq_true _ ▸ (every _ (List.getLast_mem some)).2
    rw [trim, Parts.trim, front, back]
  refine ⟨List.splitOn_eq_singleton fun member => (every ',' member).1 rfl, ?_⟩
  rw [clean, parseIp_text]

/-- Behind a trusted peer the part in front of the host of the client makes no difference exactly
if that host is named by a plain address, or a plain address behind it is not trusted. -/
theorem front_ignored_iff (inside : trusted.contains peer = true) {suffix : String}
    {first : List Char} {others : List (List Char)}
    (entries : suffix.toList.splitOn ',' = first :: others) {host : IpAddr}
    (names : NamesHost (trim first) host) (outside : trusted.contains host = false) :
    (∀ front front' : String, trusted.clientIp peer (some (front ++ ", " ++ suffix)) =
        trusted.clientIp peer (some (front' ++ ", " ++ suffix))) ↔
      (parseIp (trim first)).isSome = true ∨
        ∃ entry ∈ others, ∃ ip, parseIp (trim entry) = some ip ∧ trusted.contains ip = false := by
  constructor
  · intro alike
    by_contra neither
    obtain ⟨unread, unended⟩ := not_or.mp neither
    have near : ∀ entry ∈ others.reverse ++ [' ' :: first], ¬ trusted.EndsSearch entry := by
      intro entry member ends
      rcases List.mem_append.mp member with later | leftmost
      · exact unended ⟨entry, List.mem_reverse.mp later, ends⟩
      · obtain ⟨ip, parsed, -⟩ := ends
        rw [List.mem_singleton.mp leftmost, trim_blank] at parsed
        exact unread (Option.isSome_of_eq_some parsed)
    have start : ∀ ip ∈ (none : Option IpAddr), trusted.contains ip = true := nofun
    obtain ⟨valid, known, same⟩ := nearest_append_of_not_endsSearch near start
    -- A client that writes the host itself is taken for it, one that writes nothing is not.
    have written : trusted.nearest peer valid (host.text.toList.splitOn ',').reverse = host := by
      obtain ⟨one, parsed⟩ := entry_of_text host
      rw [one, List.reverse_singleton, nearest, parsed]
      dsimp only
      rw [outside, if_neg Bool.false_ne_true]
    have nothing : trusted.nearest peer valid ("".toList.splitOn ',').reverse =
        valid.getD peer := by
      have one : ("".toList.splitOn ',').reverse = [[]] := rfl
      have unread : parseIp (trim []) = none := by decide
      rw [one, nearest, unread]
      rfl
    have taken := alike host.text ""
    rw [clientIp_of_front inside _ _ entries, clientIp_of_front inside _ _ entries, same, same,
      written, nothing] at taken
    have back : trusted.contains (valid.getD peer) = true := by
      cases valid with
      | none => exact inside
      | some ip => exact known ip rfl
    rw [← taken, outside] at back
    cases back
  · intro found front front'
    have ends : ∃ entry ∈ others.reverse ++ [' ' :: first], trusted.EndsSearch entry := by
      rcases found with read | ⟨entry, member, ends⟩
      · obtain ⟨ip, parsed⟩ := Option.isSome_iff_exists.mp read
        refine ⟨' ' :: first, List.mem_append_right _ List.mem_cons_self, ip, ?_, ?_⟩
        · rw [trim_blank, parsed]
        · rw [names.eq_of_parseIp parsed, outside]
      · exact ⟨entry, List.mem_append_left _ (List.mem_reverse.mpr member), ends⟩
    rw [clientIp_of_front inside _ _ entries, clientIp_of_front inside _ _ entries]
    exact nearest_append_of_endsSearch ends none none _ _

end TrustedProxies

/-! ### Lines that are no text -/

namespace InboundRequest

variable {request : InboundRequest} {policy : ClientIpPolicy} {headers : HeaderMap} {name : String}

/-- A line that is no text is left out with everything on it. -/
theorem clientIp_of_unreadable {headers' : HeaderMap} {before after : List HeaderValue}
    {line : HeaderValue} (named : policy.header = some name) (unreadable : line.toStr = none)
    (lines : valuesOf headers name = before ++ line :: after)
    (lines' : valuesOf headers' name = before ++ after) :
    request.clientIp policy headers = request.clientIp policy headers' := by
  have joined : (valuesOf headers name).filterMap HeaderValue.toStr =
      (valuesOf headers' name).filterMap HeaderValue.toStr := by
    rw [lines, lines', List.filterMap_append, List.filterMap_append,
      List.filterMap_cons_none unreadable]
  unfold clientIp
  simp only [named, joined]

/-- So a client that puts a byte above ASCII in front of what a proxy appends to the same line takes
the address of the proxy, whatever the proxy wrote. The search does not see such a line. -/
theorem clientIp_of_obsText (direct : request.forwarded = none)
    (named : policy.header = some name) {line : HeaderValue}
    (lines : valuesOf headers name = [line]) {byte : UInt8} (member : byte ∈ line.bytes)
    (high : 128 ≤ byte) : request.clientIp policy headers = request.peer := by
  have unreadable : line.toStr = none := by
    refine if_neg fun readable => ?_
    have visible := List.all_eq_true.mp readable byte member
    exact absurd (HeaderValue.lt_of_isVisible visible) (UInt8.not_lt.mpr high)
  have nothing : (valuesOf headers name).filterMap HeaderValue.toStr = [] := by
    rw [lines, List.filterMap_cons_none unreadable]
    rfl
  unfold clientIp
  rw [direct, named]
  simp only [nothing]
  exact policy.resolve_none request.peer

end InboundRequest

namespace SampleForwarded

open TrustedProxies

def proxies : TrustedProxies := ⟨[.v4 ⟨0x0a000000#32, 8, by decide⟩]⟩

def edge : IpAddr := .v4 0x0a000001#32

def host : IpAddr := .v4 0xcb007107#32

/-- A host that is named by its address. -/
theorem front_ignored_of_plain :
    proxies.clientIp edge (some ("9.9.9.9" ++ ", " ++ "203.0.113.7, 10.0.0.2")) =
      proxies.clientIp edge (some ("unknown" ++ ", " ++ "203.0.113.7, 10.0.0.2")) := by
  have entries : "203.0.113.7, 10.0.0.2".toList.splitOn ',' =
      "203.0.113.7".toList :: [" 10.0.0.2".toList] := by decide
  have parsed : parseIp (trim "203.0.113.7".toList) = some host := by decide
  exact (front_ignored_iff (by decide) entries (.plain parsed) (by decide)).mpr
    (.inl (Option.isSome_of_eq_some parsed)) "9.9.9.9" "unknown"

/-- A host with a port is passed over, and the client chooses its address. -/
theorem front_taken :
    proxies.contains edge = true ∧ proxies.contains host = false ∧
      "203.0.113.7:4711".toList.splitOn ',' = ["203.0.113.7:4711".toList] ∧
      NamesHost (trim "203.0.113.7:4711".toList) host ∧
      proxies.clientIp edge (some ("1.2.3.4" ++ ", " ++ "203.0.113.7:4711")) =
        .v4 0x01020304#32 ∧
      proxies.clientIp edge (some ("5.6.7.8" ++ ", " ++ "203.0.113.7:4711")) =
        .v4 0x05060708#32 := by
  have names : NamesHost ("203.0.113.7".toList ++ ':' :: "4711".toList) host :=
    .withPort (by decide)
  have clean : trim "203.0.113.7:4711".toList = "203.0.113.7".toList ++ ':' :: "4711".toList := by
    decide
  exact ⟨by decide, by decide, by decide, clean ▸ names, by decide, by decide⟩

end SampleForwarded

end Bagel
