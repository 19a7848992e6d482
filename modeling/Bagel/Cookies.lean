/-
This file models how the cookie of the server is found in a request and how it is taken out
before the request goes to a backend, and says exactly when nothing else is lost.

`from_headers` looks through every `Cookie` field, as the fields of an HTTP/2 request come
one pair each. `strip_bagel_cookies` reads the first field only and puts what is left of it
in the place of all fields. So pairs of later fields are lost, and a first field that cannot
be read keeps the cookie of the server.
-/

import Bagel.Headers

namespace Bagel

/-! ### Names -/

def hexDigit (value : Nat) : Char := Nat.digitChar value

/-- `hex_encode` -/
def hexEncode (bytes : List UInt8) : List Char :=
  bytes.flatMap fun byte => [hexDigit (byte.toNat / 16), hexDigit (byte.toNat % 16)]

/-- `cookie_name` -/
def cookieName (sha256 : List UInt8 → Vector UInt8 32) (host : String) : List Char :=
  ".bagel-".toList ++ hexEncode ((sha256 (Bytes.ofText host)).toList.take 3) ++ "-state".toList

/-- A field between semicolons is a cookie of the given name. -/
def hasName (blank : Char → Bool) (name cookie : List Char) : Bool :=
  match Parts.splitOnce '=' cookie with
  | some (front, _) => Parts.trim blank front == name
  | none => false

/-! ### The reader and the remover -/

/-- The value of a field that is a cookie of the given name. -/
def cookieValue (name cookie : List Char) : Option (List Char) :=
  match Parts.splitOnce '=' cookie with
  | some (front, value) => if trim front = name then some (trim value) else none
  | none => none

/-- The value that `from_headers` takes for the cookie of the server. -/
def carriedCookie (headers : HeaderMap) (name : List Char) : Option (List Char) :=
  (((headers.getAll .cookie).filterMap HeaderValue.toStr).flatMap
    fun text => (text.toList.splitOn ';').map trim).findSome? (cookieValue name)

/-- `strip_bagel_cookies` for a name. -/
def stripCookies (headers : HeaderMap) (name : List Char) : HeaderMap :=
  match headers.get .cookie with
  | none => headers
  | some value =>
    match value.toStr with
    | none => headers
    | some text =>
      let cleaned := ((text.toList.splitOn ';').map trim).filter
        fun cookie => !hasName isWhitespace name cookie
      if cleaned.isEmpty then headers.remove .cookie
      else
        match HeaderValue.fromStr (String.ofList ("; ".toList.intercalate cleaned)) with
        | some value => headers.insert .cookie value
        | none => headers

/-- `strip_bagel_cookies` -/
def stripBagelCookies (sha256 : List UInt8 → Vector UInt8 32) (headers : HeaderMap)
    (host : String) : HeaderMap :=
  stripCookies headers (cookieName sha256 host)

/-! ### The pairs of a request -/

/-- The blanks around a cookie. -/
def isBlank (character : Char) : Bool := character == ' ' || character == '\t'

/-- The pairs of one field, readable or not. -/
def fieldPairs (value : HeaderValue) : List (List Char) :=
  (Parts.fields isBlank ';' value.characters).filter (· ≠ [])

/-- The pairs of a request, in order. -/
def cookiePairs (headers : HeaderMap) : List (List Char) :=
  (headers.getAll .cookie).flatMap fieldPairs

/-- Exactly the cookies of the server are gone. -/
structure OnlyCookieRemoved (headers after : HeaderMap) (name : List Char) : Prop where
  pairs : cookiePairs after = (cookiePairs headers).filter fun pair => !hasName isBlank name pair
  absent : carriedCookie after name = none
  others : ∀ other, other ≠ HeaderName.cookie → after.getAll other = headers.getAll other

/-- Where the remover does what it is for: the first field can be read and nothing but cookies of
the server come after it, or it cannot be read and there is no cookie of the server at all. -/
def CookiesInFirstField (headers : HeaderMap) (name : List Char) : Prop :=
  if ∀ first ∈ headers.get .cookie, first.Readable then
    ∀ value ∈ (headers.getAll .cookie).tail, ∀ pair ∈ fieldPairs value,
      hasName isBlank name pair = true
  else ∀ pair ∈ cookiePairs headers, hasName isBlank name pair = false

instance (headers : HeaderMap) (name : List Char) :
    Decidable (CookiesInFirstField headers name) := inferInstanceAs (Decidable (ite _ _ _))

/-! ### Readable fields -/

theorem isWhitespace_eq_isBlank {value : HeaderValue} (readable : value.Readable)
    {character : Char} (member : character ∈ value.characters) :
    isWhitespace character = isBlank character := by
  obtain ⟨byte, visible, rfl⟩ := HeaderValue.exists_visible_of_mem readable member
  clear member
  induction byte using Bytes.forall_of_values with
  | every value =>
    revert value
    decide +kernel

/-- On a readable field the remover divides and cleans as the definition of the pairs does. -/
theorem fields_of_readable {value : HeaderValue} (readable : value.Readable) :
    (value.characters.splitOn ';').map trim = Parts.fields isBlank ';' value.characters := by
  unfold Parts.fields
  refine List.map_congr_left fun part member => Parts.trim_congr fun character inside => ?_
  exact isWhitespace_eq_isBlank readable (Lines.subset_of_mem_splitOn member inside)

theorem subset_of_mem_fields {value : HeaderValue} {pair : List Char}
    (member : pair ∈ Parts.fields isBlank ';' value.characters) : pair ⊆ value.characters := by
  obtain ⟨part, listed, rfl⟩ := List.mem_map.mp member
  exact fun character inside =>
    Lines.subset_of_mem_splitOn listed (Parts.mem_of_mem_trim inside)

theorem mem_front_of_splitOnce {mark : Char} {text front rest : List Char}
    (split : Parts.splitOnce mark text = some (front, rest)) : front ⊆ text := by
  unfold Parts.splitOnce at split
  split at split
  · cases split
    exact (List.takeWhile_prefix _).subset
  · cases split

/-- Both blanks name a readable cookie alike. -/
theorem hasName_of_readable {value : HeaderValue} (readable : value.Readable) {pair : List Char}
    (member : pair ∈ Parts.fields isBlank ';' value.characters) (name : List Char) :
    hasName isWhitespace name pair = hasName isBlank name pair := by
  unfold hasName
  cases split : Parts.splitOnce '=' pair with
  | none => rfl
  | some sides =>
    have fronts : Parts.trim isWhitespace sides.1 = Parts.trim isBlank sides.1 :=
      Parts.trim_congr fun _ inside => isWhitespace_eq_isBlank readable
        (subset_of_mem_fields member (mem_front_of_splitOnce split inside))
    simp only [fronts]

theorem cookieValue_eq_none_iff (name cookie : List Char) :
    cookieValue name cookie = none ↔ hasName isWhitespace name cookie = false := by
  unfold cookieValue hasName
  cases Parts.splitOnce '=' cookie with
  | none => simp
  | some sides =>
    by_cases same : Parts.trim isWhitespace sides.1 = name
    · simp [trim, same]
    · simp [trim, same]

/-- The reader finds nothing exactly when no readable field has a cookie of the server. -/
theorem carriedCookie_eq_none_iff (headers : HeaderMap) (name : List Char) :
    carriedCookie headers name = none ↔
      ∀ value ∈ headers.getAll .cookie, value.Readable →
        ∀ pair ∈ fieldPairs value, hasName isBlank name pair = false := by
  unfold carriedCookie
  rw [List.findSome?_eq_none_iff]
  constructor
  · intro nothing value listed readable pair member
    obtain ⟨field, -⟩ := List.mem_filter.mp member
    rw [← hasName_of_readable readable field, ← cookieValue_eq_none_iff]
    refine nothing pair (List.mem_flatMap.mpr ⟨String.ofList value.characters, ?_, ?_⟩)
    · exact List.mem_filterMap.mpr ⟨value, listed, HeaderValue.toStr_of_readable readable⟩
    · rw [String.toList_ofList, fields_of_readable readable]
      exact field
  · intro without cookie member
    obtain ⟨text, read, inside⟩ := List.mem_flatMap.mp member
    obtain ⟨value, listed, toStr⟩ := List.mem_filterMap.mp read
    obtain ⟨readable, characters, -⟩ := HeaderValue.toStr_eq_some toStr
    rw [characters, fields_of_readable readable] at inside
    rw [cookieValue_eq_none_iff, hasName_of_readable readable inside]
    by_cases empty : cookie = []
    · rw [empty]
      rfl
    · exact without value listed readable cookie
        (List.mem_filter.mpr ⟨inside, decide_eq_true empty⟩)

/-! ### What the remover leaves -/

/-- The fields of a readable value that are not cookies of the server. -/
def cleanedFields (value : HeaderValue) (name : List Char) : List (List Char) :=
  (Parts.fields isBlank ';' value.characters).filter fun pair => !hasName isBlank name pair

theorem stripCookies_of_readable {headers : HeaderMap} {first : HeaderValue}
    (found : headers.get .cookie = some first) (readable : first.Readable) (name : List Char) :
    ∃ kept : List HeaderValue,
      (stripCookies headers name).getAll .cookie = kept ∧
        (∀ value ∈ kept, value.Readable) ∧
        kept.flatMap fieldPairs = (fieldPairs first).filter (fun pair => !hasName isBlank name pair)
        ∧ ∀ other, other ≠ HeaderName.cookie →
          (stripCookies headers name).getAll other = headers.getAll other := by
  have cleaned : ((first.characters.splitOn ';').map trim).filter
      (fun cookie => !hasName isWhitespace name cookie) = cleanedFields first name := by
    unfold cleanedFields
    rw [fields_of_readable readable]
    refine List.filter_congr fun pair member => ?_
    rw [hasName_of_readable readable member]
  have pairs : (fieldPairs first).filter (fun pair => !hasName isBlank name pair) =
      (cleanedFields first name).filter (· ≠ []) := by
    unfold fieldPairs cleanedFields
    rw [List.filter_filter, List.filter_filter]
    exact List.filter_congr fun _ _ => Bool.and_comm _ _
  unfold stripCookies
  rw [found]
  simp only [HeaderValue.toStr_of_readable readable, String.toList_ofList, cleaned]
  by_cases empty : cleanedFields first name = []
  · rw [if_pos (by simpa using empty)]
    refine ⟨[], ?_, by simp, ?_, fun other different => ?_⟩
    · rw [Multimap.getAll_remove, if_pos rfl]
    · rw [pairs, empty]
      rfl
    · rw [Multimap.getAll_remove, if_neg different]
  · rw [if_neg (by simpa using empty)]
    have visible : ∀ character ∈ "; ".toList.intercalate (cleanedFields first name),
        ∃ byte, isVisible byte = true ∧ Char.ofUInt8 byte = character := by
      intro character member
      rcases Parts.mem_intercalate member with between | ⟨pair, listed, inside⟩
      · rcases (by simpa using between : character = ';' ∨ character = ' ') with rfl | rfl
        · exact ⟨59, by decide, rfl⟩
        · exact ⟨32, by decide, rfl⟩
      · exact HeaderValue.exists_visible_of_mem readable
          (subset_of_mem_fields (List.mem_of_mem_filter listed) inside)
    obtain ⟨value, written, valueReadable, characters⟩ := HeaderValue.fromStr_of_visible visible
    rw [written]
    refine ⟨[value], ?_, by simpa using valueReadable, ?_, fun other different => ?_⟩
    · rw [Multimap.getAll_insert, if_pos rfl]
    · rw [pairs, List.flatMap_singleton, fieldPairs, characters]
      congr 1
      refine Parts.fields_joined (by decide) (by decide) empty (fun part member => ?_)
        fun part member => ?_
      · exact Parts.notMem_of_mem_fields (List.mem_of_mem_filter member)
      · exact Parts.trim_of_mem_fields (List.mem_of_mem_filter member)
    · rw [Multimap.getAll_insert, if_neg different]

theorem stripCookies_of_not_readable {headers : HeaderMap}
    (unread : ∀ first ∈ headers.get .cookie, ¬ first.Readable) (name : List Char) :
    stripCookies headers name = headers := by
  unfold stripCookies
  cases found : headers.get .cookie with
  | none => rfl
  | some first => simp only [HeaderValue.toStr_of_not_readable (unread first found)]

/-- Without a cookie field there is nothing to remove. -/
theorem onlyCookieRemoved_of_nil {headers : HeaderMap} (found : headers.getAll .cookie = [])
    (name : List Char) : OnlyCookieRemoved headers (stripCookies headers name) name := by
  have unchanged : stripCookies headers name = headers :=
    stripCookies_of_not_readable (by simp [Multimap.get, found]) name
  have empty : cookiePairs headers = [] := by
    unfold cookiePairs
    rw [found]
    rfl
  rw [unchanged]
  refine ⟨by rw [empty]; rfl, ?_, fun _ _ => rfl⟩
  rw [carriedCookie_eq_none_iff, found]
  exact fun value listed => absurd listed List.not_mem_nil

/-- Of a first field that can be read all cookies but those of the server are kept, and the
fields after it are lost. -/
theorem onlyCookieRemoved_of_readable_iff {headers : HeaderMap} {first : HeaderValue}
    {later : List HeaderValue} (found : headers.getAll .cookie = first :: later)
    (readable : first.Readable) (name : List Char) :
    OnlyCookieRemoved headers (stripCookies headers name) name ↔
      ∀ value ∈ later, ∀ pair ∈ fieldPairs value, hasName isBlank name pair = true := by
  have get : headers.get .cookie = some first := by
    unfold Multimap.get
    rw [found]
    rfl
  have before : cookiePairs headers = fieldPairs first ++ later.flatMap fieldPairs := by
    unfold cookiePairs
    rw [found, List.flatMap_cons]
  obtain ⟨kept, after, keptReadable, pairs, others⟩ := stripCookies_of_readable get readable name
  have left : cookiePairs (stripCookies headers name) =
      (fieldPairs first).filter fun pair => !hasName isBlank name pair := by
    unfold cookiePairs
    rw [after, pairs]
  have lost : (later.flatMap fieldPairs).filter (fun pair => !hasName isBlank name pair) = [] ↔
      ∀ value ∈ later, ∀ pair ∈ fieldPairs value, hasName isBlank name pair = true := by
    rw [List.filter_eq_nil_iff]
    simp only [List.mem_flatMap, Bool.not_eq_true, Bool.not_eq_false', forall_exists_index,
      and_imp]
    exact ⟨fun named value listed pair member => named pair value listed member,
      fun named pair value listed member => named value listed pair member⟩
  rw [← lost]
  constructor
  · intro removed
    have same := removed.pairs
    rw [left, before, List.filter_append] at same
    exact List.self_eq_append_right.mp same
  · intro none
    refine ⟨?_, ?_, others⟩
    · rw [left, before, List.filter_append, none, List.append_nil]
    · rw [carriedCookie_eq_none_iff, after]
      intro value listed _ pair member
      have inside : pair ∈ kept.flatMap fieldPairs :=
        List.mem_flatMap.mpr ⟨value, listed, member⟩
      rw [pairs] at inside
      simpa using List.of_mem_filter inside

/-- When the first field cannot be read nothing is removed. -/
theorem onlyCookieRemoved_of_not_readable_iff {headers : HeaderMap} {name : List Char}
    (unchanged : stripCookies headers name = headers) :
    OnlyCookieRemoved headers (stripCookies headers name) name ↔
      ∀ pair ∈ cookiePairs headers, hasName isBlank name pair = false := by
  rw [unchanged]
  constructor
  · intro removed pair member
    rw [removed.pairs] at member
    simpa using List.of_mem_filter member
  · intro without
    refine ⟨?_, ?_, fun _ _ => rfl⟩
    · refine (List.filter_eq_self.mpr fun pair member => ?_).symm
      rw [without pair member]
      rfl
    · rw [carriedCookie_eq_none_iff]
      intro value listed _ pair member
      exact without pair (List.mem_flatMap.mpr ⟨value, listed, member⟩)

theorem onlyCookieRemoved_stripCookies_iff (headers : HeaderMap) (name : List Char) :
    OnlyCookieRemoved headers (stripCookies headers name) name ↔
      CookiesInFirstField headers name := by
  unfold CookiesInFirstField
  cases found : headers.getAll .cookie with
  | nil =>
    simp only [Multimap.get, found, List.head?_nil, Option.mem_def, reduceCtorEq, false_imp_iff,
      implies_true, if_true, List.tail_nil, List.not_mem_nil, iff_true]
    exact onlyCookieRemoved_of_nil found name
  | cons first later =>
    have get : headers.get .cookie = some first := by
      unfold Multimap.get
      rw [found]
      rfl
    by_cases readable : first.Readable
    · rw [if_pos (by simpa [get] using readable), List.tail_cons]
      exact onlyCookieRemoved_of_readable_iff found readable name
    · rw [if_neg (by simpa [get] using readable)]
      exact onlyCookieRemoved_of_not_readable_iff
        (stripCookies_of_not_readable (by simpa [get] using readable) name)

/-- The remover takes out the cookies of the server and nothing else exactly when they are where
it looks. -/
theorem stripBagelCookies_exact_iff (sha256 : List UInt8 → Vector UInt8 32) (headers : HeaderMap)
    (host : String) :
    OnlyCookieRemoved headers (stripBagelCookies sha256 headers host) (cookieName sha256 host) ↔
      CookiesInFirstField headers (cookieName sha256 host) :=
  onlyCookieRemoved_stripCookies_iff headers (cookieName sha256 host)

/-- The SHA-256 digest of `example.com`. -/
def exampleDigest (_ : List UInt8) : Vector UInt8 32 :=
  #v[0xa3, 0x79, 0xa6, 0xf6, 0xee, 0xaf, 0xb9, 0xa5,
    0x5e, 0x37, 0x8c, 0x11, 0x80, 0x34, 0xe2, 0x75,
    0x1e, 0x68, 0x2f, 0xab, 0x9f, 0x2d, 0x30, 0xab,
    0x13, 0xd2, 0x12, 0x55, 0x86, 0xce, 0x19, 0x47]

/-- The cookies `a=1` and `b=2` in fields of their own. -/
def splitCookies : HeaderMap :=
  ⟨fun name =>
    if name = .cookie then [⟨[97, 61, 49], by decide⟩, ⟨[98, 61, 50], by decide⟩] else []⟩

/-- Of two fields without a cookie of the server the second is lost. -/
theorem stripBagelCookies_splitCookies :
    ¬ OnlyCookieRemoved splitCookies (stripBagelCookies exampleDigest splitCookies "example.com")
      (cookieName exampleDigest "example.com") := by
  intro removed
  have pairs := removed.pairs
  revert pairs
  decide

end Bagel
