/-
This file models the way from a challenge to its verify endpoint and back to the page, and
settles for which challenges and pages it leads back.

A challenge sends its client to a URL that names the challenge, the key and the page. The name
is written as it is and read with percent-decoding, so it arrives only when it has no triplet
and may stand in a path. The page is written with percent-encoding and always arrives. But the
endpoint leads back to a path only, and what was written is the whole URI of the request, which
begins with a scheme wherever the request came over HTTP/2.
-/

import Bagel.Cookies
import Bagel.Utf8
import Bagel.Library.Percent

namespace Bagel

/-! ### Percent-encoding -/

/-- A byte that `percent_encode` writes as it is. -/
def isUnreserved (byte : UInt8) : Bool :=
  (65 ≤ byte && byte ≤ 90) || (97 ≤ byte && byte ≤ 122) || (48 ≤ byte && byte ≤ 57) ||
    byte == 45 || byte == 95 || byte == 46 || byte == 126 || byte == 47

/-- `percent_encode` -/
def percentEncode (input : List Char) : List Char :=
  (Percent.encode isUnreserved (Bytes.ofText (String.ofList input))).map Char.ofUInt8

/-- `percent_decode` -/
def percentDecode (input : List Char) : List Char :=
  fromUtf8Lossy (Percent.decode (Bytes.ofText (String.ofList input)))

/-! ### The URL of the verify endpoint -/

/-- `verify_url` -/
def verifyUrl (challengeName tokenHex redirect : List Char) : List Char :=
  "/__bagel/".toList ++ (challengeName ++ ("/verify".toList ++ ('?' ::
    ("__bagel_token".toList ++ ('=' :: (tokenHex ++ ('&' ::
      ("__bagel_redirect".toList ++ ('=' :: percentEncode redirect)))))))))

/-- `parse_query_params` -/
def parseQueryParams (query : List Char) : List (List Char × List Char) :=
  ((query.splitOn '&').filter (· ≠ [])).filterMap (Parts.splitOnce '=')

/-- `query_param` -/
def queryParam (query : Option (List Char)) (key : List Char) : Option (List Char) :=
  query.bind fun query =>
    (parseQueryParams query).findSome? fun (name, value) =>
      if name = key then some value else none

/-- `str::strip_prefix` -/
def stripStart (start text : List Char) : Option (List Char) :=
  if start <+: text then some (text.drop start.length) else none

/-- `str::strip_suffix` -/
def stripEnd (ending text : List Char) : Option (List Char) :=
  if ending <:+ text then some (text.take (text.length - ending.length)) else none

/-- The endpoints that the server answers itself. -/
inductive Internal where
  | css
  | runtime
  | worker
  | gpu
  | solver
  | beacon (id : List Char)
  | verify (name : List Char)
  deriving DecidableEq

/-- The id in the path of a beacon. -/
def beaconId (path : List Char) : Option (List Char) :=
  ((stripStart "/__bagel/static/t/".toList path).bind (stripEnd ".svg".toList)).filter fun id =>
    decide (id.length = 32) && id.all fun digit =>
      digit.isDigit || ('a' ≤ digit && digit ≤ 'f') || ('A' ≤ digit && digit ≤ 'F')

/-- `internal_route` -/
def internalRoute (path : List Char) : Option Internal :=
  if path = "/__bagel/static/widget.css".toList then some .css
  else if path = "/__bagel/static/runtime.mjs".toList then some .runtime
  else if path = "/__bagel/static/worker.mjs".toList then some .worker
  else if path = "/__bagel/static/gpu.mjs".toList then some .gpu
  else if path = "/__bagel/static/solver.wasm".toList then some .solver
  else
    match beaconId path with
    | some id => some (.beacon id)
    | none =>
      ((stripStart "/__bagel/".toList path).bind (stripEnd "/verify".toList)).bind fun name =>
        if name ≠ [] ∧ '/' ∉ name then some (.verify (percentDecode name)) else none

/-- `safe_redirect` -/
def safeRedirect (raw : List Char) : Option (List Char) :=
  if "/".toList <+: raw ∧ ¬ "//".toList <+: raw ∧
      raw.all (fun character => 32 ≤ character.toNat && character.toNat ≤ 126) then some raw
  else none

/-! ### URIs -/

/-- The parts of a URI that the server routes by. -/
structure Target where
  path : List Char
  query : Option (List Char)

/-- How the `http` crate reads a URI that starts with a slash: up to a length, with the characters
that it allows in each part, and without what comes after a `#`. Unreserved characters are allowed
everywhere, and so are the signs between and inside the fields of a query. -/
structure UriParser where
  parse : List Char → Option Target
  limit : Nat
  inPath : Char → Bool
  inQuery : Char → Bool
  parse_eq : ∀ rest, parse ('/' :: rest) =
    let front := ('/' :: rest).takeWhile (· ≠ '#')
    let path := front.takeWhile (· ≠ '?')
    let query := (Parts.splitOnce '?' front).map Prod.snd
    if (Bytes.ofText (String.ofList ('/' :: rest))).length ≤ limit ∧ path.all inPath = true ∧
        ∀ query' ∈ query, query'.all inQuery = true then
      some ⟨path, query⟩
    else none
  marks : inPath '?' = false ∧ inPath '#' = false ∧ inQuery '#' = false
  unreserved : ∀ byte, isUnreserved byte = true →
    inPath (Char.ofUInt8 byte) = true ∧ inQuery (Char.ofUInt8 byte) = true
  signs : inQuery '%' = true ∧ inQuery '=' = true ∧ inQuery '&' = true

/-- A URI of a request, in origin form or with the scheme and the authority of absolute form. -/
structure RequestUri where
  origin : Option (List Char × List Char)
  path : List Char
  query : Option (List Char)
  fromRoot : path.head? = some '/'
  scheme : ∀ parts ∈ origin, ∃ first rest, parts.1 = first :: rest ∧ first ≠ '/'

namespace RequestUri

variable (uri : RequestUri)

def pathAndQuery : List Char :=
  uri.path ++ match uri.query with
    | some query => '?' :: query
    | none => []

/-- The `Display` of a URI. -/
def text : List Char :=
  match uri.origin with
  | some (scheme, authority) => scheme ++ "://".toList ++ authority ++ uri.pathAndQuery
  | none => uri.pathAndQuery

/-- `redirect_url` -/
def redirectUrl (challengeName tokenHex : List Char) : List Char :=
  verifyUrl challengeName tokenHex uri.text

end RequestUri

/-- The name of a challenge that `ChallengeRegistry::build` accepts. -/
structure ChallengeName where
  text : List Char
  nonempty : text ≠ []
  noSlash : '/' ∉ text

/-! ### There and back -/

/-- The URL of a challenge leads to its endpoint with the key and the page, and from there back to
the page. -/
def LeadsBack (parser : UriParser) (name : ChallengeName) (key : Vector UInt8 32)
    (uri : RequestUri) : Prop :=
  ∃ target, parser.parse (uri.redirectUrl name.text (hexEncode key.toList)) = some target ∧
    internalRoute target.path = some (.verify name.text) ∧
    queryParam target.query "__bagel_token".toList = some (hexEncode key.toList) ∧
    (queryParam target.query "__bagel_redirect".toList).map percentDecode = some uri.text ∧
    safeRedirect uri.text = some uri.pathAndQuery

/-- What the way there and back needs: a name that may stand in a path and has no triplet, a URL
that is not too long, and a page whose URI is in origin form, of printable ASCII, and does not
begin with two slashes. Besides the name, the key and the encoded page a URL has 49 bytes. -/
structure Passable (parser : UriParser) (name : ChallengeName) (key : Vector UInt8 32)
    (uri : RequestUri) : Prop where
  inPath : name.text.all parser.inPath = true
  plain : ¬ Percent.HasTriplet (Bytes.ofText (String.ofList name.text))
  fits : (Bytes.ofText (String.ofList name.text)).length + (hexEncode key.toList).length +
    (percentEncode uri.text).length + 49 ≤ parser.limit
  originForm : uri.origin = none
  singleSlash : ¬ "//".toList <+: uri.path
  printable : uri.pathAndQuery.all (fun character =>
    32 ≤ character.toNat && character.toNat ≤ 126) = true

/-! ### What is written is read -/

/-- A character of text that needs no encoding. -/
def IsPlain (character : Char) : Prop :=
  ∃ byte, isUnreserved byte = true ∧ character = Char.ofUInt8 byte

theorem lt_of_isUnreserved {byte : UInt8} (unreserved : isUnreserved byte = true) :
    byte < 128 := by
  induction byte using Bytes.forall_of_values with
  | every value =>
    revert value
    decide +kernel

theorem isUnreserved_digit {value : UInt8} (small : value < 16) :
    isUnreserved (Percent.digit value) = true := by
  induction value using Bytes.forall_of_values with
  | every value =>
    revert value
    decide +kernel

theorem not_isPlain_of_mark {character : Char} (plain : IsPlain character) :
    character ≠ '&' ∧ character ≠ '=' ∧ character ≠ '#' ∧ character ≠ '?' := by
  obtain ⟨byte, unreserved, rfl⟩ := plain
  induction byte using Bytes.forall_of_values with
  | every value =>
    revert value
    decide +kernel

theorem mem_percentEncode {text : List Char} {character : Char}
    (member : character ∈ percentEncode text) : character = '%' ∨ IsPlain character := by
  obtain ⟨byte, encoded, rfl⟩ := List.mem_map.mp member
  rcases Percent.mem_encode encoded with unreserved | rfl | ⟨value, small, rfl⟩
  · exact .inr ⟨byte, unreserved, rfl⟩
  · exact .inl rfl
  · exact .inr ⟨_, isUnreserved_digit small, rfl⟩

theorem isPlain_of_mem_hexEncode {bytes : List UInt8} {character : Char}
    (member : character ∈ hexEncode bytes) : IsPlain character := by
  have every : ∀ value : Fin 16, isUnreserved (UInt8.ofNat (hexDigit value.val).toNat) = true ∧
      hexDigit value.val = Char.ofUInt8 (UInt8.ofNat (hexDigit value.val).toNat) := by
    decide
  have digit : ∀ {value : Nat}, value < 16 → IsPlain (hexDigit value) :=
    fun small => ⟨_, every ⟨_, small⟩⟩
  obtain ⟨byte, -, inside⟩ := List.mem_flatMap.mp member
  have below := byte.toNat_lt
  simp only [List.mem_cons, List.not_mem_nil, or_false] at inside
  rcases inside with rfl | rfl
  · exact digit (by omega)
  · exact digit (Nat.mod_lt _ (by decide))

/-- The page arrives as it was. -/
theorem percentDecode_percentEncode (text : List Char) :
    percentDecode (percentEncode text) = text := by
  unfold percentDecode percentEncode
  rw [Bytes.ofText_ascii, Percent.decode_encode (by decide), fromUtf8Lossy_ofText,
    String.toList_ofList]
  intro byte member
  rcases Percent.mem_encode member with unreserved | rfl | ⟨value, small, rfl⟩
  · exact lt_of_isUnreserved unreserved
  · decide
  · exact lt_of_isUnreserved (isUnreserved_digit small)

/-- A text is decoded to itself exactly when it has no triplet. -/
theorem percentDecode_eq_self_iff (text : List Char) :
    percentDecode text = text ↔ ¬ Percent.HasTriplet (Bytes.ofText (String.ofList text)) := by
  constructor
  · intro same triplet
    -- A triplet takes ASCII characters away, and reading what is left brings none back.
    have fewer := Percent.countP_isAscii_decode_lt triplet
    have read := countP_isAscii_fromUtf8Lossy_le
      (Percent.decode (Bytes.ofText (String.ofList text)))
    unfold percentDecode at same
    rw [same] at read
    rw [Bytes.countP_isAscii_ofText, String.toList_ofList] at fewer
    exact absurd fewer (Nat.not_lt.mpr read)
  · intro plain
    rw [percentDecode, Percent.decode_of_not_hasTriplet plain, fromUtf8Lossy_ofText,
      String.toList_ofList]

/-! ### Routes -/

theorem stripStart_append (start rest : List Char) :
    stripStart start (start ++ rest) = some rest := by
  rw [stripStart, if_pos (List.prefix_append start rest), List.drop_left]

theorem stripStart_eq_some {start text rest : List Char}
    (stripped : stripStart start text = some rest) : text = start ++ rest := by
  unfold stripStart at stripped
  split at stripped
  · next found =>
    obtain ⟨tail, rfl⟩ := found
    rw [List.drop_left] at stripped
    rw [Option.some.inj stripped]
  · cases stripped

theorem stripEnd_append (front ending : List Char) :
    stripEnd ending (front ++ ending) = some front := by
  rw [stripEnd, if_pos (List.suffix_append front ending), List.length_append,
    Nat.add_sub_cancel, List.take_left]

theorem stripEnd_eq_some {ending text front : List Char}
    (stripped : stripEnd ending text = some front) : text = front ++ ending := by
  unfold stripEnd at stripped
  split at stripped
  · next found =>
    obtain ⟨start, rfl⟩ := found
    rw [List.length_append, Nat.add_sub_cancel, List.take_left] at stripped
    rw [Option.some.inj stripped]
  · cases stripped

/-- The path of the verify endpoint of a name. -/
def verifyPath (name : List Char) : List Char :=
  "/__bagel/".toList ++ (name ++ "/verify".toList)

/-- A path that ends otherwise is no other endpoint. -/
theorem verifyPath_ne {name text : List Char} (other : text.getLast? ≠ some 'y') :
    verifyPath name ≠ text := by
  rintro rfl
  have ending : "/verify".toList.getLast? = some 'y' := by decide
  refine other ?_
  unfold verifyPath
  rw [List.getLast?_append, List.getLast?_append, ending, Option.some_or, Option.some_or]

theorem beaconId_verifyPath (name : List Char) : beaconId (verifyPath name) = none := by
  unfold beaconId
  cases found : stripStart "/__bagel/static/t/".toList (verifyPath name) with
  | none => rfl
  | some rest =>
    rw [Option.bind_some]
    cases ending : stripEnd ".svg".toList rest with
    | none => rfl
    | some id =>
      refine absurd (stripStart_eq_some found) (verifyPath_ne ?_)
      have last : ".svg".toList.getLast? = some 'g' := by decide
      rw [stripEnd_eq_some ending, List.getLast?_append, List.getLast?_append, last, Option.some_or,
        Option.some_or]
      decide

theorem internalRoute_verifyPath {name : List Char} (nonempty : name ≠ []) (noSlash : '/' ∉ name) :
    internalRoute (verifyPath name) = some (.verify (percentDecode name)) := by
  unfold internalRoute
  rw [if_neg (verifyPath_ne (by decide)), if_neg (verifyPath_ne (by decide)),
    if_neg (verifyPath_ne (by decide)), if_neg (verifyPath_ne (by decide)),
    if_neg (verifyPath_ne (by decide)), beaconId_verifyPath]
  unfold verifyPath
  dsimp only
  rw [stripStart_append, Option.bind_some, stripEnd_append, Option.bind_some,
    if_pos ⟨nonempty, noSlash⟩]

/-- Only a verify path leads to a verify endpoint. -/
theorem internalRoute_eq_verify {path name : List Char}
    (routed : internalRoute path = some (.verify name)) :
    ∃ written, path = verifyPath written ∧ '/' ∉ written ∧ percentDecode written = name := by
  unfold internalRoute at routed
  split at routed
  · cases routed
  split at routed
  · cases routed
  split at routed
  · cases routed
  split at routed
  · cases routed
  split at routed
  · cases routed
  split at routed
  · cases routed
  obtain ⟨written, stripped, rest⟩ := Option.bind_eq_some_iff.mp routed
  obtain ⟨tail, start, ending⟩ := Option.bind_eq_some_iff.mp stripped
  split at rest
  · next accepted =>
    refine ⟨written, ?_, accepted.2, Internal.verify.inj (Option.some.inj rest)⟩
    unfold verifyPath
    rw [stripStart_eq_some start, stripEnd_eq_some ending]
  · cases rest

/-! ### Queries -/

/-- The query of the verify endpoint. -/
def verifyQuery (tokenHex redirect : List Char) : List Char :=
  "__bagel_token".toList ++ ('=' :: (tokenHex ++ ('&' ::
    ("__bagel_redirect".toList ++ ('=' :: percentEncode redirect)))))

theorem verifyUrl_eq (name tokenHex redirect : List Char) :
    verifyUrl name tokenHex redirect = verifyPath name ++ '?' :: verifyQuery tokenHex redirect := by
  unfold verifyUrl verifyPath verifyQuery
  rw [List.append_assoc, List.append_assoc]

/-- Two fields that are written next to each other are read again. -/
theorem parseQueryParams_pair {key key' value value' : List Char} (noSign : '=' ∉ key)
    (noSign' : '=' ∉ key') (whole : '&' ∉ key ++ '=' :: value)
    (whole' : '&' ∉ key' ++ '=' :: value') :
    parseQueryParams (key ++ ('=' :: (value ++ ('&' :: (key' ++ '=' :: value'))))) =
      [(key, value), (key', value')] := by
  have parts : (key ++ ('=' :: (value ++ ('&' :: (key' ++ '=' :: value'))))).splitOn '&' =
      [key ++ '=' :: value, key' ++ '=' :: value'] := by
    rw [← List.cons_append, ← List.append_assoc,
      List.splitOn_append_cons_self_of_not_mem whole, List.splitOn_eq_singleton whole']
  unfold parseQueryParams
  rw [parts, List.filter_cons_of_pos (by simp), List.filter_cons_of_pos (by simp), List.filter_nil,
    List.filterMap_cons_some (Parts.splitOnce_append noSign _),
    List.filterMap_cons_some (Parts.splitOnce_append noSign' _), List.filterMap_nil]

theorem notMem_field {key value : List Char} (inKey : '&' ∉ key)
    (inValue : ∀ character ∈ value, character = '%' ∨ IsPlain character) :
    '&' ∉ key ++ '=' :: value := by
  rw [List.mem_append, List.mem_cons]
  rintro (key | sign | value)
  · exact inKey key
  · cases sign
  · rcases inValue _ value with percent | plain
    · cases percent
    · exact (not_isPlain_of_mark plain).1 rfl

theorem parseQueryParams_verifyQuery {tokenHex : List Char}
    (plain : ∀ character ∈ tokenHex, IsPlain character) (redirect : List Char) :
    parseQueryParams (verifyQuery tokenHex redirect) =
      [("__bagel_token".toList, tokenHex), ("__bagel_redirect".toList, percentEncode redirect)] :=
  parseQueryParams_pair (by decide) (by decide)
    (notMem_field (by decide) fun character member => .inr (plain character member))
    (notMem_field (by decide) fun _ member => mem_percentEncode member)

theorem queryParam_token {tokenHex : List Char}
    (plain : ∀ character ∈ tokenHex, IsPlain character) (redirect : List Char) :
    queryParam (some (verifyQuery tokenHex redirect)) "__bagel_token".toList = some tokenHex := by
  unfold queryParam
  rw [Option.bind_some, parseQueryParams_verifyQuery plain, List.findSome?_cons]
  rfl

theorem queryParam_redirect {tokenHex : List Char}
    (plain : ∀ character ∈ tokenHex, IsPlain character) (redirect : List Char) :
    queryParam (some (verifyQuery tokenHex redirect)) "__bagel_redirect".toList =
      some (percentEncode redirect) := by
  have other : "__bagel_token".toList ≠ "__bagel_redirect".toList := by decide
  unfold queryParam
  rw [Option.bind_some, parseQueryParams_verifyQuery plain, List.findSome?_cons]
  dsimp only
  rw [if_neg other]
  rfl

/-! ### The page -/

namespace RequestUri

variable (uri : RequestUri)

theorem exists_path : ∃ rest, uri.path = '/' :: rest := by
  have root := uri.fromRoot
  cases path : uri.path with
  | nil =>
    rw [path] at root
    cases root
  | cons first rest =>
    rw [path, List.head?_cons, Option.some.injEq] at root
    exact ⟨rest, by rw [root]⟩

/-- A query does not add a second slash. -/
theorem doubleSlash_pathAndQuery_iff :
    "//".toList <+: uri.pathAndQuery ↔ "//".toList <+: uri.path := by
  have slashes : "//".toList = ['/', '/'] := by decide
  obtain ⟨rest, path⟩ := uri.exists_path
  unfold pathAndQuery
  rw [slashes, path, List.cons_append, List.cons_prefix_cons, List.cons_prefix_cons]
  simp only [true_and]
  cases rest with
  | nil =>
    cases uri.query with
    | none => simp
    | some query => simp
  | cons second later => simp

/-- The endpoint leads to the page exactly when its URI is a printable path. -/
theorem safeRedirect_text_iff :
    safeRedirect uri.text = some uri.pathAndQuery ↔
      uri.origin = none ∧ ¬ "//".toList <+: uri.path ∧
        uri.pathAndQuery.all (fun character =>
          32 ≤ character.toNat && character.toNat ≤ 126) = true := by
  have slash : "/".toList = ['/'] := by decide
  cases origin : uri.origin with
  | some parts =>
    obtain ⟨scheme, authority⟩ := parts
    obtain ⟨first, rest, written, other⟩ := uri.scheme _ origin
    have refused : safeRedirect uri.text = none := by
      unfold safeRedirect text
      rw [origin]
      dsimp only at written ⊢
      rw [slash, written]
      refine if_neg fun accepted => other ?_
      exact (List.cons_prefix_cons.mp accepted.1).1.symm
    rw [refused]
    simp
  | none =>
    have whole : uri.text = uri.pathAndQuery := by
      unfold text
      rw [origin]
    have root : "/".toList <+: uri.pathAndQuery := by
      obtain ⟨rest, path⟩ := uri.exists_path
      unfold pathAndQuery
      rw [slash, path, List.cons_append]
      exact List.cons_prefix_cons.mpr ⟨rfl, List.nil_prefix⟩
    unfold safeRedirect
    rw [whole, ← doubleSlash_pathAndQuery_iff]
    constructor
    · intro accepts
      split at accepts
      · next accepted => exact ⟨rfl, accepted.2⟩
      · cases accepts
    · rintro ⟨-, single, printable⟩
      exact if_pos ⟨root, single, printable⟩

end RequestUri

/-! ### Parsing the URL -/

namespace UriParser

variable (parser : UriParser)

/-- What is parsed begins with its path, whose characters are allowed, and is not too long. -/
theorem parse_eq_some {rest : List Char} {target : Target}
    (parsed : parser.parse ('/' :: rest) = some target) :
    target.path <+: '/' :: rest ∧ target.path.all parser.inPath = true ∧
      (Bytes.ofText (String.ofList ('/' :: rest))).length ≤ parser.limit := by
  rw [parser.parse_eq] at parsed
  dsimp only at parsed
  split at parsed
  · next accepted =>
    obtain rfl := Option.some.inj parsed
    refine ⟨?_, accepted.2.1, accepted.1⟩
    exact (List.takeWhile_prefix _).trans (List.takeWhile_prefix _)
  · cases parsed

/-- A path and a query of allowed characters are parsed as they are. -/
theorem parse_append {path query : List Char} (root : path.head? = some '/')
    (inPath : path.all parser.inPath = true) (inQuery : query.all parser.inQuery = true)
    (fits : (Bytes.ofText (String.ofList (path ++ '?' :: query))).length ≤ parser.limit) :
    parser.parse (path ++ '?' :: query) = some ⟨path, some query⟩ := by
  have pathMarks : ∀ character ∈ path, character ≠ '?' ∧ character ≠ '#' := by
    intro character member
    have allowed := List.all_eq_true.mp inPath character member
    constructor
    · rintro rfl
      rw [parser.marks.1] at allowed
      cases allowed
    · rintro rfl
      rw [parser.marks.2.1] at allowed
      cases allowed
  have noFragment : ∀ character ∈ path ++ '?' :: query, decide (character ≠ '#') = true := by
    intro character member
    refine decide_eq_true ?_
    rcases List.mem_append.mp member with inside | later
    · exact (pathMarks character inside).2
    · rcases List.mem_cons.mp later with rfl | inside
      · decide
      · rintro rfl
        have allowed := List.all_eq_true.mp inQuery _ inside
        rw [parser.marks.2.2] at allowed
        cases allowed
  have noMark : ∀ character ∈ path, decide (character ≠ '?') = true :=
    fun character member => decide_eq_true (pathMarks character member).1
  cases path with
  | nil => cases root
  | cons first rest =>
    obtain rfl : first = '/' := Option.some.inj root
    rw [List.cons_append, parser.parse_eq]
    dsimp only
    rw [← List.cons_append, List.takeWhile_eq_self_iff.mpr noFragment,
      List.takeWhile_append_of_pos noMark, List.takeWhile_cons_of_neg (by decide), List.append_nil,
      Parts.splitOnce_append fun member => (pathMarks _ member).1 rfl, Option.map_some]
    refine if_pos ⟨fits, inPath, ?_⟩
    rintro other same
    rw [← Option.some.inj same]
    exact inQuery

end UriParser

theorem isPlain_of_all {text : List Char}
    (plain : text.all (fun character => isUnreserved character.toUInt8 &&
      character == Char.ofUInt8 character.toUInt8) = true) {character : Char}
    (member : character ∈ text) : IsPlain character := by
  have found := List.all_eq_true.mp plain character member
  rw [Bool.and_eq_true, beq_iff_eq] at found
  exact ⟨character.toUInt8, found⟩

theorem UriParser.inPath_of_isPlain (parser : UriParser) {character : Char}
    (plain : IsPlain character) : parser.inPath character = true := by
  obtain ⟨byte, unreserved, rfl⟩ := plain
  exact (parser.unreserved byte unreserved).1

theorem UriParser.inQuery_of_isPlain (parser : UriParser) {character : Char}
    (plain : IsPlain character) : parser.inQuery character = true := by
  obtain ⟨byte, unreserved, rfl⟩ := plain
  exact (parser.unreserved byte unreserved).2

theorem all_inPath_verifyPath_iff (parser : UriParser) (name : List Char) :
    (verifyPath name).all parser.inPath = true ↔ name.all parser.inPath = true := by
  have front : "/__bagel/".toList.all parser.inPath = true :=
    List.all_eq_true.mpr fun _ member =>
      parser.inPath_of_isPlain (isPlain_of_all (by decide) member)
  have ending : "/verify".toList.all parser.inPath = true :=
    List.all_eq_true.mpr fun _ member =>
      parser.inPath_of_isPlain (isPlain_of_all (by decide) member)
  unfold verifyPath
  rw [List.all_append, List.all_append, front, ending, Bool.true_and, Bool.and_true]

theorem all_inQuery_verifyQuery (parser : UriParser) {tokenHex : List Char}
    (plain : ∀ character ∈ tokenHex, IsPlain character) (redirect : List Char) :
    (verifyQuery tokenHex redirect).all parser.inQuery = true := by
  have token : "__bagel_token".toList.all parser.inQuery = true :=
    List.all_eq_true.mpr fun _ member =>
      parser.inQuery_of_isPlain (isPlain_of_all (by decide) member)
  have page : "__bagel_redirect".toList.all parser.inQuery = true :=
    List.all_eq_true.mpr fun _ member =>
      parser.inQuery_of_isPlain (isPlain_of_all (by decide) member)
  have hex : tokenHex.all parser.inQuery = true :=
    List.all_eq_true.mpr fun character member =>
      parser.inQuery_of_isPlain (plain character member)
  have encoded : (percentEncode redirect).all parser.inQuery = true := by
    refine List.all_eq_true.mpr fun character member => ?_
    rcases mem_percentEncode member with rfl | plain
    · exact parser.signs.1
    · exact parser.inQuery_of_isPlain plain
  unfold verifyQuery
  rw [List.all_append, List.all_cons, List.all_append, List.all_cons, List.all_append,
    List.all_cons, token, page, hex, encoded, parser.signs.2.1, parser.signs.2.2]
  rfl

/-! ### The length of a URL -/

theorem length_ofText_append (first second : List Char) :
    (Bytes.ofText (String.ofList (first ++ second))).length =
      (Bytes.ofText (String.ofList first)).length +
        (Bytes.ofText (String.ofList second)).length := by
  rw [String.ofList_append, Bytes.ofText_append, List.length_append]

/-- A character that needs no encoding is one byte long, and so is a percent sign. -/
theorem length_ofText_of_plain {text : List Char}
    (plain : ∀ character ∈ text, character = '%' ∨ IsPlain character) :
    (Bytes.ofText (String.ofList text)).length = text.length := by
  rw [Bytes.ofText_ofList]
  induction text with
  | nil => rfl
  | cons character rest inductionHypothesis =>
    have one : (String.utf8EncodeChar character).length = 1 := by
      rcases plain character List.mem_cons_self with rfl | ⟨byte, unreserved, rfl⟩
      · decide
      · rw [Bytes.utf8EncodeChar_ofUInt8 (lt_of_isUnreserved unreserved)]
        rfl
    rw [List.flatMap_cons, List.length_append, one,
      inductionHypothesis fun other member => plain other (List.mem_cons_of_mem _ member),
      List.length_cons, Nat.add_comm]

theorem length_verifyUrl {name tokenHex : List Char}
    (hex : ∀ character ∈ tokenHex, IsPlain character) (redirect : List Char) :
    (Bytes.ofText (String.ofList (verifyUrl name tokenHex redirect))).length =
      (Bytes.ofText (String.ofList name)).length + tokenHex.length +
        (percentEncode redirect).length + 49 := by
  have token := length_ofText_of_plain fun character member => .inr (hex character member)
  have page : (Bytes.ofText (String.ofList (percentEncode redirect))).length =
      (percentEncode redirect).length := length_ofText_of_plain fun _ member =>
    mem_percentEncode member
  have parts : verifyUrl name tokenHex redirect = "/__bagel/".toList ++ (name ++
      ("/verify?__bagel_token=".toList ++ (tokenHex ++ ("&__bagel_redirect=".toList ++
        percentEncode redirect)))) := by
    unfold verifyUrl
    simp
  have front : (Bytes.ofText (String.ofList "/__bagel/".toList)).length = 9 := by decide +kernel
  have middle : (Bytes.ofText (String.ofList "/verify?__bagel_token=".toList)).length = 22 := by
    decide +kernel
  have sign : (Bytes.ofText (String.ofList "&__bagel_redirect=".toList)).length = 18 := by
    decide +kernel
  rw [parts, length_ofText_append, length_ofText_append, length_ofText_append,
    length_ofText_append, length_ofText_append, token, page, front, middle, sign]
  omega

/-! ### There and back -/

theorem verifyPath_eq_cons (name : List Char) :
    verifyPath name = '/' :: ("__bagel/".toList ++ (name ++ "/verify".toList)) := by
  have front : "/__bagel/".toList = '/' :: "__bagel/".toList := by decide
  unfold verifyPath
  rw [front, List.cons_append]

/-- Of what begins with a verify path the name can be told. -/
theorem verifyPath_inj {name written rest tail : List Char} (noSlash : '/' ∉ name)
    (noSlash' : '/' ∉ written)
    (same : verifyPath written ++ tail = verifyPath name ++ rest) : written = name := by
  have ending : "/verify".toList = '/' :: "verify".toList := by decide
  unfold verifyPath at same
  rw [ending, List.append_assoc, List.append_assoc, List.append_assoc, List.append_assoc,
    List.append_right_inj, List.cons_append, List.cons_append] at same
  exact (Lines.append_mark_inj noSlash' noSlash same).1

/-- For every registered challenge, every key and every request: the URL of the challenge leads to
its endpoint with the key and the page, and from there back to the page, exactly when the name may
stand in a path and has no triplet, the URL is not too long, and the request came in origin form
with a printable path that does not begin with two slashes. -/
theorem leadsBack_iff (parser : UriParser) (name : ChallengeName) (key : Vector UInt8 32)
    (uri : RequestUri) :
    LeadsBack parser name key uri ↔ Passable parser name key uri := by
  have hex : ∀ character ∈ hexEncode key.toList, IsPlain character :=
    fun _ member => isPlain_of_mem_hexEncode member
  unfold LeadsBack RequestUri.redirectUrl
  rw [verifyUrl_eq, uri.safeRedirect_text_iff]
  constructor
  · rintro ⟨target, parsed, routed, -, -, originForm, singleSlash, printable⟩
    obtain ⟨written, path, noSlash, decoded⟩ := internalRoute_eq_verify routed
    rw [verifyPath_eq_cons, List.cons_append] at parsed
    obtain ⟨⟨tail, start⟩, allowed, fits⟩ := parser.parse_eq_some parsed
    rw [← List.cons_append, ← verifyPath_eq_cons, path] at start
    obtain rfl := verifyPath_inj name.noSlash noSlash start
    rw [path, all_inPath_verifyPath_iff] at allowed
    refine ⟨allowed, (percentDecode_eq_self_iff _).mp decoded, ?_, originForm, singleSlash,
      printable⟩
    rw [← length_verifyUrl hex, verifyUrl_eq, verifyPath_eq_cons, List.cons_append]
    exact fits
  · rintro ⟨allowed, plain, fits, originForm, singleSlash, printable⟩
    have root : (verifyPath name.text).head? = some '/' := by
      rw [verifyPath_eq_cons, List.head?_cons]
    rw [← length_verifyUrl hex, verifyUrl_eq] at fits
    refine ⟨_, parser.parse_append root ((all_inPath_verifyPath_iff parser _).mpr allowed)
      (all_inQuery_verifyQuery parser hex uri.text) fits, ?_, queryParam_token hex uri.text, ?_,
      originForm, singleSlash, printable⟩
    · rw [internalRoute_verifyPath name.nonempty name.noSlash,
        (percentDecode_eq_self_iff _).mpr plain]
    · rw [queryParam_redirect hex, Option.map_some, percentDecode_percentEncode]

/-! ### A sample URL -/

namespace SampleUrl

/-- The characters of a path that the `http` crate accepts. -/
def inPath (character : Char) : Bool :=
  let code := character.toNat
  code == 0x21 || code == 0x22 || (0x24 ≤ code && code ≤ 0x3b) || code == 0x3d ||
    (0x40 ≤ code && code ≤ 0x5f) || 0x61 ≤ code

/-- The characters of a query that the `http` crate accepts. -/
def inQuery (character : Char) : Bool :=
  let code := character.toNat
  code == 0x21 || (0x24 ≤ code && code ≤ 0x3b) || code == 0x3d || 0x3f ≤ code

def parser : UriParser where
  parse text :=
    let front := text.takeWhile (· ≠ '#')
    let path := front.takeWhile (· ≠ '?')
    let query := (Parts.splitOnce '?' front).map Prod.snd
    if (Bytes.ofText (String.ofList text)).length ≤ 65534 ∧ path.all inPath = true ∧
        ∀ query' ∈ query, query'.all inQuery = true then
      some ⟨path, query⟩
    else none
  limit := 65534
  inPath := inPath
  inQuery := inQuery
  parse_eq _ := rfl
  marks := by decide
  unreserved := by
    intro byte unreserved
    induction byte using Bytes.forall_of_values with
    | every value =>
      revert value
      decide +kernel
  signs := by decide

def name : ChallengeName := ⟨"wait".toList, by decide, by decide⟩

/-- A request for a page over HTTP/2. -/
def overHttp2 : RequestUri where
  origin := some ("https".toList, "example.com".toList)
  path := "/page".toList
  query := none
  fromRoot := by decide
  scheme := by
    intro parts same
    obtain rfl := Option.some.inj same
    exact ⟨'h', "ttps".toList, by decide, by decide⟩

/-- The challenge of a request over HTTP/2 does not lead back. -/
theorem not_leadsBack_overHttp2 :
    ¬ LeadsBack parser name (Vector.replicate 32 7) overHttp2 := by
  rintro ⟨-, -, -, -, -, accepted⟩
  revert accepted
  decide

end SampleUrl

end Bagel
