/-
This file develops how a browser resolves a reference against the URL of a page whose scheme is a
special one other than `file`, as the URL Standard has it. The reference is read state by state.
Control characters and spaces around it count for nothing, nor do tabs and line ends inside it,
and a backslash counts as a slash.

The parser of hosts is given from outside, and so is what becomes of a reference with a scheme of
its own.
-/

import Bagel.Library.Bytes
import Bagel.Library.Percent
import Mathlib.Data.List.DropRight

namespace WebUrl

/-! ### URLs -/

inductive Host where
  | domain (ascii : List Char)
  | ipv4 (address : BitVec 32)
  | ipv6 (address : BitVec 128)
  deriving DecidableEq

/-- A URL with a special scheme, so that it has a host. -/
structure Url where
  scheme : List Char
  username : List Char
  password : List Char
  host : Host
  port : Option Nat
  path : List (List Char)
  query : Option (List Char)
  fragment : Option (List Char)
  deriving DecidableEq

/-- Two URLs with one scheme, host and port. -/
structure SameOrigin (url base : Url) : Prop where
  scheme : url.scheme = base.scheme
  host : url.host = base.host
  port : url.port = base.port

/-- What is given from outside: the parser of hosts, and what a reference is with a scheme of its
own and the text after the colon. -/
structure Parser where
  host : List Char → Option Host
  absolute : Url → List Char → List Char → Option Url

/-- The port that a special scheme has where none is written. -/
def defaultPort (scheme : List Char) : Option Nat :=
  if scheme = "http".toList ∨ scheme = "ws".toList then some 80
  else if scheme = "https".toList ∨ scheme = "wss".toList then some 443
  else if scheme = "ftp".toList then some 21
  else none

/-! ### Percent-encode sets -/

def fragmentSet : List UInt8 := [0x20, 0x22, 0x3c, 0x3e, 0x60]

def querySet : List UInt8 := [0x20, 0x22, 0x23, 0x3c, 0x3e]

def specialQuerySet : List UInt8 := 0x27 :: querySet

def pathSet : List UInt8 := querySet ++ [0x3f, 0x5e, 0x60, 0x7b, 0x7d]

def userinfoSet : List UInt8 := pathSet ++ [0x2f, 0x3a, 0x3b, 0x3d, 0x40, 0x5b, 0x5c, 0x5d, 0x7c]

/-- UTF-8 percent-encode with a set, which the bytes outside of printable ASCII belong to. -/
def encode (set : List UInt8) (text : List Char) : List Char :=
  (Percent.encode (fun byte => 0x20 ≤ byte && byte ≤ 0x7e && !set.contains byte)
    (Bytes.ofText (String.ofList text))).map Char.ofUInt8

/-! ### The text of a reference -/

/-- A control character or a space. -/
def isOuter (character : Char) : Bool := character.toNat ≤ 32

/-- A tab or the end of a line. -/
def isInner (character : Char) : Bool := character = '\t' || character = '\n' || character = '\r'

/-- A reference without the characters that count for nothing. -/
def clean (text : List Char) : List Char :=
  ((text.dropWhile isOuter).rdropWhile isOuter).filter fun character => !isInner character

/-- The scheme at the start and what follows its colon. -/
def schemeOf : List Char → Option (List Char × List Char)
  | [] => none
  | first :: rest =>
    let isRest (character : Char) :=
      character.isAlphanum || character = '+' || character = '-' || character = '.'
    if first.isAlpha then
      match rest.span isRest with
      | (more, ':' :: after) => some ((first :: more).map Char.toLower, after)
      | _ => none
    else none

/-- Special URLs have backslashes for slashes. -/
def isSlash (character : Char) : Bool := character = '/' || character = '\\'

/-! ### Paths, queries and fragments -/

def isSingleDot (segment : List Char) : Bool :=
  [".", "%2e"].any fun dot => segment.map Char.toLower = dot.toList

def isDoubleDot (segment : List Char) : Bool :=
  ["..", ".%2e", "%2e.", "%2e%2e"].any fun dots => segment.map Char.toLower = dots.toList

/-- The end of one segment, where `last` says that no slash follows. -/
def pushSegment (path : List (List Char)) (segment : List Char) (last : Bool) :
    List (List Char) :=
  if isDoubleDot segment then if last then path.dropLast ++ [[]] else path.dropLast
  else if isSingleDot segment then if last then path ++ [[]] else path
  else path ++ [segment]

def pushSegments (path : List (List Char)) : List (List Char) → List (List Char)
  | [] => path
  | [segment] => pushSegment path segment true
  | segment :: rest => pushSegments (pushSegment path segment false) rest

/-- The fragment state. -/
def fragmentState (url : Url) (text : List Char) : Url :=
  { url with fragment := some (encode fragmentSet text) }

/-- The query state. -/
def queryState (url : Url) (text : List Char) : Url :=
  let (query, rest) := text.span (· ≠ '#')
  let url := { url with query := some (encode specialQuerySet query) }
  match rest with
  | _ :: fragment => fragmentState url fragment
  | [] => url

/-- The path state. -/
def pathState (url : Url) (text : List Char) : Url :=
  let (path, rest) := text.span fun character => character ≠ '?' && character ≠ '#'
  let segments := (path.splitOnP isSlash).map (encode pathSet)
  let url := { url with path := pushSegments url.path segments }
  match rest with
  | '?' :: query => queryState url query
  | _ :: fragment => fragmentState url fragment
  | [] => url

/-- The path start state. -/
def pathStartState (url : Url) : List Char → Url
  | [] => pathState url []
  | first :: rest => if isSlash first then pathState url rest else pathState url (first :: rest)

/-! ### Authorities -/

/-- The text of the host and, where there is a colon outside of brackets, that of the port. -/
def splitPort (inBrackets : Bool) : List Char → List Char × Option (List Char)
  | [] => ([], none)
  | first :: rest =>
    if first = ':' && !inBrackets then ([], some rest)
    else
      let inBrackets := if first = '[' then true else if first = ']' then false else inBrackets
      let (host, port) := splitPort inBrackets rest
      (first :: host, port)

/-- The port state: nothing is no port, and so is the port that the scheme has anyway. -/
def portState (scheme : List Char) (text : List Char) : Option (Option Nat) :=
  if text.all Char.isDigit then
    let port := text.foldl (fun value digit => 10 * value + (digit.toNat - '0'.toNat)) 0
    if text = [] ∨ defaultPort scheme = some port then some none
    else if port ≤ 65535 then some (some port)
    else none
  else none

/-- The username and the password in front of the last at sign, and what follows it. -/
def splitCredentials (authority : List Char) : List Char × List Char × List Char :=
  let host := authority.rtakeWhile (· ≠ '@')
  let credentials := (authority.rdropWhile (· ≠ '@')).dropLast
  let (username, password) := credentials.span (· ≠ ':')
  (username, password.tail, host)

namespace Parser

variable (parser : Parser)

/-- The host state, with the port state behind it. A special URL has no empty host. -/
def hostState (scheme : List Char) (text : List Char) : Option (Host × Option Nat) := do
  let (host, port) := splitPort false text
  if host = [] then none
  else return (← parser.host host, ← portState scheme (port.getD []))

/-- The authority state. -/
def authorityState (scheme : List Char) (text : List Char) : Option Url := do
  let (authority, rest) := text.span fun character =>
    !isSlash character && character ≠ '?' && character ≠ '#'
  let (username, password, hostAndPort) := splitCredentials authority
  let (host, port) ← parser.hostState scheme hostAndPort
  return pathStartState
    { scheme, host, port
      username := encode userinfoSet username
      password := encode userinfoSet password
      path := []
      query := none
      fragment := none } rest

/-- The special authority ignore slashes state. -/
def ignoreSlashesState (scheme : List Char) (text : List Char) : Option Url :=
  parser.authorityState scheme (text.dropWhile isSlash)

/-- The relative slash state. -/
def relativeSlashState (base : Url) : List Char → Option Url
  | [] => some (pathState { base with path := [], query := none, fragment := none } [])
  | first :: rest =>
    if isSlash first then parser.ignoreSlashesState base.scheme rest
    else some (pathState { base with path := [], query := none, fragment := none } (first :: rest))

/-- The relative state. -/
def relativeState (base : Url) : List Char → Option Url
  | [] => some { base with fragment := none }
  | first :: rest =>
    if isSlash first then parser.relativeSlashState base rest
    else if first = '?' then some (queryState { base with fragment := none } rest)
    else if first = '#' then some (fragmentState base rest)
    else some (pathState { base with path := base.path.dropLast, query := none, fragment := none }
      (first :: rest))

/-- The URL that a reference stands for on a page. -/
def resolve (base : Url) (reference : List Char) : Option Url :=
  let text := clean reference
  match schemeOf text with
  | some (scheme, rest) => parser.absolute base scheme rest
  | none => parser.relativeState base text

end Parser

/-! ### What the path cannot change -/

namespace SameOrigin

theorem refl (url : Url) : SameOrigin url url := ⟨rfl, rfl, rfl⟩

theorem fragmentState {url base : Url} (same : SameOrigin url base) (text : List Char) :
    SameOrigin (WebUrl.fragmentState url text) base :=
  ⟨same.scheme, same.host, same.port⟩

theorem queryState {url base : Url} (same : SameOrigin url base) (text : List Char) :
    SameOrigin (WebUrl.queryState url text) base := by
  unfold WebUrl.queryState
  dsimp only
  split
  · refine fragmentState ?_ _
    exact ⟨same.scheme, same.host, same.port⟩
  · exact ⟨same.scheme, same.host, same.port⟩

/-- Segments, a query and a fragment leave the scheme, the host and the port alone. -/
theorem pathState {url base : Url} (same : SameOrigin url base) (text : List Char) :
    SameOrigin (WebUrl.pathState url text) base := by
  unfold WebUrl.pathState
  dsimp only
  split
  · refine queryState ?_ _
    exact ⟨same.scheme, same.host, same.port⟩
  · refine fragmentState ?_ _
    exact ⟨same.scheme, same.host, same.port⟩
  · exact ⟨same.scheme, same.host, same.port⟩

end SameOrigin

/-! ### References with a slash in front -/

namespace Parser

variable {parser : Parser} {base : Url} {text rest : List Char}

theorem schemeOf_slash (rest : List Char) : schemeOf ('/' :: rest) = none := rfl

theorem resolve_of_slash (cleaned : clean text = '/' :: rest) :
    parser.resolve base text = parser.relativeSlashState base rest := by
  unfold resolve
  simp only [cleaned, schemeOf_slash]
  rfl

/-- One slash leads to another path. -/
theorem relativeSlashState_of_path (single : ∀ first ∈ rest.head?, isSlash first = false) :
    ∃ url, parser.relativeSlashState base rest = some url ∧ SameOrigin url base := by
  have stripped : SameOrigin { base with path := [], query := none, fragment := none } base :=
    ⟨rfl, rfl, rfl⟩
  cases rest with
  | nil => exact ⟨_, rfl, stripped.pathState []⟩
  | cons first rest =>
    have plain := single first rfl
    refine ⟨_, ?_, stripped.pathState (first :: rest)⟩
    unfold relativeSlashState
    simp only [plain, Bool.false_eq_true, if_false]

/-- Two slashes lead to another host, whatever the page is. -/
theorem relativeSlashState_of_slash {first : Char} (second : isSlash first = true) :
    parser.relativeSlashState base (first :: rest) =
      parser.ignoreSlashesState base.scheme rest := by
  unfold relativeSlashState
  simp only [second, if_true]

/-- A reference with a slash in front stays with every page of a scheme exactly when no second
slash follows. -/
theorem remains_iff (scheme : List Char) (cleaned : clean text = '/' :: rest) :
    (∀ base : Url, base.scheme = scheme →
        ∃ url, parser.resolve base text = some url ∧ SameOrigin url base) ↔
      ∀ first ∈ rest.head?, isSlash first = false := by
  constructor
  · intro stays first head
    cases rest with
    | nil => cases head
    | cons character rest =>
      cases head
      by_contra slash
      rw [Bool.not_eq_false] at slash
      -- two pages with different hosts get one answer
      have answer (host : Host) : ∃ url,
          parser.ignoreSlashesState scheme rest = some url ∧ url.host = host := by
        obtain ⟨url, resolved, same⟩ := stays ⟨scheme, [], [], host, none, [], none, none⟩ rfl
        rw [resolve_of_slash cleaned, relativeSlashState_of_slash slash] at resolved
        exact ⟨url, resolved, same.host⟩
      obtain ⟨url, found, host⟩ := answer (.ipv4 0)
      obtain ⟨url', found', host'⟩ := answer (.ipv4 1)
      rw [Option.some.inj (found.symm.trans found'), host'] at host
      exact absurd host (by decide)
  · intro single base _
    rw [resolve_of_slash cleaned]
    exact relativeSlashState_of_path single

end Parser

/-! ### What cleaning leaves -/

theorem rdropWhile_cons {Symbol : Type} {drops : Symbol → Bool} {first : Symbol}
    (kept : drops first = false) (rest : List Symbol) :
    (first :: rest).rdropWhile drops = first :: rest.rdropWhile drops := by
  induction rest using List.reverseRecOn with
  | nil => rw [List.rdropWhile_singleton, kept, List.rdropWhile_nil, if_neg Bool.false_ne_true]
  | append_singleton rest last inductionHypothesis =>
    rw [← List.cons_append, List.rdropWhile_concat, List.rdropWhile_concat, inductionHypothesis]
    split
    · rfl
    · rfl

/-- Printable text behind a slash loses the spaces at its end. -/
theorem clean_of_slash {rest : List Char} (printable : ∀ character ∈ rest, 32 ≤ character.toNat) :
    clean ('/' :: rest) = '/' :: rest.rdropWhile isOuter := by
  have slash : isOuter '/' = false := by decide
  unfold clean
  rw [List.dropWhile_cons_of_neg (by rw [slash]; decide), rdropWhile_cons slash]
  refine List.filter_eq_self.mpr fun character member => ?_
  have code : 32 ≤ character.toNat := by
    rcases List.mem_cons.mp member with rfl | inside
    · decide
    · exact printable character ((List.rdropWhile_prefix _ rest).subset inside)
  have different {other : Char} (low : other.toNat < 32) : character ≠ other := by
    rintro rfl
    omega
  rw [isInner, decide_eq_false (different (by decide)), decide_eq_false (different (by decide)),
    decide_eq_false (different (by decide))]
  rfl

/-- The first character is what it was, unless nothing but spaces followed the slash. -/
theorem head?_rdropWhile {Symbol : Type} {drops : Symbol → Bool} {first : Symbol}
    {rest : List Symbol} (head : (rest.rdropWhile drops).head? = some first) :
    rest.head? = some first := by
  obtain ⟨tail, whole⟩ := List.rdropWhile_prefix drops rest
  rw [← whole, List.head?_append, head]
  rfl

end WebUrl
