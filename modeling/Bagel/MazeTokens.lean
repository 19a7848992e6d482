/-
This file models the keys of a maze and the tokens of its links: `keys.rs` and `token.rs`. A
token is a header with a tag over the header and the path of the link. The header has the time
the token expires at, a nonce, and a value that binds the token to the network it was minted for.

HMAC and HKDF are not part of the program. They are what `ring` computes, and they are taken to be
ideal: of the questions that are asked of them no two different ones have the same answer.
-/

import Bagel.Challenge
import Bagel.Library.Base32
import Bagel.Library.Bytes
import Mathlib.Data.Set.Function

namespace Bagel

/-! ### Keys -/

/-- What is asked of HMAC: a key and a message. -/
abbrev Question := List UInt8 × List UInt8

/-- What `ring` computes for a server: HMAC-SHA256, and the expansion of HKDF-SHA256 under the
pseudorandom key that is extracted from the poison master. -/
structure MazeCrypto where
  hmac : Question → List UInt8
  expand : List UInt8 → List UInt8
  length_hmac : ∀ question, (hmac question).length = 32
  length_expand : ∀ info, (expand info).length = 32

structure MazeKeys where
  macKey : List UInt8
  bindingKey : List UInt8
  routeKey : List UInt8
  renderKey : List UInt8
  decoyKey : List UInt8
  memoryKey : List UInt8
  routePrefix : String

/-- What a key of a maze on a host is expanded from. -/
def keyInfo (label host name : String) : List UInt8 :=
  Bytes.bigFrame (Bytes.ofText label) ++
    (Bytes.bigFrame (Bytes.ofText host) ++ Bytes.bigFrame (Bytes.ofText name))

/-- A text that is short enough for the length in front of it. -/
def Framable (text : String) : Prop := (Bytes.ofText text).length < 2 ^ 32

theorem keyInfo_inj {label host name host' name' : String} (fits : Framable host)
    (fits' : Framable host') (same : keyInfo label host name = keyInfo label host' name') :
    host = host' ∧ name = name' := by
  have parts := List.append_cancel_left same
  obtain ⟨hosts, names⟩ := Bytes.bigFrame_append_inj fits fits' parts
  exact ⟨Bytes.ofText_inj hosts, Bytes.ofText_inj (Bytes.bigFrame_inj names)⟩

/-- `SourceNetwork::to_bytes` -/
def SourceNetwork.toBytes : SourceNetwork → List UInt8
  | .v4 bits => [0x04, 0x18] ++ Bytes.big 3 bits.toNat
  | .v6 bits => [0x06, 0x40] ++ Bytes.big 8 bits.toNat

theorem SourceNetwork.toBytes_inj {first second : SourceNetwork}
    (same : first.toBytes = second.toBytes) : first = second := by
  cases first with
  | v4 bits =>
    cases second with
    | v4 bits' =>
      have numbers : bits.toNat = bits'.toNat :=
        Bytes.big_inj bits.isLt bits'.isLt (List.append_cancel_left same)
      exact congrArg v4 (BitVec.eq_of_toNat_eq numbers)
    | v6 bits' => cases (List.cons.inj same).1
  | v6 bits =>
    cases second with
    | v4 bits' => cases (List.cons.inj same).1
    | v6 bits' =>
      have numbers : bits.toNat = bits'.toNat :=
        Bytes.big_inj bits.isLt bits'.isLt (List.append_cancel_left same)
      exact congrArg v6 (BitVec.eq_of_toNat_eq numbers)

inductive TokenClass where
  | validReturn
  | transfer
  | unbound
  | expired
  | invalid
  | malformed
  deriving DecidableEq

/-- `is_authenticated` -/
def TokenClass.isAuthenticated (tokenClass : TokenClass) : Bool := tokenClass = .validReturn

def tokenLen : Nat := 58

def tokenEncodedLen : Nat := 93

def tokenVersion : UInt8 := 1

def flagBound : UInt8 := 1

def headerLen : Nat := tokenLen - 16

/-- What the generator of the system fills a nonce with. -/
abbrev Nonce := { bytes : List UInt8 // bytes.length = 16 }

namespace MazeCrypto

variable (crypto : MazeCrypto)

def deriveMazeKeys (host name : String) : MazeKeys :=
  let derive (label : String) := crypto.expand (keyInfo label host name)
  let routeKey := derive "route"
  let routePrefix := String.ofList (Base32.encode (routeKey.take 12))
  { macKey := derive "mac"
    bindingKey := derive "binding"
    routeKey
    renderKey := derive "render"
    decoyKey := derive "decoy"
    memoryKey := derive "memory"
    routePrefix }

/-! ### Tokens -/

/-- The part of an HMAC that goes into a token. -/
def mac (question : Question) : List UInt8 := (crypto.hmac question).take 16

theorem length_mac (question : Question) : (crypto.mac question).length = 16 := by
  rw [mac, List.length_take, crypto.length_hmac]
  decide

def bindingQuestion (bindingKey : List UInt8) (source : SourceNetwork) : Question :=
  (bindingKey, Bytes.bigFrame (Bytes.ofText "bagel maze binding v1") ++
    Bytes.bigFrame source.toBytes)

def bindingValue (bindingKey : List UInt8) (source : SourceNetwork) : List UInt8 :=
  crypto.mac (bindingQuestion bindingKey source)

def tagQuestion (macKey header : List UInt8) (mazePath : List Char) : Question :=
  (macKey, Bytes.bigFrame (Bytes.ofText "bagel maze token v1") ++
    (header ++ Bytes.bigFrame (Bytes.ofText (String.ofList mazePath))))

def computeTag (macKey header : List UInt8) (mazePath : List Char) : List UInt8 :=
  crypto.mac (tagQuestion macKey header mazePath)

/-- The flags of a token, and what binds it to a network. -/
def bound (keys : MazeKeys) : Option SourceNetwork → UInt8 × List UInt8
  | some network => (flagBound, crypto.bindingValue keys.bindingKey network)
  | none => (0, List.replicate 16 0)

/-- The header that `build` writes. -/
def header (keys : MazeKeys) (source : Option SourceNetwork) (expires : UInt64) (nonce : Nonce) :
    List UInt8 :=
  let (flags, binding) := crypto.bound keys source
  tokenVersion :: flags :: (Bytes.big 8 expires.toNat ++ (nonce.val ++ binding))

/-- `tag[0] ^= 1` -/
def corrupt : List UInt8 → List UInt8
  | first :: rest => (first ^^^ 1) :: rest
  | [] => []

def build (keys : MazeKeys) (mazePath : List Char) (source : Option SourceNetwork)
    (expires : UInt64) (corruptTag : Bool) (nonce : Nonce) : List Char :=
  let header := crypto.header keys source expires nonce
  let tag := crypto.computeTag keys.macKey header mazePath
  Base32.encode (header ++ if corruptTag then corrupt tag else tag)

def mint (keys : MazeKeys) (mazePath : List Char) (source : Option SourceNetwork)
    (expires : UInt64) (nonce : Nonce) : List Char :=
  crypto.build keys mazePath source expires false nonce

def mintDecoy (keys : MazeKeys) (mazePath : List Char) (source : Option SourceNetwork)
    (expires : UInt64) (nonce : Nonce) : List Char :=
  crypto.build keys mazePath source expires true nonce

/-- `classify`. A text that is not ASCII has no Base32 symbols, so that it does not matter whether
its length is counted in bytes or in characters. -/
def classify (keys : MazeKeys) (mazePath encoded : List Char) (source : Option SourceNetwork)
    (now : UInt64) : TokenClass :=
  if encoded.length ≠ tokenEncodedLen then .malformed
  else
    match Base32.decode encoded with
    | none => .malformed
    | some raw =>
      if raw.length ≠ tokenLen ∨ Base32.encode raw ≠ encoded then .malformed
      else if raw.getD 0 0 ≠ tokenVersion ∨ raw.getD 1 0 &&& ~~~flagBound ≠ 0 then .malformed
      else if raw.drop headerLen ≠
          crypto.computeTag keys.macKey (raw.take headerLen) mazePath then .invalid
      else if UInt64.ofNat (Bytes.number ((raw.drop 2).take 8)) < now then .expired
      else if raw.getD 1 0 &&& flagBound = 0 then .unbound
      else if source.any fun network =>
          (raw.drop 26).take 16 = crypto.bindingValue keys.bindingKey network then .validReturn
      else .transfer

/-! ### What a token is classified as -/

variable {crypto}
variable {keys keys' : MazeKeys} {mazePath mazePath' : List Char}
  {source source' : Option SourceNetwork} {expires now : UInt64} {nonce : Nonce}

theorem length_bound : (crypto.bound keys source).2.length = 16 := by
  cases source with
  | none => rfl
  | some network => exact crypto.length_mac _

theorem length_header : (crypto.header keys source expires nonce).length = headerLen := by
  simp [header, length_bound, nonce.property, headerLen, tokenLen]

theorem length_computeTag (macKey header : List UInt8) :
    (crypto.computeTag macKey header mazePath).length = 16 := crypto.length_mac _

theorem length_corrupt (tag : List UInt8) : (corrupt tag).length = tag.length := by
  cases tag <;> rfl

/-- A tag that was tampered with is another one. -/
theorem corrupt_ne {tag : List UInt8} (nonempty : tag ≠ []) : corrupt tag ≠ tag := by
  cases tag with
  | nil => exact absurd rfl nonempty
  | cons first rest =>
    intro same
    have flipped : first ^^^ 1 = first := (List.cons.inj same).1
    have zero := congrArg (first ^^^ ·) flipped
    simp only [← UInt8.xor_assoc, UInt8.xor_self, UInt8.zero_xor] at zero
    exact absurd zero (by decide)

/-- The header of a token. -/
def tokenHeader (token : List Char) : List UInt8 :=
  ((Base32.decode token).getD []).take headerLen

theorem tokenHeader_build {corruptTag : Bool} :
    tokenHeader (crypto.build keys mazePath source expires corruptTag nonce) =
      crypto.header keys source expires nonce := by
  unfold tokenHeader build
  dsimp only
  rw [Base32.decode_encode, Option.getD_some, List.take_left' length_header]

/-- A token consists of symbols, none of which is a slash. -/
theorem slash_notMem_build {corruptTag : Bool} :
    '/' ∉ crypto.build keys mazePath source expires corruptTag nonce :=
  fun slash => absurd (Base32.mem_symbols_of_mem_encode slash) (by decide)

theorem build_ne_nil {corruptTag : Bool} :
    crypto.build keys mazePath source expires corruptTag nonce ≠ [] := by
  intro empty
  have header : tokenHeader (crypto.build keys mazePath source expires corruptTag nonce) =
      crypto.header keys source expires nonce := tokenHeader_build
  rw [empty] at header
  have long := congrArg List.length header
  rw [length_header] at long
  cases long

/-- The fields of a header, with what follows it. -/
theorem header_append (tag : List UInt8) :
    crypto.header keys source expires nonce ++ tag =
      tokenVersion :: (crypto.bound keys source).1 :: (Bytes.big 8 expires.toNat ++
        (nonce.val ++ ((crypto.bound keys source).2 ++ tag))) := by
  simp [header]

/-- The expiry lies where `classify` looks for it. -/
theorem time_header (tag : List UInt8) :
    UInt64.ofNat (Bytes.number
      (((crypto.header keys source expires nonce ++ tag).drop 2).take 8)) = expires := by
  rw [header_append, List.drop_succ_cons, List.drop_succ_cons, List.drop_zero,
    List.take_left' (Bytes.length_big 8 _), Bytes.number_big expires.toNat_lt]
  exact UInt64.ofNat_toNat

/-- The binding lies where `classify` looks for it. -/
theorem binding_header (tag : List UInt8) :
    ((crypto.header keys source expires nonce ++ tag).drop 26).take 16 =
      (crypto.bound keys source).2 := by
  have before : (tokenVersion :: (crypto.bound keys source).1 ::
      (Bytes.big 8 expires.toNat ++ nonce.val)).length = 26 := by
    simp [nonce.property]
  have split : crypto.header keys source expires nonce ++ tag =
      (tokenVersion :: (crypto.bound keys source).1 ::
        (Bytes.big 8 expires.toNat ++ nonce.val)) ++ ((crypto.bound keys source).2 ++ tag) := by
    rw [header_append]
    simp
  rw [split, List.drop_left' before, List.take_left' length_bound]

/-- What `classify` makes of a header that `build` wrote with some tag after it. -/
theorem classify_encode {tag : List UInt8} (long : tag.length = 16) :
    crypto.classify keys' mazePath'
        (Base32.encode (crypto.header keys source expires nonce ++ tag)) source' now =
      if tag ≠ crypto.computeTag keys'.macKey (crypto.header keys source expires nonce)
          mazePath' then
        .invalid
      else if expires < now then .expired
      else match source with
        | none => .unbound
        | some network =>
          if source'.any fun other => crypto.bindingValue keys.bindingKey network =
              crypto.bindingValue keys'.bindingKey other then .validReturn
          else .transfer := by
  have headerLong : (crypto.header keys source expires nonce).length = 42 := length_header
  have whole : (crypto.header keys source expires nonce ++ tag).length = tokenLen := by
    rw [List.length_append, headerLong, long]
    rfl
  have encodedLong : (Base32.encode (crypto.header keys source expires nonce ++ tag)).length =
      tokenEncodedLen := by
    rw [Base32.length_encode, whole]
    rfl
  have front : (crypto.header keys source expires nonce ++ tag).take headerLen =
      crypto.header keys source expires nonce := List.take_left' headerLong
  have back : (crypto.header keys source expires nonce ++ tag).drop headerLen = tag :=
    List.drop_left' headerLong
  have version : (crypto.header keys source expires nonce ++ tag).getD 0 0 = tokenVersion := by
    rw [header_append]
    rfl
  have flags : (crypto.header keys source expires nonce ++ tag).getD 1 0 =
      (crypto.bound keys source).1 := by
    rw [header_append]
    rfl
  unfold classify
  rw [if_neg (not_not.mpr encodedLong), Base32.decode_encode]
  dsimp only
  rw [if_neg (not_or.mpr ⟨not_not.mpr whole, not_not.mpr rfl⟩), version, flags, front, back,
    time_header, binding_header]
  have known : ¬ (tokenVersion ≠ tokenVersion ∨
      (crypto.bound keys source).1 &&& ~~~flagBound ≠ 0) := by
    refine not_or.mpr ⟨not_not.mpr rfl, not_not.mpr ?_⟩
    cases source with
    | none => exact (by decide : (0 : UInt8) &&& ~~~flagBound = 0)
    | some network => exact (by decide : flagBound &&& ~~~flagBound = 0)
  rw [if_neg known]
  cases source with
  | none =>
    have unbound : (crypto.bound keys none).1 &&& flagBound = 0 :=
      (by decide : (0 : UInt8) &&& flagBound = 0)
    rw [if_pos unbound]
  | some network =>
    have flagged : ¬ (crypto.bound keys (some network)).1 &&& flagBound = 0 :=
      (by decide : ¬ flagBound &&& flagBound = 0)
    rw [if_neg flagged]
    rfl

/-- Nobody returns from an unknown network. -/
theorem classify_none_ne {encoded : List Char} :
    crypto.classify keys mazePath encoded none now ≠ .validReturn := by
  have notBound : ∀ (raw : List UInt8), (if (none : Option SourceNetwork).any fun network =>
      (raw.drop 26).take 16 = crypto.bindingValue keys.bindingKey network then
        TokenClass.validReturn else .transfer) = .transfer := fun raw => rfl
  unfold classify
  intro returned
  simp only [notBound] at returned
  repeat' split at returned
  all_goals cases returned

/-- A minted token that is presented where it was minted for. -/
theorem classify_mint {network : SourceNetwork} :
    crypto.classify keys mazePath (crypto.mint keys mazePath (some network) expires nonce) source'
        now =
      if expires < now then .expired
      else if source'.any fun other => crypto.bindingValue keys.bindingKey network =
          crypto.bindingValue keys.bindingKey other then .validReturn
      else .transfer :=
  (classify_encode (length_computeTag _ _)).trans (if_neg (not_not.mpr rfl))

/-- A decoy is invalid where it was minted for, to everyone and at all times. -/
theorem classify_mintDecoy :
    crypto.classify keys mazePath (crypto.mintDecoy keys mazePath source expires nonce) source'
      now = .invalid := by
  have long : (crypto.computeTag keys.macKey (crypto.header keys source expires nonce)
      mazePath).length = 16 := length_computeTag _ _
  refine (classify_encode ((length_corrupt _).trans long)).trans (if_pos (corrupt_ne ?_))
  intro empty
  rw [empty] at long
  cases long

/-! ### Ideal functions -/

/-- HMAC and HKDF answer no two different questions, of those that are asked, alike. -/
structure Ideal (crypto : MazeCrypto) (asked : Set Question) (derived : Set (List UInt8)) :
    Prop where
  macs : Set.InjOn crypto.mac asked
  keys : Set.InjOn crypto.expand derived

variable {asked : Set Question} {derived : Set (List UInt8)}

/-- Two networks have different values that bind a token to them. -/
theorem Ideal.bindingValue_ne (ideal : Ideal crypto asked derived) {bindingKey : List UInt8}
    {network other : SourceNetwork} (different : network ≠ other)
    (posed : bindingQuestion bindingKey network ∈ asked)
    (posed' : bindingQuestion bindingKey other ∈ asked) :
    crypto.bindingValue bindingKey network ≠ crypto.bindingValue bindingKey other := by
  intro same
  have messages := congrArg Prod.snd (ideal.macs posed posed' same)
  have frames := List.append_cancel_left messages
  exact different (SourceNetwork.toBytes_inj (Bytes.bigFrame_inj frames))

end MazeCrypto

/-- Where a link leads: to a path of a maze on a host. -/
structure MazePlace where
  host : String
  name : String
  path : List Char
  deriving DecidableEq

namespace MazePlace

variable (crypto : MazeCrypto)

def keys (place : MazePlace) : MazeKeys := crypto.deriveMazeKeys place.host place.name

/-- What the tag of a header is at the place is among what is asked. -/
structure Poses (asked : Set Question) (derived : Set (List UInt8)) (header : List UInt8)
    (place : MazePlace) : Prop where
  tag : MazeCrypto.tagQuestion (place.keys crypto).macKey header place.path ∈ asked
  key : keyInfo "mac" place.host place.name ∈ derived

variable {crypto} {asked : Set Question} {derived : Set (List UInt8)} {header : List UInt8}
  {place other : MazePlace}

/-- A header has different tags at different places. -/
theorem computeTag_ne (ideal : crypto.Ideal asked derived) (fits : Framable place.host)
    (fits' : Framable other.host) (different : place ≠ other)
    (posed : place.Poses crypto asked derived header)
    (posed' : other.Poses crypto asked derived header) :
    crypto.computeTag (place.keys crypto).macKey header place.path ≠
      crypto.computeTag (other.keys crypto).macKey header other.path := by
  intro same
  have questions := ideal.macs posed.tag posed'.tag same
  have infos := ideal.keys posed.key posed'.key (congrArg Prod.fst questions)
  obtain ⟨hosts, names⟩ := keyInfo_inj fits fits' infos
  have frames := List.append_cancel_left (List.append_cancel_left (congrArg Prod.snd questions))
  have paths := String.ofList_injective (Bytes.ofText_inj (Bytes.bigFrame_inj frames))
  cases place
  cases other
  cases hosts
  cases names
  cases paths
  exact different rfl

/-- A token that was minted for one place is invalid at every other. -/
theorem classify_elsewhere (ideal : crypto.Ideal asked derived) (fits : Framable place.host)
    (fits' : Framable other.host) (different : place ≠ other)
    {source source' : Option SourceNetwork} {expires now : UInt64} {nonce : Nonce}
    (posed : place.Poses crypto asked derived
      (crypto.header (place.keys crypto) source expires nonce))
    (posed' : other.Poses crypto asked derived
      (crypto.header (place.keys crypto) source expires nonce)) :
    crypto.classify (other.keys crypto) other.path
        (crypto.mint (place.keys crypto) place.path source expires nonce) source' now = .invalid :=
  (MazeCrypto.classify_encode (MazeCrypto.length_computeTag _ _)).trans
    (if_pos (computeTag_ne ideal fits fits' different posed posed'))

end MazePlace

end Bagel
