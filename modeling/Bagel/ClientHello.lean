/-
This file models how the first message of a TLS client is captured, and proves that the
capture does not depend on how the stream of its bytes is cut into reads. The parser starts
over on every read, so what it decides on some bytes must hold whatever follows them.
-/

import Bagel.Cookies
import Bagel.Library.Sha256
import Bagel.Utf8
import Bagel.Wire

namespace Bagel

/-! ### Fields -/

/-- `is_grease` -/
def isGrease (value : UInt16) : Bool := value &&& 0x0F0F == 0x0A0A && value >>> 8 == value &&& 0xFF

inductive TlsVersion where
  | ssl2
  | ssl3
  | tls10
  | tls11
  | tls12
  | tls13
  | unknown
  deriving DecidableEq

namespace TlsVersion

def ofU16 (version : UInt16) : TlsVersion :=
  if version = 0x0304 then tls13
  else if version = 0x0303 then tls12
  else if version = 0x0302 then tls11
  else if version = 0x0301 then tls10
  else if version = 0x0300 then ssl3
  else if version = 0x0002 then ssl2
  else unknown

def text : TlsVersion → String
  | tls13 => "13"
  | tls12 => "12"
  | tls11 => "11"
  | tls10 => "10"
  | ssl3 => "s3"
  | ssl2 => "s2"
  | unknown => "00"

end TlsVersion

/-- The numbers of cipher suites, extensions, groups and signature algorithms. -/
abbrev Identifiers := List UInt16

namespace Identifiers

/-- Two bytes each, and none left over. -/
def pairs : List UInt8 → Option (List UInt16)
  | [] => some []
  | [_] => none
  | high :: low :: rest => (pairs rest).map (UInt16.ofNat (Bytes.number [high, low]) :: ·)

def tryFrom (data : List UInt8) : Except CaptureError Identifiers :=
  match pairs data with
  | none => .error .invalid
  | some values =>
    if 1024 < data.length then .error .limited
    else .ok (values.filter fun value => !isGrease value)

/-- Four digits each, with commas between them. -/
def text (identifiers : Identifiers) : List Char :=
  [','].intercalate (identifiers.map fun value => hexEncode (Bytes.big 2 value.toNat))

end Identifiers

inductive ExtensionKind where
  | serverName
  | supportedGroups
  | pointFormats
  | signatureAlgorithms
  | alpn
  | supportedVersions
  | unknown
  deriving DecidableEq

def ExtensionKind.ofU16 (kind : UInt16) : ExtensionKind :=
  if kind = 0x0000 then serverName
  else if kind = 0x000A then supportedGroups
  else if kind = 0x000B then pointFormats
  else if kind = 0x000D then signatureAlgorithms
  else if kind = 0x0010 then alpn
  else if kind = 0x002B then supportedVersions
  else unknown

/-- `str::from_utf8`: nothing had to be replaced. -/
def fromUtf8 (bytes : List UInt8) : Option (List Char) :=
  let text := fromUtf8Lossy bytes
  if Bytes.ofText (String.ofList text) = bytes then some text else none

structure ClientHello where
  ja4 : List Char
  tlsVersion : TlsVersion
  cipherSuites : Identifiers
  extensions : Identifiers
  ellipticCurves : Identifiers
  ecPointFormats : List UInt8
  sni : List Char
  alpn : List (List UInt8)
  signatureAlgorithms : Identifiers

namespace ClientHello

def maxCapture : Nat := 64 * 1024

/-! ### The fingerprint -/

def isAsciiAlphanumeric (byte : UInt8) : Bool := (Char.ofUInt8 byte).isAlphanum

/-- `alpn_tag` -/
def alpnTag (protocol : List UInt8) : List Char :=
  match protocol.head?, protocol.getLast? with
  | some first, some last =>
    if isAsciiAlphanumeric first && isAsciiAlphanumeric last then
      [Char.ofUInt8 first, Char.ofUInt8 last]
    else [hexDigit (first.toNat / 16), hexDigit (last.toNat % 16)]
  | _, _ => ['0', '0']

/-- A count in two digits. -/
def twoDigits (count : Nat) : List Char :=
  [Nat.digitChar (min count 99 / 10), Nat.digitChar (min count 99 % 10)]

variable (sha256 : List UInt8 → Vector UInt8 32)

/-- `truncated_hash` -/
def truncatedHash (value : List Char) : List Char :=
  if value.isEmpty then List.replicate 12 '0'
  else hexEncode ((sha256 (Bytes.ofText (String.ofList value))).toList.take 6)

def sorted (identifiers : Identifiers) : Identifiers := identifiers.mergeSort

def computeJa4 (hello : ClientHello) : List Char :=
  let sniFlag := if hello.extensions.contains 0 then 'd' else 'i'
  let cipherHash := truncatedHash sha256 (sorted hello.cipherSuites).text
  let sortedExts := sorted (hello.extensions.filter fun kind => !(kind == 0 || kind == 16))
  let extStr :=
    if !sortedExts.text.isEmpty && !hello.signatureAlgorithms.isEmpty then
      sortedExts.text ++ ['_'] ++ hello.signatureAlgorithms.text
    else sortedExts.text
  ['t'] ++ hello.tlsVersion.text.toList ++ [sniFlag] ++ twoDigits hello.cipherSuites.length ++
    twoDigits hello.extensions.length ++ alpnTag (hello.alpn.headD []) ++ ['_'] ++ cipherHash ++
    ['_'] ++ truncatedHash sha256 extStr

/-! ### Extensions -/

/-- One name of the list, with the types that were there before. -/
def serverName (state : List UInt8 × ClientHello) : Cursor (List UInt8 × ClientHello) :=
  fun names => do
    let (nameType, names) ← Cursor.byte names
    let (name, names) ← Cursor.vectorU16 names
    if name.isEmpty || state.1.contains nameType then .error .invalid
    else if nameType = 0 then
      match fromUtf8 name with
      | none => .error .invalid
      | some sni => .ok ((nameType :: state.1, { state.2 with sni }), names)
    else .ok ((nameType :: state.1, state.2), names)

/-- One protocol of the list. -/
def protocol (hello : ClientHello) : Cursor ClientHello := fun protocols => do
  let (protocol, protocols) ← Cursor.vectorU8 protocols
  if protocol.isEmpty then .error .invalid
  else if protocol.length = 2 && isGrease (UInt16.ofNat (Bytes.number protocol)) then
    .ok (hello, protocols)
  else .ok ({ hello with alpn := hello.alpn ++ [protocol] }, protocols)

/-- The payload of an extension, which is a list with its length in front. -/
def payload (kind : ExtensionKind) (data : List UInt8) : Except CaptureError (List UInt8) := do
  let (payload, rest) ←
    match kind with
    | .pointFormats | .supportedVersions => Cursor.vectorU8 data
    | _ => Cursor.vectorU16 data
  Cursor.finish rest
  if payload.isEmpty then .error .invalid else .ok payload

def extension (hello : ClientHello) (kind : ExtensionKind) (data : List UInt8) :
    Except CaptureError ClientHello :=
  match kind with
  | .unknown => .ok hello
  | .serverName => do
    let payload ← payload .serverName data
    let (_, hello) ← Cursor.whileSome serverName ([], hello) payload
    return hello
  | .supportedGroups => do
    let ellipticCurves ← Identifiers.tryFrom (← payload .supportedGroups data)
    return { hello with ellipticCurves }
  | .pointFormats => do
    let ecPointFormats ← payload .pointFormats data
    return { hello with ecPointFormats }
  | .signatureAlgorithms => do
    let signatureAlgorithms ← Identifiers.tryFrom (← payload .signatureAlgorithms data)
    return { hello with signatureAlgorithms }
  | .alpn => do
    let payload ← payload .alpn data
    if 2048 < data.length then .error .limited
    else Cursor.whileSome protocol hello payload
  | .supportedVersions => do
    let versions ← Identifiers.tryFrom (← payload .supportedVersions data)
    -- The highest version that the client supports counts.
    match versions.max? with
    | none => .error .invalid
    | some version => return { hello with tlsVersion := .ofU16 version }

/-- One extension, with the kinds that were there before. -/
def nextExtension (state : List UInt16 × ClientHello) : Cursor (List UInt16 × ClientHello) :=
  fun extensions => do
    let (kind, extensions) ← Cursor.u16 extensions
    let (data, extensions) ← Cursor.vectorU16 extensions
    if state.1.contains kind then .error .invalid
    else if 512 < state.1.length + 1 then .error .limited
    else
      let hello :=
        if isGrease kind then state.2
        else { state.2 with extensions := state.2.extensions ++ [kind] }
      let hello ← hello.extension (.ofU16 kind) data
      return ((kind :: state.1, hello), extensions)

/-- The extensions at the end of the message, which may be missing as a whole. -/
def readExtensions (hello : ClientHello) (input : List UInt8) :
    Except CaptureError ClientHello :=
  if input.isEmpty then .ok hello
  else do
    let (extensions, input) ← Cursor.vectorU16 input
    Cursor.finish input
    let (_, hello) ← Cursor.whileSome nextExtension ([], hello) extensions
    return hello

/-! ### Every pass takes something -/

theorem advances_serverName (state : List UInt8 × ClientHello) :
    Cursor.Advances (serverName state) := by
  intro remaining value rest read
  obtain ⟨first, nameType, read⟩ := Cursor.bind_eq_ok read
  obtain ⟨second, name, read⟩ := Cursor.bind_eq_ok read
  have left : rest = second.2 := by
    dsimp only at read
    split_ifs at read
    · split at read
      · cases read
      · cases read
        rfl
    · cases read
      rfl
  rw [left]
  exact (Cursor.advances_vectorU16 name).trans (Cursor.advances_byte nameType)

theorem advances_protocol (hello : ClientHello) : Cursor.Advances (protocol hello) := by
  intro remaining value rest read
  obtain ⟨first, protocol, read⟩ := Cursor.bind_eq_ok read
  have left : rest = first.2 := by
    dsimp only at read
    split_ifs at read <;> cases read <;> rfl
  rw [left]
  exact Cursor.advances_vectorU8 protocol

theorem advances_nextExtension (state : List UInt16 × ClientHello) :
    Cursor.Advances (nextExtension state) := by
  intro remaining value rest read
  obtain ⟨first, kind, read⟩ := Cursor.bind_eq_ok read
  obtain ⟨second, data, read⟩ := Cursor.bind_eq_ok read
  have left : rest = second.2 := by
    dsimp only at read
    split_ifs at read
    all_goals
      obtain ⟨hello, _, read⟩ := Cursor.bind_eq_ok read
      cases read
      rfl
  rw [left]
  exact (Cursor.advances_vectorU16 data).trans (Cursor.advances_u16 kind)

/-- The loops of the source have no bound on their passes. That of the model is never met: with more
passes the names, the protocols and the extensions are read alike. -/
theorem loops_are_unbounded {passes : Nat} {remaining : List UInt8}
    (enough : remaining.length ≤ passes) :
    (∀ state, Cursor.loop serverName passes state remaining =
        Cursor.whileSome serverName state remaining) ∧
      (∀ state, Cursor.loop protocol passes state remaining =
        Cursor.whileSome protocol state remaining) ∧
      ∀ state, Cursor.loop nextExtension passes state remaining =
        Cursor.whileSome nextExtension state remaining :=
  ⟨Cursor.loop_eq_whileSome advances_serverName enough,
    Cursor.loop_eq_whileSome advances_protocol enough,
    Cursor.loop_eq_whileSome advances_nextExtension enough⟩

/-! ### The message -/

def decode (body : List UInt8) : Except CaptureError ClientHello := do
  let (version, input) ← Cursor.u16 body
  let (_, input) ← Cursor.take 32 input
  let (session, input) ← Cursor.vectorU8 input
  if 32 < session.length then .error .invalid
  else
    let (cipherBytes, input) ← Cursor.vectorU16 input
    if cipherBytes.isEmpty then .error .invalid
    else
      let cipherSuites ← Identifiers.tryFrom cipherBytes
      let (compression, input) ← Cursor.vectorU8 input
      if compression.isEmpty then .error .invalid
      else
        let hello : ClientHello :=
          { ja4 := [], tlsVersion := .ofU16 version, cipherSuites, extensions := []
            ellipticCurves := [], ecPointFormats := [], sni := [], alpn := []
            signatureAlgorithms := [] }
        let hello ← hello.readExtensions input
        return { hello with ja4 := computeJa4 sha256 hello }

/-- What the handshake bytes of the records so far decide, if anything. -/
def message (handshake : List UInt8) : Option (Except CaptureError ClientHello) :=
  match handshake with
  | kind :: high :: middle :: low :: rest =>
    if kind ≠ 1 then some (.error .invalid)
    else
      let bodyLength := Bytes.number [high, middle, low]
      if maxCapture < bodyLength + 4 then some (.error .limited)
      else if bodyLength ≤ rest.length then some (decode sha256 (rest.take bodyLength))
      else none
  | _ => none

/-- The content of the record that `remaining` starts with, at the end of `size` bytes. -/
def nextRecord (size : Nat) : Cursor (List UInt8) := fun remaining =>
  match remaining with
  | kind :: _ :: _ :: high :: low :: rest =>
    let length := Bytes.number [high, low]
    if kind ≠ 0x16 then .error .invalid
    else if ¬(1 ≤ length ∧ length ≤ 16384) then .error .invalid
    else if maxCapture < size - rest.length + length then .error .limited
    else if rest.length < length then .error .incomplete
    else .ok (rest.take length, rest.drop length)
  | _ => .error .incomplete

theorem advances_nextRecord (size : Nat) : Cursor.Advances (nextRecord size) := by
  intro remaining fragment rest read
  unfold nextRecord at read
  split at read
  · dsimp only at read
    split_ifs at read
    cases read
    simp only [List.length_cons, List.length_drop]
    omega
  · cases read

/-- The loop over the records, with the handshake bytes of those before. -/
def gather (size : Nat) (remaining handshake : List UInt8) : Except CaptureError ClientHello :=
  match read : nextRecord size remaining with
  | .error error => .error error
  | .ok (fragment, rest) =>
    have := advances_nextRecord size read
    match message sha256 (handshake ++ fragment) with
    | some result => result
    | none => gather size rest (handshake ++ fragment)
termination_by remaining.length

/-- `ClientHello::try_from` -/
def tryFrom (data : List UInt8) : Except CaptureError ClientHello :=
  if data.length < 11 then .error .incomplete else gather sha256 data.length data []

/-! ### Prefixes -/

section

variable {sha256} {size : Nat} {remaining handshake : List UInt8}

theorem gather_error {error : CaptureError} (read : nextRecord size remaining = .error error) :
    gather sha256 size remaining handshake = .error error := by
  rw [gather]
  split
  · next other read' => rw [read] at read'; cases read'; rfl
  · next read' => rw [read] at read'; cases read'

theorem gather_ok {fragment rest : List UInt8}
    (read : nextRecord size remaining = .ok (fragment, rest)) :
    gather sha256 size remaining handshake =
      match message sha256 (handshake ++ fragment) with
      | some result => result
      | none => gather sha256 size rest (handshake ++ fragment) := by
  rw [gather]
  split
  · next other read' => rw [read] at read'; cases read'
  · next read' => rw [read] at read'; cases read'; rfl

/-- A whole record, or an error, does not depend on what comes after it. -/
theorem nextRecord_append (later : List UInt8)
    (decided : nextRecord size remaining ≠ .error .incomplete) :
    nextRecord (size + later.length) (remaining ++ later) =
      (nextRecord size remaining).map fun read => (read.1, read.2 ++ later) := by
  unfold nextRecord at decided ⊢
  split at decided
  · next kind _ _ high low rest =>
    have consumed : size + later.length - (rest ++ later).length = size - rest.length := by
      rw [List.length_append, Nat.add_sub_add_right]
    simp only [List.cons_append, consumed]
    split
    · rfl
    · next handshake =>
      rw [if_neg handshake] at decided
      split
      · rfl
      · next fits =>
        rw [if_neg fits] at decided
        split
        · rfl
        · next small =>
          rw [if_neg small] at decided
          split at decided
          · exact absurd rfl decided
          · next whole =>
            have whole' : ¬(rest ++ later).length < Bytes.number [high, low] := by
              rw [List.length_append]
              omega
            rw [if_neg whole', if_neg whole, List.take_append_of_le_length (by omega),
              List.drop_append_of_le_length (by omega)]
            rfl
  · exact absurd rfl decided

/-- What the records decide does not depend on what comes after them. -/
theorem gather_append (later : List UInt8)
    (decided : gather sha256 size remaining handshake ≠ .error .incomplete) :
    gather sha256 (size + later.length) (remaining ++ later) handshake =
      gather sha256 size remaining handshake := by
  induction remaining, handshake using gather.induct sha256 size with
  | case1 remaining handshake error read =>
    rw [gather_error read] at decided ⊢
    have decisive : nextRecord size remaining ≠ .error .incomplete := by
      rw [read]
      rintro ⟨⟩
      exact decided rfl
    have whole := nextRecord_append later decisive
    rw [read] at whole
    exact gather_error whole
  | case2 remaining handshake fragment rest read _ result settled =>
    rw [gather_ok read, settled]
    have whole := nextRecord_append later (by rw [read]; nofun)
    rw [read] at whole
    rw [gather_ok whole, settled]
  | case3 remaining handshake fragment rest read _ unsettled inductionHypothesis =>
    rw [gather_ok read, unsettled] at decided ⊢
    have whole := nextRecord_append later (by rw [read]; nofun)
    rw [read] at whole
    rw [gather_ok whole, unsettled]
    exact inductionHypothesis decided

/-- What is decided on some bytes holds for everything that starts with them. -/
theorem tryFrom_append {data : List UInt8} (later : List UInt8)
    (decided : tryFrom sha256 data ≠ .error .incomplete) :
    tryFrom sha256 (data ++ later) = tryFrom sha256 data := by
  unfold tryFrom at decided ⊢
  split at decided
  · exact absurd rfl decided
  · next enough =>
    have enough' : ¬(data ++ later).length < 11 := by
      rw [List.length_append]
      omega
    rw [if_neg enough', if_neg enough, List.length_append]
    exact gather_append later decided

end

/-! ### Reads -/

/-- How many bytes a read returns that asked for some: at least one as long as the stream has
not ended, and at most as many as there are. -/
def readLength (available asked : Nat) (rest : List UInt8) : Nat :=
  min (min (max 1 available) asked) rest.length

/-- `fill_client_hello` on what was peeked at and what is left of the stream, for a way to cut
the stream: how many bytes are there for a read at a given place. -/
def fillClientHello (cut : Nat → Nat) (peeked rest : List UInt8) : Capture ClientHello :=
  match tryFrom sha256 peeked with
  | .ok hello => .complete hello
  | .error .incomplete =>
    if maxCapture ≤ peeked.length then .failed .limited
    else
      let count := readLength (cut peeked.length) (min 4096 (maxCapture - peeked.length)) rest
      if count = 0 then .failed .incomplete
      else fillClientHello cut (peeked ++ rest.take count) (rest.drop count)
  | .error error => .failed error
termination_by rest.length
decreasing_by
  have bounds : readLength (cut peeked.length) (min 4096 (maxCapture - peeked.length)) rest ≤
    rest.length := Nat.min_le_right _ _
  rw [List.length_drop]
  omega

/-- What the first bytes of a stream come to. -/
def capture (stream : List UInt8) : Capture ClientHello :=
  match tryFrom sha256 (stream.take maxCapture) with
  | .ok hello => .complete hello
  | .error .incomplete =>
    if maxCapture ≤ stream.length then .failed .limited else .failed .incomplete
  | .error error => .failed error

variable {sha256} {cut : Nat → Nat} {peeked rest : List UInt8}

theorem take_maxCapture (few : peeked.length ≤ maxCapture) :
    (peeked ++ rest).take maxCapture = peeked ++ rest.take (maxCapture - peeked.length) := by
  rw [List.take_append, List.take_of_length_le few]

/-- Once the bytes that were read decide, those that were not make no difference. -/
theorem fillClientHello_of_decided (few : peeked.length ≤ maxCapture)
    (decided : tryFrom sha256 peeked ≠ .error .incomplete) :
    fillClientHello sha256 cut peeked rest = capture sha256 (peeked ++ rest) := by
  have same := tryFrom_append (rest.take (maxCapture - peeked.length)) decided
  rw [← take_maxCapture few] at same
  rw [fillClientHello, capture, same]
  split
  · rfl
  · next undecided => exact absurd undecided decided
  · rfl

theorem readLength_eq_zero {available asked : Nat} (some : 0 < asked) :
    readLength available asked rest = 0 ↔ rest = [] := by
  rw [← List.length_eq_zero_iff, readLength]
  omega

/-- Whatever the reads return, the capture is that of the stream. -/
theorem fillClientHello_eq (few : peeked.length ≤ maxCapture) :
    fillClientHello sha256 cut peeked rest = capture sha256 (peeked ++ rest) := by
  induction peeked, rest using fillClientHello.induct sha256 cut with
  | case1 peeked rest hello decided =>
    exact fillClientHello_of_decided few (by rw [decided]; nofun)
  | case2 peeked rest undecided full =>
    have whole : (peeked ++ rest).take maxCapture = peeked := List.take_left' (by omega)
    rw [fillClientHello, capture, whole, undecided]
    dsimp only
    rw [if_pos full, if_pos (by rw [List.length_append]; omega)]
  | case3 peeked rest undecided room count ended =>
    have nothing : rest = [] := (readLength_eq_zero (by omega)).mp ended
    have whole : peeked.take maxCapture = peeked := List.take_of_length_le few
    rw [fillClientHello, capture, nothing, List.append_nil, whole, undecided]
    dsimp only
    rw [if_neg room, if_pos ((readLength_eq_zero (by omega)).mpr rfl), if_neg room]
  | case4 peeked rest undecided room count more inductionHypothesis =>
    have asked : count ≤ maxCapture - peeked.length := by
      simp only [count, readLength]
      omega
    have next := inductionHypothesis (by rw [List.length_append, List.length_take]; omega)
    rw [List.append_assoc, List.take_append_drop] at next
    rw [fillClientHello, undecided]
    dsimp only
    rw [if_neg room, if_neg more]
    exact next
  | case5 peeked rest error decided undecided =>
    exact fillClientHello_of_decided few (by rw [undecided]; rintro ⟨⟩; exact decided rfl)

end ClientHello

/-- The bytes that are peeked at before the first message is waited for are this many at most. -/
def firstPeek : Nat := 1500

open ClientHello in
/-- What some bytes decide holds whatever follows them, and the capture of a stream is the same
however it is cut into reads, whatever of it was peeked at before. -/
theorem clientHello_of_stream (sha256 : List UInt8 → Vector UInt8 32) :
    (∀ data later : List UInt8, tryFrom sha256 data ≠ .error .incomplete →
      tryFrom sha256 (data ++ later) = tryFrom sha256 data) ∧
      ∀ (cut cut' : Nat → Nat) (peeked rest peeked' rest' : List UInt8),
        peeked.length ≤ firstPeek → peeked'.length ≤ firstPeek →
        peeked ++ rest = peeked' ++ rest' →
        fillClientHello sha256 cut peeked rest = fillClientHello sha256 cut' peeked' rest' := by
  refine ⟨fun data later decided => tryFrom_append later decided, ?_⟩
  intro cut cut' peeked rest peeked' rest' few few' same
  have within : firstPeek ≤ maxCapture := by decide
  rw [fillClientHello_eq (few.trans within), fillClientHello_eq (few'.trans within), same]

namespace SampleHello

open ClientHello

/-- A hello with one cipher suite and no extensions, in one record. -/
def hello : List UInt8 :=
  [0x16, 3, 1, 0, 0x2d, 1, 0, 0, 0x29, 3, 3] ++ List.replicate 32 7 ++ [0, 0, 2, 0x13, 1, 1, 0]

theorem decided : tryFrom Sha256.hash hello ≠ .error .incomplete := by
  have read : nextRecord hello.length hello = .ok (hello.drop 5, []) := by decide
  have whole : ∃ fields, message Sha256.hash (hello.drop 5) = some (.ok fields) := ⟨_, rfl⟩
  obtain ⟨fields, settled⟩ := whole
  have parsed : tryFrom Sha256.hash hello = .ok fields := by
    rw [tryFrom, if_neg (by decide), gather_ok read, List.nil_append, settled]
  rw [parsed]
  nofun

/-- The hello in front of other bytes, byte by byte after three of them, and in one read. -/
theorem clientHello_of_hello :
    tryFrom Sha256.hash (hello ++ [0x17, 3]) = tryFrom Sha256.hash hello ∧
      fillClientHello Sha256.hash (fun _ => 1) (hello.take 3) (hello.drop 3) =
        fillClientHello Sha256.hash (fun _ => 4096) [] hello :=
  ⟨(clientHello_of_stream Sha256.hash).1 hello [0x17, 3] decided,
    (clientHello_of_stream Sha256.hash).2 _ _ _ _ _ _ (by decide) (by decide) rfl⟩

end SampleHello

end Bagel
