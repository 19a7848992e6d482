/-
This file models `proxy_protocol.rs`, `peek.rs` and the preface of a connection in `listen.rs`:
the header in which a proxy names the client, and the stream that gives back what was looked
at. The parser of the headers is that of the `ppp` crate, which is a parameter here with what
the protocol asks of it.

Whatever way the stream is cut, a header of up to 536 bytes is taken and the rest is left. A
longer one is taken only if the read that fills the buffer beyond that brings all of it.
-/

import Bagel.AddressTexts
import Bagel.ClientHello

namespace Bagel

structure SocketAddr where
  ip : IpAddr
  port : UInt16
  deriving DecidableEq

/-! ### The stream -/

/-- `PeekStream`: what is still to come, what was looked at, and how much of that was returned. -/
structure PeekStream where
  inner : List UInt8
  buffer : List UInt8
  replayPos : Nat

namespace PeekStream

/-- `PeekStream::new` -/
def new (inner : List UInt8) : PeekStream := ⟨inner, [], 0⟩

/-- `peek`, with so many bytes at hand for the read. -/
def peek (stream : PeekStream) (available maxBytes : Nat) : PeekStream :=
  let count := ClientHello.readLength available maxBytes stream.inner
  { stream with inner := stream.inner.drop count, buffer := stream.inner.take count }

/-- `peek_more` -/
def peekMore (stream : PeekStream) (available maxBytes : Nat) : Nat × PeekStream :=
  let count := ClientHello.readLength available maxBytes stream.inner
  (count, { stream with
    inner := stream.inner.drop count
    buffer := stream.buffer ++ stream.inner.take count })

/-- `advance` -/
def advance (stream : PeekStream) (count : Nat) : PeekStream :=
  { stream with
    buffer := if stream.buffer.length ≤ count then [] else stream.buffer.drop count
    replayPos := 0 }

/-- `poll_read`, for a reader with some room. -/
def pollRead (stream : PeekStream) (available room : Nat) : List UInt8 × PeekStream :=
  if stream.replayPos < stream.buffer.length then
    let bytes := (stream.buffer.drop stream.replayPos).take room
    (bytes, { stream with replayPos := stream.replayPos + bytes.length })
  else
    let count := ClientHello.readLength available room stream.inner
    (stream.inner.take count, { stream with inner := stream.inner.drop count })

/-- The bytes that were not returned yet. -/
def unread (stream : PeekStream) : List UInt8 :=
  stream.buffer.drop stream.replayPos ++ stream.inner

/-- Reads one after another, each with the bytes at hand and the room. -/
def pollReads (stream : PeekStream) : List (Nat × Nat) → List UInt8 × PeekStream
  | [] => ([], stream)
  | (available, room) :: rest =>
    let (bytes, stream) := stream.pollRead available room
    let (others, stream) := stream.pollReads rest
    (bytes ++ others, stream)

/-- Reads return these bytes in order, and nothing only once they have returned them all. -/
def Replays (stream : PeekStream) (bytes : List UInt8) : Prop :=
  ∀ asks, (stream.pollReads asks).1 <+: bytes ∧
    ∀ available room, 0 < room →
      ((stream.pollReads asks).2.pollRead available room).1 = [] →
        (stream.pollReads asks).1 = bytes

theorem pollRead_append (stream : PeekStream) (available room : Nat) :
    (stream.pollRead available room).1 ++ (stream.pollRead available room).2.unread =
      stream.unread := by
  unfold pollRead
  split
  · dsimp only [unread]
    rw [← List.append_assoc, List.length_take, ← List.drop_drop]
    congr 1
    generalize stream.buffer.drop stream.replayPos = bytes
    rcases Nat.le_total room bytes.length with less | more
    · rw [Nat.min_eq_left less, List.take_append_drop]
    · rw [Nat.min_eq_right more, List.take_of_length_le more, List.drop_length, List.append_nil]
  · next replayed =>
    dsimp only [unread]
    rw [List.drop_of_length_le (Nat.not_lt.mp replayed), List.nil_append, List.nil_append,
      List.take_append_drop]

theorem pollRead_eq_nil {stream : PeekStream} {available room : Nat} (positive : 0 < room)
    (nothing : (stream.pollRead available room).1 = []) : stream.unread = [] := by
  unfold pollRead at nothing
  split at nothing
  · next left =>
    have short := congrArg List.length nothing
    rw [List.length_take, List.length_drop, List.length_nil] at short
    omega
  · next replayed =>
    have short := congrArg List.length nothing
    rw [List.length_take, List.length_nil] at short
    have ended : stream.inner = [] := by
      by_contra more
      have some := List.length_pos_of_ne_nil more
      unfold ClientHello.readLength at short
      omega
    rw [unread, ended, List.drop_of_length_le (Nat.not_lt.mp replayed)]
    rfl

theorem pollReads_append (stream : PeekStream) (asks : List (Nat × Nat)) :
    (stream.pollReads asks).1 ++ (stream.pollReads asks).2.unread = stream.unread := by
  induction asks generalizing stream with
  | nil => rfl
  | cons ask rest inductionHypothesis =>
    obtain ⟨available, room⟩ := ask
    rw [pollReads]
    dsimp only
    rw [List.append_assoc, inductionHypothesis, pollRead_append]

/-- What was not returned yet is what reads return. -/
theorem replays_unread (stream : PeekStream) : stream.Replays stream.unread := by
  intro asks
  have whole := stream.pollReads_append asks
  refine ⟨⟨_, whole⟩, fun available room positive nothing => ?_⟩
  rw [pollRead_eq_nil positive nothing, List.append_nil] at whole
  exact whole

end PeekStream

/-! ### Headers -/

namespace ProxyProtocol

/-- The two ends that a header names, as the structures of the `ppp` crate keep them. -/
structure Ends (width : Nat) where
  sourceAddress : BitVec width
  destinationAddress : BitVec width
  sourcePort : UInt16
  destinationPort : UInt16
  deriving DecidableEq

/-- `v1::Addresses` -/
inductive LineAddresses where
  | tcp4 (ends : Ends 32)
  | tcp6 (ends : Ends 128)
  | unknown
  deriving DecidableEq

/-- `v2::Command` -/
inductive Command where
  | «local»
  | proxy
  deriving DecidableEq

/-- `v2::Addresses` -/
inductive BlockAddresses where
  | unspecified
  | ipv4 (ends : Ends 32)
  | ipv6 (ends : Ends 128)
  | unix (source destination : List UInt8)
  deriving DecidableEq

/-- `HeaderResult`: a header of either version with its bytes, or why there is none yet or none
at all. -/
inductive HeaderResult where
  | v1 (header : List UInt8) (addresses : LineAddresses)
  | v2 (header : List UInt8) (command : Command) (addresses : BlockAddresses)
  | incomplete
  | invalid
  deriving DecidableEq

/-- `Parsed` -/
inductive Parsed where
  | complete (source : Option SocketAddr) (consumed : Nat)
  | incomplete
  | notProxy
  deriving DecidableEq

def Ends.sourceV4 (ends : Ends 32) : SocketAddr := ⟨.v4 ends.sourceAddress, ends.sourcePort⟩

def Ends.sourceV6 (ends : Ends 128) : SocketAddr := ⟨.v6 ends.sourceAddress, ends.sourcePort⟩

def LineAddresses.source : LineAddresses → Option SocketAddr
  | tcp4 ends => some ends.sourceV4
  | tcp6 ends => some ends.sourceV6
  | unknown => none

def BlockAddresses.source : BlockAddresses → Option SocketAddr
  | ipv4 ends => some ends.sourceV4
  | ipv6 ends => some ends.sourceV6
  | _ => none

/-- `parse`, on what the parser of the `ppp` crate says of the buffer. -/
def parse (headerResult : List UInt8 → HeaderResult) (buffer : List UInt8) : Parsed :=
  match headerResult buffer with
  | .incomplete => .incomplete
  | .v1 header addresses => .complete addresses.source header.length
  -- The command is not looked at.
  | .v2 header _ addresses => .complete addresses.source header.length
  | .invalid => .notProxy

/-- `build_v1` -/
def buildV1 (src dst : SocketAddr) : String :=
  let line (proto : String) :=
    "PROXY " ++ proto ++ " " ++ src.ip.text ++ " " ++ dst.ip.text ++ " " ++
      toString src.port.toNat ++ " " ++ toString dst.port.toNat ++ "\r\n"
  match src.ip, dst.ip with
  | .v4 _, .v4 _ => line "TCP4"
  | .v6 _, .v6 _ => line "TCP6"
  | _, _ => "PROXY UNKNOWN\r\n"

/-- The first bytes of a header of the second version. -/
def signature : List UInt8 := [13, 10, 13, 10, 0, 13, 10, 0x51, 0x55, 0x49, 0x54, 10]

/-- `build_v2` -/
def buildV2 (src dst : SocketAddr) : List UInt8 :=
  let ports := Bytes.big 2 src.port.toNat ++ Bytes.big 2 dst.port.toNat
  signature ++ match src.ip, dst.ip with
    | .v4 s, .v4 d =>
      [0x21, 0x11] ++ Bytes.big 2 12 ++ Bytes.big 4 s.toNat ++ Bytes.big 4 d.toNat ++ ports
    | .v6 s, .v6 d =>
      [0x21, 0x21] ++ Bytes.big 2 36 ++ Bytes.big 16 s.toNat ++ Bytes.big 16 d.toNat ++ ports
    | _, _ => [0x20, 0x00] ++ Bytes.big 2 0

/-! ### The protocol -/

/-- The port of a line, in decimal without a zero in front. -/
def readPort (text : List Char) : Option UInt16 :=
  (Parser.whole (Parser.number 10 5 65536 false) text).map UInt16.ofNat

/-- The two ends on a line. -/
def readEnds {width : Nat} (readAddress : List Char → Option (BitVec width)) :
    List (List Char) → Option (Ends width)
  | [source, destination, sourcePort, destinationPort] => do
    let sourceAddress ← readAddress source
    let destinationAddress ← readAddress destination
    let sourcePort ← readPort sourcePort
    let destinationPort ← readPort destinationPort
    return { sourceAddress, destinationAddress, sourcePort, destinationPort }
  | _ => none

/-- What a line of the first version says. Whatever stands behind `UNKNOWN` is ignored. -/
def readLine (line : List Char) : Option LineAddresses :=
  match line.splitOn ' ' with
  | mark :: proto :: rest =>
    if mark = "PROXY".toList then
      if proto = "TCP4".toList then (readEnds parseIpv4 rest).map .tcp4
      else if proto = "TCP6".toList then (readEnds parseIpv6 rest).map .tcp6
      else if proto = "UNKNOWN".toList then some .unknown
      else none
    else none
  | _ => none

def readCommand (versionCommand : UInt8) : Option Command :=
  if versionCommand = 0x20 then some .local
  else if versionCommand = 0x21 then some .proxy
  else none

/-- The two ends in a block, behind which other data may follow. -/
def blockEnds (octets : Nat) {width : Nat} (block : List UInt8) : Option (Ends width) :=
  if block.length < 2 * octets + 4 then none
  else
    let field (start count : Nat) := Bytes.number ((block.drop start).take count)
    some {
      sourceAddress := BitVec.ofNat width (field 0 octets)
      destinationAddress := BitVec.ofNat width (field octets octets)
      sourcePort := UInt16.ofNat (field (2 * octets) 2)
      destinationPort := UInt16.ofNat (field (2 * octets + 2) 2) }

/-- What the block of a header of the second version says, by its family and protocol. -/
def readBlock (familyProtocol : UInt8) (block : List UInt8) : Option BlockAddresses :=
  if familyProtocol = 0x00 then some .unspecified
  else if familyProtocol = 0x11 ∨ familyProtocol = 0x12 then (blockEnds 4 block).map .ipv4
  else if familyProtocol = 0x21 ∨ familyProtocol = 0x22 then (blockEnds 16 block).map .ipv6
  else if familyProtocol = 0x31 ∨ familyProtocol = 0x32 then
    if block.length < 216 then none
    else some (.unix (block.take 108) ((block.drop 108).take 108))
  else none

/-- The end of a line. -/
def lineEnd : List UInt8 := [13, 10]

/-- The longest header of the first version. -/
def maxLine : Nat := 107

/-- A header of the second version around its block. -/
def wrapBlock (versionCommand familyProtocol : UInt8) (block : List UInt8) : List UInt8 :=
  signature ++ (versionCommand :: familyProtocol :: (Bytes.big 2 block.length ++ block))

/-- The bytes of a complete header, and what they say. -/
inductive Complete : List UInt8 → HeaderResult → Prop where
  | line {line : List UInt8} {addresses : LineAddresses} (ascii : ∀ byte ∈ line, byte < 128)
      (first : ¬ lineEnd <:+: line ++ [13]) (short : (line ++ lineEnd).length ≤ maxLine)
      (read : readLine (line.map Char.ofUInt8) = some addresses) :
      Complete (line ++ lineEnd) (.v1 (line ++ lineEnd) addresses)
  | block {versionCommand familyProtocol : UInt8} {block : List UInt8} {command : Command}
      {addresses : BlockAddresses} (commanded : readCommand versionCommand = some command)
      (fits : block.length < 65536) (read : readBlock familyProtocol block = some addresses) :
      Complete (wrapBlock versionCommand familyProtocol block)
        (.v2 (wrapBlock versionCommand familyProtocol block) command addresses)

/-- The source that a header names for the connection. -/
def HeaderResult.source : HeaderResult → Option SocketAddr
  | v1 _ addresses => addresses.source
  | v2 _ .proxy addresses => addresses.source
  | _ => none

/-- A header that says both that the connection is the proxy's own and where it comes from. -/
def HeaderResult.IsLocalWithSource : HeaderResult → Prop
  | v2 _ .local addresses => addresses.source.isSome = true
  | _ => False

/-- What is asked of the parser: it reads complete headers, wants more exactly where a header
has begun and not ended, and finds headers nowhere else. -/
structure FollowsProtocol (headerResult : List UInt8 → HeaderResult) : Prop where
  complete : ∀ {bytes : List UInt8} {header : HeaderResult}, Complete bytes header →
    ∀ rest, headerResult (bytes ++ rest) = header
  incomplete : ∀ buffer, headerResult buffer = .incomplete ↔
    ∃ bytes header, Complete bytes header ∧ buffer <+: bytes ∧ buffer ≠ bytes
  sound : ∀ buffer, headerResult buffer ≠ .incomplete → headerResult buffer ≠ .invalid →
    ∃ bytes, Complete bytes (headerResult buffer) ∧ bytes <+: buffer

/-! ### The preface of a connection -/

/-- `PROXY_HEADER_CAP` -/
def proxyHeaderCap : Nat := 536

theorem length_peekMore (stream : PeekStream) (available maxBytes : Nat) :
    (stream.peekMore available maxBytes).1 + (stream.peekMore available maxBytes).2.inner.length =
      stream.inner.length := by
  have bounded : ClientHello.readLength available maxBytes stream.inner ≤ stream.inner.length :=
    Nat.min_le_right _ _
  dsimp only [PeekStream.peekMore]
  rw [List.length_drop]
  omega

/-- `take_proxy_header`, for a way to cut the stream: how many bytes are at hand for a read once
so many are buffered. -/
def takeProxyHeader (headerResult : List UInt8 → HeaderResult) (cut : Nat → Nat)
    (stream : PeekStream) : Option SocketAddr × PeekStream :=
  match parse headerResult stream.buffer with
  | .complete source consumed => (source, stream.advance consumed)
  | .notProxy => (none, stream)
  | .incomplete =>
    if proxyHeaderCap ≤ stream.buffer.length then (none, stream)
    else
      let more := stream.peekMore (cut stream.buffer.length) 512
      if more.1 = 0 then (none, more.2)
      else takeProxyHeader headerResult cut more.2
termination_by stream.inner.length
decreasing_by
  have whole : more.1 + more.2.inner.length = stream.inner.length :=
    length_peekMore stream (cut stream.buffer.length) 512
  show more.2.inner.length < stream.inner.length
  omega

/-- What `serve_stream` does with a trusted peer before it serves the connection. -/
def preface (headerResult : List UInt8 → HeaderResult) (cut : Nat → Nat) (bytes : List UInt8) :
    Option SocketAddr × PeekStream :=
  takeProxyHeader headerResult cut ((PeekStream.new bytes).peek (cut 0) firstPeek)

/-- How many bytes are buffered when that are enough, or the stream has ended. -/
def buffered (cut : Nat → Nat) (peeked : Nat) (rest : List UInt8) : Nat :=
  if proxyHeaderCap ≤ peeked then peeked
  else
    let count := ClientHello.readLength (cut peeked) 512 rest
    if count = 0 then peeked else buffered cut (peeked + count) (rest.drop count)
termination_by rest.length
decreasing_by
  have bounded : count ≤ rest.length := Nat.min_le_right _ _
  rw [List.length_drop]
  omega

/-- How many bytes of a stream are looked at before a header is given up. -/
def lookedAt (cut : Nat → Nat) (bytes : List UInt8) : Nat :=
  let count := ClientHello.readLength (cut 0) firstPeek bytes
  buffered cut count (bytes.drop count)

theorem le_buffered (cut : Nat → Nat) (peeked : Nat) (rest : List UInt8) :
    peeked ≤ buffered cut peeked rest := by
  induction peeked, rest using buffered.induct cut with
  | case1 peeked rest full =>
    rw [buffered, if_pos full]
  | case2 peeked rest room count ended =>
    rw [buffered, if_neg room]
    exact le_of_eq (if_pos ended).symm
  | case3 peeked rest room count more inductionHypothesis =>
    rw [buffered, if_neg room]
    dsimp only
    rw [if_neg more]
    exact (Nat.le_add_right _ _).trans inductionHypothesis

/-- All of a short stream is looked at, and enough of a long one. -/
theorem min_le_buffered (cut : Nat → Nat) (peeked : Nat) (rest : List UInt8) :
    min proxyHeaderCap (peeked + rest.length) ≤ buffered cut peeked rest := by
  induction peeked, rest using buffered.induct cut with
  | case1 peeked rest full =>
    rw [buffered, if_pos full]
    exact (Nat.min_le_left _ _).trans full
  | case2 peeked rest room count ended =>
    have nothing : rest = [] := (ClientHello.readLength_eq_zero (by decide)).mp ended
    rw [buffered, if_neg room]
    dsimp only
    rw [if_pos ended, nothing]
    exact Nat.min_le_right _ _
  | case3 peeked rest room count more inductionHypothesis =>
    have bounded : count ≤ rest.length := Nat.min_le_right _ _
    have whole : peeked + count + (rest.drop count).length = peeked + rest.length := by
      rw [List.length_drop]
      omega
    rw [buffered, if_neg room]
    dsimp only
    rw [if_neg more, ← whole]
    exact inductionHypothesis

theorem min_le_lookedAt (cut : Nat → Nat) (bytes : List UInt8) :
    min proxyHeaderCap bytes.length ≤ lookedAt cut bytes := by
  have bounded : ClientHello.readLength (cut 0) firstPeek bytes ≤ bytes.length :=
    Nat.min_le_right _ _
  have reached := min_le_buffered cut (ClientHello.readLength (cut 0) firstPeek bytes)
    (bytes.drop (ClientHello.readLength (cut 0) firstPeek bytes))
  rwa [List.length_drop, Nat.add_sub_cancel' bounded] at reached

/-! ### Taking a header -/

section

variable {headerResult : List UInt8 → HeaderResult} (follows : FollowsProtocol headerResult)
include follows

/-- A complete header is taken for what it says, except for the command. -/
theorem parse_of_complete {bytes : List UInt8} {header : HeaderResult}
    (complete : Complete bytes header) (rest : List UInt8) :
    ∃ source, parse headerResult (bytes ++ rest) = .complete source bytes.length ∧
      (¬ header.IsLocalWithSource → source = header.source) := by
  rw [parse, follows.complete complete rest]
  cases complete with
  | line ascii first short read => exact ⟨_, rfl, fun _ => rfl⟩
  | block commanded fits read =>
    refine ⟨_, rfl, fun ordinary => ?_⟩
    rename_i command addresses
    cases command with
    | «local» => exact Option.not_isSome_iff_eq_none.mp ordinary
    | proxy => rfl

theorem parse_of_short {bytes buffer : List UInt8} {header : HeaderResult}
    (complete : Complete bytes header) (part : buffer <+: bytes) (short : buffer ≠ bytes) :
    parse headerResult buffer = .incomplete := by
  rw [parse, (follows.incomplete buffer).mpr ⟨bytes, header, complete, part, short⟩]

/-- No header is taken where there is none. -/
theorem parse_of_none {buffer : List UInt8}
    (none : ∀ bytes header, Complete bytes header → ¬ bytes <+: buffer) :
    parse headerResult buffer = .incomplete ∨ parse headerResult buffer = .notProxy := by
  have never {header : HeaderResult} (read : headerResult buffer = header)
      (found : header ≠ .incomplete) (valid : header ≠ .invalid) : False := by
    obtain ⟨bytes, complete, part⟩ := follows.sound buffer (read ▸ found) (read ▸ valid)
    exact none bytes _ complete part
  cases read : headerResult buffer with
  | v1 header addresses => exact (never read nofun nofun).elim
  | v2 header command addresses => exact (never read nofun nofun).elim
  | incomplete => exact .inl (by rw [parse, read])
  | invalid => exact .inr (by rw [parse, read])

/-- A header that is buffered is taken, and what was buffered behind it is left. -/
theorem takeProxyHeader_of_buffered {bytes more : List UInt8} {header : HeaderResult}
    (complete : Complete bytes header) (cut : Nat → Nat) {stream : PeekStream}
    (held : stream.buffer = bytes ++ more) :
    (¬ header.IsLocalWithSource →
        (takeProxyHeader headerResult cut stream).1 = header.source) ∧
      (takeProxyHeader headerResult cut stream).2.unread = more ++ stream.inner := by
  obtain ⟨source, read, named⟩ := parse_of_complete follows complete more
  rw [← held] at read
  have taken : takeProxyHeader headerResult cut stream =
      (source, stream.advance bytes.length) := by
    rw [takeProxyHeader, read]
  have left : (stream.advance bytes.length).buffer = more := by
    show (if stream.buffer.length ≤ bytes.length then [] else _) = _
    split
    · next all =>
      rw [held, List.length_append] at all
      exact (List.eq_nil_of_length_eq_zero (by omega)).symm
    · rw [held, List.drop_left]
  rw [taken]
  refine ⟨named, ?_⟩
  show (stream.advance bytes.length).buffer.drop 0 ++ stream.inner = _
  rw [left, List.drop_zero]

/-- The loop takes a header once it is buffered, and gives it up once enough is. -/
theorem takeProxyHeader_of_complete {bytes rest : List UInt8} {header : HeaderResult}
    (complete : Complete bytes header) (cut : Nat → Nat) (stream : PeekStream)
    (fresh : stream.replayPos = 0) (whole : stream.buffer ++ stream.inner = bytes ++ rest) :
    (bytes.length ≤ buffered cut stream.buffer.length stream.inner →
      (¬ header.IsLocalWithSource →
        (takeProxyHeader headerResult cut stream).1 = header.source) ∧
      (takeProxyHeader headerResult cut stream).2.unread = rest) ∧
    (buffered cut stream.buffer.length stream.inner < bytes.length →
      (takeProxyHeader headerResult cut stream).1 = none ∧
      (takeProxyHeader headerResult cut stream).2.unread = bytes ++ rest) := by
  have part : stream.buffer <+: bytes ++ rest := ⟨stream.inner, whole⟩
  by_cases enough : bytes.length ≤ stream.buffer.length
  · obtain ⟨more, held⟩ :=
      List.prefix_of_prefix_length_le (List.prefix_append bytes rest) part enough
    have least := le_buffered cut stream.buffer.length stream.inner
    refine ⟨fun _ => ?_, fun less => absurd (enough.trans least) (Nat.not_le.mpr less)⟩
    rw [← held, List.append_assoc] at whole
    rw [← List.append_cancel_left whole]
    exact takeProxyHeader_of_buffered follows complete cut held.symm
  · -- A part of the header is buffered, so that the loop goes on.
    have less : stream.buffer.length < bytes.length := Nat.not_le.mp enough
    have short : parse headerResult stream.buffer = .incomplete :=
      parse_of_short follows complete
        (List.prefix_of_prefix_length_le part (List.prefix_append _ _) less.le)
        fun same => less.ne (congrArg List.length same)
    have unread : stream.unread = bytes ++ rest := by
      rw [PeekStream.unread, fresh, List.drop_zero, whole]
    by_cases full : proxyHeaderCap ≤ stream.buffer.length
    · have stopped : takeProxyHeader headerResult cut stream = (none, stream) := by
        rw [takeProxyHeader, short]
        exact if_pos full
      rw [buffered, if_pos full, stopped]
      exact ⟨fun more => absurd more enough, fun _ => ⟨rfl, unread⟩⟩
    · have some : ClientHello.readLength (cut stream.buffer.length) 512 stream.inner ≠ 0 := by
        intro ended
        rw [(ClientHello.readLength_eq_zero (by decide)).mp ended, List.append_nil] at whole
        rw [whole, List.length_append] at less
        omega
      have step : takeProxyHeader headerResult cut stream = takeProxyHeader headerResult cut
          (stream.peekMore (cut stream.buffer.length) 512).2 := by
        rw [takeProxyHeader, short]
        dsimp only
        rw [if_neg full]
        exact if_neg some
      have length : (stream.peekMore (cut stream.buffer.length) 512).2.buffer.length =
          stream.buffer.length +
            ClientHello.readLength (cut stream.buffer.length) 512 stream.inner := by
        have bounded : ClientHello.readLength (cut stream.buffer.length) 512 stream.inner ≤
            stream.inner.length := Nat.min_le_right _ _
        dsimp only [PeekStream.peekMore]
        rw [List.length_append, List.length_take_of_le bounded]
      have next := takeProxyHeader_of_complete complete cut
        (stream.peekMore (cut stream.buffer.length) 512).2 fresh (by
          dsimp only [PeekStream.peekMore]
          rw [List.append_assoc, List.take_append_drop, whole])
      rw [length] at next
      rw [buffered, if_neg full, step]
      dsimp only
      rw [if_neg some]
      exact next
termination_by stream.inner.length
decreasing_by
  have whole := length_peekMore stream (cut stream.buffer.length) 512
  have positive : 0 < (stream.peekMore (cut stream.buffer.length) 512).1 :=
    Nat.pos_of_ne_zero some
  omega

/-- A stream in which no header comes first is left as it is. -/
theorem takeProxyHeader_of_none {bytes : List UInt8}
    (none : ∀ other header, Complete other header → ¬ other <+: bytes) (cut : Nat → Nat)
    (stream : PeekStream) (fresh : stream.replayPos = 0)
    (whole : stream.buffer ++ stream.inner = bytes) :
    (takeProxyHeader headerResult cut stream).1 = Option.none ∧
      (takeProxyHeader headerResult cut stream).2.unread = bytes := by
  have unread {stream : PeekStream} (fresh : stream.replayPos = 0)
      (whole : stream.buffer ++ stream.inner = bytes) : stream.unread = bytes := by
    rw [PeekStream.unread, fresh, List.drop_zero, whole]
  have more (stream : PeekStream) (available : Nat)
      (whole : stream.buffer ++ stream.inner = bytes) :
      (stream.peekMore available 512).2.buffer ++ (stream.peekMore available 512).2.inner =
        bytes := by
    dsimp only [PeekStream.peekMore]
    rw [List.append_assoc, List.take_append_drop, whole]
  induction stream using takeProxyHeader.induct headerResult cut with
  | case1 stream source consumed read =>
    have unfinished : parse headerResult stream.buffer = .incomplete ∨
        parse headerResult stream.buffer = .notProxy :=
      parse_of_none follows fun other header complete part =>
        none other header complete (part.trans ⟨stream.inner, whole⟩)
    rcases unfinished with short | absent
    · rw [short] at read
      cases read
    · rw [absent] at read
      cases read
  | case2 stream read =>
    rw [takeProxyHeader, read]
    exact ⟨rfl, unread fresh whole⟩
  | case3 stream read full =>
    rw [takeProxyHeader, read]
    dsimp only
    rw [if_pos full]
    exact ⟨rfl, unread fresh whole⟩
  | case4 stream read room filled ended =>
    rw [takeProxyHeader, read]
    dsimp only
    rw [if_neg room, if_pos ended]
    exact ⟨rfl, unread fresh (more stream _ whole)⟩
  | case5 stream read room filled some inductionHypothesis =>
    rw [takeProxyHeader, read]
    dsimp only
    rw [if_neg room, if_neg some]
    exact inductionHypothesis fresh (more stream _ whole)

end

/-! ### Headers that are written here -/

/-- The source that a header for these two ends names. -/
def sourceBetween (src dst : SocketAddr) : Option SocketAddr :=
  match src.ip, dst.ip with
  | .v4 _, .v4 _ => some src
  | .v6 _, .v6 _ => some src
  | _, _ => none

theorem number_big_take {count value : Nat} (fits : value < 256 ^ count) (rest : List UInt8) :
    Bytes.number ((Bytes.big count value ++ rest).take count) = value := by
  rw [List.take_left' (Bytes.length_big count value), Bytes.number_big fits]

/-- The two ends are read back from their block. -/
theorem blockEnds_big {octets width : Nat} (fits : 2 ^ width = 256 ^ octets)
    (source destination : BitVec width) (sourcePort destinationPort : UInt16) :
    blockEnds octets (Bytes.big octets source.toNat ++ Bytes.big octets destination.toNat ++
        (Bytes.big 2 sourcePort.toNat ++ Bytes.big 2 destinationPort.toNat)) =
      some (⟨source, destination, sourcePort, destinationPort⟩ : Ends width) := by
  have address (value : BitVec width) : value.toNat < 256 ^ octets := fits ▸ value.isLt
  have port (value : UInt16) : value.toNat < 256 ^ 2 := value.toNat_lt
  have length : (Bytes.big octets source.toNat ++ Bytes.big octets destination.toNat ++
      (Bytes.big 2 sourcePort.toNat ++ Bytes.big 2 destinationPort.toNat)).length =
        2 * octets + 4 := by
    simp only [List.length_append, Bytes.length_big]
    omega
  have second (rest : List UInt8) :
      (Bytes.big octets source.toNat ++ rest).drop octets = rest :=
    List.drop_left' (Bytes.length_big _ _)
  have third (rest : List UInt8) : (Bytes.big octets source.toNat ++
      (Bytes.big octets destination.toNat ++ rest)).drop (2 * octets) = rest := by
    rw [Nat.two_mul, ← List.drop_drop, second, List.drop_left' (Bytes.length_big _ _)]
  have fourth (rest : List UInt8) : (Bytes.big octets source.toNat ++
      (Bytes.big octets destination.toNat ++ (Bytes.big 2 sourcePort.toNat ++ rest))).drop
        (2 * octets + 2) = rest := by
    rw [← List.drop_drop, third, List.drop_left' (Bytes.length_big _ _)]
  have last : (Bytes.big 2 destinationPort.toNat).take 2 = Bytes.big 2 destinationPort.toNat :=
    List.take_of_length_le (Bytes.length_big _ _).le
  rw [blockEnds, if_neg (Nat.not_lt.mpr length.ge)]
  simp only [List.append_assoc, List.drop_zero, second, third, fourth,
    number_big_take (address _), number_big_take (port _), last, Bytes.number_big (port _),
    BitVec.ofNat_toNat, BitVec.setWidth_eq, UInt16.ofNat_toNat]

theorem length_ends (octets first second : Nat) (sourcePort destinationPort : UInt16) :
    (Bytes.big octets first ++ Bytes.big octets second ++
      (Bytes.big 2 sourcePort.toNat ++ Bytes.big 2 destinationPort.toNat)).length =
        2 * octets + 4 := by
  simp only [List.length_append, Bytes.length_big]
  omega

theorem readBlock_ipv4 {block : List UInt8} {ends : Ends 32}
    (read : blockEnds 4 block = some ends) : readBlock 0x11 block = some (.ipv4 ends) := by
  rw [readBlock, if_neg (by decide), if_pos (by decide), read]
  rfl

theorem readBlock_ipv6 {block : List UInt8} {ends : Ends 128}
    (read : blockEnds 16 block = some ends) : readBlock 0x21 block = some (.ipv6 ends) := by
  rw [readBlock, if_neg (by decide), if_neg (by decide), if_pos (by decide), read]
  rfl

/-- A header of the second version is complete. -/
theorem complete_buildV2 (src dst : SocketAddr) :
    ∃ header, Complete (buildV2 src dst) header ∧ ¬ header.IsLocalWithSource ∧
      header.source = sourceBetween src dst ∧ (buildV2 src dst).length ≤ proxyHeaderCap := by
  have wrapped {versionCommand familyProtocol : UInt8} {block : List UInt8} {count : Nat}
      (length : block.length = count) : wrapBlock versionCommand familyProtocol block =
        signature ++ ([versionCommand, familyProtocol] ++ Bytes.big 2 count ++ block) := by
    rw [wrapBlock, length]
    rfl
  have short {versionCommand familyProtocol : UInt8} {block : List UInt8} {count : Nat}
      (length : block.length = count) (few : count ≤ 36) :
      (wrapBlock versionCommand familyProtocol block).length ≤ proxyHeaderCap := by
    have front : signature.length = 12 := rfl
    have cap : proxyHeaderCap = 536 := rfl
    simp only [wrapBlock, List.length_append, List.length_cons, Bytes.length_big, front, cap]
    omega
  have unspecified : ∃ header, Complete (wrapBlock 0x20 0x00 []) header ∧
      ¬ header.IsLocalWithSource ∧ header.source = none ∧
      (wrapBlock 0x20 0x00 []).length ≤ proxyHeaderCap := by
    have complete : Complete (wrapBlock 0x20 0x00 [])
        (.v2 (wrapBlock 0x20 0x00 []) .local .unspecified) := .block rfl (by decide) rfl
    exact ⟨_, complete, nofun, rfl, by decide⟩
  obtain ⟨source, sourcePort⟩ := src
  obtain ⟨destination, destinationPort⟩ := dst
  cases source with
  | v4 source =>
    cases destination with
    | v4 destination =>
      have length := length_ends 4 source.toNat destination.toNat sourcePort destinationPort
      have same : buildV2 ⟨.v4 source, sourcePort⟩ ⟨.v4 destination, destinationPort⟩ =
          wrapBlock 0x21 0x11 (Bytes.big 4 source.toNat ++ Bytes.big 4 destination.toNat ++
            (Bytes.big 2 sourcePort.toNat ++ Bytes.big 2 destinationPort.toNat)) := by
        rw [wrapped length]
        simp only [buildV2, List.append_assoc]
      have octets : 2 ^ 32 = 256 ^ 4 := by decide
      have read := readBlock_ipv4
        (blockEnds_big octets source destination sourcePort destinationPort)
      have commanded : readCommand 0x21 = some .proxy := rfl
      rw [same]
      exact ⟨_, .block commanded (by omega) read, nofun, rfl, short length (by decide)⟩
    | v6 destination => exact unspecified
  | v6 source =>
    cases destination with
    | v4 destination => exact unspecified
    | v6 destination =>
      have length := length_ends 16 source.toNat destination.toNat sourcePort destinationPort
      have same : buildV2 ⟨.v6 source, sourcePort⟩ ⟨.v6 destination, destinationPort⟩ =
          wrapBlock 0x21 0x21 (Bytes.big 16 source.toNat ++ Bytes.big 16 destination.toNat ++
            (Bytes.big 2 sourcePort.toNat ++ Bytes.big 2 destinationPort.toNat)) := by
        rw [wrapped length]
        simp only [buildV2, List.append_assoc]
      have octets : 2 ^ 128 = 256 ^ 16 := by decide
      have read := readBlock_ipv6
        (blockEnds_big octets source destination sourcePort destinationPort)
      have commanded : readCommand 0x21 = some .proxy := rfl
      rw [same]
      exact ⟨_, .block commanded (by omega) read, nofun, rfl, short length (by decide)⟩

/-- A character of a line. -/
def IsLineCharacter (character : Char) : Prop := character.toNat < 128 ∧ character ≠ '\r'

instance (character : Char) : Decidable (IsLineCharacter character) :=
  inferInstanceAs (Decidable (_ ∧ _))

theorem of_isAddressCharacter {character : Char} (address : IsAddressCharacter character) :
    IsLineCharacter character ∧ character ≠ ' ' := by
  rcases address with rfl | rfl | ⟨digit, small, rfl⟩
  · decide
  · decide
  · have every : ∀ digit : Fin 16,
        IsLineCharacter digit.val.digitChar ∧ digit.val.digitChar ≠ ' ' := by decide
    exact every ⟨digit, small⟩

/-- A line is complete with its end. -/
theorem complete_ofText {characters : List Char} {addresses : LineAddresses}
    (plain : ∀ character ∈ characters, IsLineCharacter character)
    (short : characters.length ≤ 105) (read : readLine characters = some addresses) :
    Complete (Bytes.ofText (String.ofList (characters ++ ['\r', '\n'])))
      (.v1 (Bytes.ofText (String.ofList (characters ++ ['\r', '\n']))) addresses) ∧
    (Bytes.ofText (String.ofList (characters ++ ['\r', '\n']))).length ≤ maxLine := by
  obtain ⟨line, written, ascii⟩ : ∃ line : List UInt8, characters = line.map Char.ofUInt8 ∧
      ∀ byte ∈ line, byte < 128 := by
    refine ⟨characters.map fun character => UInt8.ofNat character.toNat, ?_, ?_⟩
    · rw [List.map_map]
      have same : ∀ character ∈ characters, (Char.ofUInt8 ∘ fun character : Char =>
          UInt8.ofNat character.toNat) character = id character := by
        intro character member
        refine Char.toNat_inj.mp ?_
        show (UInt8.ofNat character.toNat).toNat = character.toNat
        exact Bytes.toNat_ofNat ((plain character member).1.trans (by decide))
      rw [List.map_congr_left same, List.map_id]
    · intro byte member
      obtain ⟨character, listed, rfl⟩ := List.mem_map.mp member
      rw [UInt8.lt_iff_toNat_lt, Bytes.toNat_ofNat ((plain character listed).1.trans (by decide))]
      exact (plain character listed).1
  have bytes : Bytes.ofText (String.ofList (characters ++ ['\r', '\n'])) = line ++ lineEnd := by
    have ends : ['\r', '\n'] = lineEnd.map Char.ofUInt8 := by decide
    rw [written, ends, ← List.map_append, Bytes.ofText_ascii]
    intro byte member
    rcases List.mem_append.mp member with inside | last
    · exact ascii byte inside
    · have every : ∀ byte ∈ lineEnd, byte < 128 := Parts.forall_mem_of_all (by decide)
      exact every byte last
  have few : (line ++ lineEnd).length ≤ maxLine := by
    rw [written, List.length_map] at short
    rw [List.length_append]
    exact Nat.add_le_add_right short 2
  rw [bytes]
  refine ⟨.line ascii ?_ few (written ▸ read), few⟩
  rintro ⟨front, back, same⟩
  rcases List.eq_nil_or_concat back with rfl | ⟨back, last, rfl⟩
  · rw [List.append_nil] at same
    have final := congrArg List.getLast? same
    rw [List.getLast?_append_of_ne_nil _ (by decide), List.getLast?_concat] at final
    exact absurd final (by decide)
  · rw [List.concat_eq_append, ← List.append_assoc] at same
    have inside : (13 : UInt8) ∈ line := by
      rw [← (List.append_inj' same rfl).1]
      exact List.mem_append_left _ (List.mem_append_right _ List.mem_cons_self)
    have listed : '\r' ∈ characters := by
      rw [written]
      exact List.mem_map_of_mem inside
    exact (plain '\r' listed).2 rfl

/-- The characters of a line with two ends, without its end. -/
def lineOf (proto : String) (src dst : SocketAddr) : List Char :=
  "PROXY".toList ++ ' ' :: (proto.toList ++ ' ' :: (src.ip.text.toList ++ ' ' ::
    (dst.ip.text.toList ++ ' ' :: (Nat.toDigits 10 src.port.toNat ++ ' ' ::
      Nat.toDigits 10 dst.port.toNat))))

theorem isAddressCharacter_port {port : UInt16} :
    ∀ character ∈ Nat.toDigits 10 port.toNat, IsAddressCharacter character :=
  fun _ member => isAddressCharacter_of_mem_toDigits (by decide) (by decide) member

theorem length_port (port : UInt16) : (Nat.toDigits 10 port.toNat).length ≤ 5 := by
  rw [Nat.length_toDigits_le_iff (by decide) (by decide)]
  exact port.toNat_lt.trans (by decide)

theorem readPort_toDigits (port : UInt16) : readPort (Nat.toDigits 10 port.toNat) = some port := by
  have read : Parser.number 10 5 65536 false (Nat.toDigits 10 port.toNat ++ []) =
      some (port.toNat, []) :=
    Parser.number_toDigits (by decide) (by decide) (length_port port) port.toNat_lt
      (Parser.ends_nil 10)
  rw [List.append_nil] at read
  rw [readPort, Parser.whole, read]
  exact congrArg some UInt16.ofNat_toNat

theorem splitOn_lineOf {proto : String} (unbroken : ' ' ∉ proto.toList) (src dst : SocketAddr) :
    (lineOf proto src dst).splitOn ' ' = ["PROXY".toList, proto.toList, src.ip.text.toList,
      dst.ip.text.toList, Nat.toDigits 10 src.port.toNat, Nat.toDigits 10 dst.port.toNat] := by
  have address (ip : IpAddr) : ' ' ∉ ip.text.toList := fun member =>
    (of_isAddressCharacter (isAddressCharacter_text member)).2 rfl
  have port (port : UInt16) : ' ' ∉ Nat.toDigits 10 port.toNat := fun member =>
    (of_isAddressCharacter (isAddressCharacter_port _ member)).2 rfl
  have mark : ' ' ∉ "PROXY".toList := by decide
  rw [lineOf, List.splitOn_append_cons_self_of_not_mem mark,
    List.splitOn_append_cons_self_of_not_mem unbroken,
    List.splitOn_append_cons_self_of_not_mem (address src.ip),
    List.splitOn_append_cons_self_of_not_mem (address dst.ip),
    List.splitOn_append_cons_self_of_not_mem (port src.port),
    List.splitOn_eq_singleton (port dst.port)]

theorem isLineCharacter_lineOf {proto : String} (plain : ∀ character ∈ proto.toList,
    IsLineCharacter character) (src dst : SocketAddr) :
    ∀ character ∈ lineOf proto src dst, IsLineCharacter character := by
  have blank : IsLineCharacter ' ' := by decide
  have mark : ∀ character ∈ "PROXY".toList, IsLineCharacter character :=
    Parts.forall_mem_of_all (by decide)
  have address (ip : IpAddr) : ∀ character ∈ ip.text.toList, IsLineCharacter character :=
    fun character member => (of_isAddressCharacter (isAddressCharacter_text member)).1
  have port (port : UInt16) :
      ∀ character ∈ Nat.toDigits 10 port.toNat, IsLineCharacter character :=
    fun character member => (of_isAddressCharacter (isAddressCharacter_port _ member)).1
  simp only [lineOf, List.forall_mem_append, List.forall_mem_cons]
  exact ⟨mark, blank, plain, blank, address _, blank, address _, blank, port _, blank, port _⟩

theorem length_ipText (ip : IpAddr) : ip.text.toList.length ≤ 40 := by
  cases ip with
  | v4 address => exact (length_dottedQuad_le address).trans (by decide)
  | v6 address => exact length_colonHex_le address

theorem length_lineOf {proto : String} (four : proto.toList.length = 4) (src dst : SocketAddr) :
    (lineOf proto src dst).length ≤ 105 := by
  have mark : "PROXY".toList.length = 5 := by decide
  have port := length_port src.port
  have port' := length_port dst.port
  have address := length_ipText src.ip
  have address' := length_ipText dst.ip
  simp only [lineOf, List.length_append, List.length_cons, mark, four]
  omega

theorem readLine_lineOf {proto : String} (unbroken : ' ' ∉ proto.toList) (src dst : SocketAddr) :
    readLine (lineOf proto src dst) =
      if proto.toList = "TCP4".toList then
        (readEnds parseIpv4 [src.ip.text.toList, dst.ip.text.toList,
          Nat.toDigits 10 src.port.toNat, Nat.toDigits 10 dst.port.toNat]).map .tcp4
      else if proto.toList = "TCP6".toList then
        (readEnds parseIpv6 [src.ip.text.toList, dst.ip.text.toList,
          Nat.toDigits 10 src.port.toNat, Nat.toDigits 10 dst.port.toNat]).map .tcp6
      else if proto.toList = "UNKNOWN".toList then some .unknown
      else none := by
  rw [readLine, splitOn_lineOf unbroken]
  exact if_pos rfl

/-- A header of the first version is complete. -/
theorem complete_buildV1 (src dst : SocketAddr) :
    ∃ header, Complete (Bytes.ofText (buildV1 src dst)) header ∧ ¬ header.IsLocalWithSource ∧
      header.source = sourceBetween src dst ∧
      (Bytes.ofText (buildV1 src dst)).length ≤ proxyHeaderCap := by
  have cap : maxLine ≤ proxyHeaderCap := by decide
  have written {addresses : LineAddresses} {characters : List Char}
      (same : buildV1 src dst = String.ofList (characters ++ ['\r', '\n']))
      (plain : ∀ character ∈ characters, IsLineCharacter character)
      (short : characters.length ≤ 105) (read : readLine characters = some addresses)
      (source : addresses.source = sourceBetween src dst) :
      ∃ header, Complete (Bytes.ofText (buildV1 src dst)) header ∧ ¬ header.IsLocalWithSource ∧
        header.source = sourceBetween src dst ∧
        (Bytes.ofText (buildV1 src dst)).length ≤ proxyHeaderCap := by
    rw [same]
    obtain ⟨complete, few⟩ := complete_ofText plain short read
    exact ⟨_, complete, nofun, source, few.trans cap⟩
  have text (proto : String) : "PROXY " ++ proto ++ " " ++ src.ip.text ++ " " ++ dst.ip.text ++
      " " ++ toString src.port.toNat ++ " " ++ toString dst.port.toNat ++ "\r\n" =
        String.ofList (lineOf proto src dst ++ ['\r', '\n']) := by
    have mark : "PROXY ".toList = "PROXY".toList ++ [' '] := by decide
    have blank : " ".toList = [' '] := rfl
    have ends : "\r\n".toList = ['\r', '\n'] := rfl
    refine String.toList_inj.mp ?_
    simp only [lineOf, String.toList_append, String.toList_ofList, Decimal.toList_toString, mark,
      blank, ends, List.append_assoc, List.cons_append, List.nil_append]
  obtain ⟨source, sourcePort⟩ := src
  obtain ⟨destination, destinationPort⟩ := dst
  have unknown : "PROXY UNKNOWN\r\n" =
      String.ofList ("PROXY UNKNOWN".toList ++ ['\r', '\n']) := by decide
  have named : ∀ character ∈ "PROXY UNKNOWN".toList, IsLineCharacter character :=
    Parts.forall_mem_of_all (by decide)
  have ignored : readLine "PROXY UNKNOWN".toList = some .unknown := by decide
  cases source with
  | v4 source =>
    cases destination with
    | v4 destination =>
      have read : readLine (lineOf "TCP4" ⟨.v4 source, sourcePort⟩
          ⟨.v4 destination, destinationPort⟩) =
            some (.tcp4 ⟨source, destination, sourcePort, destinationPort⟩) := by
        rw [readLine_lineOf (by decide), if_pos rfl]
        simp only [readEnds, IpAddr.text, parseIpv4_dottedQuad, readPort_toDigits]
        rfl
      exact written (text "TCP4")
        (isLineCharacter_lineOf (Parts.forall_mem_of_all (by decide)) _ _)
        (length_lineOf (by decide) _ _) read rfl
    | v6 destination => exact written unknown named (by decide) ignored rfl
  | v6 source =>
    cases destination with
    | v4 destination => exact written unknown named (by decide) ignored rfl
    | v6 destination =>
      have read : readLine (lineOf "TCP6" ⟨.v6 source, sourcePort⟩
          ⟨.v6 destination, destinationPort⟩) =
            some (.tcp6 ⟨source, destination, sourcePort, destinationPort⟩) := by
        rw [readLine_lineOf (by decide), if_neg (by decide), if_pos rfl]
        simp only [readEnds, IpAddr.text, parseIpv6_colonHex, readPort_toDigits]
        rfl
      exact written (text "TCP6")
        (isLineCharacter_lineOf (Parts.forall_mem_of_all (by decide)) _ _)
        (length_lineOf (by decide) _ _) read rfl

/-! ### A parser that follows the protocol -/

/-- No line goes on behind the end of another one. -/
theorem length_le_of_line {first second buffer : List UInt8}
    (once : ¬ lineEnd <:+: second ++ [13]) (part : first ++ lineEnd <+: buffer)
    (part' : second ++ lineEnd <+: buffer) : second.length ≤ first.length := by
  by_contra longer
  have front : second ++ [13] <+: buffer := by
    refine List.IsPrefix.trans ⟨[10], ?_⟩ part'
    rw [List.append_assoc]
    rfl
  have shorter : (first ++ lineEnd).length ≤ (second ++ [13]).length := by
    have two : lineEnd.length = 2 := rfl
    rw [List.length_append, List.length_append, two, List.length_singleton]
    omega
  obtain ⟨back, same⟩ := List.prefix_of_prefix_length_le part front shorter
  exact once ⟨first, back, same⟩

theorem not_line_and_block {line block buffer : List UInt8} {versionCommand familyProtocol : UInt8}
    {addresses : LineAddresses} (once : ¬ lineEnd <:+: line ++ [13])
    (read : readLine (line.map Char.ofUInt8) = some addresses)
    (part : line ++ lineEnd <+: buffer)
    (part' : wrapBlock versionCommand familyProtocol block <+: buffer) : False := by
  have begins : [] ++ lineEnd <+: buffer :=
    List.IsPrefix.trans ⟨signature.drop 2 ++ _, rfl⟩ part'
  have nothing : line = [] :=
    List.eq_nil_of_length_eq_zero (Nat.le_zero.mp (length_le_of_line once begins part))
  rw [nothing] at read
  have silent : readLine [] = none := by decide
  rw [List.map_nil, silent] at read
  cases read

/-- What is complete is told by the bytes in front. -/
theorem Complete.unique {bytes other buffer : List UInt8} {header header' : HeaderResult}
    (complete : Complete bytes header) (complete' : Complete other header')
    (part : bytes <+: buffer) (part' : other <+: buffer) : bytes = other ∧ header = header' := by
  cases complete with
  | line ascii first short read =>
    cases complete' with
    | line ascii' first' short' read' =>
      rename_i line addresses line' addresses'
      have lengths : line.length = line'.length :=
        Nat.le_antisymm (length_le_of_line first part' part) (length_le_of_line first' part part')
      have whole : line ++ lineEnd = line' ++ lineEnd := by
        refine List.IsPrefix.eq_of_length (List.prefix_of_prefix_length_le part part' ?_) ?_
        · rw [List.length_append, List.length_append, lengths]
        · rw [List.length_append, List.length_append, lengths]
      have same : line = line' := List.append_cancel_right whole
      rw [same, read'] at read
      rw [Option.some.inj read, same]
      exact ⟨rfl, rfl⟩
    | block commanded fits read' => exact (not_line_and_block first read part part').elim
  | block commanded fits read =>
    cases complete' with
    | line ascii first short read' => exact (not_line_and_block first read' part' part).elim
    | block commanded' fits' read' =>
      obtain ⟨rest, whole⟩ := part
      obtain ⟨rest', whole'⟩ := part'
      rw [← whole', wrapBlock, wrapBlock, List.append_assoc, List.append_assoc] at whole
      have fields := List.append_cancel_left whole
      rw [List.cons_append, List.cons_append, List.cons_append, List.cons_append,
        List.append_assoc, List.append_assoc] at fields
      obtain ⟨same, fields⟩ := List.cons.inj fields
      obtain ⟨same', fields⟩ := List.cons.inj fields
      obtain ⟨lengths, blocks⟩ := List.append_inj fields
        (by rw [Bytes.length_big, Bytes.length_big])
      have length := Bytes.big_inj fits fits' lengths
      obtain ⟨same'', -⟩ := List.append_inj blocks length
      subst same same' same''
      rw [commanded] at commanded'
      rw [read] at read'
      rw [Option.some.inj commanded', Option.some.inj read']
      exact ⟨rfl, rfl⟩

open Classical in
/-- The parser that the protocol describes. -/
noncomputable def protocolParser (buffer : List UInt8) : HeaderResult :=
  if found : ∃ header bytes, Complete bytes header ∧ bytes <+: buffer then found.choose
  else if ∃ bytes header, Complete bytes header ∧ buffer <+: bytes then .incomplete
  else .invalid

theorem Complete.ne_incomplete {bytes : List UInt8} {header : HeaderResult}
    (complete : Complete bytes header) : header ≠ .incomplete ∧ header ≠ .invalid := by
  cases complete with
  | line ascii first short read => exact ⟨nofun, nofun⟩
  | block commanded fits read => exact ⟨nofun, nofun⟩

theorem followsProtocol_protocolParser : FollowsProtocol protocolParser where
  complete := by
    intro bytes header complete rest
    have found : ∃ header other, Complete other header ∧ other <+: bytes ++ rest :=
      ⟨header, bytes, complete, List.prefix_append _ _⟩
    rw [protocolParser, dif_pos found]
    obtain ⟨other, complete', part⟩ := found.choose_spec
    exact (complete'.unique complete part (List.prefix_append _ _)).2
  incomplete := by
    intro buffer
    unfold protocolParser
    split
    · next found =>
      obtain ⟨other, complete, part⟩ := found.choose_spec
      refine iff_of_false complete.ne_incomplete.1 ?_
      rintro ⟨bytes, header, complete', within, short⟩
      have same := (complete.unique complete' (part.trans within) List.prefix_rfl).1
      rw [same] at part
      exact short (within.eq_of_length (Nat.le_antisymm within.length_le part.length_le))
    · next absent =>
      split
      · next begun =>
        obtain ⟨bytes, header, complete, within⟩ := begun
        refine iff_of_true rfl ⟨bytes, header, complete, within, ?_⟩
        rintro rfl
        exact absent ⟨header, buffer, complete, List.prefix_rfl⟩
      · next strange =>
        refine iff_of_false nofun ?_
        rintro ⟨bytes, header, complete, within, -⟩
        exact strange ⟨bytes, header, complete, within⟩
  sound := by
    intro buffer more valid
    unfold protocolParser at more valid ⊢
    split
    · next found => exact found.choose_spec
    · next absent =>
      rw [dif_neg absent] at more valid
      split at more
      · exact absurd rfl more
      · next strange =>
        rw [if_neg strange] at valid
        exact absurd rfl valid

/-! ### Any way to cut a stream -/

theorem peek_new (bytes : List UInt8) (available : Nat) :
    ((PeekStream.new bytes).peek available firstPeek).buffer.length =
        ClientHello.readLength available firstPeek bytes ∧
      ((PeekStream.new bytes).peek available firstPeek).buffer ++
        ((PeekStream.new bytes).peek available firstPeek).inner = bytes := by
  have bounded : ClientHello.readLength available firstPeek bytes ≤ bytes.length :=
    Nat.min_le_right _ _
  exact ⟨List.length_take_of_le bounded, List.take_append_drop _ _⟩

section

variable {headerResult : List UInt8 → HeaderResult} (follows : FollowsProtocol headerResult)
include follows

/-- A header is taken exactly when it is looked at as a whole. -/
theorem preface_of_complete {bytes : List UInt8} {header : HeaderResult}
    (complete : Complete bytes header) (rest : List UInt8) (cut : Nat → Nat) :
    (bytes.length ≤ lookedAt cut (bytes ++ rest) →
      (¬ header.IsLocalWithSource →
        (preface headerResult cut (bytes ++ rest)).1 = header.source) ∧
      (preface headerResult cut (bytes ++ rest)).2.Replays rest) ∧
    (lookedAt cut (bytes ++ rest) < bytes.length →
      (preface headerResult cut (bytes ++ rest)).1 = none ∧
      (preface headerResult cut (bytes ++ rest)).2.Replays (bytes ++ rest)) := by
  obtain ⟨length, whole⟩ := peek_new (bytes ++ rest) (cut 0)
  obtain ⟨taken, missed⟩ := takeProxyHeader_of_complete follows complete cut
    ((PeekStream.new (bytes ++ rest)).peek (cut 0) firstPeek) rfl whole
  rw [length] at taken missed
  constructor
  · intro enough
    obtain ⟨source, left⟩ := taken enough
    refine ⟨source, ?_⟩
    have replays := (preface headerResult cut (bytes ++ rest)).2.replays_unread
    rwa [show (preface headerResult cut (bytes ++ rest)).2.unread = rest from left] at replays
  · intro less
    obtain ⟨nothing, left⟩ := missed less
    refine ⟨nothing, ?_⟩
    have replays := (preface headerResult cut (bytes ++ rest)).2.replays_unread
    rwa [show (preface headerResult cut (bytes ++ rest)).2.unread = bytes ++ rest from left]
      at replays

theorem preface_of_none {bytes : List UInt8}
    (none : ∀ other header, Complete other header → ¬ other <+: bytes) (cut : Nat → Nat) :
    (preface headerResult cut bytes).1 = Option.none ∧
      (preface headerResult cut bytes).2.Replays bytes := by
  obtain ⟨-, whole⟩ := peek_new bytes (cut 0)
  obtain ⟨nothing, left⟩ := takeProxyHeader_of_none follows none cut
    ((PeekStream.new bytes).peek (cut 0) firstPeek) rfl whole
  refine ⟨nothing, ?_⟩
  have replays := (preface headerResult cut bytes).2.replays_unread
  rwa [show (preface headerResult cut bytes).2.unread = bytes from left] at replays

end

/-- However a stream is cut, a header of up to 536 bytes is taken and the rest is left. A longer
one is taken exactly when all of it is looked at, and otherwise it is left with the rest. A
stream without a header is left as it is. The headers written here are short. -/
theorem proxyHeader_of_stream {headerResult : List UInt8 → HeaderResult}
    (follows : FollowsProtocol headerResult) :
    (∀ {bytes : List UInt8} {header : HeaderResult}, Complete bytes header →
      ∀ (rest : List UInt8) (cut : Nat → Nat),
        (bytes.length ≤ proxyHeaderCap ∨ bytes.length ≤ lookedAt cut (bytes ++ rest) →
          (¬ header.IsLocalWithSource →
            (preface headerResult cut (bytes ++ rest)).1 = header.source) ∧
          (preface headerResult cut (bytes ++ rest)).2.Replays rest) ∧
        (lookedAt cut (bytes ++ rest) < bytes.length →
          (preface headerResult cut (bytes ++ rest)).1 = none ∧
          (preface headerResult cut (bytes ++ rest)).2.Replays (bytes ++ rest))) ∧
      (∀ src dst : SocketAddr, ∀ bytes,
        bytes = Bytes.ofText (buildV1 src dst) ∨ bytes = buildV2 src dst →
          ∃ header, Complete bytes header ∧ ¬ header.IsLocalWithSource ∧
            header.source = sourceBetween src dst ∧ bytes.length ≤ proxyHeaderCap) ∧
      (∀ bytes : List UInt8, (∀ other header, Complete other header → ¬ other <+: bytes) →
        ∀ cut : Nat → Nat, (preface headerResult cut bytes).1 = none ∧
          (preface headerResult cut bytes).2.Replays bytes) := by
  refine ⟨fun {bytes header} complete rest cut => ?_, ?_, ?_⟩
  · obtain ⟨taken, missed⟩ := preface_of_complete follows complete rest cut
    refine ⟨fun enough => taken ?_, missed⟩
    rcases enough with short | enough
    · have all := min_le_lookedAt cut (bytes ++ rest)
      rw [List.length_append] at all
      omega
    · exact enough
  · rintro src dst bytes (rfl | rfl)
    · exact complete_buildV1 src dst
    · exact complete_buildV2 src dst
  · exact fun bytes none cut => preface_of_none follows none cut

namespace SampleProxy

def src : SocketAddr := ⟨.v4 0xcb007107#32, 56324⟩

def dst : SocketAddr := ⟨.v4 0x0a000001#32, 443⟩

/-- A header that comes byte by byte is taken. -/
theorem proxyHeader_byte_by_byte :
    (preface protocolParser (fun _ => 1) (buildV2 src dst ++ [71, 69, 84])).1 = some src ∧
      (preface protocolParser (fun _ => 1) (buildV2 src dst ++ [71, 69, 84])).2.Replays
        [71, 69, 84] := by
  have every := proxyHeader_of_stream followsProtocol_protocolParser
  obtain ⟨header, complete, ordinary, named, short⟩ := every.2.1 src dst _ (.inr rfl)
  obtain ⟨source, replays⟩ := (every.1 complete [71, 69, 84] fun _ => 1).1 (.inl short)
  exact ⟨(source ordinary).trans named, replays⟩

/-- Two ends with 509 bytes of padding behind them. -/
def longBlock : List UInt8 :=
  [203, 0, 113, 7, 10, 0, 0, 1, 220, 4, 1, 187] ++
    (4 :: (Bytes.big 2 506 ++ List.replicate 506 0))

/-- A header of 537 bytes is not taken if its last byte comes late. -/
theorem not_every_header_taken :
    ¬ ∀ headerResult, FollowsProtocol headerResult →
      ∀ (bytes : List UInt8) (header : HeaderResult), Complete bytes header →
        ¬ header.IsLocalWithSource → ∀ (rest : List UInt8) (cut : Nat → Nat),
          (preface headerResult cut (bytes ++ rest)).1 = header.source ∧
            (preface headerResult cut (bytes ++ rest)).2.Replays rest := by
  have length : longBlock.length = 521 := by
    simp only [longBlock, List.length_append, List.length_cons, Bytes.length_big,
      List.length_replicate, List.length_nil]
  have ends : blockEnds 4 longBlock =
      some (⟨0xcb007107#32, 0x0a000001#32, 56324, 443⟩ : Ends 32) := by
    rw [blockEnds, if_neg (by rw [length]; decide)]
    rfl
  have commanded : readCommand 0x21 = some .proxy := rfl
  have complete := Complete.block commanded (by rw [length]; decide) (readBlock_ipv4 ends)
  have size : (wrapBlock 0x21 0x11 longBlock).length = 537 := by
    have front : signature.length = 12 := rfl
    simp only [wrapBlock, List.length_append, List.length_cons, Bytes.length_big, front, length]
  have less : lookedAt (fun _ => 536) (wrapBlock 0x21 0x11 longBlock ++ []) <
      (wrapBlock 0x21 0x11 longBlock).length := by
    have first : ClientHello.readLength 536 firstPeek (wrapBlock 0x21 0x11 longBlock ++ []) =
        536 := by
      rw [ClientHello.readLength, List.append_nil, size]
      decide
    rw [lookedAt, first, buffered, if_pos (by decide), size]
    decide
  intro every
  obtain ⟨source, -⟩ := every protocolParser followsProtocol_protocolParser _ _ complete
    not_false [] fun _ => 536
  obtain ⟨-, missed⟩ := preface_of_complete followsProtocol_protocolParser complete []
    fun _ => 536
  rw [(missed less).1] at source
  cases source

end SampleProxy

end ProxyProtocol

end Bagel
