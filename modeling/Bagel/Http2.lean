/-
This file models how the start of an HTTP/2 connection is observed on its way to the server,
and proves that the fingerprint does not depend on how the bytes are cut into reads. The
observer goes on where it stopped, so what it carries over must be what a look at all bytes at
once would have come to.
-/

import Bagel.Hpack
import Mathlib.Data.List.Induction

namespace Bagel

namespace Http2

open Hpack (Order)

/-! ### Frames -/

abbrev NonZeroU32 := { value : UInt32 // value ≠ 0 }

def NonZeroU32.new (value : UInt32) : Option NonZeroU32 :=
  if nonzero : value ≠ 0 then some ⟨value, nonzero⟩ else none

def decimal (value : Nat) : List Char := Nat.toDigits 10 value

structure Priority where
  stream : NonZeroU32
  exclusive : Bool
  parent : UInt32
  weight : UInt8

namespace Priority

def decode (stream : UInt32) : Cursor Priority := fun input => do
  let (dependency, input) ← Cursor.u32 input
  let parent := dependency &&& 0x7FFFFFFF
  match (NonZeroU32.new stream).filter fun value => value.val ≠ parent with
  | none => .error .invalid
  | some streamId =>
    let (weight, input) ← Cursor.byte input
    return ({ stream := streamId, exclusive := dependency >>> 31 != 0, parent, weight }, input)

def text (priority : Priority) : List Char :=
  [':'].intercalate [decimal priority.stream.val.toNat, decimal priority.exclusive.toNat,
    decimal priority.parent.toNat, decimal (priority.weight.toNat + 1)]

end Priority

abbrev Settings := List (UInt16 × UInt32)

namespace Settings

/-- A value that the setting must not have. -/
def isInvalid (identifier : UInt16) (value : UInt32) : Bool :=
  (identifier == 2 || identifier == 8 || identifier == 9) && 1 < value ||
    identifier == 4 && 0x7FFFFFFF < value ||
    identifier == 5 && !(16384 ≤ value && value ≤ 0x00FFFFFF)

def pass (entries : Settings) : Cursor Settings := fun input => do
  let (identifier, input) ← Cursor.u16 input
  let (value, input) ← Cursor.u32 input
  if isInvalid identifier value then .error .invalid
  else .ok (entries ++ [(identifier, value)], input)

theorem advances_pass (entries : Settings) : Cursor.Advances (pass entries) := by
  intro remaining value rest read
  obtain ⟨first, identifier, read⟩ := Cursor.bind_eq_ok read
  obtain ⟨second, number, read⟩ := Cursor.bind_eq_ok read
  have left : rest = second.2 := by
    dsimp only at read
    split_ifs at read
    cases read
    rfl
  rw [left]
  exact (Cursor.advances_u32 number).trans (Cursor.advances_u16 identifier)

def tryFrom (payload : List UInt8) : Except CaptureError Settings :=
  Cursor.whileSome pass [] payload

def text (settings : Settings) : List Char :=
  [';'].intercalate (settings.map fun entry =>
    decimal entry.1.toNat ++ [':'] ++ decimal entry.2.toNat)

end Settings

structure HeaderFragment where
  stream : NonZeroU32
  block : List UInt8
  complete : Bool

inductive Frame where
  | settings (settings : Settings)
  | settingsAck
  | windowUpdate (stream : UInt32) (increment : NonZeroU32)
  | priority (priority : Priority)
  | headers (fragment : HeaderFragment)
  | continuation (fragment : HeaderFragment)
  | other

namespace Frame

/-- A payload without its padding, if the flags say that it has some. -/
def unpadded (padded : Bool) (body : List UInt8) : Except CaptureError (List UInt8) :=
  if padded then do
    let (padding, body) ← Cursor.byte body
    if body.length < padding.toNat then .error .invalid
    else .ok (body.take (body.length - padding.toNat))
  else .ok body

/-- What follows the priority, if the flags say that there is one. -/
def unprioritized (prioritized : Bool) (stream : UInt32) (body : List UInt8) :
    Except CaptureError (List UInt8) :=
  if prioritized then do
    let (_, body) ← Priority.decode stream body
    return body
  else .ok body

/-- The fragment of a HEADERS frame, or of a CONTINUATION frame, which has no padding and no
priority. -/
def fragment (isHeaders : Bool) (flags : UInt8) (stream : UInt32) (payload : List UInt8) :
    Except CaptureError HeaderFragment :=
  match (NonZeroU32.new stream).filter fun value => value.val % 2 ≠ 0 with
  | none => .error .invalid
  | some requestStream => do
    let body ← unpadded (isHeaders && flags &&& 8 != 0) payload
    let block ← unprioritized (isHeaders && flags &&& 0x20 != 0) stream body
    return { stream := requestStream, block, complete := flags &&& 4 != 0 }

/-- A frame from the parts of its header and its payload. -/
def ofPayload (kind flags : UInt8) (stream : UInt32) (payload : List UInt8) :
    Except CaptureError Frame :=
  if kind = 4 then
    if stream ≠ 0 then .error .invalid
    else if flags &&& 1 = 0 then (Settings.tryFrom payload).map settings
    else (Cursor.finish payload).map fun _ => settingsAck
  else if kind = 8 then do
    let (value, rest) ← Cursor.u32 payload
    match NonZeroU32.new (value &&& 0x7FFFFFFF) with
    | none => .error .invalid
    | some increment => (Cursor.finish rest).map fun _ => windowUpdate stream increment
  else if kind = 2 then do
    let (read, rest) ← Priority.decode stream payload
    (Cursor.finish rest).map fun _ => priority read
  else if kind = 1 then (fragment true flags stream payload).map headers
  else if kind = 9 then (fragment false flags stream payload).map continuation
  else if kind = 0 ∨ kind = 5 then .error .invalid
  else .ok other

/-- The frame at the front with its length, if it is there as a whole. -/
def decode (data : List UInt8) : Except CaptureError (Option (Frame × Nat)) :=
  match data with
  | l₀ :: l₁ :: l₂ :: kind :: flags :: s₀ :: s₁ :: s₂ :: s₃ :: rest =>
    let length := Bytes.number [l₀, l₁, l₂]
    let stream := UInt32.ofNat (Bytes.number [s₀, s₁, s₂, s₃]) &&& 0x7FFFFFFF
    if 16384 < length then .error .limited
    else if rest.length < length then .ok none
    else
      (ofPayload kind flags stream (rest.take length)).map fun frame => some (frame, 9 + length)
  | _ => .ok none

/-- A whole frame, or an error, does not depend on what comes after it. -/
theorem decode_append {data : List UInt8} (later : List UInt8) (decided : decode data ≠ .ok none) :
    decode (data ++ later) = decode data := by
  unfold decode at decided ⊢
  split at decided
  · next l₀ l₁ l₂ _ _ _ _ _ _ rest =>
    simp only [List.cons_append]
    split
    · rfl
    · next small =>
      rw [if_neg small] at decided
      split at decided
      · exact absurd rfl decided
      · next whole =>
        have whole' : ¬(rest ++ later).length < Bytes.number [l₀, l₁, l₂] := by
          rw [List.length_append]
          omega
        rw [if_neg whole', if_neg whole, List.take_append_of_le_length (by omega)]
  · exact absurd rfl decided

theorem length_of_decode {data : List UInt8} {frame : Frame} {consumed : Nat}
    (decoded : decode data = .ok (some (frame, consumed))) :
    9 ≤ consumed ∧ consumed ≤ data.length := by
  unfold decode at decoded
  split at decoded
  · dsimp only at decoded
    split_ifs at decoded with _ whole
    · cases decoded
    · generalize ofPayload _ _ _ _ = read at decoded
      cases read with
      | error error => cases decoded
      | ok frame =>
        cases decoded
        simp only [List.length_cons]
        omega
  · cases decoded

end Frame

/-! ### The capture -/

/-- `Http2Fingerprint` -/
structure Fingerprint where
  settings : Settings
  windowUpdate : Option NonZeroU32
  priorities : List Priority
  pseudoHeaders : Order

namespace Fingerprint

def windowUpdateText (fingerprint : Fingerprint) : List Char :=
  match fingerprint.windowUpdate with
  | none => ['0', '0']
  | some value => decimal value.val.toNat

def priorityText (fingerprint : Fingerprint) : List Char :=
  if fingerprint.priorities.isEmpty then ['0']
  else [','].intercalate (fingerprint.priorities.map Priority.text)

def text (fingerprint : Fingerprint) : List Char :=
  ['|'].intercalate [fingerprint.settings.text, fingerprint.windowUpdateText,
    fingerprint.priorityText, Hpack.Order.text fingerprint.pseudoHeaders]

end Fingerprint

inductive HeaderBlock where
  | pending
  | continuing (stream : NonZeroU32) (encoded : List UInt8)

structure ConnectionCapture where
  settings : Settings
  windowUpdate : Option NonZeroU32
  priorities : List Priority
  headers : HeaderBlock

namespace ConnectionCapture

def new (settings : Settings) : ConnectionCapture :=
  { settings, windowUpdate := none, priorities := [], headers := .pending }

/-- Takes a frame, after which the order of the pseudo headers may be known. -/
def frame (huffman : List UInt8 → Option (List UInt8)) (capture : ConnectionCapture) :
    Frame → Except CaptureError (Option Order × ConnectionCapture)
  | .headers fragment =>
    match capture.headers with
    | .pending =>
      if fragment.complete then
        (Order.tryFrom huffman fragment.block).map fun order => (some order, capture)
      else
        .ok (none, { capture with headers := .continuing fragment.stream fragment.block })
    | .continuing _ _ => .error .invalid
  | .continuation fragment =>
    match capture.headers with
    | .pending => .error .invalid
    | .continuing stream encoded =>
      if stream ≠ fragment.stream then .error .invalid
      else
        let capture :=
          { capture with headers := .continuing stream (encoded ++ fragment.block) }
        if fragment.complete then
          (Order.tryFrom huffman (encoded ++ fragment.block)).map fun order => (some order, capture)
        else .ok (none, capture)
  | frame =>
    match capture.headers with
    | .continuing _ _ => .error .invalid
    | .pending =>
      match frame with
      | .windowUpdate stream increment =>
        if stream = 0 then
          .ok (none, { capture with windowUpdate := some (capture.windowUpdate.getD increment) })
        else .ok (none, capture)
      | .priority priority =>
        .ok (none, { capture with priorities := capture.priorities ++ [priority] })
      | _ => .ok (none, capture)

end ConnectionCapture

/-! ### The observer -/

def preface : List UInt8 := Bytes.ofText "PRI * HTTP/2.0\r\n\r\nSM\r\n\r\n"

def captureLimit : Nat := 65536

/-- What is kept of the bytes seen so far, how many of them are done with, and what the frames
in them came to. -/
structure Observer where
  buffer : List UInt8
  position : Nat
  frames : Nat
  capture : Option ConnectionCapture

namespace Observer

def new : Observer := { buffer := [], position := 0, frames := 0, capture := none }

def extend (observer : Observer) (later : List UInt8) : Observer :=
  { observer with buffer := observer.buffer ++ later }

variable (huffman : List UInt8 → Option (List UInt8))

/-- Takes the frame at the position. -/
def take (observer : Observer) (frame : Frame) (consumed : Nat) :
    Except CaptureError (Option Fingerprint × Observer) :=
  if 128 ≤ observer.frames then .error .limited
  else
    let observer :=
      { observer with
        frames := observer.frames + 1
        position := observer.position + consumed }
    match observer.capture with
    | none =>
      match frame with
      | .settings settings => .ok (none, { observer with capture := some (.new settings) })
      | _ => .error .invalid
    | some capture =>
      match capture.frame huffman frame with
      | .error error => .error error
      | .ok (none, capture) => .ok (none, { observer with capture := some capture })
      | .ok (some pseudoHeaders, completed) =>
        let fingerprint : Fingerprint :=
          { settings := completed.settings, windowUpdate := completed.windowUpdate
            priorities := completed.priorities, pseudoHeaders }
        if 4096 < fingerprint.text.length then .error .limited
        else .ok (some fingerprint, { observer with capture := none })

variable {huffman}

theorem take_ok {observer next : Observer} {frame : Frame} {consumed : Nat}
    {found : Option Fingerprint}
    (taken : observer.take huffman frame consumed = .ok (found, next)) :
    next.buffer = observer.buffer ∧ next.position = observer.position + consumed := by
  unfold take at taken
  split_ifs at taken
  dsimp only at taken
  split at taken
  · split at taken <;> cases taken
    exact ⟨rfl, rfl⟩
  · split at taken
    · cases taken
    · cases taken
      exact ⟨rfl, rfl⟩
    · split_ifs at taken
      cases taken
      exact ⟨rfl, rfl⟩

variable (huffman)

/-- The loop over the frames that are there as a whole. -/
def run (observer : Observer) : Except CaptureError (Option Fingerprint × Observer) :=
  match decoded : Frame.decode (observer.buffer.drop observer.position) with
  | .error error => .error error
  | .ok none => .ok (none, observer)
  | .ok (some (frame, consumed)) =>
    match taken : observer.take huffman frame consumed with
    | .error error => .error error
    | .ok (some fingerprint, next) => .ok (some fingerprint, next)
    | .ok (none, next) =>
      have := Frame.length_of_decode decoded
      have := take_ok taken
      next.run
termination_by observer.buffer.length - observer.position
decreasing_by
  simp_all only [List.length_drop]
  omega

/-- What a run comes to, where too many bytes that decide nothing are an error. -/
def scan (observer : Observer) : Except CaptureError (Option (Capture Fingerprint) × Observer) :=
  match observer.run huffman with
  | .error error => .error error
  | .ok (some fingerprint, observer) => .ok (some (.complete fingerprint), observer)
  | .ok (none, observer) =>
    if observer.buffer.length = captureLimit then .error .limited else .ok (none, observer)

/-- The preface, and the frames after it. -/
def advance (observer : Observer) :
    Except CaptureError (Option (Capture Fingerprint) × Observer) :=
  if observer.position = 0 then
    if ¬observer.buffer.take preface.length <+: preface then .ok (some .unavailable, observer)
    else if observer.buffer.length < preface.length then .ok (none, observer)
    else { observer with position := preface.length }.scan huffman
  else observer.scan huffman

/-- Bytes that a read brought, up to the limit. -/
def feed (observer : Observer) (incoming : List UInt8) :
    Except CaptureError (Option (Capture Fingerprint) × Observer) :=
  (observer.extend (incoming.take (captureLimit - observer.buffer.length))).advance huffman

/-- What was found out, if anything. -/
def reported : Except CaptureError (Option (Capture Fingerprint) × Observer) →
    Option (Capture Fingerprint)
  | .error error => some (.failed error)
  | .ok (capture, _) => capture

/-! ### More bytes -/

section

variable {huffman} {observer : Observer}

theorem run_error {error : CaptureError}
    (decoded : Frame.decode (observer.buffer.drop observer.position) = .error error) :
    observer.run huffman = .error error := by
  rw [run]
  split
  · next decoded' => rw [decoded] at decoded'; cases decoded'; rfl
  · next decoded' => rw [decoded] at decoded'; cases decoded'
  · next decoded' => rw [decoded] at decoded'; cases decoded'

theorem run_none (decoded : Frame.decode (observer.buffer.drop observer.position) = .ok none) :
    observer.run huffman = .ok (none, observer) := by
  rw [run]
  split
  · next decoded' => rw [decoded] at decoded'; cases decoded'
  · rfl
  · next decoded' => rw [decoded] at decoded'; cases decoded'

theorem run_frame {frame : Frame} {consumed : Nat}
    (decoded : Frame.decode (observer.buffer.drop observer.position) =
      .ok (some (frame, consumed))) :
    observer.run huffman =
      match observer.take huffman frame consumed with
      | .error error => .error error
      | .ok (some fingerprint, next) => .ok (some fingerprint, next)
      | .ok (none, next) => next.run huffman := by
  rw [run]
  split
  · next decoded' => rw [decoded] at decoded'; cases decoded'
  · next decoded' => rw [decoded] at decoded'; cases decoded'
  · next decoded' =>
    rw [decoded] at decoded'
    cases decoded'
    split
    all_goals
      next taken => simp only [taken]

/-- What a frame comes to does not depend on the bytes after it. -/
theorem take_extend (later : List UInt8) (frame : Frame) (consumed : Nat) :
    (observer.extend later).take huffman frame consumed =
      (observer.take huffman frame consumed).map fun taken => (taken.1, taken.2.extend later) := by
  unfold take extend
  dsimp only
  split_ifs
  · rfl
  · cases observer.capture with
    | none => cases frame <;> rfl
    | some capture =>
      dsimp only
      cases capture.frame huffman frame with
      | error error => rfl
      | ok taken =>
        obtain ⟨_ | order, capture⟩ := taken
        · rfl
        · dsimp only
          split_ifs <;> rfl

theorem decode_extend (within : observer.position ≤ observer.buffer.length) (later : List UInt8)
    (decided : Frame.decode (observer.buffer.drop observer.position) ≠ .ok none) :
    Frame.decode ((observer.extend later).buffer.drop (observer.extend later).position) =
      Frame.decode (observer.buffer.drop observer.position) := by
  have rest : (observer.extend later).buffer.drop (observer.extend later).position =
      observer.buffer.drop observer.position ++ later := List.drop_append_of_le_length within
  rw [rest]
  exact Frame.decode_append later decided

theorem position_le_of_take {frame : Frame} {consumed : Nat} {found : Option Fingerprint}
    {next : Observer} (within : observer.position ≤ observer.buffer.length)
    (decoded : Frame.decode (observer.buffer.drop observer.position) =
      .ok (some (frame, consumed)))
    (taken : observer.take huffman frame consumed = .ok (found, next)) :
    next.position ≤ next.buffer.length := by
  have length := (Frame.length_of_decode decoded).2
  obtain ⟨buffer, position⟩ := take_ok taken
  rw [List.length_drop] at length
  rw [buffer, position]
  omega

/-- A run over more bytes goes on where a run over fewer stopped. -/
theorem run_extend (within : observer.position ≤ observer.buffer.length) (later : List UInt8) :
    (observer.extend later).run huffman =
      match observer.run huffman with
      | .error error => .error error
      | .ok (some fingerprint, stopped) => .ok (some fingerprint, stopped.extend later)
      | .ok (none, stopped) => (stopped.extend later).run huffman := by
  induction observer using run.induct huffman with
  | case1 observer error decoded =>
    have decoded' := decode_extend within later (by rw [decoded]; nofun)
    rw [run_error decoded, run_error (decoded'.trans decoded)]
  | case2 observer decoded => rw [run_none decoded]
  | case3 observer frame consumed decoded error taken =>
    have decoded' := decode_extend within later (by rw [decoded]; nofun)
    rw [run_frame decoded, run_frame (decoded'.trans decoded), take_extend, taken]
    rfl
  | case4 observer frame consumed decoded fingerprint next taken =>
    have decoded' := decode_extend within later (by rw [decoded]; nofun)
    rw [run_frame decoded, run_frame (decoded'.trans decoded), take_extend, taken]
    rfl
  | case5 observer frame consumed decoded next taken _ _ inductionHypothesis =>
    have decoded' := decode_extend within later (by rw [decoded]; nofun)
    rw [run_frame decoded, run_frame (decoded'.trans decoded), take_extend, taken]
    exact inductionHypothesis (position_le_of_take within decoded taken)

/-- Where a run stops for want of bytes. -/
theorem stopped_of_run (within : observer.position ≤ observer.buffer.length) {stopped : Observer}
    (ran : observer.run huffman = .ok (none, stopped)) :
    stopped.buffer = observer.buffer ∧ observer.position ≤ stopped.position ∧
      stopped.position ≤ stopped.buffer.length := by
  induction observer using run.induct huffman with
  | case1 observer error decoded =>
    rw [run_error decoded] at ran
    cases ran
  | case2 observer decoded =>
    rw [run_none decoded] at ran
    cases ran
    exact ⟨rfl, Nat.le_refl _, within⟩
  | case3 observer frame consumed decoded error taken =>
    rw [run_frame decoded, taken] at ran
    cases ran
  | case4 observer frame consumed decoded fingerprint next taken =>
    rw [run_frame decoded, taken] at ran
    cases ran
  | case5 observer frame consumed decoded next taken _ _ inductionHypothesis =>
    rw [run_frame decoded, taken] at ran
    obtain ⟨buffer, position⟩ := take_ok taken
    obtain ⟨buffer', position', within'⟩ :=
      inductionHypothesis (position_le_of_take within decoded taken) ran
    exact ⟨buffer'.trans buffer, by omega, within'⟩

theorem scan_extend_of_reported (within : observer.position ≤ observer.buffer.length)
    (room : observer.buffer.length < captureLimit) {capture : Capture Fingerprint}
    (report : reported (observer.scan huffman) = some capture) (later : List UInt8) :
    reported ((observer.extend later).scan huffman) = some capture := by
  rw [scan] at report ⊢
  rw [run_extend within later]
  cases ran : observer.run huffman with
  | error error =>
    rw [ran] at report
    exact report
  | ok result =>
    obtain ⟨_ | fingerprint, stopped⟩ := result
    · rw [ran] at report
      dsimp only at report
      rw [(stopped_of_run within ran).1, if_neg (Nat.ne_of_lt room)] at report
      cases report
    · rw [ran] at report
      exact report

theorem scan_extend_of_stopped (within : observer.position ≤ observer.buffer.length)
    {stopped : Observer} (scanned : observer.scan huffman = .ok (none, stopped))
    (later : List UInt8) :
    (observer.extend later).scan huffman = (stopped.extend later).scan huffman ∧
      stopped.buffer = observer.buffer ∧ observer.position ≤ stopped.position ∧
      observer.buffer.length ≠ captureLimit := by
  have ran : observer.run huffman = .ok (none, stopped) ∧
      stopped.buffer.length ≠ captureLimit := by
    rw [scan] at scanned
    split at scanned
    · cases scanned
    · cases scanned
    · next ran =>
      split_ifs at scanned with full
      cases scanned
      exact ⟨ran, full⟩
  obtain ⟨buffer, position, _⟩ := stopped_of_run within ran.1
  refine ⟨?_, buffer, position, buffer ▸ ran.2⟩
  rw [scan, scan, run_extend within later, ran.1]

end

/-! ### A fresh observer -/

section

variable {huffman} {stream : List UInt8}

theorem length_preface : preface.length = 24 := by decide

/-- An observer that has seen the preface. -/
def started (buffer : List UInt8) : Observer :=
  { buffer, position := preface.length, frames := 0, capture := none }

theorem advance_new (buffer : List UInt8) :
    (new.extend buffer).advance huffman =
      if ¬buffer.take preface.length <+: preface then .ok (some .unavailable, new.extend buffer)
      else if buffer.length < preface.length then .ok (none, new.extend buffer)
      else (started buffer).scan huffman := by
  rw [advance, if_pos (show (new.extend buffer).position = 0 from rfl)]
  rfl

theorem feed_new (stream : List UInt8) :
    new.feed huffman stream = (new.extend (stream.take captureLimit)).advance huffman := rfl

theorem within_started {buffer : List UInt8} (long : ¬buffer.length < preface.length) :
    (started buffer).position ≤ (started buffer).buffer.length := Nat.not_lt.mp long

/-- The bytes of two reads, up to the limit. -/
theorem take_captureLimit (few : stream.length < captureLimit) (later : List UInt8) :
    (stream ++ later).take captureLimit =
      stream ++ later.take (captureLimit - stream.length) := by
  rw [List.take_append, List.take_of_length_le (Nat.le_of_lt few)]

/-- What a fresh observer finds out holds whatever follows. -/
theorem reported_feed_append {capture : Capture Fingerprint}
    (report : reported (new.feed huffman stream) = some capture) (later : List UInt8) :
    reported (new.feed huffman (stream ++ later)) = some capture := by
  rw [feed_new] at report ⊢
  rcases Nat.lt_or_ge stream.length captureLimit with few | many
  · rw [take_captureLimit few]
    rw [List.take_of_length_le (Nat.le_of_lt few)] at report
    generalize later.take (captureLimit - stream.length) = more
    rw [advance_new] at report ⊢
    split at report
    · next strange =>
      have front : stream.take preface.length <+: (stream ++ more).take preface.length := by
        rw [List.take_append]
        exact List.prefix_append _ _
      rw [if_pos fun usual => strange (front.trans usual)]
      exact report
    · next usual =>
      split at report
      · cases report
      · next long =>
        have front : (stream ++ more).take preface.length = stream.take preface.length :=
          List.take_append_of_le_length (Nat.not_lt.mp long)
        have long' : ¬(stream ++ more).length < preface.length := by
          rw [List.length_append]
          omega
        rw [front, if_neg usual, if_neg long']
        exact scan_extend_of_reported (within_started long) few report more
  · rw [List.take_append_of_le_length many]
    exact report

/-- An observer that found out nothing goes on like a fresh one that sees all bytes at once. -/
theorem feed_of_feed_new {observer : Observer}
    (fed : new.feed huffman stream = .ok (none, observer)) (later : List UInt8) :
    observer.feed huffman later = new.feed huffman (stream ++ later) := by
  rw [feed_new, advance_new] at fed
  split at fed
  · cases fed
  next usual =>
  split at fed
  · next short =>
    cases fed
    have few : stream.length < captureLimit := by
      rw [List.length_take] at short
      have small : preface.length < captureLimit := by decide
      omega
    have whole : stream.take captureLimit = stream := List.take_of_length_le (Nat.le_of_lt few)
    rw [whole, feed_new, take_captureLimit few]
    rfl
  · next short =>
    have limit : (started (stream.take captureLimit)).buffer.length ≠ captureLimit :=
      (scan_extend_of_stopped (within_started short) fed []).2.2.2
    have few : stream.length < captureLimit := by
      have length : (stream.take captureLimit).length ≠ captureLimit := limit
      rw [List.length_take] at length
      omega
    have whole : stream.take captureLimit = stream := List.take_of_length_le (Nat.le_of_lt few)
    rw [whole] at fed usual short
    obtain ⟨same, buffer, position, -⟩ := scan_extend_of_stopped (within_started short) fed
      (later.take (captureLimit - stream.length))
    have buffer' : observer.buffer = stream := buffer
    have past : preface.length ≤ observer.position := position
    rw [length_preface] at past
    have begun : (observer.extend (later.take (captureLimit - stream.length))).position ≠ 0 :=
      Nat.ne_of_gt (Nat.lt_of_lt_of_le (by decide) past)
    have front : (stream ++ later.take (captureLimit - stream.length)).take preface.length =
        stream.take preface.length := List.take_append_of_le_length (Nat.not_lt.mp short)
    have long : ¬(stream ++ later.take (captureLimit - stream.length)).length < preface.length := by
      rw [List.length_append]
      omega
    rw [feed, buffer', advance, if_neg begun, feed_new, take_captureLimit few, advance_new, front,
      if_neg usual, if_neg long]
    exact same.symm

theorem exists_of_not_reported (report : reported (new.feed huffman stream) = none) :
    ∃ observer, new.feed huffman stream = .ok (none, observer) := by
  cases fed : new.feed huffman stream with
  | error error =>
    rw [fed] at report
    cases report
  | ok result =>
    rw [fed] at report
    exact ⟨result.2, by rw [← show result.1 = none from report]⟩

/-- So many bytes are never without a report. -/
theorem reported_of_length (many : captureLimit ≤ stream.length) :
    ∃ capture, reported (new.feed huffman stream) = some capture := by
  cases report : reported (new.feed huffman stream) with
  | some capture => exact ⟨capture, rfl⟩
  | none =>
    obtain ⟨observer, fed⟩ := exists_of_not_reported report
    have length : (stream.take captureLimit).length = captureLimit := List.length_take_of_le many
    rw [feed_new, advance_new] at fed
    split at fed
    · cases fed
    · split at fed
      · next short =>
        rw [length] at short
        exact absurd short (by decide)
      · next long =>
        exact absurd length (scan_extend_of_stopped (within_started long) fed []).2.2.2

end

end Observer

/-! ### The stream -/

/-- How a poll of the stream inside ends. -/
inductive Polled where
  | ready
  | pending
  | failed

/-- One poll: what the buffer of the caller already held, and what the stream inside put behind
that. -/
structure Read where
  filled : List UInt8
  bytes : List UInt8
  polled : Polled

structure FingerprintStream where
  observer : Option Observer
  fingerprint : Capture Fingerprint

namespace FingerprintStream

def new : FingerprintStream :=
  { observer := some .new, fingerprint := .failed .incomplete }

variable (huffman : List UInt8 → Option (List UInt8))

/-- `poll_read`, with the buffer that the caller gets back. -/
def pollRead (stream : FingerprintStream) (read : Read) :
    (Polled × List UInt8) × FingerprintStream :=
  let filled := read.filled ++ read.bytes
  let incoming := filled.drop read.filled.length
  let stream :=
    match stream.observer with
    | none => stream
    | some observer =>
      if incoming.isEmpty then stream
      else
        match observer.feed huffman incoming with
        | .ok (some capture, _) => { observer := none, fingerprint := capture }
        | .error error => { observer := none, fingerprint := .failed error }
        | .ok (none, observer) => { stream with observer := some observer }
  ((read.polled, filled), stream)

/-- The stream after some polls. -/
def after (reads : List Read) : FingerprintStream :=
  reads.foldl (fun stream read => (stream.pollRead huffman read).2) new

/-- The bytes that some polls read. -/
def bytes (reads : List Read) : List UInt8 := reads.flatMap Read.bytes

/-- What the stream holds when a fresh observer sees all bytes at once. -/
def ofBytes (bytes : List UInt8) : FingerprintStream :=
  match Observer.new.feed huffman bytes with
  | .ok (some capture, _) => { observer := none, fingerprint := capture }
  | .error error => { observer := none, fingerprint := .failed error }
  | .ok (none, observer) => { observer := some observer, fingerprint := .failed .incomplete }

variable {huffman}

theorem ofBytes_of_reported {bytes : List UInt8} {capture : Capture Fingerprint}
    (report : Observer.reported (Observer.new.feed huffman bytes) = some capture) :
    ofBytes huffman bytes = { observer := none, fingerprint := capture } := by
  unfold ofBytes
  cases fed : Observer.new.feed huffman bytes with
  | error error =>
    rw [fed] at report
    cases report
    rfl
  | ok result =>
    obtain ⟨_ | found, observer⟩ := result
    · rw [fed] at report
      cases report
    · rw [fed] at report
      cases report
      rfl

theorem ofBytes_of_stopped {bytes : List UInt8} {observer : Observer}
    (fed : Observer.new.feed huffman bytes = .ok (none, observer)) :
    ofBytes huffman bytes = { observer := some observer, fingerprint := .failed .incomplete } := by
  rw [ofBytes, fed]

/-- What was reported stays as it is. -/
theorem pollRead_of_reported {stream : FingerprintStream} (reported : stream.observer = none)
    (read : Read) : (stream.pollRead huffman read).2 = stream := by
  simp only [pollRead, reported]

theorem pollRead_ofBytes (bytes : List UInt8) (read : Read) :
    ((ofBytes huffman bytes).pollRead huffman read).2 = ofBytes huffman (bytes ++ read.bytes) := by
  cases report : Observer.reported (Observer.new.feed huffman bytes) with
  | some capture =>
    rw [ofBytes_of_reported report,
      ofBytes_of_reported (Observer.reported_feed_append report read.bytes)]
    exact pollRead_of_reported rfl read
  | none =>
    obtain ⟨observer, fed⟩ := Observer.exists_of_not_reported report
    have more := Observer.feed_of_feed_new fed read.bytes
    rw [ofBytes_of_stopped fed, pollRead]
    simp only [List.drop_left]
    split
    · next none =>
      rw [List.isEmpty_iff.mp none, List.append_nil, ofBytes_of_stopped fed]
    · rw [more]
      rfl

/-- The stream depends on the bytes that were read, and not on the reads. -/
theorem after_eq (reads : List Read) : after huffman reads = ofBytes huffman (bytes reads) := by
  induction reads using List.reverseRecOn with
  | nil => rfl
  | append_singleton reads read inductionHypothesis =>
    have more : bytes (reads ++ [read]) = bytes reads ++ read.bytes := by
      rw [bytes, List.flatMap_append, List.flatMap_singleton, bytes]
    rw [more, ← pollRead_ofBytes, ← inductionHypothesis, after, after, List.foldl_append]
    rfl

end FingerprintStream

open FingerprintStream in
/-- The server gets what was read. What is reported is the same however the bytes are cut into
reads, it is reported at the latest when the limit is reached, and it does not change. -/
theorem fingerprint_of_bytes (huffman : List UInt8 → Option (List UInt8)) :
    (∀ (stream : FingerprintStream) (read : Read),
      (stream.pollRead huffman read).1 = (read.polled, read.filled ++ read.bytes)) ∧
      (∀ reads reads' : List Read, bytes reads = bytes reads' →
        after huffman reads = after huffman reads') ∧
      (∀ reads reads' : List Read, (after huffman reads).observer = none →
        bytes reads <+: bytes reads' → after huffman reads' = after huffman reads) ∧
      ∀ reads : List Read, captureLimit ≤ (bytes reads).length →
        (after huffman reads).observer = none := by
  refine ⟨fun stream read => rfl, ?_, ?_, ?_⟩
  · intro reads reads' same
    rw [after_eq, after_eq, same]
  · intro reads reads' reported ⟨later, more⟩
    rw [after_eq] at reported ⊢
    rw [after_eq, ← more]
    cases report : Observer.reported (Observer.new.feed huffman (bytes reads)) with
    | some capture =>
      rw [ofBytes_of_reported report,
        ofBytes_of_reported (Observer.reported_feed_append report later)]
    | none =>
      obtain ⟨observer, fed⟩ := Observer.exists_of_not_reported report
      rw [ofBytes_of_stopped fed] at reported
      cases reported
  · intro reads many
    obtain ⟨capture, report⟩ := Observer.reported_of_length many
    rw [after_eq, ofBytes_of_reported report]

namespace Sample

/-- The preface, empty SETTINGS, and HEADERS with four pseudo headers. -/
def request : List UInt8 :=
  preface ++ [0, 0, 0, 4, 0, 0, 0, 0, 0] ++
    [0, 0, 6, 1, 4, 0, 0, 0, 1, 0x82, 0x87, 0x84, 0x41, 1, 0x61]

def inOne (bytes : List UInt8) : List Read := [{ filled := [], bytes, polled := .ready }]

def byteByByte (bytes : List UInt8) : List Read :=
  bytes.map fun byte => { filled := [7], bytes := [byte], polled := .ready }

/-- No string of these is Huffman coded. -/
theorem fingerprint_of_request :
    FingerprintStream.after (fun _ => none) (inOne request) =
        FingerprintStream.after (fun _ => none) (byteByByte request) ∧
      FingerprintStream.after (fun _ => none) (byteByByte [0x47, 0x45, 0x54]) =
        FingerprintStream.after (fun _ => none) (inOne [0x47]) :=
  ⟨(fingerprint_of_bytes fun _ => none).2.1 _ _ (by decide),
    (fingerprint_of_bytes fun _ => none).2.2.1 (inOne [0x47]) (byteByByte [0x47, 0x45, 0x54])
      (by rw [FingerprintStream.after_eq]; rfl) (by decide)⟩

end Sample

end Http2

end Bagel
