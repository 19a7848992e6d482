/-
This file models the source that follows a log file.

The source keeps a file open, reads it through a buffer, and cuts what it reads into
records: one for each line, or one without text for a line that is too long. At the end
of the file it looks at the path again, and opens it anew when another file is there, or
when the file has become shorter or no longer ends in the bytes read last.

Other processes write while the source runs. Every access of the source to the file
system is therefore one step of a machine, with a phase for each place in the code where
it may be interrupted, and what the operating system answers is an argument of the step.
-/

import Mathlib.Logic.Function.Basic
import Bagel.Library.Lines
import Bagel.Source
import Bagel.Utf8
import Bagel.Validation

namespace Bagel

/-! ### Text -/

def newline : UInt8 := 10

/-- The text of a line: decoded, and without the carriage returns and newlines at its end. -/
def lineText (line : List UInt8) : String :=
  String.ofList ((fromUtf8Lossy line).rdropWhile fun char => char == '\r' || char == '\n')

example : lineText [0x61, 0xC3, 0xA4, 0xE2, 0x82, 0x62, 13, 10] =
    String.ofList ['a', 'ä', replacement, 'b'] := by
  decide

/-! ### Tails -/

/-- `FILE_TAIL_BYTES`. -/
def fileTailBytes : Nat := 64

/-- Keep the last bytes of what was read. -/
def pushTail (tail bytes : List UInt8) : List UInt8 :=
  if fileTailBytes ≤ bytes.length then bytes.drop (bytes.length - fileTailBytes)
  else tail.drop (tail.length + bytes.length - fileTailBytes) ++ bytes

/-- The last bytes before an offset, as far as the file has them. -/
def readFileTail (content : List UInt8) (offset : Nat) : List UInt8 :=
  let length := min offset fileTailBytes
  (content.drop (offset - length)).take length

/-! ### Files -/

/-- The device and the inode. -/
abbrev FileId := Nat × Nat

/-- All files, and the one behind the path that the source follows. -/
structure Disk where
  files : FileId → Option (List UInt8)
  path : Option FileId

def Disk.content (disk : Disk) (file : FileId) : List UInt8 := (disk.files file).getD []

def Disk.write (disk : Disk) (file : FileId) (content : List UInt8) : Disk :=
  { disk with files := Function.update disk.files file (some content) }

/-- One file, behind the path. -/
def Disk.lone (file : FileId) (content : List UInt8) : Disk :=
  ⟨fun other => if other = file then some content else none, some file⟩

/-- A record of the file source: the arguments of `send_file_record`. -/
structure FileRecord where
  identity : FileId
  generation : Nat
  offset : Nat
  tail : List UInt8
  payload : String
  oversized : Bool
  deriving DecidableEq

namespace FileRecord

def id (record : FileRecord) : String :=
  toString record.identity.1 ++ ":" ++ toString record.identity.2 ++ ":" ++
    toString record.generation ++ ":" ++ toString record.offset

def checkpoint (record : FileRecord) : Checkpoint :=
  .file record.identity.1 record.identity.2 record.offset record.generation record.tail

end FileRecord

/-- Where reading is taken up when the path is opened. -/
structure FileResume where
  identity : FileId
  offset : Nat
  generation : Nat
  tail : List UInt8

def Checkpoint.fileResume : Checkpoint → Option FileResume
  | .file device inode offset generation tail => some ⟨(device, inode), offset, generation, tail⟩
  | _ => none

/-! ### The machine -/

/-- Where the source is in its code. -/
inductive TailPhase where
  /-- Before `File::open`. -/
  | opening
  /-- Within `read_until`, with what is left of its limit and what it has read. -/
  | reading (limit taken : Nat)
  /-- Within `drain_line`, with the bytes of the line that were read. -/
  | draining (consumed : Nat)
  /-- Nothing was read, before the `metadata` of the path. -/
  | looking
  /-- The path is still the open file, before `file_tail_matches`. -/
  | matching
  /-- An error ended the source. -/
  | failed
  deriving DecidableEq

def TailPhase.isDraining : TailPhase → Bool
  | draining _ => true
  | _ => false

structure Tailer where
  phase : TailPhase
  resume : Option FileResume
  initial : Bool
  identity : FileId
  generation : Nat
  committed : Nat
  tail : List UInt8
  pending : List UInt8
  /-- The position of the file itself, after the bytes in the buffer. -/
  position : Nat
  buffer : List UInt8

/-- What a file source is configured with. -/
structure TailConfig where
  start : StartPosition
  maxLineBytes : Nat

namespace Tailer

/-- The limit that the next line is read with. -/
def remaining (maxLineBytes : Nat) (pending : List UInt8) : Nat :=
  max (saturatingAdd maxLineBytes 1 - pending.length) 1

/-- Back to the head of the reading loop. -/
def again (tailer : Tailer) (config : TailConfig) : Tailer :=
  { tailer with phase := .reading (remaining config.maxLineBytes tailer.pending) 0 }

/-- The record that ends at the committed offset. -/
def record (tailer : Tailer) (payload : String) (oversized : Bool) : FileRecord :=
  ⟨tailer.identity, tailer.generation, tailer.committed, tailer.tail, payload, oversized⟩

/-- Fill the buffer when it is empty. The file answers with at least one byte unless its end is
reached, and with at most `size + 1`. -/
def fillBuf (tailer : Tailer) (content : List UInt8) (size : Nat) : Tailer :=
  if tailer.buffer = [] then
    let chunk := (content.drop tailer.position).take (size + 1)
    { tailer with buffer := chunk, position := tailer.position + chunk.length }
  else tailer

/-- The end of a line that was too long. -/
def finishOversized (tailer : Tailer) (config : TailConfig) (consumed : Nat) :
    Tailer × List FileRecord :=
  let tailer := { tailer with committed := tailer.committed + consumed }
  (tailer.again config, [tailer.record "" true])

/-- What follows the call of `read_until`. -/
def finishRead (tailer : Tailer) (config : TailConfig) (taken : Nat) : Tailer × List FileRecord :=
  if taken = 0 then ({ tailer with phase := .looking }, [])
  else if config.maxLineBytes < tailer.pending.length then
    let consumed := tailer.pending.length
    let ended := tailer.pending.getLast? = some newline
    let tailer := { tailer with tail := pushTail tailer.tail tailer.pending, pending := [] }
    if ended then tailer.finishOversized config consumed
    else ({ tailer with phase := .draining consumed }, [])
  else if tailer.pending.getLast? = some newline then
    let payload := lineText tailer.pending
    let tailer :=
      { tailer with
        committed := tailer.committed + tailer.pending.length
        tail := pushTail tailer.tail tailer.pending
        pending := [] }
    (tailer.again config, [tailer.record payload false])
  else (tailer.again config, [])

/-- One round of `read_until` on the limited reader. -/
def readStep (tailer : Tailer) (config : TailConfig) (content : List UInt8)
    (size limit taken : Nat) : Tailer × List FileRecord :=
  if limit = 0 then tailer.finishRead config taken
  else
    let tailer := tailer.fillBuf content size
    let available := tailer.buffer.take limit
    if available = [] then tailer.finishRead config taken
    else
      let line := Lines.upTo newline available
      let tailer :=
        { tailer with
          pending := tailer.pending ++ line
          buffer := tailer.buffer.drop line.length }
      if newline ∈ available then tailer.finishRead config (taken + line.length)
      else ({ tailer with phase := .reading (limit - line.length) (taken + line.length) }, [])

/-- One round of `drain_line`. -/
def drainStep (tailer : Tailer) (config : TailConfig) (content : List UInt8) (size consumed : Nat) :
    Tailer × List FileRecord :=
  let tailer := tailer.fillBuf content size
  if tailer.buffer = [] then tailer.finishOversized config consumed
  else
    let line := Lines.upTo newline tailer.buffer
    let ended := newline ∈ tailer.buffer
    let exhausted := line.length = tailer.buffer.length
    let tailer :=
      { tailer with
        tail := pushTail tailer.tail line
        buffer := tailer.buffer.drop line.length }
    if ¬ exhausted ∨ ended then tailer.finishOversized config (consumed + line.length)
    else ({ tailer with phase := .draining (consumed + line.length) }, [])

/-- Leave the file. What was read of an unfinished line is sent as a line that was too long. -/
def leave (tailer : Tailer) (current : FileId) : Tailer × List FileRecord :=
  let resume := some ⟨current, 0, saturatingAdd tailer.generation 1, []⟩
  if tailer.pending = [] then ({ tailer with phase := .opening, resume := resume }, [])
  else
    let tailer :=
      { tailer with
        tail := pushTail tailer.tail tailer.pending
        committed := tailer.committed + tailer.pending.length }
    ({ tailer with phase := .opening, resume := resume }, [tailer.record "" true])

/-- The look at the path after nothing was read. -/
def lookStep (tailer : Tailer) (disk : Disk) : Tailer × List FileRecord :=
  match disk.path with
  | none => tailer.leave (0, 0)
  | some current =>
    if current ≠ tailer.identity ∨ (disk.content current).length < tailer.committed then
      tailer.leave current
    else ({ tailer with phase := .matching }, [])

/-- The comparison of the last bytes before the committed offset. -/
def matchStep (tailer : Tailer) (config : TailConfig) (disk : Disk) : Tailer × List FileRecord :=
  if tailer.committed = 0 then
    if tailer.tail = [] then (tailer.again config, []) else tailer.leave tailer.identity
  else
    match disk.path with
    | none => ({ tailer with phase := .failed }, [])
    | some current =>
      if readFileTail (disk.content current) tailer.committed = tailer.tail then
        (tailer.again config, [])
      else tailer.leave tailer.identity

/-- Where the opened file is read from: the offset, the generation and the tail before it. -/
def startAt (tailer : Tailer) (config : TailConfig) (file : FileId) (content : List UInt8) :
    Nat × Nat × List UInt8 :=
  let priorGeneration := (tailer.resume.map FileResume.generation).getD 0
  let fresh :=
    if tailer.initial ∧ config.start = .ending then
      (content.length, priorGeneration, readFileTail content content.length)
    else (0, saturatingAdd priorGeneration 1, [])
  match tailer.resume with
  | none => fresh
  | some resume =>
    if resume.identity = file ∧ resume.offset ≤ content.length ∧
        (resume.tail = [] ∨ readFileTail content resume.offset = resume.tail) then
      let tail := if resume.tail = [] then readFileTail content resume.offset else resume.tail
      (resume.offset, resume.generation, tail)
    else fresh

/-- Open the path, if there is a file. -/
def openStep (tailer : Tailer) (config : TailConfig) (disk : Disk) : Tailer :=
  match disk.path with
  | none => tailer
  | some file =>
    let (offset, generation, tail) := tailer.startAt config file (disk.content file)
    { phase := .reading (remaining config.maxLineBytes []) 0
      resume := none
      initial := false
      identity := file
      generation := generation
      committed := offset
      tail := tail
      pending := []
      position := offset
      buffer := [] }

/-- The next access to the file system, with what follows it. -/
def step (tailer : Tailer) (config : TailConfig) (disk : Disk) (size : Nat) :
    Tailer × List FileRecord :=
  match tailer.phase with
  | .opening => (tailer.openStep config disk, [])
  | .reading limit taken =>
    tailer.readStep config (disk.content tailer.identity) size limit taken
  | .draining consumed => tailer.drainStep config (disk.content tailer.identity) size consumed
  | .looking => tailer.lookStep disk
  | .matching => tailer.matchStep config disk
  | .failed => (tailer, [])

/-- The source when it is started with a checkpoint. -/
def start (checkpoint : Option Checkpoint) : Tailer where
  phase := .opening
  resume := checkpoint.bind Checkpoint.fileResume
  initial := checkpoint.isNone
  identity := (0, 0)
  generation := 0
  committed := 0
  tail := []
  pending := []
  position := 0
  buffer := []

end Tailer

/-! ### Runs -/

/-- What can happen next to a file source and its files. -/
inductive TailAction where
  /-- Bytes are appended to a file. -/
  | append (file : FileId) (bytes : List UInt8)
  /-- The file behind the path is renamed, and a new one is created there. -/
  | rotate (file : FileId)
  /-- A file is truncated and written anew in place. -/
  | rewrite (file : FileId) (content : List UInt8)
  /-- The source goes on to its next access. -/
  | tail (size : Nat)
  /-- The source is stopped, wherever it is, and started with a checkpoint. -/
  | restart (checkpoint : Option Checkpoint)

/-- The files and the source, with the checkpoint it was started with, its records since the
path was opened last, and its records before. -/
structure TailWorld where
  disk : Disk
  tailer : Tailer
  checkpoint : Option Checkpoint
  sent : List FileRecord
  earlier : List FileRecord

namespace TailWorld

/-- All records so far. -/
def records (world : TailWorld) : List FileRecord := world.earlier ++ world.sent

/-- The file source goes on. When it opens the path, its records so far become the earlier
ones. -/
def tailed (world : TailWorld) (config : TailConfig) (size : Nat) : TailWorld :=
  let (tailer, records) := world.tailer.step config world.disk size
  if world.tailer.phase = .opening ∧ tailer.phase ≠ .opening then
    { world with tailer := tailer, sent := [], earlier := world.records }
  else { world with tailer := tailer, sent := world.sent ++ records }

def act (config : TailConfig) (world : TailWorld) : TailAction → TailWorld
  | .append file bytes =>
    { world with disk := world.disk.write file (world.disk.content file ++ bytes) }
  | .rotate file => { world with disk := { world.disk.write file [] with path := some file } }
  | .rewrite file content => { world with disk := world.disk.write file content }
  | .tail size => world.tailed config size
  | .restart checkpoint => ⟨world.disk, Tailer.start checkpoint, checkpoint, [], world.records⟩

/-- The source is about to be started, without a checkpoint, for the file behind the path. -/
def begin (disk : Disk) : TailWorld := ⟨disk, Tailer.start none, none, [], []⟩

end TailWorld

end Bagel
