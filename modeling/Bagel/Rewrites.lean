/-
This file settles when the source notices that a followed file was rewritten in place.

The source compares the file with what it has read only when a read finds the end of the
file. A rewritten file that is longer than what was read has no end there, and is read
on from the middle. In every other case the source leaves the file as soon as it looks,
within five steps of its own, and reads it again from the beginning under the next
generation, where it finds every line. In no case are two records sent under one id, as
long as the generations do not run out.
-/

import Bagel.Library.Decimal
import Bagel.Library.Machine
import Bagel.Library.Transaction
import Bagel.FileRecords

namespace Bagel

open Lines

/-- A part that a record stands for: a line, or the beginning of one that is too long. -/
def IsPart (config : TailConfig) (part : List UInt8) : Prop :=
  IsLine newline part ∨ newline ∉ part ∧ config.maxLineBytes < part.length

/-- The files and the source, with the bytes up to its position in the file as they were read. -/
structure Watched extends TailWorld where
  seen : List UInt8

namespace Watched

/-- What happens, for a source that follows the file. -/
def act (config : TailConfig) (file : FileId) (watched : Watched) (action : TailAction) :
    Watched where
  toTailWorld := watched.toTailWorld.act config action
  seen := match action with
    | .tail _ =>
      let next := (watched.toTailWorld.act config action).tailer.position
      if watched.tailer.phase = .opening then (watched.disk.content file).take next
      else
        watched.seen ++ ((watched.disk.content file).drop watched.tailer.position).take
          (next - watched.tailer.position)
    | .restart _ => []
    | _ => watched.seen

/-- The source is about to be started for a file. -/
def start (file : FileId) (content : List UInt8) : Watched :=
  ⟨TailWorld.begin (Disk.lone file content), []⟩

/-- The bytes of the file before the committed offset no longer end in the recorded tail. -/
def Overwritten (watched : Watched) (file : FileId) : Prop :=
  readFileTail (watched.disk.content file) watched.tailer.committed ≠
    (watched.seen.take watched.tailer.committed).rtake fileTailBytes

instance (watched : Watched) (file : FileId) : Decidable (watched.Overwritten file) :=
  inferInstanceAs (Decidable (_ ≠ _))

/-- The source is at a read of the file itself. -/
def AtRead (watched : Watched) : Prop := watched.tailer.Reading ∧ watched.tailer.buffer = []

/-- What may happen: the file is appended to, or truncated and rewritten, and the source goes
on. -/
def Rewrites (file : FileId) : TailAction → Prop
  | .append target _ => target = file
  | .rewrite target _ => target = file
  | .tail _ => True
  | .rotate _ => False
  | .restart _ => False

/-- A read of an overwritten file finds its end, and there is a generation left. -/
def Ends (file : FileId) (watched : Watched) : TailAction → Prop
  | .tail _ =>
    (watched.AtRead → watched.Overwritten file →
      (watched.disk.content file).length ≤ watched.tailer.position) ∧
      watched.tailer.generation < u64Max
  | _ => True

/-- The file is still overwritten when the source takes its next step. -/
def Remains (file : FileId) (watched : Watched) : TailAction → Prop
  | .tail _ => watched.Overwritten file
  | _ => True

/-- How many of the actions are steps of the source. -/
def sourceSteps (actions : List TailAction) : Nat :=
  actions.countP fun action => match action with
    | .tail _ => true
    | _ => false

/-- The source has left the file, to read it from its beginning under the generation. -/
def Left (watched : Watched) (file : FileId) (generation : Nat) : Prop :=
  watched.tailer.phase = .opening ∧ watched.tailer.initial = false ∧
    watched.tailer.resume = some ⟨file, 0, generation, []⟩

/-- When the source is at a read of the file and finds it overwritten, and the file stays so, the
source leaves it within five of its steps, to read it from the beginning under the next
generation. All records that it sends until then are of bytes that it had read before. The steps
on the way meet the condition. -/
def Restarts (config : TailConfig) (file : FileId) (condition : Watched → TailAction → Prop)
    (watched : Watched) : Prop :=
  watched.AtRead → ∀ actions,
    Machine.Along (act config file) (fun watched action => Rewrites file action ∧
      condition watched action ∧ watched.Remains file action) watched actions →
    5 ≤ sourceSteps actions → ∃ first rest, actions = first ++ rest ∧
      (first.foldl (act config file) watched).Left file (watched.tailer.generation + 1) ∧
      ∃ new, (first.foldl (act config file) watched).records = watched.records ++ new ∧
        ∀ record ∈ new, record.generation = watched.tailer.generation ∧
          record.offset ≤ watched.tailer.position ∧
          record.tail = (watched.seen.take record.offset).rtake fileTailBytes

/-- The bytes of one line, and what is before it, in a file. -/
structure LineOf (content front line : List UInt8) : Prop where
  within : front ++ line <+: content
  begins : front = [] ∨ front.getLast? = some newline
  isLine : IsLine newline line

/-- Every line of the content has its record, or a record without text that begins with it if it
is too long. -/
def EveryLine (config : TailConfig) (origin : FileId × Nat) (content : List UInt8)
    (sent : List FileRecord) : Prop :=
  ∀ front line, LineOf content front line →
    if config.maxLineBytes < line.length then
      ∃ part, part <+: line ∧
        partRecord config origin.1 origin.2 (front ++ part) part ∈ sent ∧
        config.maxLineBytes < part.length
    else partRecord config origin.1 origin.2 (front ++ line) line ∈ sent

/-- When the source has left the file, and the file is not rewritten again before it has caught
up with it, every line of the file is sent under the new generation. -/
def ReadsAnew (config : TailConfig) (file : FileId) (watched : Watched) : Prop :=
  ∀ generation, watched.Left file generation → ∀ actions : List TailAction,
    (∀ action ∈ actions, Rewrites file action ∧ ∀ content, action ≠ .rewrite file content) →
    let later := actions.foldl (act config file) watched
    later.CaughtUp file →
      EveryLine config (file, generation) (later.disk.content file) later.sent

end Watched

/-! ### Records of parts -/

theorem IsPart.ne_nil {config : TailConfig} {part : List UInt8} (isPart : IsPart config part) :
    part ≠ [] := by
  rcases isPart with line | ⟨-, long⟩
  · exact line.ne_nil
  · exact List.ne_nil_of_length_pos (Nat.zero_lt_of_lt long)

/-- What a record says of the bytes that were read. -/
structure RecordOf (origin : FileId × Nat) (read : List UInt8) (record : FileRecord) : Prop where
  identity : record.identity = origin.1
  generation : record.generation = origin.2
  inside : record.offset ≤ read.length
  tail : record.tail = (read.take record.offset).rtake fileTailBytes

theorem RecordOf.append {origin : FileId × Nat} {read : List UInt8} {record : FileRecord}
    (of : RecordOf origin read record) (more : List UInt8) :
    RecordOf origin (read ++ more) record where
  identity := of.identity
  generation := of.generation
  inside := by
    rw [List.length_append]
    exact Nat.le_trans of.inside (Nat.le_add_right _ _)
  tail := by rw [List.take_append_of_le_length of.inside, of.tail]

theorem recordOf_of_mem {config : TailConfig} {origin : FileId × Nat} {before : List UInt8}
    {parts : List (List UInt8)} {record : FileRecord}
    (member : record ∈ partRecords config origin.1 origin.2 before parts) :
    RecordOf origin (before ++ parts.flatten) record := by
  induction parts generalizing before with
  | nil => exact absurd member List.not_mem_nil
  | cons part rest inductionHypothesis =>
    rw [List.flatten_cons, ← List.append_assoc]
    rcases List.mem_cons.mp member with rfl | member
    · have whole : RecordOf origin (before ++ part)
          (partRecord config origin.1 origin.2 (before ++ part) part) :=
        ⟨rfl, rfl, Nat.le_refl _, by rw [partRecord, List.take_length]⟩
      exact whole.append _
    · exact inductionHypothesis member

theorem length_lt_offset_of_mem {config : TailConfig} {origin : FileId × Nat}
    {before : List UInt8} {parts : List (List UInt8)} (shaped : ∀ part ∈ parts, IsPart config part)
    {record : FileRecord} (member : record ∈ partRecords config origin.1 origin.2 before parts) :
    before.length < record.offset := by
  induction parts generalizing before with
  | nil => exact absurd member List.not_mem_nil
  | cons part rest inductionHypothesis =>
    have positive : 0 < part.length :=
      List.length_pos_of_ne_nil (shaped part List.mem_cons_self).ne_nil
    rcases List.mem_cons.mp member with rfl | member
    · show before.length < (before ++ part).length
      rw [List.length_append]
      omega
    · have later := inductionHypothesis
        (fun other member => shaped other (List.mem_cons_of_mem _ member)) member
      rw [List.length_append] at later
      omega

/-- The offsets of the records of one opening increase. -/
theorem pairwise_partRecords {config : TailConfig} {origin : FileId × Nat} {before : List UInt8}
    {parts : List (List UInt8)} (shaped : ∀ part ∈ parts, IsPart config part) :
    (partRecords config origin.1 origin.2 before parts).Pairwise fun first second =>
      first.offset < second.offset := by
  induction parts generalizing before with
  | nil => exact List.Pairwise.nil
  | cons part rest inductionHypothesis =>
    have others : ∀ other ∈ rest, IsPart config other := fun other member =>
      shaped other (List.mem_cons_of_mem _ member)
    exact List.pairwise_cons.mpr ⟨fun record member => length_lt_offset_of_mem others member,
      inductionHypothesis others⟩

/-- Ids of one file differ when the generations or the offsets do. -/
theorem FileRecord.id_inj {first second : FileRecord} (same : first.id = second.id) :
    first.generation = second.generation ∧ first.offset = second.offset := by
  have free : ∀ number : Nat, ':' ∉ (toString number).toList := fun number member =>
    absurd (Decimal.isDigit_of_mem member) (by decide)
  have lists := congrArg String.toList same
  simp only [FileRecord.id, String.toList_append, List.append_assoc] at lists
  obtain ⟨-, lists⟩ := append_mark_inj (free _) (free _) lists
  obtain ⟨-, lists⟩ := append_mark_inj (free _) (free _) lists
  obtain ⟨generations, offsets⟩ := append_mark_inj (free _) (free _) lists
  exact ⟨Decimal.toString_inj (String.toList_injective generations),
    Decimal.toString_inj (String.toList_injective offsets)⟩

/-! ### Leaving the file -/

namespace Tailer

variable {config : TailConfig} {origin : FileId × Nat} {before seen : List UInt8}
  {sent : List FileRecord} {tailer : Tailer}

theorem Tracks.recordOf {shape : List UInt8 → Prop}
    (tracks : tailer.Tracks config shape origin before seen sent) {record : FileRecord}
    (member : record ∈ sent) : RecordOf origin seen record := by
  obtain ⟨parts, held, divides, -, -⟩ := tracks
  rw [divides.recorded] at member
  rw [divides.read, List.append_assoc]
  exact (recordOf_of_mem member).append _

theorem Tracks.pairwise (tracks : tailer.Tracks config (IsPart config) origin before seen sent) :
    sent.Pairwise fun first second => first.offset < second.offset := by
  obtain ⟨parts, held, divides, -, -⟩ := tracks
  rw [divides.recorded]
  exact pairwise_partRecords divides.shaped

theorem leave_fields (tailer : Tailer) (current : FileId) :
    (tailer.leave current).1.phase = .opening ∧
      (tailer.leave current).1.initial = tailer.initial ∧
      (tailer.leave current).1.resume =
        some ⟨current, 0, saturatingAdd tailer.generation 1, []⟩ ∧
      (tailer.leave current).1.position = tailer.position := by
  rw [leave]
  split <;> exact ⟨rfl, rfl, rfl, rfl⟩

/-- The records that are there when the source leaves the file are of bytes that were read, with
increasing offsets. -/
theorem Tracks.leave (tracks : tailer.Tracks config (IsPart config) origin before seen sent)
    (phase : tailer.phase = .looking ∨ tailer.phase = .matching) (current : FileId) :
    (sent ++ (tailer.leave current).2).Pairwise (fun first second =>
        first.offset < second.offset) ∧
      ∀ record ∈ sent ++ (tailer.leave current).2, RecordOf origin seen record := by
  have ordered := tracks.pairwise
  have old : ∀ record ∈ sent, RecordOf origin seen record := fun _ member => tracks.recordOf member
  rw [Tailer.leave]
  split
  · rw [List.append_nil]
    exact ⟨ordered, old⟩
  · next some =>
    obtain ⟨parts, held, divides, unended, holds⟩ := tracks
    have kept : tailer.pending = held ∧
        tailer.tail = (before ++ parts.flatten).rtake fileTailBytes := by
      rcases phase with phase | phase
      · rw [Holds, phase] at holds
        exact ⟨holds.1, holds.2.1⟩
      · rw [Holds, phase] at holds
        exact ⟨holds.1, holds.2.1⟩
    obtain ⟨rfl, tail⟩ := kept
    have positive : 0 < tailer.pending.length := List.length_pos_of_ne_nil some
    have last : RecordOf origin (before ++ parts.flatten ++ tailer.pending)
        ⟨tailer.identity, tailer.generation, tailer.committed + tailer.pending.length,
          pushTail tailer.tail tailer.pending, "", true⟩ := by
      refine ⟨congrArg Prod.fst divides.named, congrArg Prod.snd divides.named, ?_, ?_⟩
      · rw [divides.committed, ← List.length_append]
      · rw [tail, pushTail_rtake, divides.committed, ← List.length_append, List.take_length]
    refine ⟨List.pairwise_append.mpr ⟨ordered, List.pairwise_singleton _ _, ?_⟩, ?_⟩
    · intro first member second other
      rw [List.mem_singleton.mp other]
      rw [divides.recorded] at member
      have inside := (recordOf_of_mem member).inside
      show first.offset < tailer.committed + tailer.pending.length
      rw [divides.committed]
      omega
    · intro record member
      rcases List.mem_append.mp member with before | new
      · exact old record before
      · rw [List.mem_singleton.mp new, divides.read]
        exact last.append _

end Tailer

/-! ### The invariant -/

namespace Watched

variable {config : TailConfig} {file : FileId} {watched : Watched} {before : List UInt8}

/-- No two records have a generation and an offset in common. -/
def Apart (records : List FileRecord) : Prop :=
  records.Pairwise fun first second =>
    ¬ (first.generation = second.generation ∧ first.offset = second.offset)

theorem Apart.append {earlier sent : List FileRecord} {generation : Nat} (apart : Apart earlier)
    (below : ∀ record ∈ earlier, record.generation < generation)
    (now : ∀ record ∈ sent, record.generation = generation)
    (ordered : sent.Pairwise fun first second => first.offset < second.offset) :
    Apart (earlier ++ sent) := by
  refine List.pairwise_append.mpr ⟨apart, ordered.imp fun less same => ?_, ?_⟩
  · exact absurd same.2 (Nat.ne_of_lt less)
  · intro first old second new same
    have less := below first old
    rw [same.1, now second new] at less
    exact Nat.lt_irrefl _ less

/-- The source reads the file, and its earlier records are of earlier generations. -/
structure Open (config : TailConfig) (file : FileId) (before : List UInt8) (watched : Watched) :
    Prop where
  tracks : watched.tailer.Tracks config (IsPart config) (file, watched.tailer.generation) before
    watched.seen watched.sent
  below : ∀ record ∈ watched.earlier, record.generation < watched.tailer.generation
  apart : Apart watched.earlier

/-- The invariant of a run on one file. -/
def Watching (config : TailConfig) (file : FileId) (watched : Watched) : Prop :=
  watched.disk.path = some file ∧
    (watched.Starting file ∧ watched.checkpoint = none ∧ watched.records = [] ∨
      (∃ generation, watched.Left file generation ∧
        (∀ record ∈ watched.records, record.generation < generation) ∧ Apart watched.records) ∨
      ∃ before, watched.Open config file before)

theorem Open.apart_records (opened : watched.Open config file before) :
    Apart watched.records :=
  opened.apart.append opened.below (fun _ member => (opened.tracks.recordOf member).generation)
    opened.tracks.pairwise

/-- The source goes on within the file. -/
theorem Open.goes (opened : watched.Open config file before) {size : Nat} {chunk : List UInt8}
    (next : chunk <+: (watched.disk.content file).drop watched.tailer.position)
    (goes : (watched.tailer.step config watched.disk size).1.Tracks config (IsPart config)
      (file, watched.tailer.generation) before (watched.seen ++ chunk)
      (watched.sent ++ (watched.tailer.step config watched.disk size).2)) :
    (watched.act config file (.tail size)).Open config file before ∧
      (watched.act config file (.tail size)).tailer.generation = watched.tailer.generation ∧
      (watched.act config file (.tail size)).seen = watched.seen ++ chunk := by
  have phase := opened.tracks.phase_ne_opening
  have same : watched.toTailWorld.act config (.tail size) =
      { watched.toTailWorld with
        tailer := (watched.tailer.step config watched.disk size).1
        sent := watched.sent ++ (watched.tailer.step config watched.disk size).2 } :=
    TailWorld.tailed_of_ne_opening phase
  have generation := goes.generation_eq
  have position : (watched.tailer.step config watched.disk size).1.position -
      watched.tailer.position = chunk.length := by
    rw [goes.position_eq, opened.tracks.position_eq, List.length_append]
    omega
  have seen : (watched.act config file (.tail size)).seen = watched.seen ++ chunk := by
    simp only [act, same, if_neg phase, position]
    rw [← List.prefix_iff_eq_take.mp next]
  refine ⟨⟨?_, ?_, ?_⟩, ?_, seen⟩
  · rw [seen]
    simp only [act, same, generation]
    exact goes
  · simp only [act, same, generation]
    exact opened.below
  · simp only [act, same]
    exact opened.apart
  · simp only [act, same, generation]

/-- The source leaves the file. -/
theorem Open.leaves (opened : watched.Open config file before) {size : Nat}
    (phase : watched.tailer.phase = .looking ∨ watched.tailer.phase = .matching)
    (leaves : watched.tailer.step config watched.disk size = watched.tailer.leave file)
    (bounded : watched.tailer.generation < u64Max) :
    (watched.act config file (.tail size)).Left file (watched.tailer.generation + 1) ∧
      Apart (watched.act config file (.tail size)).records ∧
      ∃ new, (watched.act config file (.tail size)).records = watched.records ++ new ∧
        ∀ record ∈ new, RecordOf (file, watched.tailer.generation) watched.seen record := by
  obtain ⟨opening, initial, resume, -⟩ := watched.tailer.leave_fields file
  obtain ⟨ordered, records⟩ := opened.tracks.leave phase file
  have next : saturatingAdd watched.tailer.generation 1 = watched.tailer.generation + 1 :=
    Nat.min_eq_left bounded
  have same : watched.toTailWorld.act config (.tail size) =
      { watched.toTailWorld with
        tailer := (watched.tailer.leave file).1
        sent := watched.sent ++ (watched.tailer.leave file).2 } := by
    rw [← leaves]
    exact TailWorld.tailed_of_ne_opening opened.tracks.phase_ne_opening
  refine ⟨?_, ?_, (watched.tailer.leave file).2, ?_, ?_⟩
  · simp only [Left, act, same]
    exact ⟨opening, initial.trans opened.tracks.initial_eq, next ▸ resume⟩
  · simp only [act, same, TailWorld.records]
    exact opened.apart.append opened.below (fun record member => (records record member).generation)
      ordered
  · simp only [act, same, TailWorld.records, List.append_assoc]
  · exact fun record member => records record (List.mem_append_right _ member)

/-- What a step of the source does while it has the file open. -/
theorem Open.tails (opened : watched.Open config file before)
    (path : watched.disk.path = some file) (bounded : watched.tailer.generation < u64Max)
    (size : Nat) :
    (watched.act config file (.tail size)).Open config file before ∨
      (watched.act config file (.tail size)).Left file (watched.tailer.generation + 1) ∧
        Apart (watched.act config file (.tail size)).records ∧
        ∃ new, (watched.act config file (.tail size)).records = watched.records ++ new ∧
          ∀ record ∈ new, RecordOf (file, watched.tailer.generation) watched.seen record := by
  have identity : watched.tailer.identity = file := opened.tracks.identity_eq
  rcases opened.tracks.phase_cases with reading | looking | matching
  · obtain ⟨chunk, next, goes⟩ := opened.tracks.reads reading (fun _ line => .inl line)
      watched.disk (fun _ part unended long => .inr ⟨unended, long⟩) size
    exact .inl (opened.goes (identity ▸ next) goes).1
  · rcases opened.tracks.looks looking watched.disk size with ⟨-, -, same, goes⟩ | ⟨-, leaves⟩
    · refine .inl (opened.goes List.nil_prefix ?_).1
      rw [same, List.append_nil, List.append_nil]
      exact goes
    · rw [path, Option.getD_some] at leaves
      exact .inr (opened.leaves (.inl looking) leaves bounded)
  · rcases opened.tracks.matches matching watched.disk size with ⟨-, none, goes⟩ | ⟨missing, -⟩ |
      ⟨current, -, -, leaves⟩
    · refine .inl (opened.goes List.nil_prefix ?_).1
      rw [none, List.append_nil, List.append_nil]
      exact goes
    · exact nomatch missing.symm.trans path
    · rw [identity] at leaves
      exact .inr (opened.leaves (.inr matching) leaves bounded)

/-- A source that is about to open the file starts at the end of the bytes `before`. -/
theorem opens {generation : Nat} (phase : watched.tailer.phase = .opening)
    (path : watched.disk.path = some file)
    (starts : watched.tailer.startAt config file (watched.disk.content file) =
      (before.length, generation, before.rtake fileTailBytes))
    (front : before <+: watched.disk.content file)
    (below : ∀ record ∈ watched.records, record.generation < generation)
    (apart : Apart watched.records) (size : Nat) :
    (watched.act config file (.tail size)).Open config file before ∧
      (watched.act config file (.tail size)).tailer.generation = generation ∧
      (watched.act config file (.tail size)).seen = before := by
  have tracks : (watched.tailer.openStep config watched.disk).Tracks config (IsPart config)
      (file, generation) before before [] :=
    Tailer.tracks_openStep path starts
  have same : watched.toTailWorld.act config (.tail size) =
      { watched.toTailWorld with
        tailer := watched.tailer.openStep config watched.disk
        sent := []
        earlier := watched.records } :=
    TailWorld.tailed_opening phase tracks.phase_ne_opening
  have seen : (watched.act config file (.tail size)).seen = before := by
    simp only [act, same, if_pos phase, tracks.position_eq]
    exact (List.prefix_iff_eq_take.mp front).symm
  refine ⟨⟨?_, ?_, ?_⟩, ?_, seen⟩
  · rw [seen]
    simp only [act, same, tracks.generation_eq]
    exact tracks
  · simp only [act, same, tracks.generation_eq]
    exact below
  · simp only [act, same]
    exact apart
  · simp only [act, same, tracks.generation_eq]

/-- A source that has left the file starts at its beginning. -/
theorem Left.startAt {generation : Nat} (left : watched.Left file generation)
    (config : TailConfig) :
    watched.tailer.startAt config file (watched.disk.content file) = (0, generation, []) := by
  obtain ⟨-, initial, resume⟩ := left
  have nothing : readFileTail (watched.disk.content file) 0 = [] := by simp [readFileTail]
  simp only [Tailer.startAt, resume, nothing]
  rw [if_pos ⟨trivial, Nat.zero_le _, .inl trivial⟩, if_pos trivial]

theorem Watching.writes (watching : watched.Watching config file) (disk : Disk)
    (path : disk.path = some file) :
    Watching config file { watched with disk := disk } := by
  obtain ⟨-, ⟨⟨tailer, sent, -⟩, none, records⟩ | left | ⟨before, opened⟩⟩ := watching
  · refine ⟨path, .inl ⟨⟨tailer, sent, fun stored member => ?_⟩, none, records⟩⟩
    exact nomatch none.symm.trans member
  · exact ⟨path, .inr (.inl left)⟩
  · exact ⟨path, .inr (.inr ⟨before, opened.tracks, opened.below, opened.apart⟩)⟩

theorem disk_act_tail (config : TailConfig) (file : FileId) (watched : Watched) (size : Nat) :
    (watched.act config file (.tail size)).disk = watched.disk := by
  simp only [act, TailWorld.act, TailWorld.tailed]
  split <;> rfl

theorem Watching.step (watching : watched.Watching config file) {action : TailAction}
    (rewrites : Rewrites file action) (ends : watched.Ends file action) :
    (watched.act config file action).Watching config file := by
  have path := watching.1
  cases action with
  | append target bytes => exact watching.writes _ path
  | rewrite target bytes => exact watching.writes _ path
  | tail size =>
    have kept : (watched.act config file (.tail size)).disk.path = some file := by
      rw [disk_act_tail]
      exact path
    refine ⟨kept, ?_⟩
    obtain ⟨-, ⟨starting, -, records⟩ | ⟨generation, left, below, apart⟩ | ⟨before, opened⟩⟩ :=
      watching
    · obtain ⟨before, generation, -, front, starts⟩ := starting.startsAt config
      refine .inr (.inr ⟨before, (opens (starting.1 ▸ rfl) path starts front ?_ ?_ size).1⟩)
      · exact fun record member => absurd (records ▸ member) List.not_mem_nil
      · rw [records]
        exact List.Pairwise.nil
    · exact .inr (.inr ⟨[], (opens left.1 path (left.startAt config) List.nil_prefix below apart
        size).1⟩)
    · rcases opened.tails path ends.2 size with goes | ⟨left, apart, new, records, of⟩
      · exact .inr (.inr ⟨before, goes⟩)
      · refine .inr (.inl ⟨_, left, fun record member => ?_, apart⟩)
        rw [records] at member
        rcases List.mem_append.mp member with old | member
        · rcases List.mem_append.mp old with old | now
          · exact Nat.lt_succ_of_lt (opened.below record old)
          · rw [(opened.tracks.recordOf now).generation]
            exact Nat.lt_succ_self _
        · rw [(of record member).generation]
          exact Nat.lt_succ_self _
  | rotate target => exact rewrites.elim
  | restart checkpoint => exact rewrites.elim

theorem watching_start (file : FileId) (content : List UInt8) :
    (start file content).Watching config file :=
  ⟨rfl, .inl ⟨⟨rfl, rfl, fun _ stored => nomatch stored⟩, rfl, rfl⟩⟩

theorem Watching.nodup_ids (watching : watched.Watching config file) :
    (watched.records.map FileRecord.id).Nodup := by
  have apart : Apart watched.records := by
    obtain ⟨-, ⟨-, -, records⟩ | ⟨-, -, -, apart⟩ | ⟨before, opened⟩⟩ := watching
    · rw [records]
      exact List.Pairwise.nil
    · exact apart
    · exact opened.apart_records
  rw [List.Nodup, List.pairwise_map]
  exact apart.imp fun different same => different (FileRecord.id_inj same)

end Watched

/-! ### The end of an overwritten file -/

namespace Tailer

variable {config : TailConfig} {shape : List UInt8 → Prop} {origin : FileId × Nat}
  {before seen : List UInt8} {sent : List FileRecord} {tailer : Tailer}

/-- How many steps the source takes at most until it leaves a file that is overwritten. -/
def patience : TailPhase → Nat
  | .reading _ 0 => 3
  | .reading _ (_ + 1) => 5
  | .draining _ => 4
  | .looking => 2
  | .matching => 1
  | .opening => 0
  | .failed => 0

theorem patience_le (phase : TailPhase) : patience phase ≤ 5 := by
  unfold patience
  split <;> omega

/-- A source that has a file open does not leave it without a step. -/
theorem Tracks.patience_pos (tracks : tailer.Tracks config shape origin before seen sent) :
    0 < patience tailer.phase := by
  rcases tracks.phase_cases with (⟨limit, taken, phase⟩ | ⟨consumed, phase⟩) | looking | matching
  · rw [phase]
    cases taken <;> exact Nat.succ_pos _
  · exact phase ▸ Nat.succ_pos _
  · exact looking ▸ Nat.succ_pos _
  · exact matching ▸ Nat.succ_pos _

theorem fillBuf_at_end {content : List UInt8} (ended : content.length ≤ tailer.position)
    (size : Nat) : tailer.fillBuf content size = tailer := by
  obtain ⟨chunk, front, fills, -⟩ := tailer.exists_fillBuf content size
  rw [List.drop_eq_nil_of_le ended] at front
  rw [fills, List.prefix_nil.mp front, List.append_nil, List.length_nil, Nat.add_zero]

theorem readStep_at_end {content : List UInt8} (empty : tailer.buffer = [])
    (ended : content.length ≤ tailer.position) (size limit taken : Nat) :
    tailer.readStep config content size limit taken = tailer.finishRead config taken := by
  rw [readStep]
  by_cases full : limit = 0
  · rw [if_pos full]
  · rw [if_neg full, fillBuf_at_end ended]
    simp only
    rw [if_pos (by rw [empty, List.take_nil])]

theorem drainStep_at_end {content : List UInt8} (empty : tailer.buffer = [])
    (ended : content.length ≤ tailer.position) (size consumed : Nat) :
    tailer.drainStep config content size consumed = tailer.finishOversized config consumed := by
  rw [drainStep, fillBuf_at_end ended]
  exact if_pos empty

/-- At the end of the file nothing is read, and the source comes closer to looking at the path. -/
theorem Tracks.at_end (tracks : tailer.Tracks config shape origin before seen sent)
    (reading : tailer.Reading) (empty : tailer.buffer = []) {disk : Disk}
    (ended : (disk.content tailer.identity).length ≤ tailer.position) (size : Nat) :
    (tailer.step config disk size).1.buffer = [] ∧
      patience (tailer.step config disk size).1.phase < patience tailer.phase := by
  obtain ⟨parts, held, -, unended, holds⟩ := tracks
  rcases reading with ⟨limit, taken, phase⟩ | ⟨consumed, phase⟩
  · rw [Holds, phase] at holds
    have open_ : tailer.pending.getLast? ≠ some newline := fun last =>
      unended (holds.1 ▸ List.mem_of_getLast? last)
    have finishes : tailer.step config disk size = tailer.finishRead config taken := by
      simp only [step, phase]
      exact readStep_at_end empty ended size limit taken
    rw [finishes, finishRead, phase]
    cases taken with
    | zero =>
      rw [if_pos rfl]
      exact ⟨empty, Nat.lt_succ_self 2⟩
    | succ taken =>
      rw [if_neg (Nat.succ_ne_zero taken)]
      split
      · simp only [open_, if_false]
        exact ⟨empty, Nat.lt_succ_self 4⟩
      · refine ⟨empty, ?_⟩
        show 3 < 5
        decide
  · have finishes : tailer.step config disk size = tailer.finishOversized config consumed := by
      simp only [step, phase]
      exact drainStep_at_end empty ended size consumed
    rw [finishes, finishOversized, phase]
    exact ⟨empty, Nat.lt_succ_self 3⟩

/-- When nothing is being skipped, the tail is that of what is committed. -/
theorem Tracks.tail_eq (tracks : tailer.Tracks config shape origin before seen sent)
    (phase : tailer.phase = .looking ∨ tailer.phase = .matching) :
    tailer.tail = (seen.take tailer.committed).rtake fileTailBytes := by
  obtain ⟨parts, held, divides, -, holds⟩ := tracks
  have done : seen.take tailer.committed = before ++ parts.flatten := by
    rw [divides.read, divides.committed, List.append_assoc _ held]
    exact List.take_left
  rw [done]
  rcases phase with phase | phase
  · rw [Holds, phase] at holds
    exact holds.2.1
  · rw [Holds, phase] at holds
    exact holds.2.1

end Tailer

namespace Watched

variable {config : TailConfig} {file : FileId} {watched : Watched} {before : List UInt8}

/-- The world after a step of a source that has the file open. -/
theorem Open.toTailWorld_act (opened : watched.Open config file before) (size : Nat) :
    watched.toTailWorld.act config (.tail size) =
      { watched.toTailWorld with
        tailer := (watched.tailer.step config watched.disk size).1
        sent := watched.sent ++ (watched.tailer.step config watched.disk size).2 } :=
  TailWorld.tailed_of_ne_opening opened.tracks.phase_ne_opening

theorem Open.records_act (opened : watched.Open config file before) (size : Nat) :
    (watched.act config file (.tail size)).records =
      watched.records ++ (watched.tailer.step config watched.disk size).2 := by
  simp only [act, opened.toTailWorld_act, TailWorld.records, List.append_assoc]

/-- A step that brings the source closer to leaving the file: it sends records of what was read
only, and leaves the file or reads nothing and has less patience. -/
def Approaches (config : TailConfig) (file : FileId) (before : List UInt8)
    (watched next : Watched) : Prop :=
  (∃ new, next.records = watched.records ++ new ∧
      ∀ record ∈ new, RecordOf (file, watched.tailer.generation) watched.seen record) ∧
    (next.Left file (watched.tailer.generation + 1) ∨
      next.Open config file before ∧ next.tailer.buffer = [] ∧
        next.tailer.generation = watched.tailer.generation ∧ next.seen = watched.seen ∧
        Tailer.patience next.tailer.phase < Tailer.patience watched.tailer.phase)

/-- The read of an overwritten file finds its end. -/
theorem Open.approaches_reading (opened : watched.Open config file before)
    (reading : watched.tailer.Reading) (empty : watched.tailer.buffer = [])
    (ended : (watched.disk.content file).length ≤ watched.tailer.position) (size : Nat) :
    watched.Approaches config file before (watched.act config file (.tail size)) := by
  have identity : watched.tailer.identity = file := opened.tracks.identity_eq
  obtain ⟨chunk, next, goes⟩ := opened.tracks.reads reading (fun _ line => .inl line)
    watched.disk (fun _ part unended long => .inr ⟨unended, long⟩) size
  obtain ⟨drained, closer⟩ := opened.tracks.at_end reading empty (identity.symm ▸ ended) size
  rw [identity, List.drop_eq_nil_of_le ended] at next
  obtain rfl := List.prefix_nil.mp next
  obtain ⟨still, generation, seen⟩ := opened.goes List.nil_prefix goes
  rw [List.append_nil] at goes seen
  refine ⟨⟨_, opened.records_act size,
    fun record member => goes.recordOf (List.mem_append_right _ member)⟩,
    .inr ⟨still, ?_, generation, seen, ?_⟩⟩
  · simp only [act, opened.toTailWorld_act]
    exact drained
  · simp only [act, opened.toTailWorld_act]
    exact closer

/-- The look at the path finds a shorter file, or leads to the look at the tail. -/
theorem Open.approaches_looking (opened : watched.Open config file before)
    (looking : watched.tailer.phase = .looking) (path : watched.disk.path = some file)
    (empty : watched.tailer.buffer = []) {size : Nat} (ends : watched.Ends file (.tail size)) :
    watched.Approaches config file before (watched.act config file (.tail size)) := by
  rcases opened.tracks.looks looking watched.disk size with ⟨-, -, stays, goes⟩ | ⟨-, leaves⟩
  · have goes : (watched.tailer.step config watched.disk size).1.Tracks config (IsPart config)
        (file, watched.tailer.generation) before (watched.seen ++ [])
        (watched.sent ++ (watched.tailer.step config watched.disk size).2) := by
      rw [stays, List.append_nil, List.append_nil]
      exact goes
    obtain ⟨still, generation, seen⟩ := opened.goes List.nil_prefix goes
    rw [List.append_nil] at seen
    refine ⟨⟨[], by rw [opened.records_act, stays], fun _ member => absurd member List.not_mem_nil⟩,
      .inr ⟨still, ?_, generation, seen, ?_⟩⟩
    · simp only [act, opened.toTailWorld_act, stays]
      exact empty
    · simp only [act, opened.toTailWorld_act, stays, looking]
      exact Nat.lt_succ_self 1
  · rw [path, Option.getD_some] at leaves
    obtain ⟨left, -, records⟩ := opened.leaves (.inl looking) leaves ends.2
    exact ⟨records, .inl left⟩

/-- The look at the tail finds other bytes. -/
theorem Open.approaches_matching (opened : watched.Open config file before)
    (matching : watched.tailer.phase = .matching) (path : watched.disk.path = some file)
    (overwritten : watched.Overwritten file) {size : Nat} (ends : watched.Ends file (.tail size)) :
    watched.Approaches config file before (watched.act config file (.tail size)) := by
  have tail := opened.tracks.tail_eq (.inr matching)
  rcases opened.tracks.matches matching watched.disk size with ⟨agrees, -⟩ | ⟨missing, -⟩ |
    ⟨current, -, -, leaves⟩
  · exact absurd ((agrees file path).trans tail) overwritten
  · exact nomatch missing.symm.trans path
  · have identity : watched.tailer.identity = file := opened.tracks.identity_eq
    rw [identity] at leaves
    obtain ⟨left, -, records⟩ := opened.leaves (.inr matching) leaves ends.2
    exact ⟨records, .inl left⟩


/-- A step of the source at the end of an overwritten file: it leaves the file or comes closer to
that, and sends only records of bytes that were read. -/
theorem Open.approaches (opened : watched.Open config file before)
    (path : watched.disk.path = some file) (empty : watched.tailer.buffer = [])
    (overwritten : watched.Overwritten file) {size : Nat} (ends : watched.Ends file (.tail size)) :
    watched.Approaches config file before (watched.act config file (.tail size)) := by
  rcases opened.tracks.phase_cases with reading | looking | matching
  · exact opened.approaches_reading reading empty (ends.1 ⟨reading, empty⟩ overwritten) size
  · exact opened.approaches_looking looking path empty ends
  · exact opened.approaches_matching matching path overwritten ends

/-- The source leaves an overwritten file after at most as many steps as its patience. -/
theorem Open.restarts (opened : watched.Open config file before)
    (path : watched.disk.path = some file) (empty : watched.tailer.buffer = [])
    {actions : List TailAction}
    (along : Machine.Along (act config file) (fun watched action => Rewrites file action ∧
      watched.Ends file action ∧ watched.Remains file action) watched actions)
    (enough : Tailer.patience watched.tailer.phase ≤ sourceSteps actions) :
    ∃ first rest, actions = first ++ rest ∧
      (first.foldl (act config file) watched).Left file (watched.tailer.generation + 1) ∧
      ∃ new, (first.foldl (act config file) watched).records = watched.records ++ new ∧
        ∀ record ∈ new, RecordOf (file, watched.tailer.generation) watched.seen record := by
  induction actions generalizing watched with
  | nil => exact absurd enough (Nat.not_le.mpr opened.tracks.patience_pos)
  | cons action rest inductionHypothesis =>
    obtain ⟨⟨rewrites, ends, remains⟩, along⟩ := along
    cases action with
    | append target bytes =>
      have still : (watched.act config file (.append target bytes)).Open config file before :=
        ⟨opened.tracks, opened.below, opened.apart⟩
      obtain ⟨first, last, rfl, left, records⟩ :=
        inductionHypothesis still path empty along enough
      exact ⟨.append target bytes :: first, last, rfl, left, records⟩
    | rewrite target bytes =>
      have still : (watched.act config file (.rewrite target bytes)).Open config file before :=
        ⟨opened.tracks, opened.below, opened.apart⟩
      obtain ⟨first, last, rfl, left, records⟩ :=
        inductionHypothesis still path empty along enough
      exact ⟨.rewrite target bytes :: first, last, rfl, left, records⟩
    | tail size =>
      obtain ⟨⟨new, grown, of⟩, left | ⟨still, drained, generation, seen, closer⟩⟩ :=
        opened.approaches path empty remains ends
      · exact ⟨[.tail size], rest, rfl, left, new, grown, of⟩
      · have kept : (watched.act config file (.tail size)).disk.path = some file := by
          rw [disk_act_tail]
          exact path
        have count : sourceSteps (.tail size :: rest) = sourceSteps rest + 1 :=
          List.countP_cons_of_pos rfl
        rw [count] at enough
        obtain ⟨first, last, rfl, left, more, records, later⟩ :=
          inductionHypothesis still kept drained along (by omega)
        rw [generation] at left later
        rw [seen] at later
        refine ⟨.tail size :: first, last, rfl, left, new ++ more, ?_, fun record member => ?_⟩
        · rw [List.foldl_cons, records, grown, List.append_assoc]
        · rcases List.mem_append.mp member with now | next
          · exact of record now
          · exact later record next
    | rotate target => exact rewrites.elim
    | restart checkpoint => exact rewrites.elim

theorem Watching.restarts (watching : watched.Watching config file) :
    watched.Restarts config file (Ends file) := by
  intro atRead actions along enough
  have opened : ∃ before, watched.Open config file before := by
    have phase : watched.tailer.phase ≠ .opening := by
      intro opening
      rcases atRead.1 with ⟨limit, taken, phase⟩ | ⟨consumed, phase⟩ <;>
        exact nomatch opening.symm.trans phase
    obtain ⟨-, ⟨starting, -⟩ | ⟨generation, left, -⟩ | opened⟩ := watching
    · exact absurd (starting.1 ▸ rfl) phase
    · exact absurd left.1 phase
    · exact opened
  obtain ⟨before, opened⟩ := opened
  obtain ⟨first, rest, split, left, new, records, of⟩ := opened.restarts watching.1 atRead.2 along
    (Nat.le_trans (Tailer.patience_le _) enough)
  refine ⟨first, rest, split, left, new, records, fun record member => ?_⟩
  have read := of record member
  exact ⟨read.generation, opened.tracks.position_eq ▸ read.inside, read.tail⟩

end Watched

/-! ### Lines and parts -/

/-- A part holds no newline but at its end. -/
theorem IsPart.eq_nil_of_append {config : TailConfig} {front more : List UInt8}
    (isPart : IsPart config (front ++ more)) (ends : front.getLast? = some newline) :
    more = [] := by
  have member : newline ∈ front := List.mem_of_getLast? ends
  rcases isPart with ⟨body, same, without⟩ | ⟨without, -⟩
  · by_contra some
    obtain ⟨last, symbol, rfl⟩ : ∃ last symbol, more = last ++ [symbol] :=
      ⟨_, _, (List.dropLast_append_getLast some).symm⟩
    rw [← List.append_assoc] at same
    obtain ⟨rfl, -⟩ := List.append_inj' same rfl
    exact without (List.mem_append_left _ member)
  · exact absurd (List.mem_append_left _ member) without

/-- Every line of bytes that are divided into parts is a part, or begins with one. -/
theorem exists_part_of_line {config : TailConfig} {parts : List (List UInt8)}
    {held front line rest : List UInt8} (shaped : ∀ part ∈ parts, IsPart config part)
    (unended : newline ∉ held) (same : parts.flatten ++ held = front ++ (line ++ rest))
    (begins : front = [] ∨ front.getLast? = some newline) (isLine : IsLine newline line) :
    ∃ first part last, parts = first ++ part :: last ∧ first.flatten = front ∧ part <+: line ∧
      (part = line ∨ config.maxLineBytes < part.length) := by
  induction parts generalizing front with
  | nil =>
    have member : newline ∈ line := List.mem_of_getLast? isLine.getLast?
    rw [List.flatten_nil, List.nil_append] at same
    refine absurd ?_ unended
    rw [same]
    exact List.mem_append_right _ (List.mem_append_left _ member)
  | cons part parts inductionHypothesis =>
    have isPart := shaped part List.mem_cons_self
    have others : ∀ other ∈ parts, IsPart config other := fun other member =>
      shaped other (List.mem_cons_of_mem _ member)
    rw [List.flatten_cons, List.append_assoc] at same
    by_cases first : front = []
    · -- the line begins with this part
      rw [first, List.nil_append] at same
      refine ⟨[], part, parts, rfl, first.symm, ?_⟩
      rcases List.append_eq_append_iff.mp same with ⟨more, rfl, -⟩ | ⟨more, rfl, -⟩
      · refine ⟨List.prefix_append _ _, ?_⟩
        rcases isPart with whole | ⟨-, long⟩
        · left
          have nothing : more = [] :=
            IsPart.eq_nil_of_append (.inl isLine : IsPart config _) whole.getLast?
          rw [nothing, List.append_nil]
        · exact .inr long
      · rw [isPart.eq_nil_of_append isLine.getLast?, List.append_nil]
        exact ⟨List.prefix_rfl, .inl rfl⟩
    · have ends : front.getLast? = some newline := begins.resolve_left first
      obtain ⟨front', rfl, rest_eq⟩ : ∃ front', front = part ++ front' ∧
          parts.flatten ++ held = front' ++ (line ++ rest) := by
        rcases List.append_eq_append_iff.mp same with found | ⟨more, whole, rest_eq⟩
        · exact found
        · have nothing : more = [] := (whole ▸ isPart).eq_nil_of_append ends
          subst nothing
          rw [List.append_nil] at whole
          exact ⟨[], by rw [whole, List.append_nil], rest_eq.symm⟩
      have begins' : front' = [] ∨ front'.getLast? = some newline := by
        by_cases nothing : front' = []
        · exact .inl nothing
        · rw [List.getLast?_append_of_ne_nil _ nothing] at ends
          exact .inr ends
      obtain ⟨firsts, found, last, rfl, rfl, of⟩ := inductionHypothesis others rest_eq begins'
      exact ⟨part :: firsts, found, last, rfl, rfl, of⟩

namespace Watched

variable {config : TailConfig} {file : FileId} {watched : Watched}

/-- When all bytes have been taken, every line has its record. -/
theorem everyLine_of_tracks {origin : FileId × Nat} {tailer : Tailer} {content : List UInt8}
    {sent : List FileRecord}
    (tracks : tailer.Tracks config (IsPart config) origin [] content sent)
    (empty : tailer.buffer = []) : EveryLine config origin content sent := by
  obtain ⟨parts, held, divides, unended, -⟩ := tracks
  intro front line lineOf
  obtain ⟨rest, whole⟩ := lineOf.within
  have read := divides.read
  rw [empty, List.append_nil, List.nil_append, ← whole, List.append_assoc] at read
  obtain ⟨first, part, last, rfl, rfl, front, long⟩ :=
    exists_part_of_line divides.shaped unended read.symm lineOf.begins lineOf.isLine
  have sends : partRecord config origin.1 origin.2 (first.flatten ++ part) part ∈ sent := by
    rw [divides.recorded, partRecords_append, List.nil_append]
    exact List.mem_append_right _ List.mem_cons_self
  split
  · next tooLong =>
    refine ⟨part, front, sends, ?_⟩
    rcases long with same | long
    · rwa [same]
    · exact long
  · next short =>
    rcases long with rfl | long
    · exact sends
    · exact absurd (Nat.lt_of_lt_of_le long front.length_le) short

/-- The source has left the file, or reads it again from its beginning, and the file was not
rewritten since. -/
def Anew (config : TailConfig) (file : FileId) (generation : Nat) (watched : Watched) : Prop :=
  watched.disk.path = some file ∧
    (watched.Left file generation ∧
        (∀ record ∈ watched.records, record.generation < generation) ∧ Apart watched.records ∨
      watched.Open config file [] ∧ watched.tailer.generation = generation ∧
        watched.seen <+: watched.disk.content file)

theorem Anew.append {generation : Nat} (anew : watched.Anew config file generation)
    (bytes : List UInt8) :
    (watched.act config file (.append file bytes)).Anew config file generation := by
  obtain ⟨path, left | ⟨opened, same, front⟩⟩ := anew
  · exact ⟨path, .inl left⟩
  · refine ⟨path, .inr ⟨⟨opened.tracks, opened.below, opened.apart⟩, same, ?_⟩⟩
    show watched.seen <+:
      (watched.disk.write file (watched.disk.content file ++ bytes)).content file
    rw [TailWorld.content_write]
    exact front.trans (List.prefix_append _ _)

theorem Anew.tail {generation : Nat} (anew : watched.Anew config file generation) (size : Nat) :
    (watched.act config file (.tail size)).Anew config file generation := by
  have disk := disk_act_tail config file watched size
  obtain ⟨path, ⟨left, below, apart⟩ | ⟨opened, same, front⟩⟩ := anew
  · obtain ⟨opened, same, seen⟩ :=
      opens left.1 path (left.startAt config) List.nil_prefix below apart size
    exact ⟨disk ▸ path, .inr ⟨opened, same, seen ▸ List.nil_prefix⟩⟩
  · have identity : watched.tailer.identity = file := opened.tracks.identity_eq
    obtain ⟨chunk, next, goes⟩ := opened.tracks.follows (fun _ line => .inl line)
      (identity.symm ▸ path) (identity.symm ▸ front)
      (fun _ part unended long => .inr ⟨unended, long⟩) size
    rw [identity] at next
    obtain ⟨still, generation, seen⟩ := opened.goes next goes
    refine ⟨disk ▸ path, .inr ⟨still, generation.trans same, ?_⟩⟩
    rw [seen, disk]
    rw [opened.tracks.position_eq] at next
    exact Tailer.prefix_append_chunk front next

theorem Watching.readsAnew (watching : watched.Watching config file) :
    watched.ReadsAnew config file := by
  intro generation left actions grows later caughtUp
  have before : watched.Anew config file generation := by
    obtain ⟨path, ⟨starting, none, -⟩ | ⟨other, left', below, apart⟩ | ⟨before, opened⟩⟩ := watching
    · have initial := left.2.1
      rw [starting.1, none] at initial
      exact nomatch initial
    · have same := Option.some.inj (left.2.2.symm.trans left'.2.2)
      rw [FileResume.mk.injEq] at same
      rw [← same.2.2.1] at below
      exact ⟨path, .inl ⟨left, below, apart⟩⟩
    · exact absurd left.1 opened.tracks.phase_ne_opening
  have anew : later.Anew config file generation := by
    refine Transaction.foldl_preserves actions before fun action member state anew => ?_
    obtain ⟨rewrites, kept⟩ := grows action member
    cases action with
    | append target bytes =>
      obtain rfl : target = file := rewrites
      exact anew.append bytes
    | rewrite target bytes =>
      obtain rfl : target = file := rewrites
      exact absurd rfl (kept bytes)
    | tail size => exact anew.tail size
    | rotate target => exact rewrites.elim
    | restart checkpoint => exact rewrites.elim
  obtain ⟨-, ⟨closed, -⟩ | ⟨opened, same, front⟩⟩ := anew
  · exact absurd closed.1 caughtUp.1
  · have all : later.seen = later.disk.content file := by
      refine front.eq_of_length ?_
      rw [← opened.tracks.position_eq]
      exact caughtUp.2.2
    have tracks := opened.tracks
    rw [same, all] at tracks
    exact everyLine_of_tracks tracks caughtUp.2.1

/-- In every run on one file in which each read of an overwritten file finds its end, no record
id is used twice, an overwritten file is left within five steps, with no record of its new bytes,
to be read from its beginning under the next generation, and every line of it is sent then. -/
theorem rewrites_are_noticed {content : List UInt8}
    (reaches : Machine.Reaches (act config file) (fun watched action => Rewrites file action ∧
      watched.Ends file action) (start file content) watched) :
    (watched.records.map FileRecord.id).Nodup ∧ watched.Restarts config file (Ends file) ∧
      watched.ReadsAnew config file := by
  have watching : watched.Watching config file :=
    reaches.preserves (watching_start file content) fun _ _ watching allowed =>
      watching.step allowed.1 allowed.2
  exact ⟨watching.nodup_ids, watching.restarts, watching.readsAnew⟩

/-- A source of lines of up to eighty bytes, from the beginning. -/
def usualLines : TailConfig := ⟨.beginning, 80⟩

/-- The file holds `one`, and is rewritten to `two` when that has been read. -/
def sameLength : List TailAction :=
  [.tail 0, .tail 9, .rewrite (1, 7) [116, 119, 111, 10], .tail 9, .tail 9, .tail 9, .tail 9,
    .tail 9]

theorem rewrites_are_noticed_same_length :
    let watched := sameLength.foldl (act usualLines (1, 7)) (start (1, 7) [111, 110, 101, 10])
    watched.records.map (fun record => (record.id, record.payload)) =
        [("1:7:1:4", "one"), ("1:7:2:4", "two")] ∧
      (watched.records.map FileRecord.id).Nodup ∧
      watched.Restarts usualLines (1, 7) (Ends (1, 7)) ∧
      watched.ReadsAnew usualLines (1, 7) := by
  refine ⟨by decide, ?_⟩
  have along : Machine.Along (act usualLines (1, 7)) (fun watched action => Rewrites (1, 7) action ∧
      Ends (1, 7) watched action) (start (1, 7) [111, 110, 101, 10]) sameLength := by
    refine ⟨⟨trivial, fun _ changed => absurd changed ?_, ?_⟩,
      ⟨trivial, fun _ changed => absurd changed ?_, ?_⟩, ⟨rfl, trivial⟩,
      ⟨trivial, fun _ _ => ?_, ?_⟩, ⟨trivial, fun _ _ => ?_, ?_⟩,
      ⟨trivial, fun _ _ => ?_, ?_⟩, ⟨trivial, fun _ _ => ?_, ?_⟩,
      ⟨trivial, fun _ changed => absurd changed ?_, ?_⟩, trivial⟩
    all_goals decide
  exact rewrites_are_noticed (Machine.reaches_of_along along)

/-- The file is rewritten to `two!` and `three`, which is longer than what has been read. -/
def longer : List TailAction :=
  [.tail 0, .tail 9, .rewrite (1, 7) [116, 119, 111, 33, 10, 116, 104, 114, 101, 101, 10]]

/-- The source reads on from the middle of a file that was rewritten and is longer than before. -/
theorem rewrite_read_from_the_middle :
    ∃ watched, Machine.Reaches (act usualLines (1, 7)) (fun _ action => Rewrites (1, 7) action)
        (start (1, 7) [111, 110, 101, 10]) watched ∧
      watched.Overwritten (1, 7) ∧
      (watched.act usualLines (1, 7) (.tail 0)).sent.map
        (fun record => (record.id, record.payload)) = [("1:7:1:4", "one"), ("1:7:1:5", "")] ∧
      ¬ watched.Restarts usualLines (1, 7) fun _ _ => True := by
  refine ⟨longer.foldl (act usualLines (1, 7)) (start (1, 7) [111, 110, 101, 10]), ?_, by decide,
    by decide, ?_⟩
  · exact Machine.reaches_of_along ⟨trivial, trivial, rfl, trivial⟩
  · intro restarts
    have along : Machine.Along (act usualLines (1, 7)) (fun watched action =>
        Rewrites (1, 7) action ∧ True ∧ Remains (1, 7) watched action)
        (longer.foldl (act usualLines (1, 7)) (start (1, 7) [111, 110, 101, 10]))
        (List.replicate 5 (.tail 0)) := by
      refine ⟨⟨trivial, trivial, ?_⟩, ⟨trivial, trivial, ?_⟩, ⟨trivial, trivial, ?_⟩,
        ⟨trivial, trivial, ?_⟩, ⟨trivial, trivial, ?_⟩, trivial⟩
      all_goals
        show Overwritten _ _
        decide
    obtain ⟨first, rest, split, left, -⟩ := restarts ⟨.inl ⟨81, 0, by decide⟩, by decide⟩ _ along
      (by decide)
    -- none of the first five steps leads to an opening
    have stays : ∀ count ≤ 5, (((List.replicate 5 (TailAction.tail 0)).take count).foldl
        (act usualLines (1, 7)) (longer.foldl (act usualLines (1, 7))
          (start (1, 7) [111, 110, 101, 10]))).tailer.phase ≠ .opening := by
      decide
    have part : first = (List.replicate 5 (TailAction.tail 0)).take first.length := by
      rw [split, List.take_left]
    have short : first.length ≤ 5 := by
      have lengths := congrArg List.length split
      rw [List.length_replicate, List.length_append] at lengths
      omega
    rw [part] at left
    exact stays _ short left.1

end Watched

end Bagel
