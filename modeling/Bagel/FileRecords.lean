/-
This file settles when the records of a followed file depend only on its bytes.

The file only grows. Whatever the reads and the appends do to each other, and from
whatever record the source is started again, its records should be those of the lines of
the file, one for each, from where reading began. They are, as long as no read finds the
end of the file within a line that is already too long: there the source takes the line
for finished, sends its record too early, and sends another one for the rest.
-/

import Bagel.Library.Machine
import Bagel.TailerSteps

namespace Bagel

open Lines

/-- One record for each line of the bytes after those `before` it. -/
def lineRecords (config : TailConfig) (origin : FileId × Nat) (before rest : List UInt8) :
    List FileRecord :=
  partRecords config origin.1 origin.2 before (lines newline rest)

namespace TailWorld

/-- Where reading begins, and under which generation: at the checkpoint that the source was
started with, which is the end of a line, and without one at the beginning of the file or, if it
is configured so, at its end. -/
def StartsAt (config : TailConfig) (world : TailWorld) (before : List UInt8) (generation : Nat) :
    Prop :=
  match world.checkpoint with
  | some checkpoint =>
    before.getLast? = some newline ∧ ∃ resume, checkpoint.fileResume = some resume ∧
      resume.offset = before.length ∧ resume.generation = generation
  | none =>
    match config.start with
    | .beginning => before = [] ∧ generation = 1
    | .ending => generation = 0

/-- All bytes of the file have been read and taken from the buffer. -/
def CaughtUp (world : TailWorld) (file : FileId) : Prop :=
  world.tailer.phase ≠ .opening ∧ world.tailer.buffer = [] ∧
    world.tailer.position = (world.disk.content file).length

/-- The records since the path was opened are those of the first lines after the place where
reading began, and those of all lines when the source has caught up with the file. -/
def LineByLine (config : TailConfig) (file : FileId) (world : TailWorld) : Prop :=
  ∃ before generation later, world.StartsAt config before generation ∧
    before <+: world.disk.content file ∧
    lineRecords config (file, generation) before
      ((world.disk.content file).drop before.length) = world.sent ++ later ∧
    (world.CaughtUp file → later = [])

/-- What may happen to a file that only grows: it is appended to, and the source goes on or is
started again, without a checkpoint or with that of one of its records. -/
def Grows (file : FileId) (world : TailWorld) : TailAction → Prop
  | .append target _ => target = file
  | .tail _ => True
  | .restart checkpoint =>
    ∀ stored ∈ checkpoint, ∃ record ∈ world.records, stored = record.checkpoint
  | .rotate _ => False
  | .rewrite _ _ => False

/-- The source does not read the end of the file within a line that is already too long. -/
def ReadsOn (file : FileId) (world : TailWorld) : TailAction → Prop
  | .tail _ => ¬ world.tailer.CutsShort (world.disk.content file)
  | _ => True

end TailWorld

/-! ### Records of a growing file -/

/-- The record stands for a line that ends in the file. -/
def FileRecord.EndsLine (record : FileRecord) (file : FileId) (content : List UInt8) : Prop :=
  ∃ read, read <+: content ∧ read.getLast? = some newline ∧ record.identity = file ∧
    record.offset = read.length ∧ record.tail = read.rtake fileTailBytes

theorem FileRecord.EndsLine.append {record : FileRecord} {file : FileId} {content : List UInt8}
    (ends : record.EndsLine file content) (more : List UInt8) :
    record.EndsLine file (content ++ more) := by
  obtain ⟨read, front, rest⟩ := ends
  exact ⟨read, front.trans (List.prefix_append _ _), rest⟩

theorem getLast?_append_line (before : List UInt8) {line : List UInt8}
    (isLine : IsLine newline line) : (before ++ line).getLast? = some newline := by
  obtain ⟨body, rfl, -⟩ := isLine
  rw [← List.append_assoc]
  exact List.getLast?_concat

theorem endsLine_of_mem_partRecords {config : TailConfig} {file : FileId} {generation : Nat}
    {before content : List UInt8} {parts : List (List UInt8)}
    (areLines : ∀ part ∈ parts, IsLine newline part) (front : before ++ parts.flatten <+: content)
    {record : FileRecord} (member : record ∈ partRecords config file generation before parts) :
    record.EndsLine file content := by
  induction parts generalizing before with
  | nil => exact absurd member List.not_mem_nil
  | cons part rest inductionHypothesis =>
    rw [List.flatten_cons, ← List.append_assoc] at front
    rcases List.mem_cons.mp member with rfl | member
    · refine ⟨before ++ part, (List.prefix_append _ _).trans front, ?_, rfl, rfl, rfl⟩
      exact getLast?_append_line before (areLines part List.mem_cons_self)
    · exact inductionHypothesis (fun other later => areLines other (List.mem_cons_of_mem _ later))
        front member

namespace Tailer

variable {config : TailConfig} {file : FileId} {generation : Nat}
  {before seen content : List UInt8} {sent : List FileRecord} {tailer : Tailer}

theorem Tracks.position_eq {shape : List UInt8 → Prop} {origin : FileId × Nat}
    (tracks : tailer.Tracks config shape origin before seen sent) :
    tailer.position = seen.length := by
  obtain ⟨parts, held, divides, -⟩ := tracks
  exact divides.position

theorem Tracks.identity_eq {shape : List UInt8 → Prop}
    (tracks : tailer.Tracks config shape (file, generation) before seen sent) :
    tailer.identity = file := by
  obtain ⟨parts, held, divides, -⟩ := tracks
  exact congrArg Prod.fst divides.named

theorem Tracks.generation_eq {shape : List UInt8 → Prop}
    (tracks : tailer.Tracks config shape (file, generation) before seen sent) :
    tailer.generation = generation := by
  obtain ⟨parts, held, divides, -⟩ := tracks
  exact congrArg Prod.snd divides.named

theorem Tracks.initial_eq {shape : List UInt8 → Prop} {origin : FileId × Nat}
    (tracks : tailer.Tracks config shape origin before seen sent) : tailer.initial = false := by
  obtain ⟨parts, held, divides, -⟩ := tracks
  exact divides.opened

theorem Tracks.before_prefix {shape : List UInt8 → Prop} {origin : FileId × Nat}
    (tracks : tailer.Tracks config shape origin before seen sent) : before <+: seen := by
  obtain ⟨parts, held, divides, -⟩ := tracks
  rw [divides.read, List.append_assoc, List.append_assoc]
  exact List.prefix_append _ _

/-- The records are those of the first lines of the file. -/
theorem Tracks.lineRecords_eq
    (tracks : tailer.Tracks config (IsLine newline) (file, generation) before seen sent)
    (unread : List UInt8) :
    ∃ later, lineRecords config (file, generation) before ((seen ++ unread).drop before.length) =
      sent ++ later ∧ (tailer.buffer = [] → unread = [] → later = []) := by
  obtain ⟨parts, held, divides, unended, -⟩ := tracks
  have rest : (seen ++ unread).drop before.length =
      parts.flatten ++ (held ++ tailer.buffer ++ unread) := by
    rw [divides.read]
    simp only [List.append_assoc]
    exact List.drop_left
  refine ⟨partRecords config file generation (before ++ parts.flatten)
    (lines newline (held ++ tailer.buffer ++ unread)), ?_, fun empty none => ?_⟩
  · rw [lineRecords, rest, lines_flatten_append divides.shaped, partRecords_append,
      divides.recorded]
  · rw [empty, none, List.append_nil, List.append_nil, lines_of_notMem unended]
    rfl

theorem Tracks.endsLine
    (tracks : tailer.Tracks config (IsLine newline) (file, generation) before seen sent)
    (front : seen <+: content) {record : FileRecord} (member : record ∈ sent) :
    record.EndsLine file content := by
  obtain ⟨parts, held, divides, -, -⟩ := tracks
  rw [divides.recorded] at member
  refine endsLine_of_mem_partRecords divides.shaped (List.IsPrefix.trans ?_ front) member
  rw [divides.read, List.append_assoc]
  exact List.prefix_append _ _

/-- In a file that only grew, what is committed is still there, with its tail. -/
theorem Tracks.committed_tail {shape : List UInt8 → Prop} {origin : FileId × Nat}
    (tracks : tailer.Tracks config shape origin before seen sent) (front : seen <+: content)
    (phase : tailer.phase = .looking ∨ tailer.phase = .matching) :
    tailer.committed ≤ content.length ∧ readFileTail content tailer.committed = tailer.tail := by
  obtain ⟨parts, held, divides, -, holds⟩ := tracks
  have done : before ++ parts.flatten <+: content := by
    refine List.IsPrefix.trans ?_ front
    rw [divides.read, List.append_assoc]
    exact List.prefix_append _ _
  have tail : tailer.tail = (before ++ parts.flatten).rtake fileTailBytes := by
    rcases phase with phase | phase
    · rw [Holds, phase] at holds
      exact holds.2.1
    · rw [Holds, phase] at holds
      exact holds.2.1
  have inside : tailer.committed ≤ content.length := divides.committed ▸ done.length_le
  refine ⟨inside, ?_⟩
  rw [readFileTail_eq inside, tail, divides.committed, ← List.prefix_iff_eq_take.mp done]

/-- A read of the open file sees more of it. -/
theorem prefix_append_chunk {chunk : List UInt8} (front : seen <+: content)
    (next : chunk <+: content.drop seen.length) : seen ++ chunk <+: content := by
  obtain ⟨unread, rfl⟩ := front
  rw [List.drop_left] at next
  exact (List.prefix_append_right_inj seen).mpr next

/-- The source stays with a file that is still behind the path and only grew. -/
theorem Tracks.follows {shape : List UInt8 → Prop} {origin : FileId × Nat}
    (tracks : tailer.Tracks config shape origin before seen sent)
    (lines : ∀ line, IsLine newline line → shape line) {disk : Disk}
    (path : disk.path = some tailer.identity) (front : seen <+: disk.content tailer.identity)
    (cuts : tailer.CutsShort (disk.content tailer.identity) → ∀ part, newline ∉ part →
      config.maxLineBytes < part.length → shape part) (size : Nat) :
    ∃ chunk, chunk <+: (disk.content tailer.identity).drop tailer.position ∧
      (tailer.step config disk size).1.Tracks config shape origin before (seen ++ chunk)
        (sent ++ (tailer.step config disk size).2) := by
  rcases tracks.phase_cases with reading | looking | matching
  · exact tracks.reads reading lines disk cuts size
  · have stays := tracks.committed_tail front (.inl looking)
    refine ⟨[], List.nil_prefix, ?_⟩
    rw [List.append_nil]
    rcases tracks.looks looking disk size with ⟨-, -, same, goes⟩ | ⟨gone, -⟩
    · rw [same, List.append_nil]
      exact goes
    · exact absurd (gone path) (Nat.not_lt.mpr stays.1)
  · have stays := tracks.committed_tail front (.inr matching)
    refine ⟨[], List.nil_prefix, ?_⟩
    rw [List.append_nil]
    rcases tracks.matches matching disk size with ⟨-, none, goes⟩ | ⟨gone, -⟩ |
      ⟨current, there, gone, -⟩
    · rw [none, List.append_nil]
      exact goes
    · exact nomatch path.symm.trans gone
    · obtain rfl : tailer.identity = current := Option.some.inj (path.symm.trans there)
      exact absurd stays.2 gone

end Tailer

/-! ### Runs -/

namespace TailWorld

variable {config : TailConfig} {file : FileId} {world : TailWorld}

/-- The source is about to open the path, from nowhere or from the end of a line. -/
def Starting (file : FileId) (world : TailWorld) : Prop :=
  world.tailer = Tailer.start world.checkpoint ∧ world.sent = [] ∧
    ∀ stored ∈ world.checkpoint, ∃ record : FileRecord,
      record.EndsLine file (world.disk.content file) ∧ stored = record.checkpoint

/-- The source has read the file up to some point, from where it started. -/
def Tracking (config : TailConfig) (file : FileId) (world : TailWorld) : Prop :=
  ∃ before generation seen, world.StartsAt config before generation ∧
    seen <+: world.disk.content file ∧
    world.tailer.Tracks config (IsLine newline) (file, generation) before seen world.sent

/-- The invariant of a run on a file that only grows. -/
structure Following (config : TailConfig) (file : FileId) (world : TailWorld) : Prop where
  path : world.disk.path = some file
  earlier : ∀ record ∈ world.earlier, record.EndsLine file (world.disk.content file)
  session : world.Starting file ∨ world.Tracking config file

theorem Following.endsLine (following : world.Following config file) {record : FileRecord}
    (member : record ∈ world.records) : record.EndsLine file (world.disk.content file) := by
  rcases List.mem_append.mp member with old | new
  · exact following.earlier record old
  · rcases following.session with ⟨-, none, -⟩ | ⟨before, generation, seen, -, front, tracks⟩
    · rw [none] at new
      exact absurd new List.not_mem_nil
    · exact tracks.endsLine front new

theorem content_write (disk : Disk) (file : FileId) (content : List UInt8) :
    (disk.write file content).content file = content := by
  simp [Disk.content, Disk.write]

theorem following_begin {disk : Disk} (path : disk.path = some file) :
    (begin disk).Following config file where
  path := path
  earlier _ member := absurd member List.not_mem_nil
  session := .inl ⟨rfl, rfl, fun _ stored => nomatch stored⟩

theorem Following.append (following : world.Following config file) (bytes : List UInt8) :
    (world.act config (.append file bytes)).Following config file := by
  have content : (world.act config (.append file bytes)).disk.content file =
      world.disk.content file ++ bytes := content_write _ _ _
  refine ⟨following.path, fun record member => ?_, ?_⟩
  · rw [content]
    exact (following.earlier record member).append bytes
  · rcases following.session with ⟨tailer, none, ends⟩ | ⟨before, generation, seen, starts, front,
      tracks⟩
    · refine .inl ⟨tailer, none, fun stored member => ?_⟩
      obtain ⟨record, line, same⟩ := ends stored member
      exact ⟨record, content ▸ line.append bytes, same⟩
    · refine .inr ⟨before, generation, seen, starts, ?_, tracks⟩
      rw [content]
      exact front.trans (List.prefix_append _ _)

theorem Following.restart (following : world.Following config file)
    {checkpoint : Option Checkpoint}
    (stored : ∀ stored ∈ checkpoint, ∃ record ∈ world.records, stored = record.checkpoint) :
    (world.act config (.restart checkpoint)).Following config file where
  path := following.path
  earlier _ member := following.endsLine member
  session := by
    refine .inl ⟨rfl, rfl, fun chosen member => ?_⟩
    obtain ⟨record, sent, same⟩ := stored chosen member
    exact ⟨record, following.endsLine sent, same⟩

/-- A source that is started opens the file where its checkpoint says. -/
theorem Starting.startsAt (starting : world.Starting file) (config : TailConfig) :
    ∃ before generation, world.StartsAt config before generation ∧
      before <+: world.disk.content file ∧
      world.tailer.startAt config file (world.disk.content file) =
        (before.length, generation, before.rtake fileTailBytes) := by
  obtain ⟨tailer, -, ends⟩ := starting
  rw [tailer]
  unfold StartsAt
  cases chosen : world.checkpoint with
  | some checkpoint =>
    obtain ⟨record, ⟨read, front, line, identity, offset, tail⟩, rfl⟩ := ends checkpoint chosen
    refine ⟨read, record.generation, ⟨line, _, rfl, offset, rfl⟩, front, ?_⟩
    have before : readFileTail (world.disk.content file) record.offset =
        read.rtake fileTailBytes := by
      rw [readFileTail_eq (offset ▸ front.length_le), offset, ← List.prefix_iff_eq_take.mp front]
    have resumes : (record.identity.1, record.identity.2) = file ∧
        record.offset ≤ (world.disk.content file).length ∧
        (record.tail = [] ∨ readFileTail (world.disk.content file) record.offset = record.tail) :=
      ⟨identity, offset ▸ front.length_le, .inr (before.trans tail.symm)⟩
    simp only [Tailer.startAt, Tailer.start, Option.bind_some, FileRecord.checkpoint,
      Checkpoint.fileResume]
    rw [if_pos resumes, before, tail, ite_self, offset]
  | none =>
    simp only [Tailer.startAt, Tailer.start, Option.bind_none, Option.isNone_none]
    cases config.start with
    | beginning => exact ⟨[], 1, ⟨rfl, rfl⟩, List.nil_prefix, rfl⟩
    | ending =>
      refine ⟨world.disk.content file, 0, rfl, List.prefix_rfl, ?_⟩
      simp [readFileTail_eq]

theorem Following.opens (following : world.Following config file) (starting : world.Starting file)
    (size : Nat) : (world.act config (.tail size)).Following config file := by
  obtain ⟨before, generation, starts, front, opening⟩ := starting.startsAt config
  have tracks : (world.tailer.openStep config world.disk).Tracks config (IsLine newline)
      (file, generation) before before [] :=
    Tailer.tracks_openStep following.path opening
  have phase : world.tailer.phase = .opening := starting.1 ▸ rfl
  rw [act, tailed_opening phase tracks.phase_ne_opening]
  exact ⟨following.path, fun _ member => following.endsLine member,
    .inr ⟨before, generation, before, starts, front, tracks⟩⟩

theorem Following.goes (following : world.Following config file)
    (tracking : world.Tracking config file) {size : Nat}
    (readsOn : ¬ world.tailer.CutsShort (world.disk.content file)) :
    (world.act config (.tail size)).Following config file := by
  obtain ⟨before, generation, seen, starts, front, tracks⟩ := tracking
  have identity : world.tailer.identity = file := tracks.identity_eq
  rw [act, tailed_of_ne_opening tracks.phase_ne_opening]
  obtain ⟨chunk, next, goes⟩ := tracks.follows (fun _ line => line)
    (identity.symm ▸ following.path) (identity.symm ▸ front)
    (fun cuts => absurd (identity ▸ cuts) readsOn) size
  rw [identity, tracks.position_eq] at next
  exact ⟨following.path, following.earlier, .inr ⟨before, generation, seen ++ chunk, starts,
    Tailer.prefix_append_chunk front next, goes⟩⟩

theorem Following.step (following : world.Following config file) {action : TailAction}
    (grows : world.Grows file action) (readsOn : world.ReadsOn file action) :
    (world.act config action).Following config file := by
  cases action with
  | append target bytes =>
    obtain rfl : target = file := grows
    exact following.append bytes
  | tail size =>
    rcases following.session with starting | tracking
    · exact following.opens starting size
    · exact following.goes tracking readsOn
  | restart checkpoint => exact following.restart grows
  | rotate target => exact grows.elim
  | rewrite target content => exact grows.elim

theorem Following.lineByLine (following : world.Following config file) :
    world.LineByLine config file := by
  rcases following.session with starting | ⟨before, generation, seen, starts, front, tracks⟩
  · obtain ⟨before, generation, starts, front, -⟩ := starting.startsAt config
    refine ⟨before, generation, lineRecords config (file, generation) before
      ((world.disk.content file).drop before.length), starts, front, ?_, fun caughtUp => ?_⟩
    · rw [starting.2.1, List.nil_append]
    · exact absurd (starting.1 ▸ rfl) caughtUp.1
  · obtain ⟨unread, whole⟩ := front
    obtain ⟨later, same, all⟩ := tracks.lineRecords_eq unread
    refine ⟨before, generation, later, starts, ?_, whole ▸ same, fun ⟨_, empty, ended⟩ => ?_⟩
    · exact tracks.before_prefix.trans ⟨unread, whole⟩
    · -- the position is the length of what was seen, so nothing is unread
      rw [tracks.position_eq, ← whole, List.length_append] at ended
      exact all empty (List.eq_nil_of_length_eq_zero (by omega))

/-- In every run on a file that only grows, with the source started again from any of its
records, in which no read finds the end of the file within a line that is already too long, the
records are those of the lines of the file. -/
theorem file_records_line_by_line {disk : Disk} (path : disk.path = some file)
    (reaches : Machine.Reaches (act config) (fun world action => world.Grows file action ∧
      world.ReadsOn file action) (begin disk) world) : world.LineByLine config file := by
  have following : world.Following config file :=
    reaches.preserves (following_begin path) fun _ _ following allowed =>
      following.step allowed.1 allowed.2
  exact following.lineByLine

/-- A source that takes lines of up to two bytes. -/
def shortLines : TailConfig := ⟨.beginning, 2⟩

/-- One file, with the given bytes. -/
def oneFile (content : List UInt8) : TailWorld :=
  begin (Disk.lone (1, 7) content)

/-- The file holds `abcd` and a newline: opened, read, drained. Then `e` and a newline are
appended and read, and the source is started again from the first record. -/
def wholeLine : List TailAction :=
  [.tail 0, .tail 9, .tail 9, .tail 9, .append (1, 7) [101, 10], .tail 9,
    .restart (some (.file 1 7 5 1 [97, 98, 99, 100, 10])), .tail 0, .tail 9]

theorem file_records_line_by_line_whole_line :
    let world := wholeLine.foldl (act shortLines) (oneFile [97, 98, 99, 100, 10])
    world.sent = [⟨(1, 7), 1, 7, [97, 98, 99, 100, 10, 101, 10], "e", false⟩] ∧
      world.LineByLine shortLines (1, 7) := by
  refine ⟨by decide, ?_⟩
  refine file_records_line_by_line rfl (Machine.reaches_of_along ?_)
  have stored : ∀ stored ∈ some (Checkpoint.file 1 7 5 1 [97, 98, 99, 100, 10]),
      ∃ record ∈ ((wholeLine.take 6).foldl (act shortLines)
          (oneFile [97, 98, 99, 100, 10])).records,
        stored = record.checkpoint := by
    decide
  refine ⟨⟨trivial, ?_⟩, ⟨trivial, ?_⟩, ⟨trivial, ?_⟩, ⟨trivial, ?_⟩, ⟨rfl, trivial⟩,
    ⟨trivial, ?_⟩, ⟨stored, trivial⟩, ⟨trivial, ?_⟩, ⟨trivial, ?_⟩, trivial⟩
  all_goals
    show ¬ Tailer.CutsShort _ _
    decide

/-- The file holds `abcd` without a newline when it is read. -/
def cutLine : List TailAction :=
  [.tail 0, .tail 9, .tail 9, .tail 9, .tail 9, .append (1, 7) [101, 10], .tail 9]

/-- One line of six bytes gives two records when the source reaches its end before it is
complete. -/
theorem cut_line_two_records :
    ∃ world, Machine.Reaches (act shortLines) (fun world action => world.Grows (1, 7) action)
        (oneFile [97, 98, 99, 100]) world ∧
      world.sent.map (fun record => (record.offset, record.payload, record.oversized)) =
        [(4, "", true), (6, "e", false)] ∧
      ¬ world.LineByLine shortLines (1, 7) := by
  refine ⟨cutLine.foldl (act shortLines) (oneFile [97, 98, 99, 100]), ?_, by decide, ?_⟩
  · refine Machine.reaches_of_along ?_
    exact ⟨trivial, trivial, trivial, trivial, trivial, rfl, trivial, trivial⟩
  · rintro ⟨before, generation, later, ⟨rfl, rfl⟩, -, same, -⟩
    have lengths := congrArg List.length same
    rw [List.length_append] at lengths
    have one : (lineRecords shortLines ((1, 7), 1) []
        [97, 98, 99, 100, 101, 10]).length = 1 := by decide
    have two : (cutLine.foldl (act shortLines) (oneFile [97, 98, 99, 100])).sent.length = 2 := by
      decide
    have content :
        (cutLine.foldl (act shortLines) (oneFile [97, 98, 99, 100])).disk.content (1, 7) =
          [97, 98, 99, 100, 101, 10] := by decide
    rw [content, two] at lengths
    simp only [List.length_nil, List.drop_zero] at lengths
    omega

end TailWorld

end Bagel
