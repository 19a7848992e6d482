/-
This file says what the file source does with the bytes it reads.

Between two openings of the path, the bytes read are cut into parts: each record stands
for one part, and what follows the last of them is held back, in the buffer or as the
beginning of a line. A part is a line, with one exception: when the end of the file is
reached within a line that is already too long, the part ends there.
-/

import Bagel.Tailer

namespace Bagel

open Lines

/-! ### Tails -/

theorem pushTail_rtake (bytes more : List UInt8) :
    pushTail (bytes.rtake fileTailBytes) more = (bytes ++ more).rtake fileTailBytes := by
  simp only [pushTail, List.rtake, List.length_append, List.length_drop, List.drop_append]
  split
  · next long =>
    have covered : bytes.length ≤ bytes.length + more.length - fileTailBytes := by omega
    rw [List.drop_eq_nil_of_le covered, List.nil_append]
    congr 1
    omega
  · next short =>
    rw [List.drop_drop]
    have inside : bytes.length + more.length - fileTailBytes - bytes.length = 0 := by omega
    rw [inside, List.drop_zero]
    congr 2
    omega

theorem readFileTail_eq {content : List UInt8} {offset : Nat} (inside : offset ≤ content.length) :
    readFileTail content offset = (content.take offset).rtake fileTailBytes := by
  simp only [readFileTail, List.rtake, List.length_take, Nat.min_eq_left inside]
  rw [List.drop_take]
  congr 1
  · omega
  · congr 1
    omega

/-! ### Parts and records -/

/-- The record that stands for the last part of the bytes read so far. -/
def partRecord (config : TailConfig) (identity : FileId) (generation : Nat)
    (read part : List UInt8) : FileRecord where
  identity := identity
  generation := generation
  offset := read.length
  tail := read.rtake fileTailBytes
  payload := if config.maxLineBytes < part.length then "" else lineText part
  oversized := config.maxLineBytes < part.length

/-- One record for each part, after the bytes before the first. -/
def partRecords (config : TailConfig) (identity : FileId) (generation : Nat) :
    List UInt8 → List (List UInt8) → List FileRecord
  | _, [] => []
  | before, part :: rest =>
    partRecord config identity generation (before ++ part) part ::
      partRecords config identity generation (before ++ part) rest

theorem partRecords_append (config : TailConfig) (identity : FileId) (generation : Nat)
    (before : List UInt8) (first second : List (List UInt8)) :
    partRecords config identity generation before (first ++ second) =
      partRecords config identity generation before first ++
        partRecords config identity generation (before ++ first.flatten) second := by
  induction first generalizing before with
  | nil => rw [List.nil_append, List.flatten_nil, List.append_nil, partRecords, List.nil_append]
  | cons part rest inductionHypothesis =>
    rw [List.cons_append, partRecords, inductionHypothesis, partRecords, List.cons_append,
      List.flatten_cons, List.append_assoc]

/-! ### What the source holds -/

namespace Tailer

/-- The bytes up to the position of the file, as they were read, are those `before` the offset
that reading began at, the parts that records were sent for, and what is held after them. -/
structure Divides (config : TailConfig) (shape : List UInt8 → Prop) (origin : FileId × Nat)
    (before seen : List UInt8) (sent : List FileRecord) (tailer : Tailer)
    (parts : List (List UInt8)) (held : List UInt8) : Prop where
  named : (tailer.identity, tailer.generation) = origin
  opened : tailer.initial = false
  read : seen = before ++ parts.flatten ++ held ++ tailer.buffer
  position : tailer.position = seen.length
  committed : tailer.committed = (before ++ parts.flatten).length
  recorded : sent = partRecords config origin.1 origin.2 before parts
  shaped : ∀ part ∈ parts, shape part

/-- How the source keeps what it holds: `held` was taken from the buffer, after `done`. -/
def Holds (tailer : Tailer) (config : TailConfig) (done held : List UInt8) : Prop :=
  match tailer.phase with
  | .reading limit taken =>
    tailer.pending = held ∧ tailer.tail = done.rtake fileTailBytes ∧
      held.length + limit ≤ config.maxLineBytes + 1 ∧
      (taken = 0 → limit ≠ 0 ∧ held.length ≤ config.maxLineBytes)
  | .draining consumed =>
    tailer.pending = [] ∧ tailer.tail = (done ++ held).rtake fileTailBytes ∧
      consumed = held.length ∧ config.maxLineBytes < held.length
  | .looking | .matching =>
    tailer.pending = held ∧ tailer.tail = done.rtake fileTailBytes ∧
      held.length ≤ config.maxLineBytes ∧ tailer.buffer = []
  | .opening | .failed => False

/-- The invariant between two openings: the source divides what it has seen, and holds less than
a line. -/
def Tracks (config : TailConfig) (shape : List UInt8 → Prop) (origin : FileId × Nat)
    (before seen : List UInt8) (sent : List FileRecord) (tailer : Tailer) : Prop :=
  ∃ parts held, Divides config shape origin before seen sent tailer parts held ∧ newline ∉ held ∧
    tailer.Holds config (before ++ parts.flatten) held

variable {config : TailConfig} {shape : List UInt8 → Prop} {origin : FileId × Nat}
  {before seen held : List UInt8} {sent : List FileRecord} {tailer : Tailer}
  {parts : List (List UInt8)}

/-- Only the place in the file and the identity of the records matter for the division. -/
theorem Divides.congr (divides : Divides config shape origin before seen sent tailer parts held)
    (next : Tailer) (buffer : next.buffer = tailer.buffer)
    (position : next.position = tailer.position)
    (committed : next.committed = tailer.committed) (identity : next.identity = tailer.identity)
    (generation : next.generation = tailer.generation) (initial : next.initial = tailer.initial) :
    Divides config shape origin before seen sent next parts held where
  named := by rw [identity, generation, divides.named]
  opened := initial.trans divides.opened
  read := buffer ▸ divides.read
  position := position ▸ divides.position
  committed := committed ▸ divides.committed
  recorded := divides.recorded
  shaped := divides.shaped

/-- A record is sent for all that is held. -/
theorem Divides.send (divides : Divides config shape origin before seen sent tailer parts held)
    (next : Tailer) (shaped : shape held) (buffer : next.buffer = tailer.buffer)
    (position : next.position = tailer.position)
    (committed : next.committed = tailer.committed + held.length)
    (identity : next.identity = tailer.identity)
    (generation : next.generation = tailer.generation) (initial : next.initial = tailer.initial) :
    Divides config shape origin before seen
      (sent ++ [partRecord config origin.1 origin.2 (before ++ parts.flatten ++ held) held]) next
      (parts ++ [held]) [] where
  named := by rw [identity, generation, divides.named]
  opened := initial.trans divides.opened
  read := by
    rw [buffer, List.flatten_append, List.flatten_singleton, List.append_nil,
      ← List.append_assoc before]
    exact divides.read
  position := position ▸ divides.position
  committed := by
    rw [committed, divides.committed, List.flatten_append, List.flatten_singleton,
      ← List.append_assoc, ← List.length_append]
  recorded := by
    rw [partRecords_append, divides.recorded]
    rfl
  shaped part member := by
    rcases List.mem_append.mp member with old | new
    · exact divides.shaped part old
    · exact List.mem_singleton.mp new ▸ shaped

theorem length_add_remaining_le {maxLineBytes : Nat} {pending : List UInt8}
    (short : pending.length ≤ maxLineBytes) :
    pending.length + remaining maxLineBytes pending ≤ maxLineBytes + 1 := by
  rw [remaining, saturatingAdd]
  omega

theorem remaining_ne_zero (maxLineBytes : Nat) (pending : List UInt8) :
    remaining maxLineBytes pending ≠ 0 := by
  rw [remaining]
  omega

/-- The source tracks the file at the head of its loop. -/
theorem Divides.again (divides : Divides config shape origin before seen sent tailer parts held)
    (unended : newline ∉ held) (pending : tailer.pending = held)
    (tail : tailer.tail = (before ++ parts.flatten).rtake fileTailBytes)
    (short : held.length ≤ config.maxLineBytes) :
    (tailer.again config).Tracks config shape origin before seen sent := by
  refine ⟨parts, held, divides.congr _ rfl rfl rfl rfl rfl rfl, unended, pending, tail, ?_, ?_⟩
  · rw [pending]
    exact length_add_remaining_le short
  · exact fun _ => ⟨remaining_ne_zero _ _, short⟩

/-- A record is sent for all that is held, and the source goes back to the head of its loop. -/
theorem Divides.sendAgain (divides : Divides config shape origin before seen sent tailer parts held)
    (next : Tailer) (shaped : shape held) (buffer : next.buffer = tailer.buffer)
    (position : next.position = tailer.position)
    (committed : next.committed = tailer.committed + held.length)
    (identity : next.identity = tailer.identity)
    (generation : next.generation = tailer.generation) (initial : next.initial = tailer.initial)
    (pending : next.pending = [])
    (tail : next.tail = (before ++ parts.flatten ++ held).rtake fileTailBytes) {payload : String}
    (text : payload = if config.maxLineBytes < held.length then "" else lineText held) :
    (next.again config).Tracks config shape origin before seen
      (sent ++ [next.record payload (config.maxLineBytes < held.length)]) := by
  have record : next.record payload (config.maxLineBytes < held.length) =
      partRecord config origin.1 origin.2 (before ++ parts.flatten ++ held) held := by
    rw [Tailer.record, partRecord, tail, committed, divides.committed, ← List.length_append, text,
      identity, generation, ← divides.named]
  have sends := divides.send next shaped buffer position committed identity generation
    initial
  rw [record]
  refine sends.again List.not_mem_nil pending ?_ (Nat.zero_le _)
  rw [List.flatten_append, List.flatten_singleton, ← List.append_assoc]
  exact tail

/-- A line that was too long ends, or the file does. -/
theorem Divides.finishOversized
    (divides : Divides config shape origin before seen sent tailer parts held)
    (shaped : shape held) (pending : tailer.pending = [])
    (tail : tailer.tail = (before ++ parts.flatten ++ held).rtake fileTailBytes)
    (long : config.maxLineBytes < held.length) :
    (tailer.finishOversized config held.length).1.Tracks config shape origin before seen
      (sent ++ (tailer.finishOversized config held.length).2) := by
  have sends := divides.sendAgain { tailer with committed := tailer.committed + held.length } shaped
    rfl rfl rfl rfl rfl rfl pending tail (if_pos long).symm
  rwa [decide_eq_true long] at sends

/-- What follows `read_until` when it has read: `held` is the beginning of a line or a line. -/
theorem Divides.finishRead
    (divides : Divides config shape origin before seen sent tailer parts held)
    (lines : ∀ line, IsLine newline line → shape line)
    (pending : tailer.pending = held)
    (tail : tailer.tail = (before ++ parts.flatten).rtake fileTailBytes)
    (line : IsLine newline held ∨ newline ∉ held) {taken : Nat} (some : taken ≠ 0) :
    (tailer.finishRead config taken).1.Tracks config shape origin before seen
      (sent ++ (tailer.finishRead config taken).2) := by
  subst pending
  have pushed : pushTail tailer.tail tailer.pending =
      (before ++ parts.flatten ++ tailer.pending).rtake fileTailBytes := by
    rw [tail, pushTail_rtake]
  rw [Tailer.finishRead, if_neg some]
  by_cases long : config.maxLineBytes < tailer.pending.length
  · rw [if_pos long]
    simp only
    rcases line with line | unended
    · rw [if_pos line.getLast?]
      have same : Divides config shape origin before seen sent
          { tailer with tail := pushTail tailer.tail tailer.pending, pending := [] } parts
          tailer.pending :=
        divides.congr _ rfl rfl rfl rfl rfl rfl
      exact same.finishOversized (lines _ line) rfl pushed long
    · have open_ : tailer.pending.getLast? ≠ .some newline := fun last =>
        unended (List.mem_of_getLast? last)
      rw [if_neg open_, List.append_nil]
      exact ⟨parts, tailer.pending, divides.congr _ rfl rfl rfl rfl rfl rfl, unended, rfl, pushed,
        rfl, long⟩
  · rw [if_neg long]
    rcases line with line | unended
    · rw [if_pos line.getLast?]
      simp only
      have sends := divides.sendAgain
        { tailer with
          committed := tailer.committed + tailer.pending.length
          tail := pushTail tailer.tail tailer.pending
          pending := [] }
        (lines _ line) rfl rfl rfl rfl rfl rfl rfl pushed (if_neg long).symm
      rwa [decide_eq_false long] at sends
    · have open_ : tailer.pending.getLast? ≠ .some newline := fun last =>
        unended (List.mem_of_getLast? last)
      rw [if_neg open_, List.append_nil]
      exact divides.again unended rfl tail (Nat.le_of_not_lt long)

/-! ### Reading -/

/-- Filling the buffer appends bytes from the position on, and leaves it empty only at the end of
the file. -/
theorem exists_fillBuf (tailer : Tailer) (content : List UInt8) (size : Nat) :
    ∃ chunk, chunk <+: content.drop tailer.position ∧
      tailer.fillBuf content size =
        { tailer with
          buffer := tailer.buffer ++ chunk
          position := tailer.position + chunk.length } ∧
      (tailer.buffer ++ chunk = [] → content.length ≤ tailer.position) := by
  rw [fillBuf]
  by_cases empty : tailer.buffer = []
  · rw [if_pos empty]
    refine ⟨(content.drop tailer.position).take (size + 1), List.take_prefix _ _, ?_, ?_⟩
    · rw [empty, List.nil_append]
    · rw [empty, List.nil_append, List.take_eq_nil_iff, List.drop_eq_nil_iff]
      exact fun ended => ended.resolve_left (Nat.succ_ne_zero size)
  · rw [if_neg empty]
    refine ⟨[], List.nil_prefix, ?_, fun both => absurd (List.append_eq_nil_iff.mp both).1 empty⟩
    rw [List.append_nil, List.length_nil, Nat.add_zero]

theorem Divides.fill (divides : Divides config shape origin before seen sent tailer parts held)
    (chunk : List UInt8) :
    Divides config shape origin before (seen ++ chunk) sent
      { tailer with
        buffer := tailer.buffer ++ chunk
        position := tailer.position + chunk.length } parts held where
  named := divides.named
  opened := divides.opened
  read := by rw [divides.read, List.append_assoc _ tailer.buffer]
  position := by rw [divides.position, List.length_append]
  committed := divides.committed
  recorded := divides.recorded
  shaped := divides.shaped

/-- Bytes are taken from the front of the buffer. -/
theorem Divides.take (divides : Divides config shape origin before seen sent tailer parts held)
    {line : List UInt8} (front : line <+: tailer.buffer) (next : Tailer)
    (buffer : next.buffer = tailer.buffer.drop line.length)
    (position : next.position = tailer.position) (committed : next.committed = tailer.committed)
    (identity : next.identity = tailer.identity)
    (generation : next.generation = tailer.generation) (initial : next.initial = tailer.initial) :
    Divides config shape origin before seen sent next parts (held ++ line) where
  named := by rw [identity, generation, divides.named]
  opened := initial.trans divides.opened
  read := by
    have whole : line ++ tailer.buffer.drop line.length = tailer.buffer :=
      List.prefix_iff_eq_append.mp front
    rw [divides.read, buffer, ← List.append_assoc, List.append_assoc _ line, whole]
  position := position ▸ divides.position
  committed := committed ▸ divides.committed
  recorded := divides.recorded
  shaped := divides.shaped

theorem Tracks.readStep (tracks : tailer.Tracks config shape origin before seen sent)
    {limit taken : Nat} (phase : tailer.phase = .reading limit taken)
    (lines : ∀ line, IsLine newline line → shape line) (content : List UInt8) (size : Nat) :
    ∃ chunk, chunk <+: content.drop tailer.position ∧
      (tailer.readStep config content size limit taken).1.Tracks config shape origin before
        (seen ++ chunk) (sent ++ (tailer.readStep config content size limit taken).2) := by
  obtain ⟨parts, held, divides, unended, holds⟩ := tracks
  rw [Holds, phase] at holds
  obtain ⟨pending, tail, bounded, begun⟩ := holds
  rw [Tailer.readStep]
  by_cases full : limit = 0
  · have some : taken ≠ 0 := fun nothing => (begun nothing).1 full
    rw [if_pos full]
    refine ⟨[], List.nil_prefix, ?_⟩
    rw [List.append_nil]
    exact divides.finishRead lines pending tail (.inr unended) some
  · rw [if_neg full]
    obtain ⟨chunk, front, fills, ended⟩ := tailer.exists_fillBuf content size
    refine ⟨chunk, front, ?_⟩
    have filled := divides.fill chunk
    rw [fills]
    simp only
    split
    · next nothing =>
      -- the limit is not used up, so the file has ended
      have drained : tailer.buffer ++ chunk = [] :=
        (List.take_eq_nil_iff.mp nothing).resolve_left full
      by_cases none : taken = 0
      · rw [Tailer.finishRead, if_pos none, List.append_nil]
        exact ⟨parts, held, filled.congr _ rfl rfl rfl rfl rfl rfl, unended, pending, tail,
          (begun none).2, drained⟩
      · exact filled.finishRead lines pending tail (.inr unended) none
    · next some =>
      have front : upTo newline ((tailer.buffer ++ chunk).take limit) <+: tailer.buffer ++ chunk :=
        (isPrefix_upTo _).trans (List.take_prefix _ _)
      have line_ne_nil : (upTo newline ((tailer.buffer ++ chunk).take limit)).length ≠ 0 :=
        fun none => upTo_ne_nil some (List.eq_nil_of_length_eq_zero none)
      split
      · next marked =>
        have line := (isLine_upTo marked).append unended
        have taking := filled.take front
          { tailer with
            position := tailer.position + chunk.length
            pending := tailer.pending ++ upTo newline ((tailer.buffer ++ chunk).take limit)
            buffer := (tailer.buffer ++ chunk).drop
              (upTo newline ((tailer.buffer ++ chunk).take limit)).length }
          rfl rfl rfl rfl rfl rfl
        exact taking.finishRead lines (by rw [pending]) tail (.inl line) (by omega)
      · next unmarked =>
        rw [upTo_of_notMem unmarked, List.append_nil]
        rw [upTo_of_notMem unmarked] at front line_ne_nil
        have bound : ((tailer.buffer ++ chunk).take limit).length ≤ limit := List.length_take_le _ _
        refine ⟨parts, _, filled.take front _ rfl rfl rfl rfl rfl rfl, ?_, ?_, tail, ?_, ?_⟩
        · rw [List.mem_append, not_or]
          exact ⟨unended, unmarked⟩
        · rw [pending]
        · rw [List.length_append]
          omega
        · exact fun none => absurd none (by omega)

theorem Tracks.drainStep (tracks : tailer.Tracks config shape origin before seen sent)
    {consumed : Nat} (phase : tailer.phase = .draining consumed)
    (lines : ∀ line, IsLine newline line → shape line) {content : List UInt8}
    (cuts : tailer.buffer = [] → content.length ≤ tailer.position → ∀ part, newline ∉ part →
      config.maxLineBytes < part.length → shape part) (size : Nat) :
    ∃ chunk, chunk <+: content.drop tailer.position ∧
      (tailer.drainStep config content size consumed).1.Tracks config shape origin before
        (seen ++ chunk) (sent ++ (tailer.drainStep config content size consumed).2) := by
  obtain ⟨parts, held, divides, unended, holds⟩ := tracks
  rw [Holds, phase] at holds
  obtain ⟨pending, tail, rfl, long⟩ := holds
  obtain ⟨chunk, front, fills, ended⟩ := tailer.exists_fillBuf content size
  refine ⟨chunk, front, ?_⟩
  have filled := divides.fill chunk
  rw [Tailer.drainStep, fills]
  simp only
  split
  · next drained =>
    have empty := (List.append_eq_nil_iff.mp drained).1
    exact filled.finishOversized (cuts empty (ended drained) held unended long) pending tail long
  · next some =>
    have front : upTo newline (tailer.buffer ++ chunk) <+: tailer.buffer ++ chunk :=
      isPrefix_upTo _
    have pushed : pushTail tailer.tail (upTo newline (tailer.buffer ++ chunk)) =
        (before ++ parts.flatten ++ (held ++ upTo newline (tailer.buffer ++ chunk))).rtake
          fileTailBytes := by
      rw [tail, pushTail_rtake, List.append_assoc _ held]
    by_cases marked : newline ∈ tailer.buffer ++ chunk
    · have line := (isLine_upTo marked).append unended
      rw [if_pos (.inr marked), ← List.length_append]
      refine Divides.finishOversized (filled.take front _ rfl rfl rfl rfl rfl rfl) (lines _ line)
        pending pushed ?_
      rw [List.length_append]
      omega
    · rw [upTo_of_notMem marked] at front pushed ⊢
      rw [if_neg (by simp [marked]), List.append_nil, ← List.length_append]
      refine ⟨parts, _, filled.take front _ rfl rfl rfl rfl rfl rfl, ?_, pending, pushed, rfl, ?_⟩
      · rw [List.mem_append, not_or]
        exact ⟨unended, marked⟩
      · rw [List.length_append]
        omega

/-- The source is at a read of the open file. -/
def Reading (tailer : Tailer) : Prop :=
  (∃ limit taken, tailer.phase = .reading limit taken) ∨
    ∃ consumed, tailer.phase = .draining consumed

/-- The source is at a read that finds the end of the file, within a line of which it has read
more than a line may have. -/
def CutsShort (tailer : Tailer) (content : List UInt8) : Prop :=
  tailer.phase.isDraining ∧ tailer.buffer = [] ∧ content.length ≤ tailer.position

instance (tailer : Tailer) (content : List UInt8) : Decidable (tailer.CutsShort content) :=
  inferInstanceAs (Decidable (_ ∧ _))

theorem Tracks.reads (tracks : tailer.Tracks config shape origin before seen sent)
    (reading : tailer.Reading) (lines : ∀ line, IsLine newline line → shape line) (disk : Disk)
    (cuts : tailer.CutsShort (disk.content tailer.identity) → ∀ part, newline ∉ part →
      config.maxLineBytes < part.length → shape part) (size : Nat) :
    ∃ chunk, chunk <+: (disk.content tailer.identity).drop tailer.position ∧
      (tailer.step config disk size).1.Tracks config shape origin before (seen ++ chunk)
        (sent ++ (tailer.step config disk size).2) := by
  rcases reading with ⟨limit, taken, phase⟩ | ⟨consumed, phase⟩
  · simp only [step, phase]
    exact tracks.readStep phase lines _ size
  · simp only [step, phase]
    exact tracks.drainStep phase lines (fun empty ended => cuts ⟨phase ▸ rfl, empty, ended⟩) size

theorem Tracks.phase_cases (tracks : tailer.Tracks config shape origin before seen sent) :
    tailer.Reading ∨ tailer.phase = .looking ∨ tailer.phase = .matching := by
  obtain ⟨parts, held, -, -, holds⟩ := tracks
  rw [Holds] at holds
  split at holds
  · next limit taken phase => exact .inl (.inl ⟨limit, taken, phase⟩)
  · next consumed phase => exact .inl (.inr ⟨consumed, phase⟩)
  · next phase => exact .inr (.inl phase)
  · next phase => exact .inr (.inr phase)
  · exact holds.elim
  · exact holds.elim

/-! ### The look at the path -/

/-- The source looks at the path: it leaves the file when another one is there or the file has
become shorter than what is committed, and goes on to compare the tails otherwise. -/
theorem Tracks.looks (tracks : tailer.Tracks config shape origin before seen sent)
    (phase : tailer.phase = .looking) (disk : Disk) (size : Nat) :
    (disk.path = some tailer.identity ∧
        tailer.committed ≤ (disk.content tailer.identity).length ∧
        tailer.step config disk size = ({ tailer with phase := .matching }, []) ∧
        Tracks config shape origin before seen sent { tailer with phase := .matching }) ∨
      (disk.path = some tailer.identity →
        (disk.content tailer.identity).length < tailer.committed) ∧
        tailer.step config disk size = tailer.leave (disk.path.getD (0, 0)) := by
  obtain ⟨parts, held, divides, unended, holds⟩ := tracks
  rw [Holds, phase] at holds
  have goes : Tracks config shape origin before seen sent { tailer with phase := .matching } :=
    ⟨parts, held, divides.congr _ rfl rfl rfl rfl rfl rfl, unended, holds⟩
  simp only [step, phase, lookStep]
  split
  · next missing =>
    refine .inr ⟨fun there => ?_, by rw [missing, Option.getD_none]⟩
    rw [missing] at there
    exact nomatch there
  · next current there =>
    split
    · next gone =>
      refine .inr ⟨fun same => ?_, by rw [there, Option.getD_some]⟩
      obtain rfl : current = tailer.identity := Option.some.inj (there.symm.trans same)
      exact gone.resolve_left fun different => different rfl
    · next stays =>
      rw [not_or, not_not, Nat.not_lt] at stays
      obtain ⟨rfl, long⟩ := stays
      exact .inl ⟨there, long, rfl, goes⟩

/-- The source compares the tails: it goes on reading when they agree, fails when there is no
file behind the path, and leaves the file otherwise. -/
theorem Tracks.matches (tracks : tailer.Tracks config shape origin before seen sent)
    (phase : tailer.phase = .matching) (disk : Disk) (size : Nat) :
    ((∀ current, disk.path = some current →
          readFileTail (disk.content current) tailer.committed = tailer.tail) ∧
        (tailer.step config disk size).2 = [] ∧
        (tailer.step config disk size).1.Tracks config shape origin before seen sent) ∨
      (disk.path = none ∧
        tailer.step config disk size = ({ tailer with phase := .failed }, [])) ∨
      ∃ current, disk.path = some current ∧
        readFileTail (disk.content current) tailer.committed ≠ tailer.tail ∧
        tailer.step config disk size = tailer.leave tailer.identity := by
  obtain ⟨parts, held, divides, unended, holds⟩ := tracks
  rw [Holds, phase] at holds
  obtain ⟨pending, tail, short, empty⟩ := holds
  have goes : (tailer.again config).Tracks config shape origin before seen sent :=
    divides.again unended pending tail short
  simp only [step, phase, matchStep]
  split
  · next zero =>
    have nothing : tailer.tail = [] := by
      rw [tail, List.eq_nil_of_length_eq_zero (divides.committed.symm.trans zero)]
      exact List.rtake_nil _
    rw [if_pos nothing]
    refine .inl ⟨fun current _ => ?_, rfl, goes⟩
    rw [nothing, zero]
    simp [readFileTail]
  · split
    · next missing => exact .inr (.inl ⟨missing, rfl⟩)
    · next current there =>
      split
      · next agrees =>
        refine .inl ⟨fun other same => ?_, rfl, goes⟩
        rwa [← Option.some.inj (there.symm.trans same)]
      · next differs => exact .inr (.inr ⟨current, there, differs, rfl⟩)

/-! ### The opening -/

/-- The source opens the path and starts at the end of the bytes `before`. -/
theorem tracks_openStep {disk : Disk} {file : FileId} (path : disk.path = some file)
    {generation : Nat}
    (starts : tailer.startAt config file (disk.content file) =
      (before.length, generation, before.rtake fileTailBytes)) :
    (tailer.openStep config disk).Tracks config shape (file, generation) before before [] := by
  rw [openStep, path]
  simp only
  rw [starts]
  refine ⟨[], [], ⟨rfl, rfl, ?_, rfl, ?_, rfl, fun _ member => absurd member List.not_mem_nil⟩,
    List.not_mem_nil, rfl, ?_, ?_, ?_⟩
  · simp
  · simp
  · simp
  · exact length_add_remaining_le (Nat.zero_le _)
  · exact fun _ => ⟨remaining_ne_zero _ _, Nat.zero_le _⟩

theorem Tracks.phase_ne_opening (tracks : tailer.Tracks config shape origin before seen sent) :
    tailer.phase ≠ .opening := by
  obtain ⟨parts, held, -, -, holds⟩ := tracks
  intro phase
  rw [Holds, phase] at holds
  exact holds

end Tailer

/-- Opening the path makes the records so far earlier ones. -/
theorem TailWorld.tailed_opening {world : TailWorld} {config : TailConfig} {size : Nat}
    (phase : world.tailer.phase = .opening)
    (opens : (world.tailer.openStep config world.disk).phase ≠ .opening) :
    world.tailed config size =
      { world with
        tailer := world.tailer.openStep config world.disk
        sent := []
        earlier := world.records } := by
  simp only [TailWorld.tailed, Tailer.step, phase]
  rw [if_pos ⟨trivial, opens⟩]

theorem TailWorld.tailed_of_ne_opening {world : TailWorld} {config : TailConfig} {size : Nat}
    (phase : world.tailer.phase ≠ .opening) :
    world.tailed config size =
      { world with
        tailer := (world.tailer.step config world.disk size).1
        sent := world.sent ++ (world.tailer.step config world.disk size).2 } := by
  rw [TailWorld.tailed]
  exact if_neg fun both => phase both.1

end Bagel
