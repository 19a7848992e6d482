/-
This file settles when the rotation of a followed log loses no line.

The writer appends whole lines to the file behind the path, and at times renames that
file and puts a new one in its place. The source keeps the renamed file open, and leaves
it when it has read its end and then finds another file behind the path. These are two
looks at a file that is still written to: a line that is appended between them is lost.
So is a file that is renamed again before the source has opened it. Nothing else is.
-/

import Bagel.FileRecords

namespace Bagel

open Lines

/-- The bytes end with a line. -/
def Whole (content : List UInt8) : Prop := content = [] ∨ content.getLast? = some newline

/-- The source is at the look at the path that makes it leave the open file. -/
def Tailer.Departs (tailer : Tailer) (disk : Disk) : Prop :=
  match tailer.phase with
  | .looking => disk.path ≠ some tailer.identity
  | .matching => ∃ current, disk.path = some current ∧
      readFileTail (disk.content current) tailer.committed ≠ tailer.tail
  | _ => False

theorem Whole.append {content line : List UInt8} (isLine : IsLine newline line) :
    Whole (content ++ line) :=
  .inr (getLast?_append_line content isLine)

namespace TailWorld

/-- The source has the file open. -/
def HasOpen (world : TailWorld) (file : FileId) : Prop :=
  world.tailer.phase ≠ .opening ∧ world.tailer.identity = file

/-- The records of one file. -/
def sentFor (world : TailWorld) (file : FileId) : List FileRecord :=
  world.records.filter fun record => record.identity = file

/-- Every file that is no longer behind the path, and that the source does not have open, has
had a record for each of its lines after those that were skipped. -/
def LosesNoLine (config : TailConfig) (skipped : FileId → List UInt8) (world : TailWorld) : Prop :=
  ∀ file content, world.disk.files file = some content → world.disk.path ≠ some file →
    ¬ world.HasOpen file → ∃ generation, world.sentFor file =
      lineRecords config (file, generation) (skipped file) (content.drop (skipped file).length)

/-- What the writer and the source do: lines are appended to the file behind the path, the file
is replaced by a new one, and the source goes on. -/
def Rotates (world : TailWorld) : TailAction → Prop
  | .append file bytes => world.disk.path = some file ∧ IsLine newline bytes
  | .rotate file => world.disk.files file = none
  | .tail _ => True
  | .rewrite _ _ => False
  | .restart _ => False

/-- Nothing was appended to the open file since its end was read when the source leaves it, and
a file is not replaced before the source has opened it, unless it is empty. -/
def KeepsUp (world : TailWorld) : TailAction → Prop
  | .tail _ => world.tailer.Departs world.disk →
      (world.disk.content world.tailer.identity).length ≤ world.tailer.position
  | .rotate _ => ∀ current, world.disk.path = some current →
      world.HasOpen current ∨ world.disk.content current = []
  | _ => True

/-- The source has just opened its first file. -/
def opened (config : TailConfig) (first : FileId) (content : List UInt8) : TailWorld :=
  (begin (Disk.lone first content)).act config (.tail 0)

/-- What the source does not read: the lines that were in its first file when it opened it, if it
starts at the end. -/
def skipped (config : TailConfig) (first : FileId) (content : List UInt8) (file : FileId) :
    List UInt8 :=
  if file = first ∧ config.start = .ending then content else []

/-! ### The invariant -/

/-- The source has left a file and is about to open the path. -/
def Leaving (world : TailWorld) : Prop :=
  world.tailer.phase = .opening ∧ world.tailer.initial = false ∧
    ∃ resume, world.tailer.resume = some resume ∧ resume.offset = 0 ∧ resume.tail = []

/-- The source reads a file, and all its records of it are since it was opened. -/
def Opened (config : TailConfig) (skipped : FileId → List UInt8) (world : TailWorld) : Prop :=
  ∃ generation seen content, world.disk.files world.tailer.identity = some content ∧
    seen <+: content ∧
    world.tailer.Tracks config (IsLine newline) (world.tailer.identity, generation)
      (skipped world.tailer.identity) seen world.sent ∧
    ∀ record ∈ world.earlier, record.identity ≠ world.tailer.identity

structure Rotating (config : TailConfig) (skipped : FileId → List UInt8) (world : TailWorld) :
    Prop where
  whole : ∀ file content, world.disk.files file = some content → Whole content
  path : ∃ current content, world.disk.path = some current ∧
    world.disk.files current = some content
  fresh : ∀ file, world.disk.files file = none → skipped file = [] ∧ world.sentFor file = []
  waiting : ∀ file, world.disk.path = some file → ¬ world.HasOpen file →
    skipped file = [] ∧ world.sentFor file = []
  done : world.LosesNoLine config skipped
  session : world.Leaving ∨ world.Opened config skipped

end TailWorld

/-! ### A file that was read to its end -/

namespace Tailer

variable {config : TailConfig} {shape : List UInt8 → Prop} {origin : FileId × Nat}
  {before seen content : List UInt8} {sent : List FileRecord} {tailer : Tailer}

theorem identity_of_mem_partRecords {file : FileId} {generation : Nat}
    {parts : List (List UInt8)} {record : FileRecord}
    (member : record ∈ partRecords config file generation before parts) :
    record.identity = file := by
  induction parts generalizing before with
  | nil => exact absurd member List.not_mem_nil
  | cons part rest inductionHypothesis =>
    rcases List.mem_cons.mp member with rfl | member
    · rfl
    · exact inductionHypothesis member

theorem Tracks.identity_of_mem (tracks : tailer.Tracks config shape origin before seen sent)
    {record : FileRecord} (member : record ∈ sent) : record.identity = origin.1 := by
  obtain ⟨parts, held, divides, -, -⟩ := tracks
  rw [divides.recorded] at member
  exact identity_of_mem_partRecords member

theorem Tracks.eq_of_length_le (tracks : tailer.Tracks config shape origin before seen sent)
    (front : seen <+: content) (ended : content.length ≤ tailer.position) : seen = content := by
  rw [tracks.position_eq] at ended
  exact front.eq_of_length_le ended

/-- When all bytes have been taken and they end with a line, nothing is held back. -/
theorem Tracks.nothing_held (tracks : tailer.Tracks config shape origin before seen sent)
    (empty : tailer.buffer = []) (whole : Whole seen) :
    tailer.pending = [] ∧ tailer.phase.isDraining = false := by
  obtain ⟨parts, held, divides, unended, holds⟩ := tracks
  have nothing : held = [] := by
    by_contra something
    have read := divides.read
    rw [empty, List.append_nil] at read
    rcases whole with none | line
    · rw [none] at read
      exact something (List.append_eq_nil_iff.mp read.symm).2
    · rw [read, List.getLast?_append_of_ne_nil _ something] at line
      exact unended (List.mem_of_getLast? line)
  subst nothing
  rw [Holds] at holds
  split at holds
  · next phase => exact ⟨holds.1, by rw [phase]; rfl⟩
  · exact absurd holds.2.2.2 (Nat.not_lt_zero _)
  · next phase => exact ⟨holds.1, by rw [phase]; rfl⟩
  · next phase => exact ⟨holds.1, by rw [phase]; rfl⟩
  · exact holds.elim
  · exact holds.elim

theorem Tracks.buffer_eq_nil (tracks : tailer.Tracks config shape origin before seen sent)
    (phase : tailer.phase = .looking ∨ tailer.phase = .matching) : tailer.buffer = [] := by
  obtain ⟨parts, held, -, -, holds⟩ := tracks
  rcases phase with phase | phase
  · rw [Holds, phase] at holds
    exact holds.2.2.2
  · rw [Holds, phase] at holds
    exact holds.2.2.2

theorem leave_of_pending_nil (pending : tailer.pending = []) (current : FileId) :
    tailer.leave current =
      ({ tailer with
        phase := .opening
        resume := some ⟨current, 0, saturatingAdd tailer.generation 1, []⟩ }, []) := by
  rw [leave]
  exact if_pos pending

/-- A source that has left a file starts the next one at its beginning. -/
theorem startAt_after_leave {resume : FileResume} (left : tailer.resume = some resume)
    (offset : resume.offset = 0) (tail : resume.tail = []) (initial : tailer.initial = false)
    (config : TailConfig) (file : FileId) (content : List UInt8) :
    ∃ generation, tailer.startAt config file content = (0, generation, []) := by
  have nothing : readFileTail content 0 = [] := by simp [readFileTail]
  simp only [startAt, left, offset, tail, initial, nothing]
  split
  · exact ⟨_, rfl⟩
  · exact ⟨_, rfl⟩

end Tailer

namespace TailWorld

variable {config : TailConfig} {skipped : FileId → List UInt8} {world : TailWorld}

/-! ### Writers -/

theorem content_of_files {disk : Disk} {file : FileId} {content : List UInt8}
    (there : disk.files file = some content) : disk.content file = content := by
  rw [Disk.content, there, Option.getD_some]

theorem files_write_self (disk : Disk) (file : FileId) (content : List UInt8) :
    (disk.write file content).files file = some content :=
  Function.update_self _ _ _

theorem files_write_of_ne (disk : Disk) {file other : FileId} (content : List UInt8)
    (different : other ≠ file) : (disk.write file content).files other = disk.files other :=
  Function.update_of_ne different _ _

theorem Rotating.append (rotating : world.Rotating config skipped) {file : FileId}
    {line : List UInt8} (path : world.disk.path = some file) (isLine : IsLine newline line) :
    (world.act config (.append file line)).Rotating config skipped := by
  obtain ⟨current, content, there, exists_⟩ := rotating.path
  obtain rfl : file = current := Option.some.inj (path.symm.trans there)
  have other : ∀ {other}, other ≠ file →
      (world.act config (.append file line)).disk.files other = world.disk.files other :=
    fun different => files_write_of_ne _ _ different
  have grown : (world.act config (.append file line)).disk.files file = some (content ++ line) := by
    show (world.disk.write file (world.disk.content file ++ line)).files file = _
    rw [files_write_self, content_of_files exists_]
  constructor
  · intro target bytes there
    by_cases same : target = file
    · subst same
      rw [grown] at there
      exact Option.some.inj there ▸ Whole.append isLine
    · exact rotating.whole target bytes (other same ▸ there)
  · exact ⟨file, content ++ line, path, grown⟩
  · intro target missing
    have different : target ≠ file := by
      rintro rfl
      rw [grown] at missing
      exact nomatch missing
    exact rotating.fresh target (other different ▸ missing)
  · exact rotating.waiting
  · intro target bytes there gone closed
    have different : target ≠ file := fun same => gone (same ▸ path)
    exact rotating.done target bytes (other different ▸ there) gone closed
  · rcases rotating.session with leaving | ⟨generation, seen, bytes, there, front, tracks, earlier⟩
    · exact .inl leaving
    · refine .inr ?_
      by_cases same : world.tailer.identity = file
      · have old : bytes = content := Option.some.inj (there.symm.trans (same ▸ exists_))
        refine ⟨generation, seen, content ++ line, same ▸ grown, ?_, tracks, earlier⟩
        exact (old ▸ front).trans (List.prefix_append _ _)
      · exact ⟨generation, seen, bytes, (other same).trans there, front, tracks, earlier⟩

theorem Rotating.rotate (rotating : world.Rotating config skipped) {file : FileId}
    (missing : world.disk.files file = none)
    (keepsUp : ∀ current, world.disk.path = some current →
      world.HasOpen current ∨ world.disk.content current = []) :
    (world.act config (.rotate file)).Rotating config skipped := by
  have other : ∀ {other}, other ≠ file →
      (world.act config (.rotate file)).disk.files other = world.disk.files other :=
    fun different => files_write_of_ne _ _ different
  have created : (world.act config (.rotate file)).disk.files file = some [] :=
    files_write_self _ _ _
  constructor
  · intro target bytes there
    by_cases same : target = file
    · subst same
      rw [created] at there
      exact .inl (Option.some.inj there).symm
    · exact rotating.whole target bytes (other same ▸ there)
  · exact ⟨file, [], rfl, created⟩
  · intro target gone
    have different : target ≠ file := by
      rintro rfl
      rw [created] at gone
      exact nomatch gone
    exact rotating.fresh target (other different ▸ gone)
  · intro target path _
    obtain rfl : file = target := Option.some.inj path
    exact rotating.fresh file missing
  · intro target bytes there gone closed
    have different : target ≠ file := fun same => gone (same ▸ rfl)
    have was : world.disk.files target = some bytes := other different ▸ there
    by_cases path : world.disk.path = some target
    · -- the file that is replaced was not opened, so it is empty
      obtain ⟨none, unsent⟩ := rotating.waiting target path closed
      have empty : bytes = [] := by
        rw [← content_of_files was]
        exact (keepsUp target path).resolve_left closed
      refine ⟨0, ?_⟩
      rw [none, empty]
      exact unsent
    · exact rotating.done target bytes was path closed
  · rcases rotating.session with leaving | ⟨generation, seen, bytes, there, front, tracks, earlier⟩
    · exact .inl leaving
    · have different : world.tailer.identity ≠ file := by
        intro same
        rw [same, missing] at there
        exact nomatch there
      exact .inr ⟨generation, seen, bytes, (other different).trans there, front, tracks, earlier⟩

/-! ### The source -/

theorem sentFor_eq_earlier {identity file : FileId}
    (own : ∀ record ∈ world.sent, record.identity = identity) (different : file ≠ identity) :
    world.sentFor file = world.earlier.filter fun record => record.identity = file := by
  rw [sentFor, records, List.filter_append]
  have none : (world.sent.filter fun record => record.identity = file) = [] := by
    rw [List.filter_eq_nil_iff]
    intro record member same
    exact different ((of_decide_eq_true same).symm.trans (own record member))
  rw [none, List.append_nil]

theorem sentFor_eq_sent {identity : FileId}
    (own : ∀ record ∈ world.sent, record.identity = identity)
    (earlier : ∀ record ∈ world.earlier, record.identity ≠ identity) :
    world.sentFor identity = world.sent := by
  rw [sentFor, records, List.filter_append]
  have none : (world.earlier.filter fun record => record.identity = identity) = [] := by
    rw [List.filter_eq_nil_iff]
    exact fun record member same => earlier record member (of_decide_eq_true same)
  rw [none, List.nil_append, List.filter_eq_self]
  exact fun record member => decide_eq_true (own record member)

/-- The path is opened after a file was left. -/
theorem Rotating.opens (rotating : world.Rotating config skipped) (leaving : world.Leaving)
    (size : Nat) : (world.act config (.tail size)).Rotating config skipped := by
  obtain ⟨phase, initial, resume, left, offset, tail⟩ := leaving
  obtain ⟨current, content, path, there⟩ := rotating.path
  have closed : ∀ file, ¬ world.HasOpen file := fun file opened => opened.1 phase
  obtain ⟨unskipped, unsent⟩ := rotating.waiting current path (closed current)
  obtain ⟨generation, starts⟩ := Tailer.startAt_after_leave left offset tail initial config
    current (world.disk.content current)
  have tracks : (world.tailer.openStep config world.disk).Tracks config (IsLine newline)
      (current, generation) [] [] [] :=
    Tailer.tracks_openStep path starts
  have identity : (world.tailer.openStep config world.disk).identity = current :=
    tracks.identity_eq
  rw [act, tailed_opening phase tracks.phase_ne_opening]
  have same : ∀ file, sentFor { world with
      tailer := world.tailer.openStep config world.disk
      sent := []
      earlier := world.records } file = world.sentFor file := by
    intro file
    simp [sentFor, records]
  refine ⟨rotating.whole, rotating.path, fun file missing => ?_, fun file behind shut => ?_,
    fun file bytes exists_ gone _ => ?_, .inr ?_⟩
  · rw [same]
    exact rotating.fresh file missing
  · obtain rfl : current = file := Option.some.inj (path.symm.trans behind)
    exact absurd ⟨tracks.phase_ne_opening, identity⟩ shut
  · rw [same]
    exact rotating.done file bytes exists_ gone (closed file)
  · refine ⟨generation, [], content, ?_, List.nil_prefix, ?_, fun record member same => ?_⟩
    · exact identity.symm ▸ there
    · show (world.tailer.openStep config world.disk).Tracks config (IsLine newline) _ _ [] []
      rw [identity, unskipped]
      exact tracks
    · have found : record ∈ world.sentFor current :=
        List.mem_filter.mpr ⟨member, decide_eq_true (same.trans identity)⟩
      rw [unsent] at found
      exact absurd found List.not_mem_nil

/-- The source stays at the open file. -/
theorem Rotating.stays (rotating : world.Rotating config skipped) {generation : Nat}
    {seen seen' content : List UInt8} {next : Tailer} {sent : List FileRecord}
    (there : world.disk.files world.tailer.identity = some content)
    (tracks : world.tailer.Tracks config (IsLine newline) (world.tailer.identity, generation)
      (skipped world.tailer.identity) seen world.sent)
    (earlier : ∀ record ∈ world.earlier, record.identity ≠ world.tailer.identity)
    (front : seen' <+: content)
    (goes : next.Tracks config (IsLine newline) (world.tailer.identity, generation)
      (skipped world.tailer.identity) seen' sent) :
    Rotating config skipped { world with tailer := next, sent := sent } := by
  have identity : next.identity = world.tailer.identity := goes.identity_eq
  have same : ∀ file, file ≠ world.tailer.identity →
      sentFor { world with tailer := next, sent := sent } file = world.sentFor file := by
    intro file different
    rw [sentFor_eq_earlier (fun _ member => tracks.identity_of_mem member) different]
    exact sentFor_eq_earlier (fun _ member => goes.identity_of_mem member) different
  have apart : ∀ file, ¬ HasOpen { world with tailer := next, sent := sent } file →
      file ≠ world.tailer.identity :=
    fun file shut equal => shut ⟨goes.phase_ne_opening, identity.trans equal.symm⟩
  refine ⟨rotating.whole, rotating.path, fun file missing => ?_, fun file behind shut => ?_,
    fun file bytes exists_ gone shut => ?_, .inr ?_⟩
  · have different : file ≠ world.tailer.identity := by
      rintro rfl
      rw [there] at missing
      exact nomatch missing
    rw [same file different]
    exact rotating.fresh file missing
  · rw [same file (apart file shut)]
    exact rotating.waiting file behind fun opened => apart file shut opened.2.symm
  · rw [same file (apart file shut)]
    exact rotating.done file bytes exists_ gone fun opened => apart file shut opened.2.symm
  · rw [← identity] at there goes earlier
    exact ⟨generation, seen', content, there, front, goes, earlier⟩

/-- The source leaves a file that it has read to its end. -/
theorem Rotating.leaves (rotating : world.Rotating config skipped) {generation : Nat}
    {seen content : List UInt8}
    (there : world.disk.files world.tailer.identity = some content) (front : seen <+: content)
    (tracks : world.tailer.Tracks config (IsLine newline) (world.tailer.identity, generation)
      (skipped world.tailer.identity) seen world.sent)
    (earlier : ∀ record ∈ world.earlier, record.identity ≠ world.tailer.identity)
    (phase : world.tailer.phase = .looking ∨ world.tailer.phase = .matching)
    (replaced : world.disk.path ≠ some world.tailer.identity)
    (ended : content.length ≤ world.tailer.position) (current : FileId) :
    Rotating config skipped
      { world with
        tailer := (world.tailer.leave current).1
        sent := world.sent ++ (world.tailer.leave current).2 } := by
  obtain rfl := tracks.eq_of_length_le front ended
  have empty := tracks.buffer_eq_nil phase
  have pending := (tracks.nothing_held empty (rotating.whole _ _ there)).1
  rw [Tailer.leave_of_pending_nil pending, List.append_nil]
  refine ⟨rotating.whole, rotating.path, rotating.fresh, fun file behind _ => ?_,
    fun file bytes exists_ gone _ => ?_, .inl ⟨rfl, tracks.initial_eq, _, rfl, rfl, rfl⟩⟩
  · exact rotating.waiting file behind fun opened => replaced (opened.2.symm ▸ behind)
  · by_cases same : file = world.tailer.identity
    · subst same
      obtain rfl : seen = bytes := Option.some.inj (there.symm.trans exists_)
      obtain ⟨later, records, all⟩ := tracks.lineRecords_eq []
      rw [List.append_nil, all empty rfl, List.append_nil] at records
      refine ⟨generation, ?_⟩
      rw [records]
      exact sentFor_eq_sent (fun _ member => tracks.identity_of_mem member) earlier
    · exact rotating.done file bytes exists_ gone fun opened => same opened.2.symm

/-- In a file of whole lines, the end is not within a line. -/
theorem Rotating.not_cutsShort (rotating : world.Rotating config skipped) {generation : Nat}
    {before seen content : List UInt8}
    (there : world.disk.files world.tailer.identity = some content) (front : seen <+: content)
    (tracks : world.tailer.Tracks config (IsLine newline) (world.tailer.identity, generation)
      before seen world.sent) : ¬ world.tailer.CutsShort content := by
  intro ⟨draining, empty, ended⟩
  obtain rfl := tracks.eq_of_length_le front ended
  rw [(tracks.nothing_held empty (rotating.whole _ _ there)).2] at draining
  exact nomatch draining

theorem Rotating.tails (rotating : world.Rotating config skipped) {size : Nat}
    (keepsUp : world.KeepsUp (.tail size)) :
    (world.act config (.tail size)).Rotating config skipped := by
  rcases rotating.session with leaving | ⟨generation, seen, content, there, front, tracks, earlier⟩
  · exact rotating.opens leaving size
  · have content_eq := content_of_files there
    rw [KeepsUp, content_eq] at keepsUp
    rw [act, tailed_of_ne_opening tracks.phase_ne_opening]
    rcases tracks.phase_cases with reading | looking | matching
    · obtain ⟨chunk, next, goes⟩ := tracks.reads reading (fun _ line => line) world.disk
        (fun cuts => absurd (content_eq ▸ cuts) (rotating.not_cutsShort there front tracks)) size
      rw [content_eq, tracks.position_eq] at next
      exact rotating.stays there tracks earlier (Tailer.prefix_append_chunk front next) goes
    · rcases tracks.looks looking world.disk size with ⟨-, -, same, goes⟩ | ⟨gone, leaves⟩
      · rw [same, List.append_nil]
        exact rotating.stays there tracks earlier front goes
      · have replaced : world.disk.path ≠ some world.tailer.identity := by
          intro behind
          have shorter := gone behind
          rw [content_eq] at shorter
          exact absurd (tracks.committed_tail front (.inl looking)).1 (Nat.not_le.mpr shorter)
        rw [leaves]
        refine rotating.leaves there front tracks earlier (.inl looking) replaced (keepsUp ?_) _
        rw [Tailer.Departs, looking]
        exact replaced
    · rcases tracks.matches matching world.disk size with ⟨-, none, goes⟩ | ⟨missing, -⟩ |
        ⟨current, behind, differs, leaves⟩
      · rw [none, List.append_nil]
        exact rotating.stays there tracks earlier front goes
      · obtain ⟨file, -, behind, -⟩ := rotating.path
        cases missing.symm.trans behind
      · have replaced : world.disk.path ≠ some world.tailer.identity := by
          intro own
          obtain rfl : current = _ := Option.some.inj (behind.symm.trans own)
          rw [content_eq] at differs
          exact differs (tracks.committed_tail front (.inr matching)).2
        rw [leaves]
        refine rotating.leaves there front tracks earlier (.inr matching) replaced (keepsUp ?_) _
        rw [Tailer.Departs, matching]
        exact ⟨current, behind, differs⟩

theorem Rotating.step (rotating : world.Rotating config skipped) {action : TailAction}
    (rotates : world.Rotates action) (keepsUp : world.KeepsUp action) :
    (world.act config action).Rotating config skipped := by
  cases action with
  | append file bytes => exact rotating.append rotates.1 rotates.2
  | rotate file => exact rotating.rotate rotates keepsUp
  | tail size => exact rotating.tails keepsUp
  | rewrite file content => exact rotates.elim
  | restart checkpoint => exact rotates.elim

/-- Where the first opening of a lone file begins to read. -/
theorem startAt_lone (config : TailConfig) (first : FileId) (content : List UInt8) :
    ∃ generation, (Tailer.start none).startAt config first
      ((Disk.lone first content).content first) =
        ((TailWorld.skipped config first content first).length, generation,
          (TailWorld.skipped config first content first).rtake fileTailBytes) := by
  rw [content_of_files (if_pos rfl : (Disk.lone first content).files first = some content)]
  simp only [Tailer.startAt, Tailer.start, Option.bind_none, Option.isNone_none,
    TailWorld.skipped]
  cases config.start with
  | beginning => exact ⟨1, rfl⟩
  | ending => exact ⟨0, by simp [readFileTail_eq]⟩

theorem rotating_opened {first : FileId} {content : List UInt8} (whole : Whole content) :
    (opened config first content).Rotating config (TailWorld.skipped config first content) := by
  have there : (Disk.lone first content).files first = some content := if_pos rfl
  have only : ∀ file, file ≠ first → (Disk.lone first content).files file = none :=
    fun file different => if_neg different
  have front : TailWorld.skipped config first content first <+: content := by
    rw [TailWorld.skipped]
    split
    · exact List.prefix_rfl
    · exact List.nil_prefix
  obtain ⟨generation, starts⟩ := startAt_lone config first content
  have tracks : ((Tailer.start none).openStep config (Disk.lone first content)).Tracks config
      (IsLine newline) (first, generation) (TailWorld.skipped config first content first)
      (TailWorld.skipped config first content first) [] :=
    Tailer.tracks_openStep rfl starts
  have identity :
      ((Tailer.start none).openStep config (Disk.lone first content)).identity = first :=
    tracks.identity_eq
  rw [opened, act, tailed_opening rfl tracks.phase_ne_opening]
  refine ⟨fun file bytes exists_ => ?_, ⟨first, content, rfl, there⟩, fun file missing => ?_,
    fun file behind shut => ?_, fun file bytes exists_ gone _ => ?_, .inr ?_⟩
  · by_cases same : file = first
    · subst same
      exact Option.some.inj (there.symm.trans exists_) ▸ whole
    · cases (only file same).symm.trans exists_
  · have different : file ≠ first := by
      rintro rfl
      cases there.symm.trans missing
    exact ⟨if_neg fun both => different both.1, rfl⟩
  · obtain rfl : first = file := Option.some.inj behind
    exact absurd ⟨tracks.phase_ne_opening, identity⟩ shut
  · by_cases same : file = first
    · exact absurd (same ▸ rfl) gone
    · cases (only file same).symm.trans exists_
  · refine ⟨generation, _, content, identity.symm ▸ there, front, ?_,
      fun _ member => absurd member List.not_mem_nil⟩
    show ((Tailer.start none).openStep config (Disk.lone first content)).Tracks config _
      (((Tailer.start none).openStep config (Disk.lone first content)).identity, _)
      (TailWorld.skipped config first content
        ((Tailer.start none).openStep config (Disk.lone first content)).identity) _ []
    rw [identity]
    exact tracks

/-- In every run in which nothing is appended to a renamed file between the read of its end and
the look that makes the source leave it, and no file is renamed before the source has opened it,
every line of a file is sent before the source opens another one. -/
theorem rotation_loses_no_line {first : FileId} {content : List UInt8} (whole : Whole content)
    (reaches : Machine.Reaches (act config)
      (fun world action => world.Rotates action ∧ world.KeepsUp action)
      (opened config first content) world) :
    world.LosesNoLine config (TailWorld.skipped config first content) := by
  have rotating : world.Rotating config (TailWorld.skipped config first content) :=
    reaches.preserves (rotating_opened whole) fun _ _ rotating allowed =>
      rotating.step allowed.1 allowed.2
  exact rotating.done

/-- A line is appended and the file renamed before the source reads on. It reads the line, then
the end of the file, and opens the new one. -/
def keptLine : List TailAction :=
  [.append (1, 7) [97, 10], .rotate (1, 8), .tail 9, .tail 9, .tail 9, .tail 9]

theorem rotation_loses_no_line_kept :
    let world := keptLine.foldl (act ⟨.beginning, 80⟩) (opened ⟨.beginning, 80⟩ (1, 7) [])
    world.tailer.identity = (1, 8) ∧
      world.sentFor (1, 7) = [⟨(1, 7), 1, 2, [97, 10], "a", false⟩] ∧
      world.LosesNoLine ⟨.beginning, 80⟩ (TailWorld.skipped ⟨.beginning, 80⟩ (1, 7) []) := by
  refine ⟨by decide, by decide, ?_⟩
  refine rotation_loses_no_line (.inl rfl) (Machine.reaches_of_along ?_)
  refine ⟨⟨⟨rfl, [97], rfl, by decide⟩, trivial⟩, ⟨rfl, ?_⟩, ⟨trivial, ?_⟩, ⟨trivial, ?_⟩,
    ⟨trivial, ?_⟩, ⟨trivial, ?_⟩, trivial⟩
  · intro current behind
    obtain rfl : (1, 7) = current := Option.some.inj behind
    exact .inl ⟨by decide, by decide⟩
  · exact fun departs => departs.elim
  · exact fun departs => departs.elim
  · exact fun _ => by decide
  · exact fun departs => departs.elim

/-- The line is appended after the end of the file was read. -/
def lostLine : List TailAction :=
  [.tail 9, .append (1, 7) [97, 10], .rotate (1, 8), .tail 9]

/-- A line that is appended between the read of the end and the look at the path is not sent. -/
theorem line_lost_at_rotation :
    ∃ world, Machine.Reaches (act ⟨.beginning, 80⟩) (fun world action => world.Rotates action)
        (opened ⟨.beginning, 80⟩ (1, 7) []) world ∧
      world.disk.content (1, 7) = [97, 10] ∧ world.tailer.phase = .opening ∧
      world.sentFor (1, 7) = [] ∧
      ¬ world.LosesNoLine ⟨.beginning, 80⟩ (TailWorld.skipped ⟨.beginning, 80⟩ (1, 7) []) := by
  refine ⟨lostLine.foldl (act ⟨.beginning, 80⟩) (opened ⟨.beginning, 80⟩ (1, 7) []), ?_,
    by decide, by decide, by decide, ?_⟩
  · refine Machine.reaches_of_along ?_
    exact ⟨trivial, ⟨rfl, [97], rfl, by decide⟩, rfl, trivial, trivial⟩
  · intro lossless
    obtain ⟨generation, records⟩ := lossless (1, 7) [97, 10] (by decide) (by decide)
      fun opened => opened.1 (by decide)
    exact nomatch records

end TailWorld

end Bagel
