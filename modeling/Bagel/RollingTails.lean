/-
This file proves that the rolling tail of a file holds exactly the last bytes that were
read, whatever the pieces were in which they were read.

The source keeps the tail to compare it with the bytes on disk later. The bytes come from
whole lines, and, in the middle of a line that is too long, from the buffers that
`drain_line` finds one after the other. The reader under the buffer may answer with any
number of bytes each time, with the end of the file or with a failure.
-/

import Bagel.TailerSteps

namespace Bagel

open Lines

/-! ### Chunks -/

/-- What was read in chunks leaves the tail of all of it. -/
theorem foldl_pushTail (before : List UInt8) (chunks : List (List UInt8)) :
    chunks.foldl pushTail (before.rtake fileTailBytes) =
      (before ++ chunks.flatten).rtake fileTailBytes := by
  induction chunks generalizing before with
  | nil => rw [List.foldl_nil, List.flatten_nil, List.append_nil]
  | cons chunk chunks inductionHypothesis =>
    rw [List.foldl_cons, pushTail_rtake, inductionHypothesis, List.flatten_cons, List.append_assoc]

/-- The tail is the end of the bytes, and has as many of them as it can. -/
theorem rtake_isTail (bytes : List UInt8) :
    bytes.rtake fileTailBytes <:+ bytes ∧
      (bytes.rtake fileTailBytes).length = min fileTailBytes bytes.length := by
  refine ⟨List.drop_suffix _ _, ?_⟩
  rw [List.rtake, List.length_drop]
  omega

/-! ### Buffered readers -/

/-- A buffered reader: the bytes in its buffer, and what the reader under it answers next. No
bytes are the end of the file, also after the last answer. -/
structure BufReader (Failure : Type) where
  buffer : List UInt8
  answers : List (Except Failure (List UInt8))

namespace BufReader

variable {Failure : Type}

def fillBuf : BufReader Failure → Except Failure Unit × BufReader Failure
  | ⟨[], []⟩ => (.ok (), ⟨[], []⟩)
  | ⟨[], .ok bytes :: later⟩ => (.ok (), ⟨bytes, later⟩)
  | ⟨[], .error failure :: later⟩ => (.error failure, ⟨[], later⟩)
  | ⟨byte :: buffer, answers⟩ => (.ok (), ⟨byte :: buffer, answers⟩)

def consume (reader : BufReader Failure) (amount : Nat) : BufReader Failure :=
  { reader with buffer := reader.buffer.drop amount }

/-- The bytes before the end of the file or a failure. -/
def available : List (Except Failure (List UInt8)) → List UInt8
  | .ok (byte :: bytes) :: later => byte :: bytes ++ available later
  | _ => []

/-- What can be read before the end. -/
def content (reader : BufReader Failure) : List UInt8 := reader.buffer ++ available reader.answers

def answered : Except Failure (List UInt8) → List UInt8
  | .ok bytes => bytes
  | .error _ => []

/-- All bytes that are not consumed yet, also those after an end of the file. -/
def unread (reader : BufReader Failure) : List UInt8 :=
  reader.buffer ++ (reader.answers.map answered).flatten

/-- How often a loop that consumes whole buffers can go on. -/
def rounds (reader : BufReader Failure) : Nat :=
  reader.answers.length + if reader.buffer = [] then 0 else 1

theorem unread_consume (reader : BufReader Failure) (amount : Nat) :
    reader.unread = reader.buffer.take amount ++ (reader.consume amount).unread := by
  rw [unread, unread, consume, ← List.append_assoc, List.take_append_drop]

theorem content_consume_all (reader : BufReader Failure) :
    (reader.consume reader.buffer.length).content = available reader.answers := by
  rw [content, consume, List.drop_length, List.nil_append]

theorem unread_fillBuf (reader : BufReader Failure) : reader.fillBuf.2.unread = reader.unread := by
  obtain ⟨buffer, answers⟩ := reader
  cases buffer with
  | cons byte buffer => rfl
  | nil =>
    cases answers with
    | nil => rfl
    | cons answer later =>
      cases answer with
      | ok bytes => rfl
      | error failure => rfl

theorem answers_fillBuf (reader : BufReader Failure) :
    reader.fillBuf.2.answers <:+ reader.answers := by
  obtain ⟨buffer, answers⟩ := reader
  cases buffer with
  | cons byte buffer => exact List.suffix_rfl
  | nil =>
    cases answers with
    | nil => exact List.suffix_rfl
    | cons answer later =>
      cases answer with
      | ok bytes => exact List.suffix_cons _ _
      | error failure => exact List.suffix_cons _ _

/-- Filling fails when the next answer is a failure. -/
theorem fillBuf_error {reader : BufReader Failure} {failure : Failure}
    (failed : reader.fillBuf.1 = .error failure) :
    .error failure ∈ reader.answers ∧ reader.content = [] := by
  obtain ⟨buffer, answers⟩ := reader
  cases buffer with
  | cons byte buffer => cases failed
  | nil =>
    cases answers with
    | nil => cases failed
    | cons answer later =>
      cases answer with
      | ok bytes => cases failed
      | error other =>
        cases failed
        exact ⟨List.mem_cons_self, rfl⟩

/-- A filled buffer is empty at the end of the file. -/
theorem content_of_drained {reader : BufReader Failure} (filled : reader.fillBuf.1 = .ok ())
    (drained : reader.fillBuf.2.buffer = []) : reader.content = [] := by
  obtain ⟨buffer, answers⟩ := reader
  cases buffer with
  | cons byte buffer => cases drained
  | nil =>
    cases answers with
    | nil => rfl
    | cons answer later =>
      cases answer with
      | ok bytes =>
        cases bytes with
        | nil => rfl
        | cons byte bytes => cases drained
      | error failure => cases filled

/-- Bytes in the filled buffer are the first of the content. -/
theorem content_fillBuf {reader : BufReader Failure} (filled : reader.fillBuf.1 = .ok ())
    (nonempty : reader.fillBuf.2.buffer ≠ []) :
    reader.fillBuf.2.content = reader.content ∧
      reader.fillBuf.2.answers.length < reader.rounds := by
  obtain ⟨buffer, answers⟩ := reader
  cases buffer with
  | cons byte buffer => exact ⟨rfl, Nat.lt_succ_self _⟩
  | nil =>
    cases answers with
    | nil => exact absurd rfl nonempty
    | cons answer later =>
      cases answer with
      | error failure => cases filled
      | ok bytes =>
        cases bytes with
        | nil => exact absurd rfl nonempty
        | cons byte bytes => exact ⟨rfl, Nat.lt_succ_self _⟩

end BufReader

/-! ### The rest of a line -/

/-- How many bytes of a buffer belong to the line. -/
def lineLength (buffer : List UInt8) : Nat :=
  match buffer.findIdx? (· == newline) with
  | some index => index + 1
  | none => buffer.length

/-- The loop of `drain_line` stops after this buffer. -/
def lineStops (buffer : List UInt8) : Bool :=
  let length := lineLength buffer
  let ended := buffer[length - 1]? = some newline
  let exhausted := length = buffer.length
  ¬ exhausted ∨ ended

theorem lineLength_eq (buffer : List UInt8) : lineLength buffer = (upTo newline buffer).length := by
  induction buffer with
  | nil => rfl
  | cons byte buffer inductionHypothesis =>
    rw [lineLength, List.findIdx?_cons, upTo]
    by_cases same : byte = newline
    · rw [if_pos (beq_iff_eq.mpr same), if_pos same]
      rfl
    · rw [if_neg (by rwa [beq_iff_eq]), if_neg same, List.length_cons, List.length_cons,
        ← inductionHypothesis, lineLength]
      cases buffer.findIdx? (· == newline) with
      | none => rfl
      | some index => rfl

theorem take_lineLength (buffer : List UInt8) :
    buffer.take (lineLength buffer) = upTo newline buffer := by
  rw [lineLength_eq]
  exact (List.prefix_iff_eq_take.mp (isPrefix_upTo buffer)).symm

/-- The loop goes on exactly when the buffer has no newline. -/
theorem lineStops_iff (buffer : List UInt8) : lineStops buffer = true ↔ newline ∈ buffer := by
  rw [lineStops, decide_eq_true_iff, lineLength_eq]
  constructor
  · intro stops
    by_contra without
    rw [upTo_of_notMem without] at stops
    rcases stops with short | ended
    · exact short rfl
    · exact without (List.mem_of_getElem? ended)
  · intro marked
    by_cases exhausted : (upTo newline buffer).length = buffer.length
    · right
      have whole : upTo newline buffer = buffer :=
        (isPrefix_upTo buffer).eq_of_length exhausted
      have last := (isLine_upTo marked).getLast?
      rw [List.getLast?_eq_getElem?] at last
      rw [whole] at last ⊢
      exact last
    · exact .inl exhausted

/-- What `drain_line` returns and leaves behind. -/
structure Drained (Failure : Type) where
  result : Except Failure Nat
  reader : BufReader Failure
  tail : Option (List UInt8)

section

variable {Failure : Type}

/-- The loop of `drain_line`, with the bytes counted so far. -/
def drainFrom (reader : BufReader Failure) (tail : Option (List UInt8)) (total : Nat) :
    Drained Failure :=
  match _filled : reader.fillBuf.1 with
  | .error failure => ⟨.error failure, reader.fillBuf.2, tail⟩
  | .ok () =>
    if _drained : reader.fillBuf.2.buffer = [] then ⟨.ok total, reader.fillBuf.2, tail⟩
    else
      let buffer := reader.fillBuf.2.buffer
      let length := lineLength buffer
      let tail := tail.map fun tail => pushTail tail (buffer.take length)
      let rest := reader.fillBuf.2.consume length
      let total := saturatingAdd total length
      if _stops : lineStops buffer = true then ⟨.ok total, rest, tail⟩
      else drainFrom rest tail total
termination_by reader.rounds
decreasing_by
  have without : newline ∉ reader.fillBuf.2.buffer := fun marked =>
    _stops ((lineStops_iff _).mpr marked)
  have exhausted : lineLength reader.fillBuf.2.buffer = reader.fillBuf.2.buffer.length := by
    rw [lineLength_eq, upTo_of_notMem without]
  refine lt_of_eq_of_lt ?_ (BufReader.content_fillBuf _filled _drained).2
  simp [BufReader.rounds, BufReader.consume, exhausted]

/-- Read the rest of a line, into the tail when there is one. -/
def drainLine (reader : BufReader Failure) (tail : Option (List UInt8)) : Drained Failure :=
  drainFrom reader tail 0

theorem saturatingAdd_saturatingAdd (total first second : Nat) :
    saturatingAdd (saturatingAdd total first) second = saturatingAdd total (first + second) := by
  simp only [saturatingAdd]
  omega

/-- The loop takes the line off the reader piece by piece, and fails only where the reader does
before the line has ended. -/
theorem drainFrom_spec (reader : BufReader Failure) (tail : Option (List UInt8)) {total : Nat}
    (bounded : total ≤ u64Max) :
    ∃ pieces : List (List UInt8),
      pieces.flatten = upTo newline reader.content ∧
      reader.unread = pieces.flatten ++ (drainFrom reader tail total).reader.unread ∧
      (drainFrom reader tail total).tail = tail.map (fun tail => pieces.foldl pushTail tail) ∧
      match (drainFrom reader tail total).result with
      | .ok reported => reported = saturatingAdd total pieces.flatten.length
      | .error failure => .error failure ∈ reader.answers ∧ newline ∉ reader.content := by
  fun_induction drainFrom reader tail total with
  | case1 reader tail total failure failed =>
    obtain ⟨answered, nothing⟩ := BufReader.fillBuf_error failed
    refine ⟨[], ?_, reader.unread_fillBuf.symm, Option.map_id.symm ▸ rfl, answered, ?_⟩
    · rw [nothing]
      rfl
    · rw [nothing]
      exact List.not_mem_nil
  | case2 reader tail total filled drained =>
    have nothing := BufReader.content_of_drained filled drained
    refine ⟨[], ?_, reader.unread_fillBuf.symm, Option.map_id.symm ▸ rfl, ?_⟩
    · rw [nothing]
      rfl
    · exact (Nat.min_eq_left bounded).symm
  | case3 reader tail total filled nonempty buffer length tail' rest total' stops =>
    have marked : newline ∈ buffer := (lineStops_iff buffer).mp stops
    have content : reader.content = buffer ++ BufReader.available reader.fillBuf.2.answers :=
      (BufReader.content_fillBuf filled nonempty).1.symm
    refine ⟨[buffer.take length], ?_, ?_, rfl, ?_⟩
    · rw [content, upTo_append_of_mem marked, List.flatten_singleton, take_lineLength]
    · rw [← reader.unread_fillBuf, List.flatten_singleton]
      exact reader.fillBuf.2.unread_consume length
    · rw [List.flatten_singleton, take_lineLength, ← lineLength_eq]
  | case4 reader tail total filled nonempty buffer length tail' rest total' goesOn
      inductionHypothesis =>
    have unmarked : newline ∉ buffer := fun marked => goesOn ((lineStops_iff buffer).mpr marked)
    have content : reader.content = buffer ++ BufReader.available reader.fillBuf.2.answers :=
      (BufReader.content_fillBuf filled nonempty).1.symm
    have whole : length = buffer.length := by
      rw [← congrArg List.length (upTo_of_notMem unmarked), ← lineLength_eq]
    have piece : buffer.take length = buffer := by rw [whole, List.take_length]
    have later : rest.content = BufReader.available reader.fillBuf.2.answers := by
      rw [← BufReader.content_consume_all, ← whole]
    obtain ⟨pieces, line, consumed, tails, result⟩ := inductionHypothesis (Nat.min_le_right _ _)
    refine ⟨buffer :: pieces, ?_, ?_, ?_, ?_⟩
    · rw [content, upTo_append_of_notMem unmarked, List.flatten_cons, line, later]
    · rw [← reader.unread_fillBuf, reader.fillBuf.2.unread_consume length, consumed,
        List.flatten_cons, List.append_assoc]
      exact congrArg (· ++ _) piece
    · rw [tails]
      cases tail with
      | none => rfl
      | some tail =>
        exact congrArg (fun bytes => some (pieces.foldl pushTail (pushTail tail bytes))) piece
    · split at result
      · next reported ends =>
        rw [result, saturatingAdd_saturatingAdd, List.flatten_cons, List.length_append, whole]
      · next failure ends =>
        obtain ⟨answered, unended⟩ := result
        refine ⟨reader.answers_fillBuf.subset answered, ?_⟩
        rw [content, List.mem_append, not_or, ← later]
        exact ⟨unmarked, unended⟩

/-- The rolling tail holds the last bytes of everything that was read, also when it started from
the tail on disk of the bytes before. Reading the rest of a line takes it, and nothing else, off
the reader, counts its bytes in a `u64`, and leaves the tail of the bytes up to there. -/
theorem rollingTail_exact :
    (∀ chunks : List (List UInt8),
      chunks.foldl pushTail [] = chunks.flatten.rtake fileTailBytes) ∧
    (∀ (before after : List UInt8) (chunks : List (List UInt8)),
      chunks.foldl pushTail (before.rtake fileTailBytes) =
          (before ++ chunks.flatten).rtake fileTailBytes ∧
        readFileTail (before ++ after) before.length = before.rtake fileTailBytes) ∧
    (∀ bytes : List UInt8, bytes.rtake fileTailBytes <:+ bytes ∧
      (bytes.rtake fileTailBytes).length = min fileTailBytes bytes.length) ∧
    ∀ reader : BufReader Failure,
      let line := upTo newline reader.content
      (∀ tail : Option (List UInt8),
        reader.unread = line ++ (drainLine reader tail).reader.unread ∧
          match (drainLine reader tail).result with
          | .ok reported => reported = min line.length u64Max
          | .error failure => .error failure ∈ reader.answers ∧ newline ∉ reader.content) ∧
      ∀ before : List UInt8,
        (drainLine reader (some (before.rtake fileTailBytes))).tail =
          some ((before ++ line).rtake fileTailBytes) := by
  refine ⟨foldl_pushTail [], fun before after chunks => ⟨foldl_pushTail before chunks, ?_⟩,
    rtake_isTail, fun reader => ⟨fun tail => ?_, fun before => ?_⟩⟩
  · have inside : before.length ≤ (before ++ after).length := by
      rw [List.length_append]
      exact Nat.le_add_right _ _
    rw [readFileTail_eq inside, List.take_left]
  · obtain ⟨pieces, line, consumed, -, result⟩ := drainFrom_spec reader tail (Nat.zero_le u64Max)
    rw [line] at consumed result
    refine ⟨consumed, ?_⟩
    rw [saturatingAdd, Nat.zero_add] at result
    exact result
  · obtain ⟨pieces, line, -, tails, -⟩ :=
      drainFrom_spec reader (some (before.rtake fileTailBytes)) (Nat.zero_le u64Max)
    rw [drainLine, tails, Option.map_some, foldl_pushTail, line]

/-! ### The rounds of the file source -/

/-- One access of the file source within `drain_line` is one round of the loop. -/
theorem drainStep_eq_round (tailer : Tailer) (config : TailConfig) (content : List UInt8)
    (size consumed : Nat) :
    tailer.drainStep config content size consumed =
      let filled := tailer.fillBuf content size
      let length := lineLength filled.buffer
      let rest :=
        { filled with
          tail := pushTail filled.tail (filled.buffer.take length)
          buffer := filled.buffer.drop length }
      if filled.buffer = [] then filled.finishOversized config consumed
      else if lineStops filled.buffer = true then
        rest.finishOversized config (consumed + length)
      else ({ rest with phase := .draining (consumed + length) }, []) := by
  have stops : ∀ buffer : List UInt8,
      (¬ (upTo newline buffer).length = buffer.length ∨ newline ∈ buffer) ↔ newline ∈ buffer := by
    refine fun buffer => ⟨fun stops => ?_, .inr⟩
    by_contra without
    rw [upTo_of_notMem without] at stops
    exact stops.elim (fun short => short rfl) without
  have takes : ∀ buffer : List UInt8,
      buffer.take (upTo newline buffer).length = upTo newline buffer :=
    fun buffer => (List.prefix_iff_eq_take.mp (isPrefix_upTo buffer)).symm
  simp only [Tailer.drainStep, lineStops_iff, lineLength_eq, stops, takes]

end

end Bagel
