/-
This file develops the decoding of compressed header fields as RFC 7541 has it: a block is a
sequence of representations, each of which adds a field to the header list or changes the size of
the dynamic table. The indices of the dynamic table follow those of a static one, and the oldest
entries leave the table where it would grow beyond its size.

The coding of strings is given from outside, and so is the greatest number of octets that may
follow the prefix of an integer, if there is one.
-/

import Bagel.Library.Bytes
import Mathlib.Algebra.Order.Group.Nat

namespace HeaderCompression

/-! ### The dynamic table -/

structure Field where
  name : List UInt8
  value : List UInt8
  deriving DecidableEq

/-- The size of a field as an entry of the table. -/
def Field.size (field : Field) : Nat := field.name.length + field.value.length + 32

def totalSize (fields : List Field) : Nat := (fields.map Field.size).sum

/-- The entries, the newest first, and the size that they may have together. -/
structure Table where
  entries : List Field
  capacity : Nat

/-- The newest entries that have a size together of no more than the limit. -/
def keep : Nat → List Field → List Field
  | _, [] => []
  | limit, first :: rest =>
    if first.size ≤ limit then first :: keep (limit - first.size) rest else []

namespace Table

def resize (table : Table) (capacity : Nat) : Table := ⟨keep capacity table.entries, capacity⟩

/-- A new entry. One that is larger than the table empties it. -/
def insert (table : Table) (field : Field) : Table :=
  if table.capacity < field.size then ⟨[], table.capacity⟩
  else ⟨field :: keep (table.capacity - field.size) table.entries, table.capacity⟩

/-- The field at an index of the static table or, behind it, of the dynamic one. -/
def lookup (static : List Field) (table : Table) (index : Nat) : Option Field :=
  if index = 0 then none
  else
    match static[index - 1]? with
    | some field => some field
    | none => table.entries[index - 1 - static.length]?

end Table

/-! ### Integers and strings -/

/-- How strings and integers are coded. -/
structure Coding where
  huffman : List UInt8 → Option (List UInt8)
  octets : Option Nat

/-- The octets that follow a full prefix, seven bits each, the lowest first. -/
def integerTail : Option Nat → Nat → Nat → List UInt8 → Option (Nat × List UInt8)
  | _, _, _, [] => none
  | octets, value, shift, octet :: rest =>
    if octets = some 0 then none
    else
      let value := value + octet.toNat % 128 * 2 ^ shift
      if octet < 128 then some (value, rest)
      else integerTail (octets.map (· - 1)) value (shift + 7) rest

/-- An integer with a prefix of some bits. -/
def integer (octets : Option Nat) (bits : Nat) : List UInt8 → Option (Nat × List UInt8)
  | [] => none
  | octet :: rest =>
    let value := octet.toNat % 2 ^ bits
    if value < 2 ^ bits - 1 then some (value, rest) else integerTail octets value 0 rest

/-- A string, which the first bit says to be coded or not. -/
def string (coding : Coding) : List UInt8 → Option (List UInt8 × List UInt8)
  | [] => none
  | first :: later => do
    let (length, rest) ← integer coding.octets 7 (first :: later)
    if rest.length < length then none
    else if first < 128 then some (rest.take length, rest.drop length)
    else (coding.huffman (rest.take length)).map fun decoded => (decoded, rest.drop length)

/-! ### Representations -/

/-- The name of a literal field: that of another field, or one of its own. -/
inductive Name where
  | stored (index : Nat)
  | own (name : List UInt8)

inductive Representation where
  | indexed (index : Nat)
  | literal (indexing : Bool) (name : Name) (value : List UInt8)
  | sizeUpdate (capacity : Nat)

def readName (coding : Coding) (index : Nat) (input : List UInt8) :
    Option (Name × List UInt8) :=
  if index = 0 then (string coding input).map fun (name, rest) => (.own name, rest)
  else some (.stored index, input)

def readLiteral (coding : Coding) (bits : Nat) (indexing : Bool) (input : List UInt8) :
    Option (Representation × List UInt8) := do
  let (index, rest) ← integer coding.octets bits input
  let (name, rest) ← readName coding index rest
  let (value, rest) ← string coding rest
  return (.literal indexing name value, rest)

/-- The representation at the start of a block, which the bits at its start tell. -/
def read (coding : Coding) : List UInt8 → Option (Representation × List UInt8)
  | [] => none
  | first :: rest =>
    let block := first :: rest
    if 128 ≤ first then
      (integer coding.octets 7 block).map fun (index, rest) => (.indexed index, rest)
    else if 64 ≤ first then readLiteral coding 6 true block
    else if 32 ≤ first then
      (integer coding.octets 5 block).map fun (capacity, rest) => (.sizeUpdate capacity, rest)
    else readLiteral coding 4 false block

/-! ### Header lists -/

/-- What both sides have agreed on: the static table, and the greatest size of the dynamic one. -/
structure Setting where
  static : List Field
  maxCapacity : Nat

/-- The dynamic table and the fields so far. -/
structure State where
  table : Table
  fields : List Field

/-- The empty table of the greatest size. -/
def Setting.start (setting : Setting) : State := ⟨⟨[], setting.maxCapacity⟩, []⟩

/-- The name that is meant. -/
def Name.resolve (static : List Field) (table : Table) : Name → Option (List UInt8)
  | stored index => (table.lookup static index).map Field.name
  | own name => some name

namespace Representation

/-- The field that a representation stands for. -/
def field (static : List Field) (table : Table) : Representation → Option Field
  | indexed index => table.lookup static index
  | literal _ name value => (name.resolve static table).map fun name => ⟨name, value⟩
  | sizeUpdate _ => none

def indexing : Representation → Bool
  | literal indexing _ _ => indexing
  | _ => false

/-- What a representation does. The size of the table changes before the first field alone. -/
def apply (setting : Setting) (state : State) : Representation → Option State
  | sizeUpdate capacity =>
    if state.fields = [] ∧ capacity ≤ setting.maxCapacity then
      some { state with table := state.table.resize capacity }
    else none
  | representation =>
    (representation.field setting.static state.table).map fun field =>
      ⟨if representation.indexing then state.table.insert field else state.table,
        state.fields ++ [field]⟩

end Representation

/-- A block is decoded from one state to another. -/
inductive Decodes (coding : Coding) (setting : Setting) : State → List UInt8 → State → Prop where
  | done (state : State) : Decodes coding setting state [] state
  | more {state next last : State} {block rest : List UInt8} {representation : Representation}
      (reads : read coding block = some (representation, rest))
      (applies : representation.apply setting state = some next)
      (later : Decodes coding setting next rest last) : Decodes coding setting state block last

/-! ### The table keeps its size -/

@[simp] theorem totalSize_nil : totalSize [] = 0 := rfl

@[simp] theorem totalSize_cons (field : Field) (fields : List Field) :
    totalSize (field :: fields) = field.size + totalSize fields := by
  rw [totalSize, List.map_cons, List.sum_cons, totalSize]

@[simp] theorem totalSize_append (front back : List Field) :
    totalSize (front ++ back) = totalSize front + totalSize back := by
  rw [totalSize, List.map_append, List.sum_append, totalSize, totalSize]

theorem totalSize_keep_le (limit : Nat) (fields : List Field) :
    totalSize (keep limit fields) ≤ limit := by
  induction fields generalizing limit with
  | nil => exact Nat.zero_le _
  | cons first rest inductionHypothesis =>
    rw [keep]
    split
    · next fits =>
      have others := inductionHypothesis (limit - first.size)
      rw [totalSize_cons]
      omega
    · exact Nat.zero_le _

/-- Entries that fit all stay. -/
theorem keep_of_le {limit : Nat} {fields : List Field} (fits : totalSize fields ≤ limit) :
    keep limit fields = fields := by
  induction fields generalizing limit with
  | nil => rfl
  | cons first rest inductionHypothesis =>
    rw [totalSize_cons] at fits
    rw [keep, if_pos (by omega), inductionHypothesis (by omega)]

/-- Where not all entries fit, the oldest is one of those that leave. -/
theorem keep_concat {limit : Nat} {fields : List Field} {last : Field}
    (exceeds : limit < totalSize (fields ++ [last])) :
    keep limit (fields ++ [last]) = keep limit fields := by
  induction fields generalizing limit with
  | nil =>
    rw [List.nil_append, totalSize_cons, totalSize_nil] at exceeds
    have large : ¬last.size ≤ limit := by omega
    simp only [List.nil_append, keep, if_neg large]
  | cons first rest inductionHypothesis =>
    rw [List.cons_append, totalSize_cons] at exceeds
    rw [List.cons_append, keep, keep]
    split
    · rw [inductionHypothesis (by omega)]
    · rfl

/-- An entry has a size of at least 32. -/
theorem length_le_totalSize (fields : List Field) : 32 * fields.length ≤ totalSize fields := by
  induction fields with
  | nil => exact Nat.le_refl _
  | cons first rest inductionHypothesis =>
    rw [totalSize_cons, List.length_cons, Field.size]
    omega

namespace Table

/-- The entries are no larger than the table. -/
def Fits (table : Table) : Prop := totalSize table.entries ≤ table.capacity

theorem fits_resize (table : Table) (capacity : Nat) : (table.resize capacity).Fits :=
  totalSize_keep_le capacity table.entries

theorem fits_insert (table : Table) (field : Field) : (table.insert field).Fits := by
  unfold insert Fits
  split
  · exact Nat.zero_le _
  · have kept := totalSize_keep_le (table.capacity - field.size) table.entries
    rw [totalSize_cons]
    dsimp only
    omega

theorem capacity_insert (table : Table) (field : Field) :
    (table.insert field).capacity = table.capacity := by
  unfold insert
  split <;> rfl

/-- What is found has an index within the tables. -/
theorem index_le_of_lookup {static : List Field} {table : Table} {index : Nat} {field : Field}
    (found : table.lookup static index = some field) :
    index ≤ static.length + table.entries.length := by
  unfold lookup at found
  split at found
  · cases found
  · split at found
    · next inside =>
      have bound := (List.getElem?_eq_some_iff.mp inside).1
      omega
    · have bound := (List.getElem?_eq_some_iff.mp found).1
      omega

end Table

/-! ### Runs -/

variable {coding : Coding} {setting : Setting}

theorem Representation.apply_eq_of_field {state : State} {representation : Representation}
    {field : Field} (stands : representation.field setting.static state.table = some field) :
    representation.apply setting state =
      some ⟨if representation.indexing then state.table.insert field else state.table,
        state.fields ++ [field]⟩ := by
  cases representation with
  | sizeUpdate capacity => cases stands
  | indexed index | literal indexing name value =>
    exact Option.map_eq_some_iff.mpr ⟨field, stands, rfl⟩

theorem Representation.exists_field_of_apply {state next : State}
    {representation : Representation} (other : ∀ capacity, representation ≠ .sizeUpdate capacity)
    (applies : representation.apply setting state = some next) :
    ∃ field, representation.field setting.static state.table = some field := by
  cases representation with
  | sizeUpdate capacity => exact absurd rfl (other capacity)
  | indexed index | literal indexing name value =>
    obtain ⟨field, stands, -⟩ := Option.map_eq_some_iff.mp applies
    exact ⟨field, stands⟩

/-- A representation adds to the fields. -/
theorem Representation.apply_fields {state next : State} {representation : Representation}
    (applies : representation.apply setting state = some next) : state.fields <+: next.fields := by
  cases representation with
  | sizeUpdate capacity =>
    simp only [apply] at applies
    split at applies
    · cases applies
      exact List.prefix_refl _
    · cases applies
  | indexed index | literal indexing name value =>
    obtain ⟨field, -, rfl⟩ := Option.map_eq_some_iff.mp applies
    exact List.prefix_append _ _

theorem Decodes.fields {state last : State} {block : List UInt8}
    (decodes : Decodes coding setting state block last) : state.fields <+: last.fields := by
  induction decodes with
  | done state => exact List.prefix_refl _
  | more reads applies later inductionHypothesis =>
    exact (Representation.apply_fields applies).trans inductionHypothesis

/-! ### Lengths of integers -/

/-- The value grows with every octet. -/
theorem le_of_integerTail {octets : Option Nat} {value shift result : Nat}
    {input rest : List UInt8} (reads : integerTail octets value shift input = some (result, rest)) :
    value ≤ result := by
  induction input generalizing octets value shift with
  | nil => cases reads
  | cons octet later inductionHypothesis =>
    rw [integerTail] at reads
    split at reads
    · cases reads
    · dsimp only at reads
      split at reads
      · cases reads
        exact Nat.le_add_right _ _
      · exact (Nat.le_add_right _ _).trans (inductionHypothesis reads)

theorem length_lt_of_integerTail {octets : Option Nat} {value shift result : Nat}
    {input rest : List UInt8} (reads : integerTail octets value shift input = some (result, rest)) :
    rest.length < input.length := by
  induction input generalizing octets value shift with
  | nil => cases reads
  | cons octet later inductionHypothesis =>
    rw [integerTail] at reads
    split at reads
    · cases reads
    · dsimp only at reads
      split at reads
      · cases reads
        exact Nat.lt_succ_self _
      · exact (inductionHypothesis reads).trans (Nat.lt_succ_self _)

theorem length_lt_of_integer {octets : Option Nat} {bits result : Nat} {input rest : List UInt8}
    (reads : integer octets bits input = some (result, rest)) : rest.length < input.length := by
  cases input with
  | nil => cases reads
  | cons octet later =>
    simp only [integer] at reads
    split at reads
    · cases reads
      exact Nat.lt_succ_self _
    · exact (length_lt_of_integerTail reads).trans (Nat.lt_succ_self _)

theorem length_lt_of_string {bytes input rest : List UInt8}
    (reads : string coding input = some (bytes, rest)) : rest.length < input.length := by
  cases input with
  | nil => cases reads
  | cons first later =>
    obtain ⟨⟨length, left⟩, prefixed, reads⟩ := Option.bind_eq_some_iff.mp reads
    have less := length_lt_of_integer prefixed
    have dropped : rest = left.drop length := by
      dsimp only at reads
      split at reads
      · cases reads
      · split at reads
        · cases reads
          rfl
        · obtain ⟨decoded, -, same⟩ := Option.map_eq_some_iff.mp reads
          cases same
          rfl
    rw [dropped, List.length_drop]
    omega

theorem length_le_of_readName {index : Nat} {input rest : List UInt8} {name : Name}
    (reads : readName coding index input = some (name, rest)) : rest.length ≤ input.length := by
  unfold readName at reads
  split at reads
  · obtain ⟨⟨bytes, later⟩, own, same⟩ := Option.map_eq_some_iff.mp reads
    cases same
    exact (length_lt_of_string own).le
  · cases reads
    exact Nat.le_refl _

theorem eq_literal_of_readLiteral {bits : Nat} {indexing : Bool} {input rest : List UInt8}
    {representation : Representation}
    (reads : readLiteral coding bits indexing input = some (representation, rest)) :
    ∃ name value, representation = .literal indexing name value := by
  obtain ⟨index, -, reads⟩ := Option.bind_eq_some_iff.mp reads
  obtain ⟨name, -, reads⟩ := Option.bind_eq_some_iff.mp reads
  obtain ⟨value, -, reads⟩ := Option.bind_eq_some_iff.mp reads
  cases reads
  exact ⟨name.1, value.1, rfl⟩

end HeaderCompression
