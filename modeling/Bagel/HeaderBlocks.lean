/-
This file relates the reader of pseudo headers to the decoding of header blocks as the RFC has it.

The reader keeps the names and sizes of entries where the RFC keeps fields (`Holds`), and evicts
entries one by one where the RFC keeps the newest that fit (`evictTo_eq`). A pass of its loop is a
representation that is read and applied, and the fields after it stay within the limits
(`exists_of_pass`, `pass_of_read`). By induction over the passes the reader accepts exactly the
blocks that decode within the limits (`tryFrom_eq_ok_iff`).
-/

import Bagel.Hpack
import Bagel.Library.HeaderCompression
import Bagel.Library.Transaction

namespace Bagel

namespace Hpack

open HeaderCompression (Field Coding Setting State Name totalSize)

/-! ### Integers -/

theorem toNat_and_low (byte : UInt8) : (byte &&& 0x7F).toNat = byte.toNat % 128 := by
  induction byte using Bytes.forall_of_values with
  | every value =>
    revert value
    decide +kernel

theorem and_high_eq_zero_iff (byte : UInt8) : byte &&& 0x80 = 0 ↔ byte < 128 := by
  induction byte using Bytes.forall_of_values with
  | every value =>
    revert value
    decide +kernel

/-- The octets behind a prefix of which the reader takes account. -/
def maxOctets : Nat := 10

/-- The checks for 64 bits come to a limit on the octets and one on the value. -/
theorem integerTail_eq_ok_iff {bytes rest : List UInt8} {value count result : Nat} :
    integerTail value (7 * count) bytes = .ok (result, rest) ↔
      HeaderCompression.integerTail (some (maxOctets - count)) value (7 * count) bytes =
        some (result, rest) ∧ result < 2 ^ 64 := by
  induction bytes generalizing value count with
  | nil => exact ⟨fun read => (by cases read), fun read => (by cases read.1)⟩
  | cons byte later inductionHypothesis =>
    rw [integerTail, HeaderCompression.integerTail, toNat_and_low]
    generalize byte.toNat % 128 * 2 ^ (7 * count) = part
    by_cases many : maxOctets ≤ count
    · have none : maxOctets - count = 0 := Nat.sub_eq_zero_of_le many
      have long : 64 ≤ 7 * count := by
        unfold maxOctets at many
        omega
      rw [none, if_pos rfl, if_pos (Or.inl long)]
      exact ⟨fun read => (by cases read), fun read => (by cases read.1)⟩
    · have some : some (maxOctets - count) ≠ some 0 := by
        intro same
        have zero := Option.some.inj same
        omega
      have short : ¬64 ≤ 7 * count := by
        unfold maxOctets at many
        omega
      rw [if_neg some]
      by_cases large : 2 ^ 64 ≤ value + part
      · rw [if_pos (Or.inr (Or.inr large))]
        refine ⟨fun read => (by cases read), ?_⟩
        rintro ⟨read, small⟩
        have least : value + part ≤ result := by
          dsimp only at read
          split at read
          · cases read
            exact Nat.le_refl _
          · exact HeaderCompression.le_of_integerTail read
        omega
      · rw [if_neg (by omega)]
        dsimp only
        by_cases last : byte < 128
        · rw [if_pos ((and_high_eq_zero_iff byte).mpr last), if_pos last]
          constructor
          · rintro ⟨⟩
            exact ⟨rfl, Nat.lt_of_not_le large⟩
          · rintro ⟨⟨⟩, -⟩
            rfl
        · rw [if_neg fun zero => last ((and_high_eq_zero_iff byte).mp zero), if_neg last]
          have next := @inductionHypothesis (value + part) (count + 1)
          rw [Nat.mul_succ] at next
          exact next

theorem integer_eq_ok_iff (bits : Nat) (few : bits ≤ 7) {remaining rest : List UInt8}
    {value : Nat} : integer (2 ^ bits - 1) remaining = .ok (value, rest) ↔
      HeaderCompression.integer (some maxOctets) bits remaining = some (value, rest) ∧
        value < 2 ^ 64 := by
  cases remaining with
  | nil => exact ⟨fun read => (by cases read), fun read => (by cases read.1)⟩
  | cons byte later =>
    have first : integer (2 ^ bits - 1) (byte :: later) =
        if byte.toNat % 2 ^ bits < 2 ^ bits - 1 then .ok (byte.toNat % 2 ^ bits, later)
        else integerTail (byte.toNat % 2 ^ bits) 0 later := by
      rw [← Nat.and_two_pow_sub_one_eq_mod]
      rfl
    rw [first, HeaderCompression.integer]
    split
    · next short =>
      have small : 2 ^ bits ≤ 2 ^ 7 := Nat.pow_le_pow_right (by decide) few
      constructor
      · rintro ⟨⟩
        exact ⟨rfl, by omega⟩
      · rintro ⟨⟨⟩, -⟩
        rfl
    · exact @integerTail_eq_ok_iff later rest (byte.toNat % 2 ^ bits) 0 value

/-! ### Strings -/

/-- How the reader takes strings and integers. -/
def coding (huffman : List UInt8 → Option (List UInt8)) : Coding := ⟨huffman, some maxOctets⟩

variable {huffman : List UInt8 → Option (List UInt8)}

/-- The first bit tells whether the text behind the length is coded. -/
theorem text_eq_ok_iff {first : UInt8} {raw bytes left rest : List UInt8} :
    ((if first &&& 0x80 = 0 then .ok (raw, left)
      else
        match huffman raw with
        | some decoded => .ok (decoded, left)
        | none => .error .invalid) : Except CaptureError _) = .ok (bytes, rest) ↔
      (if first < 128 then some (raw, left)
        else (huffman raw).map fun decoded => (decoded, left)) = some (bytes, rest) := by
  by_cases plain : first < 128
  · rw [if_pos plain, if_pos ((and_high_eq_zero_iff first).mpr plain), Except.ok.injEq,
      Option.some.injEq]
  · rw [if_neg plain, if_neg fun zero => plain ((and_high_eq_zero_iff first).mp zero)]
    cases huffman raw with
    | none => exact ⟨fun same => (by cases same), fun same => (by cases same)⟩
    | some decoded => rw [Except.ok.injEq, Option.map_some, Option.some.injEq]

theorem string_eq_ok_iff {remaining bytes rest : List UInt8} (short : remaining.length < 2 ^ 64) :
    string huffman remaining = .ok (bytes, rest) ↔
      HeaderCompression.string (coding huffman) remaining = some (bytes, rest) := by
  cases remaining with
  | nil => exact ⟨fun read => (by cases read), fun read => (by cases read)⟩
  | cons first later =>
    unfold string HeaderCompression.string
    dsimp only
    rw [Transaction.bind_eq_ok_iff]
    refine Iff.trans ?_ Option.bind_eq_some_iff.symm
    constructor
    · rintro ⟨⟨length, left⟩, prefixed, read⟩
      refine ⟨(length, left), ((integer_eq_ok_iff 7 (by decide)).mp prefixed).1, ?_⟩
      obtain ⟨⟨raw, after⟩, taken, read⟩ := Transaction.bind_eq_ok_iff.mp read
      unfold Cursor.take at taken
      split at taken
      · next enough =>
        cases taken
        dsimp only
        rw [if_neg (Nat.not_lt.mpr enough)]
        exact text_eq_ok_iff.mp read
      · cases taken
    · rintro ⟨⟨length, left⟩, prefixed, read⟩
      have less := HeaderCompression.length_lt_of_integer prefixed
      dsimp only at read
      split at read
      · cases read
      · next enough =>
        have fits : length ≤ left.length := Nat.le_of_not_lt enough
        refine ⟨(length, left), (integer_eq_ok_iff 7 (by decide)).mpr ⟨prefixed, by omega⟩, ?_⟩
        dsimp only
        rw [Cursor.take, if_pos fits]
        exact text_eq_ok_iff.mpr read

/-! ### Tables -/

/-- The static table as fields. -/
def staticFields : List Field :=
  staticTable.map fun (name, value) => ⟨Bytes.ofText name, Bytes.ofText value⟩

/-- What the reader keeps of a field. -/
def entryOf (field : Field) : TableEntry := ⟨field.name, field.size⟩

/-- The reader's table holds the entries of the dynamic table. -/
structure Holds (table : DynamicTable) (whole : HeaderCompression.Table) : Prop where
  entries : table.entries = whole.entries.map entryOf
  capacity : table.capacity = whole.capacity

theorem size_eq_totalSize {table : DynamicTable} {fields : List Field}
    (same : table.entries = fields.map entryOf) : table.size = totalSize fields := by
  rw [table.tracks, same, List.map_map]
  rfl

/-- Evicting the oldest entries one by one keeps the newest that fit. -/
theorem evictTo_eq (limit : Nat) {table : DynamicTable} {fields : List Field}
    (same : table.entries = fields.map entryOf) :
    (table.evictTo limit).entries = (HeaderCompression.keep limit fields).map entryOf ∧
      (table.evictTo limit).capacity = table.capacity := by
  induction fields using List.reverseRecOn generalizing table with
  | nil =>
    have none : ¬limit < table.size := by
      rw [size_eq_totalSize same]
      exact Nat.not_lt_zero limit
    rw [DynamicTable.evictTo, dif_neg none]
    exact ⟨same, rfl⟩
  | append_singleton fields last inductionHypothesis =>
    rw [DynamicTable.evictTo]
    split
    · next exceeds =>
      have shorter : (table.popBack (DynamicTable.entries_ne_nil exceeds)).entries =
          fields.map entryOf := by
        change table.entries.dropLast = _
        rw [same, List.map_append, List.map_singleton, List.dropLast_concat]
      rw [size_eq_totalSize same] at exceeds
      rw [HeaderCompression.keep_concat exceeds]
      exact inductionHypothesis shorter
    · next fits =>
      rw [size_eq_totalSize same] at fits
      rw [HeaderCompression.keep_of_le (Nat.le_of_not_lt fits)]
      exact ⟨same, rfl⟩

namespace Holds

variable {table : DynamicTable} {whole : HeaderCompression.Table}

theorem resize (holds : Holds table whole) (capacity : Nat) :
    Holds ({ table with capacity }.evictTo capacity) (whole.resize capacity) := by
  have start : ({ table with capacity } : DynamicTable).entries = whole.entries.map entryOf :=
    holds.entries
  obtain ⟨entries, kept⟩ := evictTo_eq capacity start
  exact ⟨entries, kept⟩

theorem insert (holds : Holds table whole) (field : Field) :
    Holds (table.insert (entryOf field)) (whole.insert field) := by
  unfold DynamicTable.insert HeaderCompression.Table.insert
  rw [holds.capacity]
  have size : (entryOf field).size = field.size := rfl
  rw [size]
  split
  · obtain ⟨entries, kept⟩ := evictTo_eq 0 holds.entries
    refine ⟨entries.trans ?_, kept.trans holds.capacity⟩
    have nothing := HeaderCompression.totalSize_keep_le 0 whole.entries
    have length := HeaderCompression.length_le_totalSize (HeaderCompression.keep 0 whole.entries)
    have none : HeaderCompression.keep 0 whole.entries = [] :=
      List.eq_nil_of_length_eq_zero (by omega)
    rw [none]
  · obtain ⟨entries, kept⟩ := evictTo_eq (whole.capacity - field.size) holds.entries
    refine ⟨?_, kept.trans holds.capacity⟩
    change _ :: _ = _
    rw [entries, List.map_cons]

/-- The reader finds the name and the size of the field that is at an index. -/
theorem get_eq_ok_iff (holds : Holds table whole) {index : Nat} {found : List UInt8 × Nat} :
    table.get index = .ok found ↔
      ∃ field, whole.lookup staticFields index = some field ∧ found = (field.name, field.size) := by
  unfold DynamicTable.get HeaderCompression.Table.lookup
  by_cases zero : index = 0
  · rw [if_pos zero, if_pos zero]
    refine ⟨fun read => (by cases read), ?_⟩
    rintro ⟨field, ⟨⟩, -⟩
  · rw [if_neg zero, if_neg zero, staticFields, List.getElem?_map, List.length_map, holds.entries,
      List.getElem?_map]
    cases staticTable[index - 1]? with
    | some pair =>
      constructor
      · rintro ⟨⟩
        exact ⟨_, rfl, rfl⟩
      · rintro ⟨field, ⟨⟩, rfl⟩
        rfl
    | none =>
      dsimp only [Option.map_none]
      cases whole.entries[index - 1 - staticTable.length]? with
      | some field =>
        constructor
        · rintro ⟨⟩
          exact ⟨field, rfl, rfl⟩
        · rintro ⟨field', ⟨⟩, rfl⟩
          rfl
      | none =>
        refine ⟨fun read => (by cases read), ?_⟩
        rintro ⟨field, ⟨⟩, -⟩

end Holds

/-! ### Fields -/

section Fields

variable {table : DynamicTable} {whole : HeaderCompression.Table}

/-- What the tables hold is found under small indices. -/
theorem index_lt_of_lookup (fits : whole.Fits) (within : whole.capacity ≤ maxTable) {index : Nat}
    {field : Field} (found : whole.lookup staticFields index = some field) : index < 2 ^ 64 := by
  have bound := HeaderCompression.Table.index_le_of_lookup found
  have length := HeaderCompression.length_le_totalSize whole.entries
  have static : staticFields.length = 61 := rfl
  unfold HeaderCompression.Table.Fits at fits
  unfold maxTable at within
  omega

theorem literalName_eq_ok_iff (holds : Holds table whole) {index : Nat}
    {remaining name rest : List UInt8} (short : remaining.length < 2 ^ 64) :
    Decoder.literalName huffman table index remaining = .ok (name, rest) ↔
      ∃ meant, HeaderCompression.readName (coding huffman) index remaining = some (meant, rest) ∧
        meant.resolve staticFields whole = some name := by
  unfold Decoder.literalName HeaderCompression.readName
  by_cases own : index = 0
  · rw [if_pos own, if_pos own, string_eq_ok_iff short]
    constructor
    · intro read
      exact ⟨.own name, Option.map_eq_some_iff.mpr ⟨_, read, rfl⟩, rfl⟩
    · rintro ⟨meant, read, resolved⟩
      obtain ⟨⟨bytes, later⟩, read, same⟩ := Option.map_eq_some_iff.mp read
      cases same
      cases resolved
      exact read
  · rw [if_neg own, if_neg own, Transaction.bind_eq_ok_iff]
    constructor
    · rintro ⟨stored, found, same⟩
      cases same
      obtain ⟨field, listed, rfl⟩ := holds.get_eq_ok_iff.mp found
      exact ⟨.stored index, rfl, Option.map_eq_some_iff.mpr ⟨field, listed, rfl⟩⟩
    · rintro ⟨meant, same, resolved⟩
      cases same
      obtain ⟨field, listed, rfl⟩ := Option.map_eq_some_iff.mp resolved
      exact ⟨_, holds.get_eq_ok_iff.mpr ⟨field, listed, rfl⟩, rfl⟩

/-- An index that a name is read by is small. -/
theorem index_lt_of_resolve (fits : whole.Fits) (within : whole.capacity ≤ maxTable) {index : Nat}
    {remaining name rest : List UInt8} {meant : Name}
    (read : HeaderCompression.readName (coding huffman) index remaining = some (meant, rest))
    (resolved : meant.resolve staticFields whole = some name) : index < 2 ^ 64 := by
  unfold HeaderCompression.readName at read
  split at read
  · next own =>
    rw [own]
    decide
  · cases read
    obtain ⟨field, listed, -⟩ := Option.map_eq_some_iff.mp resolved
    exact index_lt_of_lookup fits within listed

/-- A literal field behind a prefix of some bits. -/
theorem literal_eq_ok_iff (holds : Holds table whole) (fits : whole.Fits)
    (within : whole.capacity ≤ maxTable) {bits : Nat} (few : bits ≤ 7) (indexing : Bool)
    {remaining rest : List UInt8} (short : remaining.length < 2 ^ 64)
    {found : List UInt8 × Nat} :
    (integer (2 ^ bits - 1) remaining >>= fun index =>
        Decoder.literalName huffman table index.1 index.2 >>= fun name =>
          string huffman name.2 >>= fun value =>
            (pure ((name.1, name.1.length + value.1.length + entryOverhead), value.2) :
              Except CaptureError _)) = .ok (found, rest) ↔
      ∃ name value field, HeaderCompression.readLiteral (coding huffman) bits indexing remaining =
          some (.literal indexing name value, rest) ∧
        (HeaderCompression.Representation.literal indexing name value).field staticFields whole =
          some field ∧ found = (field.name, field.size) := by
  constructor
  · intro read
    obtain ⟨⟨index, later⟩, prefixed, read⟩ := Transaction.bind_eq_ok_iff.mp read
    obtain ⟨⟨name, after⟩, named, read⟩ := Transaction.bind_eq_ok_iff.mp read
    obtain ⟨⟨value, left⟩, valued, same⟩ := Transaction.bind_eq_ok_iff.mp read
    cases same
    have indexed := ((integer_eq_ok_iff bits few).mp prefixed).1
    have less : later.length < 2 ^ 64 :=
      (HeaderCompression.length_lt_of_integer indexed).trans short
    obtain ⟨meant, written, resolved⟩ := (literalName_eq_ok_iff holds less).mp named
    have fewer : after.length < 2 ^ 64 :=
      (HeaderCompression.length_le_of_readName written).trans_lt less
    have text := (string_eq_ok_iff fewer).mp valued
    refine ⟨meant, value, ⟨name, value⟩, ?_, ?_, rfl⟩
    · refine Option.bind_eq_some_iff.mpr ⟨_, indexed, ?_⟩
      refine Option.bind_eq_some_iff.mpr ⟨_, written, ?_⟩
      exact Option.bind_eq_some_iff.mpr ⟨_, text, rfl⟩
    · exact Option.map_eq_some_iff.mpr ⟨name, resolved, rfl⟩
  · rintro ⟨name, value, field, read, meant, rfl⟩
    obtain ⟨⟨index, later⟩, indexed, read⟩ := Option.bind_eq_some_iff.mp read
    obtain ⟨⟨name', after⟩, written, read⟩ := Option.bind_eq_some_iff.mp read
    obtain ⟨⟨value', left⟩, text, same⟩ := Option.bind_eq_some_iff.mp read
    cases same
    obtain ⟨resolved, known, rfl⟩ := Option.map_eq_some_iff.mp meant
    have less : later.length < 2 ^ 64 :=
      (HeaderCompression.length_lt_of_integer indexed).trans short
    have fewer : after.length < 2 ^ 64 :=
      (HeaderCompression.length_le_of_readName written).trans_lt less
    have small := index_lt_of_resolve fits within written known
    refine Transaction.bind_eq_ok_iff.mpr
      ⟨_, (integer_eq_ok_iff bits few).mpr ⟨indexed, small⟩, ?_⟩
    refine Transaction.bind_eq_ok_iff.mpr
      ⟨_, (literalName_eq_ok_iff holds less).mpr ⟨_, written, known⟩, ?_⟩
    exact Transaction.bind_eq_ok_iff.mpr ⟨_, (string_eq_ok_iff fewer).mpr text, rfl⟩

/-- What a literal representation stands for, whatever it is. -/
theorem literal_eq_ok_iff_read (holds : Holds table whole) (fits : whole.Fits)
    (within : whole.capacity ≤ maxTable) {bits : Nat} (few : bits ≤ 7) (indexing : Bool)
    {representation : Representation} (literal : representation ≠ .indexed)
    (mask : representation.mask = 2 ^ bits - 1)
    (indexes : indexing = true ↔ representation = .literalIndexed)
    {remaining rest : List UInt8} (short : remaining.length < 2 ^ 64)
    {found : List UInt8 × Nat} :
    Decoder.field huffman table representation remaining = .ok (found, rest) ↔
      ∃ meant field,
        HeaderCompression.readLiteral (coding huffman) bits indexing remaining =
            some (meant, rest) ∧
          meant.field staticFields whole = some field ∧ found = (field.name, field.size) ∧
            (meant.indexing = true ↔ representation = .literalIndexed) := by
  unfold Decoder.field
  simp only [if_neg literal, mask]
  refine (literal_eq_ok_iff holds fits within few indexing short).trans ?_
  constructor
  · rintro ⟨name, value, field, read, meant, same⟩
    exact ⟨_, field, read, meant, same, indexes⟩
  · rintro ⟨meant, field, read, stands, same, -⟩
    obtain ⟨name, value, rfl⟩ := HeaderCompression.eq_literal_of_readLiteral read
    exact ⟨name, value, field, read, stands, same⟩

/-- The representation at the start of what remains, and the field that it stands for. -/
theorem field_eq_ok_iff (holds : Holds table whole) (fits : whole.Fits)
    (within : whole.capacity ≤ maxTable) {first : UInt8} {later rest : List UInt8}
    (short : (first :: later).length < 2 ^ 64)
    (other : Representation.ofByte first ≠ .tableSize) {found : List UInt8 × Nat} :
    Decoder.field huffman table (.ofByte first) (first :: later) = .ok (found, rest) ↔
      ∃ meant field, HeaderCompression.read (coding huffman) (first :: later) = some (meant, rest) ∧
        meant.field staticFields whole = some field ∧ found = (field.name, field.size) ∧
          (meant.indexing = true ↔ Representation.ofByte first = .literalIndexed) := by
  unfold HeaderCompression.read
  by_cases indexed : 0x80 ≤ first
  · have known : Representation.ofByte first = .indexed := if_pos indexed
    unfold Decoder.field
    rw [known]
    dsimp only
    rw [if_pos indexed, Transaction.bind_eq_ok_iff]
    constructor
    · rintro ⟨⟨index, left⟩, prefixed, read⟩
      obtain ⟨stored, got, same⟩ := Transaction.bind_eq_ok_iff.mp read
      cases same
      obtain ⟨field, listed, rfl⟩ := holds.get_eq_ok_iff.mp got
      have written := ((integer_eq_ok_iff 7 (by decide)).mp prefixed).1
      exact ⟨.indexed index, field, Option.map_eq_some_iff.mpr ⟨_, written, rfl⟩, listed, rfl,
        fun same => (by cases same), fun same => (by cases same)⟩
    · rintro ⟨meant, field, read, listed, rfl, -⟩
      obtain ⟨⟨index, left⟩, written, same⟩ := Option.map_eq_some_iff.mp read
      cases same
      have small := index_lt_of_lookup fits within listed
      refine ⟨_, (integer_eq_ok_iff 7 (by decide)).mpr ⟨written, small⟩, ?_⟩
      exact Transaction.bind_eq_ok_iff.mpr ⟨_, holds.get_eq_ok_iff.mpr ⟨field, listed, rfl⟩, rfl⟩
  · by_cases indexing : 0x40 ≤ first
    · have known : Representation.ofByte first = .literalIndexed :=
        (if_neg indexed).trans (if_pos indexing)
      rw [known]
      dsimp only
      rw [if_neg indexed, if_pos indexing]
      exact literal_eq_ok_iff_read holds fits within (by decide : 6 ≤ 7) true (by decide) rfl
        (by decide) short
    · by_cases update : 0x20 ≤ first
      · refine absurd ?_ other
        exact (if_neg indexed).trans ((if_neg indexing).trans (if_pos update))
      · have known : Representation.ofByte first = .literal :=
          (if_neg indexed).trans ((if_neg indexing).trans (if_neg update))
        rw [known]
        dsimp only
        rw [if_neg indexed, if_neg indexing, if_neg update]
        exact literal_eq_ok_iff_read holds fits within (by decide : 4 ≤ 7) false (by decide) rfl
          (by decide) short

end Fields

/-! ### The order of fields -/

/-- The name of a pseudo header. -/
def PseudoHeader.name : PseudoHeader → List UInt8
  | method => Bytes.ofText ":method"
  | authority => Bytes.ofText ":authority"
  | scheme => Bytes.ofText ":scheme"
  | path => Bytes.ofText ":path"
  | protocol => Bytes.ofText ":protocol"

theorem PseudoHeader.tryFrom_name (header : PseudoHeader) : tryFrom header.name = .ok header := by
  cases header <;> decide

theorem PseudoHeader.tryFrom_eq_ok_iff {name : List UInt8} {header : PseudoHeader} :
    tryFrom name = .ok header ↔ name = header.name := by
  refine ⟨fun known => ?_, fun same => same ▸ tryFrom_name header⟩
  unfold tryFrom at known
  split at known
  · next same =>
    cases known
    exact same
  · split at known
    · next same =>
      cases known
      exact same
    · split at known
      · next same =>
        cases known
        exact same
      · split at known
        · next same =>
          cases known
          exact same
        · split at known
          · next same =>
            cases known
            exact same
          · cases known

theorem PseudoHeader.head?_name (header : PseudoHeader) : header.name.head? = some 0x3A := by
  cases header <;> decide

/-- A regular field has a name that is not that of a pseudo header. -/
def IsRegular (field : Field) : Prop := field.name ≠ [] ∧ field.name.head? ≠ some 0x3A

/-- Pseudo headers come first, each of them known and once, and in this order. -/
def PseudoFirst (fields : List Field) (order : Order) : Prop :=
  ∃ pseudo regular, fields = pseudo ++ regular ∧
    pseudo.map Field.name = order.map PseudoHeader.name ∧ order.Nodup ∧
      ∀ field ∈ regular, IsRegular field

/-- What a field does to the order so far. -/
def place (placed : Order × Bool) (field : Field) : Except CaptureError (Order × Bool) :=
  Decoder.placed ⟨.empty, 0, 0, placed.1, placed.2⟩ field.name

theorem place_of_regular {order : Order} {seen : Bool} {field : Field}
    (regular : IsRegular field) : place (order, seen) field = .ok (order, true) := by
  unfold place Decoder.placed
  rw [if_neg (by rw [List.isEmpty_iff]; exact regular.1), if_neg regular.2]
  rfl

theorem place_eq_ok_iff {order next : Order} {seen after : Bool} {field : Field} :
    place (order, seen) field = .ok (next, after) ↔
      (IsRegular field ∧ next = order ∧ after = true) ∨
        ∃ header, field.name = PseudoHeader.name header ∧ seen = false ∧ header ∉ order ∧
          next = order ++ [header] ∧ after = false := by
  constructor
  · intro placed
    by_cases regular : IsRegular field
    · rw [place_of_regular regular] at placed
      cases placed
      exact .inl ⟨regular, rfl, rfl⟩
    · unfold place Decoder.placed at placed
      dsimp only at placed
      split at placed
      · cases placed
      · next named =>
        rw [List.isEmpty_iff] at named
        split at placed
        · obtain ⟨header, known, placed⟩ := Transaction.bind_eq_ok_iff.mp placed
          split at placed
          · cases placed
          · next fresh =>
            rw [Bool.or_eq_true, not_or, Bool.not_eq_true, List.contains_iff_mem] at fresh
            obtain ⟨first, absent⟩ := fresh
            cases placed
            exact .inr ⟨header, PseudoHeader.tryFrom_eq_ok_iff.mp known, first, absent, rfl, first⟩
        · next other => exact absurd ⟨named, other⟩ regular
  · rintro (⟨regular, rfl, rfl⟩ | ⟨header, name, rfl, absent, rfl, rfl⟩)
    · exact place_of_regular regular
    · unfold place Decoder.placed
      rw [name]
      have named : ¬header.name.isEmpty = true := by
        cases header <;> decide
      have unseen : ¬((false || order.contains header) = true) := by
        rw [Bool.false_or, List.contains_iff_mem]
        exact absent
      rw [if_neg named, if_pos header.head?_name]
      refine Transaction.bind_eq_ok_iff.mpr ⟨header, header.tryFrom_name, ?_⟩
      dsimp only
      rw [if_neg unseen]
      rfl

/-- Pseudo headers in this order come first, and it has been seen whether regular fields follow. -/
def PlacedAs (fields : List Field) (order : Order) (seen : Bool) : Prop :=
  ∃ pseudo regular, fields = pseudo ++ regular ∧
    pseudo.map Field.name = order.map PseudoHeader.name ∧ order.Nodup ∧
      (∀ field ∈ regular, IsRegular field) ∧ seen = !regular.isEmpty

section PlacedAs

variable {fields : List Field} {last : Field} {before order : Order} {first seen : Bool}

theorem placedAs_nil : PlacedAs [] [] false :=
  ⟨[], [], rfl, rfl, List.nodup_nil, fun _ member => absurd member List.not_mem_nil, rfl⟩

theorem PlacedAs.eq_of_nil (placed : PlacedAs [] order seen) : order = [] ∧ seen = false := by
  obtain ⟨pseudo, regular, nothing, names, -, -, rfl⟩ := placed
  obtain ⟨rfl, rfl⟩ := List.append_eq_nil_iff.mp nothing.symm
  rw [List.map_nil] at names
  exact ⟨List.map_eq_nil_iff.mp names.symm, rfl⟩

/-- One more field that is placed. -/
theorem PlacedAs.place (placed : PlacedAs fields before first)
    (one : Hpack.place (before, first) last = .ok (order, seen)) :
    PlacedAs (fields ++ [last]) order seen := by
  obtain ⟨pseudo, regular, rfl, names, once, regulars, rfl⟩ := placed
  rcases place_eq_ok_iff.mp one with ⟨plain, rfl, rfl⟩ | ⟨header, name, none, fresh, rfl, rfl⟩
  · refine ⟨pseudo, regular ++ [last], by rw [List.append_assoc], names, once, ?_, ?_⟩
    · intro field member
      rcases List.mem_append.mp member with old | new
      · exact regulars field old
      · rw [List.mem_singleton.mp new]
        exact plain
    · cases regular <;> rfl
  · have empty : regular = [] := by
      rw [Bool.not_eq_false', List.isEmpty_iff] at none
      exact none
    subst empty
    refine ⟨pseudo ++ [last], [], by simp, ?_, ?_, regulars, rfl⟩
    · rw [List.map_append, List.map_append, names, List.map_singleton, List.map_singleton, name]
    · rw [List.nodup_append]
      refine ⟨once, by simp, fun old member new single => ?_⟩
      rw [List.mem_singleton.mp single]
      exact fun same => fresh (same ▸ member)

/-- The last field was placed after the others. -/
theorem PlacedAs.exists_of_concat (placed : PlacedAs (fields ++ [last]) order seen) :
    ∃ before first, PlacedAs fields before first ∧
      Hpack.place (before, first) last = .ok (order, seen) := by
  obtain ⟨pseudo, regular, parts, names, once, regulars, rfl⟩ := placed
  rcases List.eq_nil_or_concat' regular with rfl | ⟨others, final, rfl⟩
  · rw [List.append_nil] at parts
    subst parts
    rw [List.map_append, List.map_singleton] at names
    obtain ⟨front, back, rfl, fronts, backs⟩ := List.map_eq_append_iff.mp names.symm
    obtain ⟨header, rfl, name⟩ := List.map_eq_singleton_iff.mp backs
    rw [List.nodup_append] at once
    refine ⟨front, false, ⟨fields, [], by simp, fronts.symm, once.1, regulars, rfl⟩, ?_⟩
    refine place_eq_ok_iff.mpr (.inr ⟨header, name.symm, rfl, fun member => ?_, rfl, rfl⟩)
    exact once.2.2 header member header (List.mem_singleton_self header) rfl
  · rw [← List.append_assoc] at parts
    obtain ⟨rfl, single⟩ := List.append_inj' parts rfl
    cases single
    have earlier := fun field member => regulars field (List.mem_append_left _ member)
    refine ⟨order, !others.isEmpty, ⟨pseudo, others, rfl, names, once, earlier, rfl⟩, ?_⟩
    refine place_eq_ok_iff.mpr (.inl ⟨?_, rfl, ?_⟩)
    · exact regulars last (List.mem_append_right _ (List.mem_singleton_self last))
    · cases others <;> rfl

end PlacedAs

/-- Fields are placed one by one exactly when the pseudo headers among them come first. -/
theorem place_all_eq_ok_iff {fields : List Field} {order : Order} {seen : Bool} :
    fields.foldlM place ([], false) = .ok (order, seen) ↔ PlacedAs fields order seen := by
  induction fields using List.reverseRecOn generalizing order seen with
  | nil =>
    constructor
    · rintro ⟨⟩
      exact placedAs_nil
    · intro placed
      obtain ⟨rfl, rfl⟩ := placed.eq_of_nil
      rfl
  | append_singleton fields last inductionHypothesis =>
    rw [List.foldlM_append, Transaction.bind_eq_ok_iff]
    simp only [List.foldlM_cons, List.foldlM_nil]
    constructor
    · rintro ⟨⟨before, first⟩, placed, again⟩
      obtain ⟨⟨next, after⟩, one, same⟩ := Transaction.bind_eq_ok_iff.mp again
      cases same
      exact (inductionHypothesis.mp placed).place one
    · intro placed
      obtain ⟨before, first, earlier, one⟩ := placed.exists_of_concat
      exact ⟨(before, first), inductionHypothesis.mpr earlier,
        Transaction.bind_eq_ok_iff.mpr ⟨_, one, rfl⟩⟩

theorem exists_place_all_iff {fields : List Field} {order : Order} :
    (∃ seen, fields.foldlM place ([], false) = .ok (order, seen)) ↔ PseudoFirst fields order := by
  constructor
  · rintro ⟨seen, placed⟩
    obtain ⟨pseudo, regular, parts, names, once, regulars, -⟩ := place_all_eq_ok_iff.mp placed
    exact ⟨pseudo, regular, parts, names, once, regulars⟩
  · rintro ⟨pseudo, regular, parts, names, once, regulars⟩
    exact ⟨_, place_all_eq_ok_iff.mpr ⟨pseudo, regular, parts, names, once, regulars, rfl⟩⟩

/-! ### Passes -/

/-- What the reader and its peer have agreed on. -/
def setting : Setting := ⟨staticFields, maxTable⟩

/-- Fields within the limits, with the pseudo headers first. -/
def Allowed (fields : List Field) : Prop :=
  fields.length ≤ maxHeaders ∧ totalSize fields ≤ maxDecoded ∧ ∃ order, PseudoFirst fields order

/-- The reader has in its table and its sums what was decoded. -/
structure Carries (decoder : Decoder) (state : State) : Prop where
  table : Holds decoder.table state.table
  fits : state.table.Fits
  within : state.table.capacity ≤ maxTable
  total : decoder.decodedTotal = totalSize state.fields
  count : decoder.headerCount = state.fields.length
  placed : state.fields.foldlM place ([], false) = .ok (decoder.order, decoder.seenRegular)

theorem allowed_nil : Allowed [] :=
  ⟨Nat.zero_le _, Nat.zero_le _, [], [], [], rfl, rfl, List.nodup_nil, fun _ member =>
    absurd member List.not_mem_nil⟩

/-- What comes before allowed fields is allowed. -/
theorem Allowed.of_prefix {fields more : List Field} (allowed : Allowed more)
    (before : fields <+: more) : Allowed fields := by
  obtain ⟨later, rfl⟩ := before
  obtain ⟨count, total, order, first⟩ := allowed
  rw [List.length_append] at count
  rw [HeaderCompression.totalSize_append] at total
  obtain ⟨seen, placed⟩ := exists_place_all_iff.mpr first
  rw [List.foldlM_append, Transaction.bind_eq_ok_iff] at placed
  obtain ⟨⟨order', seen'⟩, placed, -⟩ := placed
  exact ⟨by omega, by omega, order', exists_place_all_iff.mp ⟨seen', placed⟩⟩

theorem ofByte_eq_tableSize_iff {first : UInt8} : Representation.ofByte first = .tableSize ↔
    ¬0x80 ≤ first ∧ ¬0x40 ≤ first ∧ 0x20 ≤ first := by
  unfold Representation.ofByte
  by_cases indexed : 0x80 ≤ first
  · rw [if_pos indexed]
    exact ⟨fun same => (by cases same), fun bits => absurd indexed bits.1⟩
  · rw [if_neg indexed]
    by_cases indexing : 0x40 ≤ first
    · rw [if_pos indexing]
      exact ⟨fun same => (by cases same), fun bits => absurd indexing bits.2.1⟩
    · rw [if_neg indexing]
      by_cases update : 0x20 ≤ first
      · rw [if_pos update]
        exact ⟨fun _ => ⟨indexed, indexing, update⟩, fun _ => rfl⟩
      · rw [if_neg update]
        exact ⟨fun same => (by cases same), fun bits => absurd bits.2.2 update⟩

theorem read_update {first : UInt8} {later : List UInt8}
    (update : Representation.ofByte first = .tableSize) :
    HeaderCompression.read (coding huffman) (first :: later) =
      (HeaderCompression.integer (some maxOctets) 5 (first :: later)).map
        fun capacity => (.sizeUpdate capacity.1, capacity.2) := by
  obtain ⟨indexed, indexing, low⟩ := ofByte_eq_tableSize_iff.mp update
  unfold HeaderCompression.read
  dsimp only
  rw [if_neg indexed, if_neg indexing, if_pos low]
  rfl

theorem not_update_of_read {first : UInt8} {later rest : List UInt8}
    (other : Representation.ofByte first ≠ .tableSize) {meant : HeaderCompression.Representation}
    (read : HeaderCompression.read (coding huffman) (first :: later) = some (meant, rest))
    (capacity : Nat) : meant ≠ .sizeUpdate capacity := by
  rintro rfl
  unfold HeaderCompression.read at read
  dsimp only at read
  split at read
  · obtain ⟨index, -, same⟩ := Option.map_eq_some_iff.mp read
    cases same
  · next indexed =>
    split at read
    · obtain ⟨name, value, same⟩ := HeaderCompression.eq_literal_of_readLiteral read
      cases same
    · next indexing =>
      split at read
      · next update => exact other (ofByte_eq_tableSize_iff.mpr ⟨indexed, indexing, update⟩)
      · obtain ⟨name, value, same⟩ := HeaderCompression.eq_literal_of_readLiteral read
        cases same

/-- The bits at the start tell whether a representation adds to the table. -/
theorem indexing_iff_of_read {first : UInt8} {later rest : List UInt8}
    {meant : HeaderCompression.Representation}
    (read : HeaderCompression.read (coding huffman) (first :: later) = some (meant, rest)) :
    meant.indexing = true ↔ Representation.ofByte first = .literalIndexed := by
  unfold HeaderCompression.read at read
  dsimp only at read
  unfold Representation.ofByte
  split at read
  · next indexed =>
    obtain ⟨index, -, same⟩ := Option.map_eq_some_iff.mp read
    cases same
    rw [if_pos indexed]
    exact ⟨fun never => (by cases never), fun never => (by cases never)⟩
  · next indexed =>
    rw [if_neg indexed]
    split at read
    · next indexing =>
      obtain ⟨name, value, rfl⟩ := HeaderCompression.eq_literal_of_readLiteral read
      rw [if_pos indexing]
      exact ⟨fun _ => rfl, fun _ => rfl⟩
    · next indexing =>
      rw [if_neg indexing]
      split at read
      · next update =>
        obtain ⟨capacity, -, same⟩ := Option.map_eq_some_iff.mp read
        cases same
        rw [if_pos update]
        exact ⟨fun never => (by cases never), fun never => (by cases never)⟩
      · next update =>
        obtain ⟨name, value, rfl⟩ := HeaderCompression.eq_literal_of_readLiteral read
        rw [if_neg update]
        exact ⟨fun never => (by cases never), fun never => (by cases never)⟩

theorem resize_eq_ok_iff {table next : DynamicTable} {capacity : Nat} :
    table.resize capacity = .ok next ↔
      capacity ≤ maxTable ∧ ({ table with capacity } : DynamicTable).evictTo capacity = next := by
  unfold DynamicTable.resize
  split
  · next large => exact ⟨fun same => (by cases same), fun both => absurd both.1 (by omega)⟩
  · next small =>
    constructor
    · rintro ⟨⟩
      exact ⟨Nat.le_of_not_lt small, rfl⟩
    · rintro ⟨-, rfl⟩
      rfl

section Passes

variable {decoder : Decoder} {state : State} {first : UInt8} {later rest : List UInt8}

/-- The state after a field. -/
theorem Carries.field (carries : Carries decoder state) {meant : HeaderCompression.Representation}
    {representation : Representation} {field : Field} {order : Order} {seen : Bool}
    (indexes : meant.indexing = true ↔ representation = .literalIndexed)
    (placed : place (decoder.order, decoder.seenRegular) field = .ok (order, seen)) :
    Carries
      { table := if representation = .literalIndexed then decoder.table.insert (entryOf field)
          else decoder.table
        decodedTotal := decoder.decodedTotal + field.size
        headerCount := decoder.headerCount + 1
        order, seenRegular := seen }
      ⟨if meant.indexing then state.table.insert field else state.table,
        state.fields ++ [field]⟩ := by
  have tables : Holds
      (if representation = .literalIndexed then decoder.table.insert (entryOf field)
        else decoder.table)
      (if meant.indexing then state.table.insert field else state.table) ∧
      (if meant.indexing then state.table.insert field else state.table).Fits ∧
      (if meant.indexing then state.table.insert field else state.table).capacity ≤ maxTable := by
    by_cases inserted : representation = .literalIndexed
    · rw [if_pos inserted, if_pos (indexes.mpr inserted)]
      exact ⟨carries.table.insert field, state.table.fits_insert field,
        (state.table.capacity_insert field).le.trans carries.within⟩
    · rw [if_neg inserted, if_neg fun indexing => inserted (indexes.mp indexing)]
      exact ⟨carries.table, carries.fits, carries.within⟩
  refine ⟨tables.1, tables.2.1, tables.2.2, ?_, ?_, ?_⟩
  · change decoder.decodedTotal + field.size = totalSize (state.fields ++ [field])
    rw [HeaderCompression.totalSize_append, HeaderCompression.totalSize_cons,
      HeaderCompression.totalSize_nil, carries.total, Nat.add_zero]
  · change decoder.headerCount + 1 = (state.fields ++ [field]).length
    rw [List.length_append, carries.count, List.length_singleton]
  · change (state.fields ++ [field]).foldlM place ([], false) = .ok (order, seen)
    rw [List.foldlM_append, carries.placed]
    exact Transaction.bind_eq_ok_iff.mpr
      ⟨_, rfl, Transaction.bind_eq_ok_iff.mpr ⟨_, placed, rfl⟩⟩

theorem Carries.resize (carries : Carries decoder state) {capacity : Nat}
    (small : capacity ≤ maxTable) :
    Carries { decoder with table := { decoder.table with capacity }.evictTo capacity }
      { state with table := state.table.resize capacity } :=
  ⟨carries.table.resize capacity, state.table.fits_resize capacity, small, carries.total,
    carries.count, carries.placed⟩

/-- A pass reads a representation and does what it does. -/
theorem exists_of_pass (carries : Carries decoder state)
    (short : (first :: later).length < 2 ^ 64) {next : Decoder}
    (passed : Decoder.pass huffman decoder (first :: later) = .ok (next, rest)) :
    ∃ meant result,
      HeaderCompression.read (coding huffman) (first :: later) = some (meant, rest) ∧
        meant.apply setting state = some result ∧ Allowed result.fields ∧ Carries next result := by
  unfold Decoder.pass at passed
  dsimp only [List.headD_cons] at passed
  split at passed
  · next update =>
    split at passed
    · cases passed
    · next start =>
      have none : state.fields = [] := by
        rw [Decidable.not_not, carries.count] at start
        exact List.eq_nil_of_length_eq_zero start
      obtain ⟨⟨capacity, left⟩, prefixed, passed⟩ := Transaction.bind_eq_ok_iff.mp passed
      obtain ⟨table, resized, same⟩ := Transaction.bind_eq_ok_iff.mp passed
      obtain ⟨small, rfl⟩ := resize_eq_ok_iff.mp resized
      cases same
      rw [update] at prefixed
      have written := ((integer_eq_ok_iff 5 (by decide)).mp prefixed).1
      refine ⟨.sizeUpdate capacity, _, ?_, if_pos ⟨none, small⟩, none ▸ allowed_nil,
        carries.resize small⟩
      rw [read_update update, written]
      rfl
  · next other =>
    split at passed
    · cases passed
    · next few =>
      obtain ⟨⟨⟨name, size⟩, left⟩, found, passed⟩ := Transaction.bind_eq_ok_iff.mp passed
      dsimp only at passed
      split at passed
      · cases passed
      · next light =>
        obtain ⟨⟨order, seen⟩, placed, same⟩ := Transaction.bind_eq_ok_iff.mp passed
        cases same
        obtain ⟨meant, field, read, stands, same, indexes⟩ :=
          (field_eq_ok_iff carries.table carries.fits carries.within short other).mp found
        cases same
        have next := carries.field indexes placed
        refine ⟨meant, _, read, HeaderCompression.Representation.apply_eq_of_field stands, ?_, next⟩
        refine ⟨?_, ?_, order, exists_place_all_iff.mp ⟨seen, next.placed⟩⟩
        · rw [← next.count]
          exact Nat.le_of_not_lt few
        · rw [← next.total]
          exact Nat.le_of_not_lt light

/-- A representation that does something within the limits is passed. -/
theorem pass_of_read (carries : Carries decoder state)
    (short : (first :: later).length < 2 ^ 64) {meant : HeaderCompression.Representation}
    {result : State}
    (read : HeaderCompression.read (coding huffman) (first :: later) = some (meant, rest))
    (applies : meant.apply setting state = some result) (allowed : Allowed result.fields) :
    ∃ next, Decoder.pass huffman decoder (first :: later) = .ok (next, rest) ∧
      Carries next result := by
  unfold Decoder.pass
  dsimp only [List.headD_cons]
  by_cases update : Representation.ofByte first = .tableSize
  · rw [read_update update] at read
    obtain ⟨⟨capacity, left⟩, written, same⟩ := Option.map_eq_some_iff.mp read
    cases same
    simp only [HeaderCompression.Representation.apply] at applies
    split at applies
    · next may =>
      obtain ⟨none, small⟩ := may
      cases applies
      have start : decoder.headerCount = 0 := by rw [carries.count, none, List.length_nil]
      have fits : capacity < 2 ^ 64 := Nat.lt_of_le_of_lt small (by decide)
      refine ⟨_, ?_, carries.resize small⟩
      rw [if_pos update, if_neg (by rw [start]; decide), update]
      refine Transaction.bind_eq_ok_iff.mpr
        ⟨_, (integer_eq_ok_iff 5 (by decide)).mpr ⟨written, fits⟩, ?_⟩
      exact Transaction.bind_eq_ok_iff.mpr ⟨_, resize_eq_ok_iff.mpr ⟨small, rfl⟩, rfl⟩
    · cases applies
  · have other := not_update_of_read update read
    obtain ⟨field, stands⟩ :=
      HeaderCompression.Representation.exists_field_of_apply other applies
    rw [HeaderCompression.Representation.apply_eq_of_field stands] at applies
    cases applies
    obtain ⟨count, total, order, pseudoFirst⟩ := allowed
    obtain ⟨seen, placed⟩ := exists_place_all_iff.mpr pseudoFirst
    rw [List.foldlM_append, carries.placed] at placed
    obtain ⟨_, ⟨⟩, one⟩ := Transaction.bind_eq_ok_iff.mp placed
    obtain ⟨_, placed, ⟨⟩⟩ := Transaction.bind_eq_ok_iff.mp one
    rw [List.length_append, List.length_singleton, ← carries.count] at count
    rw [HeaderCompression.totalSize_append, HeaderCompression.totalSize_cons,
      HeaderCompression.totalSize_nil, Nat.add_zero, ← carries.total] at total
    have indexes := indexing_iff_of_read read
    have found := (field_eq_ok_iff carries.table carries.fits carries.within short update).mpr
      ⟨meant, field, read, stands, rfl, indexes⟩
    refine ⟨_, ?_, carries.field indexes placed⟩
    rw [if_neg update, if_neg (Nat.not_lt.mpr count)]
    refine Transaction.bind_eq_ok_iff.mpr ⟨_, found, ?_⟩
    dsimp only
    rw [if_neg (Nat.not_lt.mpr total)]
    exact Transaction.bind_eq_ok_iff.mpr ⟨_, placed, rfl⟩

end Passes

/-! ### Blocks -/

/-- The passes of the loop decode a block as far as it is allowed. -/
theorem decodes_of_loop {passes : Nat} {decoder last : Decoder} {state : State}
    {remaining : List UInt8} (carries : Carries decoder state) (allowed : Allowed state.fields)
    (short : remaining.length < 2 ^ 64)
    (looped : Cursor.loop (Decoder.pass huffman) passes decoder remaining = .ok last) :
    ∃ final, HeaderCompression.Decodes (coding huffman) setting state remaining final ∧
      Allowed final.fields ∧ Carries last final := by
  induction passes generalizing decoder state remaining with
  | zero =>
    cases remaining with
    | nil =>
      cases looped
      exact ⟨state, .done state, allowed, carries⟩
    | cons first later => cases looped
  | succ passes inductionHypothesis =>
    cases remaining with
    | nil =>
      cases looped
      exact ⟨state, .done state, allowed, carries⟩
    | cons first later =>
      obtain ⟨⟨next, left⟩, passed, looped⟩ := Transaction.bind_eq_ok_iff.mp looped
      obtain ⟨meant, result, read, applies, allowed, carries⟩ := exists_of_pass carries short passed
      have less : left.length < 2 ^ 64 := (Decoder.advances_pass decoder passed).trans short
      obtain ⟨final, decodes, rest⟩ := inductionHypothesis carries allowed less looped
      exact ⟨final, .more read applies decodes, rest⟩

/-- A block that is decoded to allowed fields is read by the passes of the loop. -/
theorem loop_of_decodes {decoder : Decoder} {state final : State} {remaining : List UInt8}
    (decodes : HeaderCompression.Decodes (coding huffman) setting state remaining final)
    (carries : Carries decoder state) (allowed : Allowed final.fields)
    (short : remaining.length < 2 ^ 64) {passes : Nat} (enough : remaining.length ≤ passes) :
    ∃ last, Cursor.loop (Decoder.pass huffman) passes decoder remaining = .ok last ∧
      Carries last final := by
  induction decodes generalizing decoder passes with
  | done state =>
    refine ⟨decoder, ?_, carries⟩
    cases passes <;> rfl
  | @more state next last block rest meant reads applies later inductionHypothesis =>
    cases block with
    | nil => cases reads
    | cons first others =>
      obtain ⟨fewer, rfl⟩ : ∃ fewer, passes = fewer + 1 :=
        Nat.exists_eq_add_one.mpr (Nat.lt_of_lt_of_le (Nat.succ_pos _) enough)
      obtain ⟨decoder', passed, carries'⟩ := pass_of_read carries short reads applies
        (allowed.of_prefix later.fields)
      have less := Decoder.advances_pass decoder passed
      obtain ⟨last', looped, carries'⟩ := inductionHypothesis carries' allowed (less.trans short)
        (Nat.le_of_lt_succ (Nat.lt_of_lt_of_le less enough))
      exact ⟨last', Transaction.bind_eq_ok_iff.mpr ⟨_, passed, looped⟩, carries'⟩

/-- The decoder that the loop starts with. -/
def start : Decoder := ⟨.empty, 0, 0, [], false⟩

theorem carries_start : Carries start setting.start where
  table := ⟨rfl, rfl⟩
  fits := Nat.zero_le _
  within := Nat.le_refl _
  total := rfl
  count := rfl
  placed := rfl

theorem PseudoFirst.unique {fields : List Field} {order order' : Order}
    (first : PseudoFirst fields order) (second : PseudoFirst fields order') : order = order' := by
  obtain ⟨seen, placed⟩ := exists_place_all_iff.mpr first
  obtain ⟨seen', placed'⟩ := exists_place_all_iff.mpr second
  have same := placed.symm.trans placed'
  cases same
  rfl

/-- The reader accepts what decodes to at most so many fields of at most so great a size, with the
pseudo headers first. -/
theorem tryFrom_eq_ok_iff {block : List UInt8} (fits : block.length ≤ maxBlock) {order : Order} :
    Order.tryFrom huffman block = .ok order ↔
      ∃ final, HeaderCompression.Decodes (coding huffman) setting setting.start block final ∧
        final.fields.length ≤ maxHeaders ∧ totalSize final.fields ≤ maxDecoded ∧
          PseudoFirst final.fields order := by
  have short : block.length < 2 ^ 64 := Nat.lt_of_le_of_lt fits (by decide)
  unfold Order.tryFrom
  rw [if_neg (Nat.not_lt.mpr fits), Transaction.bind_eq_ok_iff]
  constructor
  · rintro ⟨last, looped, same⟩
    cases same
    obtain ⟨final, decodes, allowed, carries⟩ :=
      decodes_of_loop carries_start allowed_nil short looped
    exact ⟨final, decodes, allowed.1, allowed.2.1, exists_place_all_iff.mp ⟨_, carries.placed⟩⟩
  · rintro ⟨final, decodes, count, total, first⟩
    obtain ⟨last, looped, carries⟩ := loop_of_decodes decodes carries_start
      ⟨count, total, order, first⟩ short (Nat.le_refl _)
    refine ⟨last, looped, ?_⟩
    have same := first.unique (exists_place_all_iff.mp ⟨_, carries.placed⟩)
    rw [same]
    rfl

end Hpack

end Bagel
