/-
This file models the HPACK decoder that reads the order of the pseudo headers off the first
header block of a connection. The decoder keeps names and sizes only.
-/

import Bagel.Wire

namespace Bagel

namespace Hpack

def maxBlock : Nat := 65536

def maxDecoded : Nat := 65536

def maxHeaders : Nat := 256

def maxTable : Nat := 4096

def entryOverhead : Nat := 32

def staticTable : List (String × String) :=
  [(":authority", ""), (":method", "GET"), (":method", "POST"), (":path", "/"),
    (":path", "/index.html"), (":scheme", "http"), (":scheme", "https"), (":status", "200"),
    (":status", "204"), (":status", "206"), (":status", "304"), (":status", "400"),
    (":status", "404"), (":status", "500"), ("accept-charset", ""),
    ("accept-encoding", "gzip, deflate"), ("accept-language", ""), ("accept-ranges", ""),
    ("accept", ""), ("access-control-allow-origin", ""), ("age", ""), ("allow", ""),
    ("authorization", ""), ("cache-control", ""), ("content-disposition", ""),
    ("content-encoding", ""), ("content-language", ""), ("content-length", ""),
    ("content-location", ""), ("content-range", ""), ("content-type", ""), ("cookie", ""),
    ("date", ""), ("etag", ""), ("expect", ""), ("expires", ""), ("from", ""), ("host", ""),
    ("if-match", ""), ("if-modified-since", ""), ("if-none-match", ""), ("if-range", ""),
    ("if-unmodified-since", ""), ("last-modified", ""), ("link", ""), ("location", ""),
    ("max-forwards", ""), ("proxy-authenticate", ""), ("proxy-authorization", ""), ("range", ""),
    ("referer", ""), ("refresh", ""), ("retry-after", ""), ("server", ""), ("set-cookie", ""),
    ("strict-transport-security", ""), ("transfer-encoding", ""), ("user-agent", ""), ("vary", ""),
    ("via", ""), ("www-authenticate", "")]

/-! ### The dynamic table -/

structure TableEntry where
  name : List UInt8
  size : Nat

/-- The entries, the newest first, with the sum of their sizes. -/
structure DynamicTable where
  entries : List TableEntry
  size : Nat
  capacity : Nat
  tracks : size = (entries.map TableEntry.size).sum

namespace DynamicTable

def empty : DynamicTable := { entries := [], size := 0, capacity := maxTable, tracks := rfl }

/-- The name and the size of the entry at an index. -/
def get (table : DynamicTable) (index : Nat) : Except CaptureError (List UInt8 × Nat) :=
  if index = 0 then .error .invalid
  else
    match staticTable[index - 1]? with
    | some (name, value) =>
      .ok (Bytes.ofText name,
        (Bytes.ofText name).length + (Bytes.ofText value).length + entryOverhead)
    | none =>
      match table.entries[index - 1 - staticTable.length]? with
      | some entry => .ok (entry.name, entry.size)
      | none => .error .invalid

/-- A table that holds something has an entry that can go. -/
theorem entries_ne_nil {table : DynamicTable} {limit : Nat} (exceeds : limit < table.size) :
    table.entries ≠ [] := by
  intro none
  have empty := table.tracks
  rw [none, List.map_nil, List.sum_nil] at empty
  omega

/-- The oldest entry goes. -/
def popBack (table : DynamicTable) (some : table.entries ≠ []) : DynamicTable where
  entries := table.entries.dropLast
  size := table.size - (table.entries.getLast some).size
  capacity := table.capacity
  tracks := by
    have parts := congrArg (fun entries : List TableEntry => (entries.map TableEntry.size).sum)
      (List.dropLast_concat_getLast some)
    simp only [List.map_append, List.sum_append, List.map_singleton, List.sum_singleton] at parts
    rw [table.tracks, ← parts, Nat.add_sub_cancel]

def evictTo (table : DynamicTable) (limit : Nat) : DynamicTable :=
  if exceeds : limit < table.size then
    (table.popBack (entries_ne_nil exceeds)).evictTo limit
  else table
termination_by table.entries.length
decreasing_by
  have some := List.length_pos_iff.mpr (entries_ne_nil exceeds)
  rw [popBack, List.length_dropLast]
  omega

def resize (table : DynamicTable) (capacity : Nat) : Except CaptureError DynamicTable :=
  if maxTable < capacity then .error .invalid
  else .ok ({ table with capacity }.evictTo capacity)

def pushFront (table : DynamicTable) (entry : TableEntry) : DynamicTable where
  entries := entry :: table.entries
  size := table.size + entry.size
  capacity := table.capacity
  tracks := by rw [List.map_cons, List.sum_cons, table.tracks, Nat.add_comm]

/-- An entry that is larger than the table empties it. -/
def insert (table : DynamicTable) (entry : TableEntry) : DynamicTable :=
  if table.capacity < entry.size then table.evictTo 0
  else (table.evictTo (table.capacity - entry.size)).pushFront entry

end DynamicTable

/-! ### Representations -/

inductive PseudoHeader where
  | method
  | authority
  | scheme
  | path
  | protocol
  deriving DecidableEq

namespace PseudoHeader

def tryFrom (name : List UInt8) : Except CaptureError PseudoHeader :=
  if name = Bytes.ofText ":method" then .ok method
  else if name = Bytes.ofText ":authority" then .ok authority
  else if name = Bytes.ofText ":scheme" then .ok scheme
  else if name = Bytes.ofText ":path" then .ok path
  else if name = Bytes.ofText ":protocol" then .ok protocol
  else .error .invalid

def letter : PseudoHeader → Char
  | method => 'm'
  | authority => 'a'
  | scheme => 's'
  | path => 'p'
  | protocol => 'r'

end PseudoHeader

/-- `PseudoHeaderOrder` -/
abbrev Order := List PseudoHeader

def Order.text (order : Order) : List Char :=
  [','].intercalate (order.map fun header => [header.letter])

inductive Representation where
  | indexed
  | literalIndexed
  | literal
  | tableSize
  deriving DecidableEq

namespace Representation

def ofByte (first : UInt8) : Representation :=
  if 0x80 ≤ first then indexed
  else if 0x40 ≤ first then literalIndexed
  else if 0x20 ≤ first then tableSize
  else literal

/-- The mask of the integer at the start of the representation. -/
def mask : Representation → Nat
  | indexed => 127
  | literalIndexed => 63
  | literal => 15
  | tableSize => 31

end Representation

/-! ### Decoding -/

/-- The continuation bytes of an integer, seven bits each; the sums and products are checked for
64 bits. -/
def integerTail (value shift : Nat) : Cursor Nat
  | [] => .error .invalid
  | byte :: rest =>
    let part := (byte &&& 0x7F).toNat * 2 ^ shift
    if 64 ≤ shift ∨ 2 ^ 64 ≤ part ∨ 2 ^ 64 ≤ value + part then .error .invalid
    else if byte &&& 0x80 = 0 then .ok (value + part, rest)
    else integerTail (value + part) (shift + 7) rest

def integer (mask : Nat) : Cursor Nat := fun remaining => do
  let (byte, rest) ← Cursor.byte remaining
  let value := byte.toNat &&& mask
  if value < mask then .ok (value, rest) else integerTail value 0 rest

/-- A string, which the given decoder reads if it is Huffman coded. -/
def string (huffman : List UInt8 → Option (List UInt8)) : Cursor (List UInt8) := fun remaining =>
  match remaining with
  | [] => .error .invalid
  | first :: _ => do
    let (length, rest) ← integer 127 remaining
    let (raw, rest) ← Cursor.take length rest
    if first &&& 0x80 = 0 then .ok (raw, rest)
    else
      match huffman raw with
      | some decoded => .ok (decoded, rest)
      | none => .error .invalid

/-- What the loop over a header block carries. -/
structure Decoder where
  table : DynamicTable
  decodedTotal : Nat
  headerCount : Nat
  order : Order
  seenRegular : Bool

namespace Decoder

variable (huffman : List UInt8 → Option (List UInt8))

/-- The name of a literal field: that of an entry, or a string of its own. -/
def literalName (table : DynamicTable) (index : Nat) : Cursor (List UInt8) := fun remaining =>
  if index = 0 then string huffman remaining
  else do
    let stored ← table.get index
    return (stored.1, remaining)

/-- The name and the size of the field that a representation stands for. -/
def field (table : DynamicTable) (representation : Representation) : Cursor (List UInt8 × Nat) :=
  fun remaining => do
    let (index, rest) ← integer representation.mask remaining
    if representation = .indexed then
      let stored ← table.get index
      return (stored, rest)
    else
      let (name, rest) ← literalName huffman table index rest
      let (value, rest) ← string huffman rest
      return ((name, name.length + value.length + entryOverhead), rest)

/-- The order after a field: pseudo headers come once each, and before the others. -/
def placed (decoder : Decoder) (name : List UInt8) : Except CaptureError (Order × Bool) :=
  if name.isEmpty then .error .invalid
  else if name.head? = some 0x3A then do
    let header ← PseudoHeader.tryFrom name
    if decoder.seenRegular || decoder.order.contains header then .error .invalid
    else return (decoder.order ++ [header], decoder.seenRegular)
  else return (decoder.order, true)

/-- One representation of the block. -/
def pass (decoder : Decoder) : Cursor Decoder := fun remaining => do
  let representation := Representation.ofByte (remaining.headD 0)
  if representation = .tableSize then
    if decoder.headerCount ≠ 0 then .error .invalid
    else
      let (capacity, rest) ← integer representation.mask remaining
      let table ← decoder.table.resize capacity
      return ({ decoder with table }, rest)
  else if maxHeaders < decoder.headerCount + 1 then .error .limited
  else
    let ((name, size), rest) ← field huffman decoder.table representation remaining
    if maxDecoded < decoder.decodedTotal + size then .error .limited
    else
      let (order, seenRegular) ← decoder.placed name
      let table :=
        if representation = .literalIndexed then decoder.table.insert { name, size }
        else decoder.table
      return ({ table, decodedTotal := decoder.decodedTotal + size,
                headerCount := decoder.headerCount + 1, order, seenRegular }, rest)

/-! ### Every pass takes something -/

variable {huffman}

theorem advances_integerTail (value shift : Nat) : Cursor.Advances (integerTail value shift) := by
  intro remaining
  induction remaining generalizing value shift with
  | nil =>
    intro result rest read
    cases read
  | cons byte later inductionHypothesis =>
    intro result rest read
    rw [integerTail] at read
    split_ifs at read
    · cases read
      exact Nat.lt_succ_self _
    · exact (inductionHypothesis _ _ read).trans (Nat.lt_succ_self _)

theorem advances_integer (mask : Nat) : Cursor.Advances (integer mask) := by
  intro remaining value rest read
  obtain ⟨first, byte, read⟩ := Cursor.bind_eq_ok read
  have less := Cursor.advances_byte byte
  dsimp only at read
  split_ifs at read
  · cases read
    exact less
  · exact (advances_integerTail _ _ read).trans less

theorem advances_string : Cursor.Advances (string huffman) := by
  intro remaining value rest read
  unfold string at read
  split at read
  · cases read
  · obtain ⟨first, length, read⟩ := Cursor.bind_eq_ok read
    obtain ⟨second, raw, read⟩ := Cursor.bind_eq_ok read
    have left : rest = second.2 := by
      dsimp only at read
      split_ifs at read
      · cases read
        rfl
      · split at read <;> cases read
        rfl
    rw [left]
    exact Nat.lt_of_le_of_lt (Cursor.length_le_of_take raw) (advances_integer 127 length)

theorem length_le_of_literalName {table : DynamicTable} {index : Nat}
    {remaining name rest : List UInt8}
    (read : literalName huffman table index remaining = .ok (name, rest)) :
    rest.length ≤ remaining.length := by
  unfold literalName at read
  split_ifs at read
  · exact Nat.le_of_lt (advances_string read)
  · obtain ⟨stored, _, same⟩ := Cursor.bind_eq_ok read
    cases same
    exact Nat.le_refl _

theorem advances_field (table : DynamicTable) (representation : Representation) :
    Cursor.Advances (field huffman table representation) := by
  intro remaining value rest read
  obtain ⟨first, index, read⟩ := Cursor.bind_eq_ok read
  have less := advances_integer representation.mask index
  dsimp only at read
  split_ifs at read
  · obtain ⟨stored, _, same⟩ := Cursor.bind_eq_ok read
    cases same
    exact less
  · obtain ⟨second, name, read⟩ := Cursor.bind_eq_ok read
    obtain ⟨third, stored, read⟩ := Cursor.bind_eq_ok read
    cases read
    exact (advances_string stored).trans
      (Nat.lt_of_le_of_lt (length_le_of_literalName name) less)

theorem advances_pass (decoder : Decoder) : Cursor.Advances (pass huffman decoder) := by
  intro remaining value rest read
  unfold pass at read
  dsimp only at read
  split_ifs at read
  · obtain ⟨capacity, length, read⟩ := Cursor.bind_eq_ok read
    obtain ⟨table, _, same⟩ := Cursor.bind_eq_ok read
    cases same
    exact advances_integer _ length
  all_goals
    obtain ⟨first, field, read⟩ := Cursor.bind_eq_ok read
    have less := advances_field decoder.table _ field
    split_ifs at read
    obtain ⟨order, _, same⟩ := Cursor.bind_eq_ok read
    cases same
    exact less

end Decoder

/-- `PseudoHeaderOrder::try_from` -/
def Order.tryFrom (huffman : List UInt8 → Option (List UInt8)) (block : List UInt8) :
    Except CaptureError Order :=
  if maxBlock < block.length then .error .limited
  else do
    let decoder ← Cursor.whileSome (Decoder.pass huffman)
      { table := .empty, decodedTotal := 0, headerCount := 0, order := [], seenRegular := false }
      block
    return decoder.order

end Hpack

end Bagel
