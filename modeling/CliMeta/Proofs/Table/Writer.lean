import CliMeta.Table.Stream
import Mathlib.Data.List.Forall2
import Mathlib.Data.Nat.Init

/-!
The written form of a tables stream: a header of 24 bytes, the row counts of the tables present,
four more bytes if the heap sizes ask for them, and then the rows, all in the order of the table
numbers and without anything in between. A row is the numbers of its columns, each in the width that
the sizing of the whole stream gives the column.
-/

namespace CliMeta

namespace Sizing

/-- The bytes of a row, column by column. -/
def encodeRow (s : Sizing) : List Column → List Nat → List UInt8
  | column :: columns, value :: values =>
      littleEndianBytes value (s.columnBytes column.kind) ++ s.encodeRow columns values
  | _, _ => []

/-- There is a number for every column, and each fits. -/
def FitsRow (s : Sizing) (columns : List Column) (row : List Nat) : Prop :=
  List.Forall₂ (fun column value => value < 1 <<< (8 * s.columnBytes column.kind)) columns row

theorem encodeRow_length {s : Sizing} {columns : List Column} {row : List Nat}
    (h : s.FitsRow columns row) :
    (s.encodeRow columns row).length =
      columns.foldr (fun column size => s.columnBytes column.kind + size) 0 := by
  induction h with
  | nil => rfl
  | cons _ _ ih =>
      rw [encodeRow, List.length_append, littleEndianBytes_length, ih, List.foldr_cons]

end Sizing

/-- What a tables stream is written from. -/
structure TablesContent where
  /-- The first four bytes, which have no meaning. -/
  reserved : UInt32
  majorVersion : UInt8
  minorVersion : UInt8
  heapSizes : UInt8
  /-- The byte behind the heap sizes, which has no meaning. -/
  padding : UInt8
  sorted : UInt64
  /-- What is written behind the row counts if the heap sizes ask for four more bytes. -/
  extra : UInt32
  /-- For every table that is present its rows, each with the numbers of its columns. -/
  rows? : TableId → Option (List (List Nat))

namespace TablesContent

def rows (c : TablesContent) (table : TableId) : List (List Nat) :=
  (c.rows? table).getD []

def rowCount (c : TablesContent) (table : TableId) : Nat :=
  (c.rows table).length

def isPresent (c : TablesContent) (table : TableId) : Bool :=
  (c.rows? table).isSome

/-- The row counts and heap sizes, from which the widths of the columns follow. -/
def sizing (c : TablesContent) : Sizing :=
  ⟨c.rowCount, c.heapSizes.toNat⟩

/-- The tables present, in the order of their numbers. -/
def present (c : TablesContent) : List TableId :=
  TableId.all.filter c.isPresent

/-- The mask of the tables present. -/
def valid (c : TablesContent) : Nat :=
  Nat.ofBits fun number : Fin TableId.all.length => c.isPresent TableId.all[number]

/-- Row counts are 32-bit words, and every row fits the columns of its table. -/
structure WellFormed (c : TablesContent) : Prop where
  rowCount_lt : ∀ table, c.rowCount table < 0x100000000
  fits : ∀ table, ∀ row ∈ c.rows table, c.sizing.FitsRow table.columns row

def encodeHeader (c : TablesContent) : List UInt8 :=
  littleEndianBytes c.reserved.toNat 4 ++
    ([c.majorVersion, c.minorVersion, c.heapSizes, c.padding] ++
      (littleEndianBytes c.valid 8 ++ littleEndianBytes c.sorted.toNat 8))

def encodeCounts (c : TablesContent) : List UInt8 :=
  c.present.flatMap fun table => littleEndianBytes (c.rowCount table) 4

def encodeExtra (c : TablesContent) : List UInt8 :=
  if c.heapSizes.toNat.testBit 6 then littleEndianBytes c.extra.toNat 4 else []

def encodeRows (c : TablesContent) (table : TableId) : List UInt8 :=
  (c.rows table).flatMap (c.sizing.encodeRow table.columns)

def encode (c : TablesContent) : List UInt8 :=
  c.encodeHeader ++ (c.encodeCounts ++ (c.encodeExtra ++ c.present.flatMap c.encodeRows))

/-! ### Sizes and masks -/

variable {c : TablesContent}

@[simp] theorem encodeHeader_length : c.encodeHeader.length = TablesStream.headerSize := by
  simp [encodeHeader, TablesStream.headerSize]

@[simp] theorem encodeCounts_length : c.encodeCounts.length = 4 * c.present.length := by
  simp [encodeCounts, List.length_flatMap, Nat.mul_comm]

theorem encodeExtra_length :
    c.encodeExtra.length = if c.sizing.hasExtraData then 4 else 0 := by
  rw [encodeExtra, Sizing.hasExtraData, sizing]
  split <;> simp

theorem WellFormed.encodeRow_length (h : c.WellFormed) {table : TableId} {row : List Nat}
    (hrow : row ∈ c.rows table) :
    (c.sizing.encodeRow table.columns row).length = c.sizing.rowBytes table :=
  Sizing.encodeRow_length (h.fits table row hrow)

theorem WellFormed.encodeRows_length (h : c.WellFormed) (table : TableId) :
    (c.encodeRows table).length = c.sizing.rowCount table * c.sizing.rowBytes table := by
  have hlengths : (c.rows table).map (fun row => (c.sizing.encodeRow table.columns row).length) =
      List.replicate (c.rows table).length (c.sizing.rowBytes table) := by
    rw [← List.map_const']
    exact List.map_congr_left fun row hrow => h.encodeRow_length hrow
  rw [encodeRows, List.length_flatMap, hlengths, List.sum_replicate_nat]
  rfl

theorem valid_lt (c : TablesContent) : c.valid < 1 <<< TableId.count := by
  rw [Nat.one_shiftLeft]
  exact Nat.ofBits_lt_two_pow _

theorem testBit_valid (c : TablesContent) (table : TableId) :
    c.valid.testBit table.number = c.isPresent table := by
  obtain ⟨hlt, hfound⟩ := List.getElem?_eq_some_iff.1 (TableId.ofNumber?_number table)
  rw [valid, Nat.testBit_ofBits_lt _ _ hlt]
  show c.isPresent TableId.all[table.number] = _
  rw [hfound]

theorem tablesOf_valid (c : TablesContent) : TablesStream.tablesOf c.valid = c.present := by
  rw [TablesStream.tablesOf, present]
  congr 1
  funext table
  exact c.testBit_valid table

theorem mem_present {table : TableId} : table ∈ c.present ↔ c.isPresent table = true := by
  rw [present, List.mem_filter]
  exact and_iff_right table.mem_all

theorem rowCount_of_absent {table : TableId} (h : table ∉ c.present) : c.rowCount table = 0 := by
  rw [mem_present, isPresent, Bool.not_eq_true, Option.isSome_eq_false_iff,
    Option.isNone_iff_eq_none] at h
  rw [rowCount, rows, h]
  rfl

end TablesContent

end CliMeta
