import CliMeta.Proofs.Machine.Reader
import CliMeta.Proofs.Table.Accepted
import CliMeta.Proofs.Table.Coded
import CliMeta.Proofs.Table.Widths
import Mathlib.Data.Nat.Bitwise

/-!
The tables stream, read with words. Row counts are 32-bit words and rows are short, so the sizes of
tables fit 64 bits; what a table would take up is compared with the stream before its rows are cut
out. Counts, tables and categories are kept in lists of a known length, in which each has its place
by its number.
-/

namespace CliMeta

theorem TableId.columns_length_le (t : TableId) : t.columns.length ≤ 9 := by
  cases t <;> decide

theorem Bytes.littleEndian_one (b : Bytes) (position : Nat) :
    b.littleEndian position 1 = b.byteAt position := by
  simp [littleEndian_succ]

namespace Machine

variable {data : Bytes} {s : Sizing} {table : TableId}

/-! ### Widths -/

/-- The row count of a table, which is kept at the place of its number. -/
def rowCount (s : Sizing) (table : TableId) : Checked Nat := do
  checkIndex TableId.count table.number
  return s.rowCount table

def tableIndexBytes (s : Sizing) (table : TableId) : Checked Nat := do
  return if (← rowCount s table) < 0x10000 then 2 else 4

/-- The width of a category, for which the longest of its tables is decisive. -/
def codedWidth (s : Sizing) (category : CodedCategory) : Checked Nat := do
  checkIndex CodedCategory.all.length category.ctorIdx
  let counts ← category.tables.mapM (rowCount s)
  let shifted ← shiftLeft 64 (counts.max?.getD 0) category.tagBits
  return if shifted < 0x10000 then 2 else 4

/-- The widths of all categories, which are worked out at once. -/
def codedWidths (s : Sizing) : Checked (List Nat) :=
  CodedCategory.all.mapM (codedWidth s)

def columnBytes (s : Sizing) (widths : List Nat) : ColumnKind → Checked Nat
  | .word => .ok 2
  | .long => .ok 4
  | .heap heap => .ok (s.heapIndexBytes heap)
  | .index table => tableIndexBytes s table
  | .coded category => elementAt widths category.ctorIdx

/-- The bytes of columns behind those already counted. -/
def rowBytesFrom (s : Sizing) (widths : List Nat) (size : Nat) : List Column → Checked Nat
  | [] => .ok size
  | column :: columns => do
      let width ← columnBytes s widths column.kind
      rowBytesFrom s widths (← add 32 size width) columns

def rowBytes (s : Sizing) (widths : List Nat) (table : TableId) : Checked Nat :=
  rowBytesFrom s widths 0 table.columns

/-- Puts columns side by side from an offset on, and gives the offset behind them. -/
def arrange (s : Sizing) (widths : List Nat) (offset : Nat) :
    List Column → Checked (List PlacedColumn × Nat)
  | [] => .ok ([], offset)
  | column :: columns => do
      let width ← columnBytes s widths column.kind
      let (others, stop) ← arrange s widths (← add 32 offset width) columns
      return (⟨column.name, column.kind, offset, width⟩ :: others, stop)

/-- Row counts are 32-bit words. -/
def Counted (s : Sizing) : Prop :=
  ∀ table, s.rowCount table < positions

theorem rowCount_eq (s : Sizing) (table : TableId) : rowCount s table = .ok (s.rowCount table) := by
  rw [rowCount, checkIndex_eq table.number_lt_count]
  rfl

theorem longest_lt (hs : Counted s) (tables : List TableId) : s.longest tables < positions := by
  obtain hnone | ⟨table, -, hlongest⟩ := s.longest_mem tables
  · rw [hnone]
    decide
  · rw [← hlongest]
    exact hs table

theorem codedWidth_eq (hs : Counted s) (category : CodedCategory) :
    codedWidth s category = .ok (s.codedIndexBytes category) := by
  have hplace : category.ctorIdx < CodedCategory.all.length := by cases category <;> decide
  have hcounts : category.tables.mapM (rowCount s) = .ok (category.tables.map s.rowCount) :=
    mapM_eq fun table _ => rowCount_eq s table
  have htag := category.tagBits_le
  have hpower : 2 ^ category.tagBits ≤ 2 ^ 5 := Nat.pow_le_pow_right (by decide) htag
  have hshift : s.longest category.tables <<< category.tagBits < 2 ^ 64 := by
    rw [Nat.shiftLeft_eq]
    have hproduct := Nat.mul_le_mul (Nat.le_of_lt (longest_lt hs category.tables)) hpower
    unfold positions at hproduct
    omega
  rw [codedWidth, checkIndex_eq hplace, ok_bind, hcounts, ok_bind, ← Sizing.longest,
    shiftLeft_eq (by omega) hshift, ok_bind]
  rfl

theorem codedWidths_eq (hs : Counted s) :
    codedWidths s = .ok (CodedCategory.all.map s.codedIndexBytes) :=
  mapM_eq fun category _ => codedWidth_eq hs category

theorem columnBytes_eq (s : Sizing) (kind : ColumnKind) :
    columnBytes s (CodedCategory.all.map s.codedIndexBytes) kind = .ok (s.columnBytes kind) := by
  cases kind with
  | word | long | heap => rfl
  | index table =>
      rw [columnBytes, tableIndexBytes, rowCount_eq]
      rfl
  | coded category =>
      have hplace : CodedCategory.all[category.ctorIdx]? = some category := by
        cases category <;> rfl
      refine elementAt_eq ?_
      rw [List.getElem?_map, hplace]
      rfl

theorem rowBytesFrom_eq (s : Sizing) {columns : List Column} {size : Nat}
    (h : size + 4 * columns.length < 2 ^ 32) :
    rowBytesFrom s (CodedCategory.all.map s.codedIndexBytes) size columns =
      .ok (s.arrange size columns).2 := by
  induction columns generalizing size with
  | nil => rfl
  | cons column columns ih =>
      have hwidth := s.columnBytes_eq column.kind
      rw [List.length_cons] at h
      rw [rowBytesFrom, columnBytes_eq, ok_bind, add_eq (by omega), ok_bind, ih (by omega),
        Sizing.arrange]

theorem rowBytes_eq (s : Sizing) (table : TableId) :
    rowBytes s (CodedCategory.all.map s.codedIndexBytes) table = .ok (s.rowBytes table) := by
  have hcolumns := table.columns_length_le
  rw [rowBytes, rowBytesFrom_eq s (by omega), Sizing.arrange_eq, Nat.zero_add, Sizing.rowBytes]

theorem arrange_eq (s : Sizing) {columns : List Column} {offset : Nat}
    (h : offset + 4 * columns.length < 2 ^ 32) :
    arrange s (CodedCategory.all.map s.codedIndexBytes) offset columns =
      .ok (s.arrange offset columns) := by
  induction columns generalizing offset with
  | nil => rfl
  | cons column columns ih =>
      have hwidth := s.columnBytes_eq column.kind
      rw [List.length_cons] at h
      rw [arrange, columnBytes_eq, ok_bind, add_eq (by omega), ok_bind, ih (by omega), ok_bind,
        Sizing.arrange]
      rfl

theorem rowBytes_le (s : Sizing) (table : TableId) : s.rowBytes table ≤ 36 := by
  have hcolumns := table.columns_length_le
  have hwidths (columns : List Column) :
      columns.foldr (fun column size => s.columnBytes column.kind + size) 0 ≤
        4 * columns.length := by
    induction columns with
    | nil => exact Nat.le_refl _
    | cons column columns ih =>
        have hwidth := s.columnBytes_eq column.kind
        rw [List.foldr_cons, List.length_cons]
        omega
  have hrow := hwidths table.columns
  rw [Sizing.rowBytes]
  omega

/-! ### Tables -/

/-- The table of the rows that were cut out for it. A table knows that its layout is that of its
sizing and that its rows fill its bytes, which is looked at here. -/
def newTable (id : TableId) (sizing : Sizing) (widths : List Nat) (rows : Bytes) :
    Checked Table := do
  let (columns, rowSize) ← arrange sizing widths 0 id.columns
  if h : (columns, rowSize) = sizing.arrange 0 id.columns ∧
      rows.size = sizing.rowCount id * rowSize then
    return ⟨id, sizing, rows, columns, rowSize, h.1, h.2⟩
  else trap .outOfRange

/-- Reads a row count for each of the tables, from an offset on, and gives the offset behind. -/
def readCounts (data : Bytes) :
    List TableId → (offset : Nat) → Checked (List (TableId × Nat) × Nat)
  | [], offset => .ok ([], offset)
  | table :: tables, offset => do
      let count ← valueAt (unsigned 4) data offset
      checkIndex TableId.count table.number
      let (others, stop) ← readCounts data tables (offset + 4)
      return ((table, count) :: others, stop)

/-- Cuts the rows of each of the tables out of the stream, from an offset on. -/
def readTables (data : Bytes) (sizing : Sizing) (widths : List Nat) :
    List TableId → (offset : Nat) → Checked (List Table)
  | [], _ => .ok []
  | table :: tables, offset => do
      let count ← rowCount sizing table
      let width ← rowBytes sizing widths table
      let size ← mul 64 count width
      if offset + size ≤ data.size then
        let rows ← slice data offset (offset + size)
        let first ← newTable table sizing widths rows
        checkIndex TableId.count table.number
        let others ← readTables data sizing widths tables (offset + size)
        return first :: others
      else fail .outOfBounds

/-- Whether a table is in a mask. -/
def isDeclared (valid : Nat) (table : TableId) : Checked Bool := do
  let bit ← shiftLeft 64 1 table.number
  return valid &&& bit != 0

def declaredTables (valid : Nat) : List TableId → Checked (List TableId)
  | [] => .ok []
  | table :: tables => do
      let first ← isDeclared valid table
      let others ← declaredTables valid tables
      return if first then table :: others else others

/-- The place of the rows behind the counts, and behind the extra data if there is any. -/
def rowsStart (sizing : Sizing) (behind : Nat) : Checked Nat :=
  if sizing.hasExtraData then add 64 behind 4 else .ok behind

def tablesStream (data : Bytes) : Checked TablesStream :=
  if data.size < TablesStream.headerSize then fail .outOfBounds
  else do
    let majorVersion ← unsignedFrom 1 data 4
    let minorVersion ← unsignedFrom 1 data 5
    let heapSizes ← unsignedFrom 1 data 6
    let valid ← unsignedFrom 8 data 8
    let sorted ← unsignedFrom 8 data 16
    let unsupported ← shiftRight 64 valid TableId.count
    if unsupported ≠ 0 then fail (.malformed (.unsupportedTables valid))
    else
      let declared ← declaredTables valid TableId.all
      let (counts, behind) ← readCounts data declared TablesStream.headerSize
      let sizing := Sizing.ofCounts counts heapSizes
      let start ← rowsStart sizing behind
      let widths ← codedWidths sizing
      let present ← readTables data sizing widths declared start
      return { majorVersion, minorVersion, valid, sorted, sizing, present }

theorem newTable_eq {rows : Bytes} (h : rows.size = s.rowCount table * s.rowBytes table) :
    newTable table s (CodedCategory.all.map s.codedIndexBytes) rows =
      .ok (.ofBytes table s rows h) := by
  have hcolumns := table.columns_length_le
  have hsize : rows.size = s.rowCount table * (s.arrange 0 table.columns).2 := by
    rw [h, Sizing.arrange_eq, Nat.zero_add, Sizing.rowBytes]
  rw [newTable, arrange_eq s (by omega), ok_bind]
  exact dif_pos ⟨rfl, hsize⟩

theorem readCounts_eq (tables : List TableId) (offset : Nat) :
    readCounts data tables offset =
      lift ((TablesStream.readCounts data tables offset).map fun counts =>
        (counts, offset + 4 * tables.length)) := by
  induction tables generalizing offset with
  | nil => rfl
  | cons table tables ih =>
      rw [readCounts, TablesStream.readCounts]
      by_cases hfits : offset + 4 ≤ data.size
      · have hstop : offset + 4 + 4 * tables.length = offset + 4 * (tables.length + 1) := by omega
        rw [unsigned_valueAt hfits, ok_bind, checkIndex_eq table.number_lt_count, ok_bind, ih,
          if_pos hfits, hstop]
        cases TablesStream.readCounts data tables (offset + 4) <;> rfl
      · rw [unsigned_valueAt_outside (Nat.not_le.1 hfits), if_neg hfits]
        rfl

theorem readTables_eq (hs : Counted s) (tables : List TableId) (offset : Nat) :
    readTables data s (CodedCategory.all.map s.codedIndexBytes) tables offset =
      lift (TablesStream.readTables data s tables offset) := by
  induction tables generalizing offset with
  | nil => rfl
  | cons table tables ih =>
      have hwidth := rowBytes_le s table
      have hproduct := Nat.mul_le_mul (Nat.le_of_lt (hs table)) hwidth
      have hsize : s.rowCount table * s.rowBytes table < 2 ^ 64 := by
        unfold positions at hproduct
        omega
      rw [readTables, TablesStream.readTables, rowCount_eq, ok_bind, rowBytes_eq, ok_bind,
        mul_eq hsize, ok_bind]
      by_cases hfits : offset + s.rowCount table * s.rowBytes table ≤ data.size
      · have hcut : offset ≤ offset + s.rowCount table * s.rowBytes table := Nat.le_add_right ..
        have hrows : (data.extract offset
            (offset + s.rowCount table * s.rowBytes table)).size =
              s.rowCount table * s.rowBytes table := by
          rw [Array.size_extract]
          omega
        rw [if_pos hfits, dif_pos hfits, slice_eq ⟨hcut, hfits⟩, ok_bind, newTable_eq hrows,
          ok_bind, checkIndex_eq table.number_lt_count, ok_bind]
        exact bind_agrees (ih _) fun others _ => rfl
      · rw [if_neg hfits, dif_neg hfits]
        rfl

theorem isDeclared_eq (valid : Nat) (table : TableId) :
    isDeclared valid table = .ok (valid.testBit table.number) := by
  have hnumber : table.number < 45 := table.number_lt_count
  have hbit : 1 <<< table.number < 2 ^ 64 := by
    rw [Nat.one_shiftLeft]
    exact Nat.pow_lt_pow_right (by decide) (by omega)
  rw [isDeclared, shiftLeft_eq (by omega) hbit, ok_bind, Nat.one_shiftLeft, Nat.and_two_pow]
  cases valid.testBit table.number with
  | false => simp [pure, Except.pure]
  | true => simp [pure, Except.pure]

theorem declaredTables_eq (valid : Nat) (tables : List TableId) :
    declaredTables valid tables =
      .ok (tables.filter fun table => valid.testBit table.number) := by
  induction tables with
  | nil => rfl
  | cons table tables ih =>
      rw [declaredTables, isDeclared_eq, ok_bind, ih, ok_bind, List.filter_cons]
      rfl

theorem rowsStart_eq {behind : Nat} (h : behind + 4 < 2 ^ 64) :
    rowsStart s behind = .ok (behind + if s.hasExtraData then 4 else 0) := by
  rw [rowsStart]
  cases s.hasExtraData with
  | false => rfl
  | true => exact add_eq h

theorem readCounts_counted {tables : List TableId} {offset : Nat}
    {counts : List (TableId × Nat)} {heapSizes : Nat}
    (h : TablesStream.readCounts data tables offset = .ok counts) :
    Counted (Sizing.ofCounts counts heapSizes) :=
  Sizing.rowCount_lt (by decide) (TablesStream.readCounts_ok h).2

theorem tablesStream_eq (data : Bytes) :
    tablesStream data = lift (TablesStream.parse data) := by
  rw [tablesStream, TablesStream.parse_eq]
  refine ite_agrees (fun _ => rfl) fun hlong => ?_
  have hsize : 24 ≤ data.size := Nat.not_lt.1 hlong
  rw [unsignedFrom_eq (by omega), ok_bind, unsignedFrom_eq (by omega), ok_bind,
    unsignedFrom_eq (by omega), ok_bind, unsignedFrom_eq (by omega), ok_bind,
    unsignedFrom_eq (by omega), ok_bind, shiftRight_eq (by decide), ok_bind]
  simp only [Bytes.littleEndian_one]
  refine ite_agrees (fun _ => rfl) fun _ => ?_
  rw [declaredTables_eq, ok_bind, readCounts_eq, ← TablesStream.tablesOf]
  cases hcounts : TablesStream.readCounts data (TablesStream.tablesOf (data.littleEndian 8 8))
      TablesStream.headerSize with
  | error e => rfl
  | ok counts =>
      have hs : Counted (Sizing.ofCounts counts (data.byteAt 6)) := readCounts_counted hcounts
      have htables : (TablesStream.tablesOf (data.littleEndian 8 8)).length ≤ TableId.count :=
        List.length_filter_le _ TableId.all
      have hbehind : TablesStream.headerSize +
          4 * (TablesStream.tablesOf (data.littleEndian 8 8)).length + 4 < 2 ^ 64 := by
        unfold TablesStream.headerSize
        unfold TableId.count at htables
        omega
      simp only [Except.map, lift_ok, ok_bind]
      rw [rowsStart_eq hbehind, ok_bind, codedWidths_eq hs, ok_bind, readTables_eq hs]
      cases TablesStream.readTables data (Sizing.ofCounts counts (data.byteAt 6))
        (TablesStream.tablesOf (data.littleEndian 8 8)) _ <;> rfl

end Machine

end CliMeta
