import CliMeta.Proofs.Table.Accepted
import CliMeta.Proofs.Table.Cells
import CliMeta.Proofs.Table.Writer
import Mathlib.Data.List.Basic

/-!
A tables stream that was written is read back, whatever follows it: the header fields, which tables
there are and how many rows each has, and the number in every column of every row. Where a cell
stands depends on the widths of all columns in front of it, and these on the row counts of all
tables; `StandsAt` carries the place along, from the stream to a table, to a row and to a column.
-/

namespace CliMeta

open Reader

variable {data : Bytes} {position : Nat} {rest : List UInt8}

/-! ### Rows -/

theorem Sizing.place_reads {s : Sizing} {columns : List Column} {row : List Nat}
    (hfits : s.FitsRow columns row) {start offset : Nat}
    (h : StandsAt data (start + offset) (s.encodeRow columns row) rest) :
    ((s.place offset columns).map fun placed =>
      data.littleEndian (start + placed.offset) placed.width) = row := by
  induction hfits generalizing offset with
  | nil => rfl
  | @cons column value columns row hvalue _ ih =>
      have hbehind := h.behind
      rw [littleEndianBytes_length, Nat.add_assoc] at hbehind
      rw [place, List.map_cons, ih hbehind, h.front.littleEndian hvalue]

namespace Table

/-- The rows of a table are these, as far as anyone can tell who asks for rows and cells. -/
structure Holds (t : Table) (rows : List (List Nat)) : Prop where
  rowCount : t.rowCount = rows.length
  rows_eq : t.rows.map .ok = (List.range rows.length).map t.row
  row_ok_iff : ∀ index, (∃ r, t.row index = .ok r) ↔ index < rows.length
  /-- The numbers of the columns, first read from the row and then from the table. -/
  cells : ∀ index row, rows[index]? = some row → ∃ r, t.row index = .ok r ∧
    t.columns.map r.raw = row ∧
    (List.range t.columns.length).map (t.storedCell index) = row.map .ok

/-- All the stored cells of a row are the numbers that are read from the row. -/
theorem storedCells_eq (r : Row) :
    (List.range r.table.columns.length).map (r.table.storedCell r.index) =
      (r.table.columns.map r.raw).map .ok := by
  apply List.ext_getElem?
  intro column
  rw [List.getElem?_map, List.getElem?_map, List.getElem?_map]
  by_cases h : column < r.table.columns.length
  · have hplaced := List.getElem?_eq_getElem h
    rw [List.getElem?_range h, Option.map_some, storedCell_eq hplaced, hplaced, Option.map_some,
      Option.map_some, Row.raw_eq_stored (List.getElem_mem h)]
  · have hnone := List.getElem?_eq_none (Nat.le_of_not_lt h)
    rw [List.getElem?_eq_none (by simpa using h), hnone]
    rfl

theorem holds_of_data {t : Table} {rows : List (List Nat)} (hcount : t.rowCount = rows.length)
    (hfits : ∀ row ∈ rows, t.sizing.FitsRow t.id.columns row)
    (hdata : t.data = (rows.flatMap (t.sizing.encodeRow t.id.columns)).toArray) :
    t.Holds rows where
  rowCount := hcount
  rows_eq := by
    rw [← hcount]
    exact map_rows fun r hr => (row_eq_ok.2 ⟨hr, rfl⟩).symm
  row_ok_iff index := by
    rw [← hcount, Table.row]
    by_cases h : index < t.rowCount
    · simp [h]
    · simp [h]
  cells index row hrow := by
    have hlengths : ∀ row ∈ rows, (t.sizing.encodeRow t.id.columns row).length = t.rowSize := by
      intro row hmem
      rw [t.rowSize_eq]
      exact Sizing.encodeRow_length (hfits row hmem)
    have hinside : index < t.rowCount := by
      rw [hcount]
      exact (List.getElem?_eq_some_iff.1 hrow).1
    have hstart : StandsAt t.data 0 (rows.flatMap (t.sizing.encodeRow t.id.columns)) [] :=
      ⟨Nat.zero_le _, by rw [hdata, List.drop_zero, List.append_nil]⟩
    obtain ⟨behind, hstands⟩ := standsAt_item hlengths hstart hrow
    rw [Nat.zero_add, ← Nat.add_zero (index * t.rowSize)] at hstands
    let r : Row := ⟨t, index, hinside⟩
    have hraw : t.columns.map r.raw = row := by
      calc
        t.columns.map r.raw = t.columns.map fun placed => t.stored placed index :=
          List.map_congr_left fun placed hmem => r.raw_eq_stored hmem
        _ = (t.sizing.layout t.id).map fun placed => t.stored placed index := by rw [t.columns_eq]
        _ = row := Sizing.place_reads (hfits row (List.mem_of_getElem? hrow)) hstands
    refine ⟨r, dif_pos hinside, hraw, ?_⟩
    rw [← hraw]
    exact storedCells_eq r

end Table

/-! ### Counts and tables -/

namespace TablesStream

theorem readCounts_written {count : TableId → Nat} {tables : List TableId}
    (hcount : ∀ table ∈ tables, count table < 0x100000000)
    (h : StandsAt data position
      (tables.flatMap fun table => littleEndianBytes (count table) 4) rest) :
    readCounts data tables position = .ok (tables.map fun table => (table, count table)) := by
  induction tables generalizing position with
  | nil => rfl
  | cons table tables ih =>
      obtain ⟨hfirst, hothers⟩ := List.forall_mem_cons.1 hcount
      have hbehind := h.behind
      have hsize := h.front.size_eq
      rw [littleEndianBytes_length] at hbehind hsize
      refine readCounts_cons.2 ⟨by omega, _, ih hothers hbehind, ?_⟩
      rw [List.map_cons, h.front.littleEndian hfirst]

theorem readTables_written {sizing : Sizing} {write : TableId → List UInt8}
    {tables : List TableId}
    (hlength : ∀ table, (write table).length = sizing.rowCount table * sizing.rowBytes table)
    (h : StandsAt data position (tables.flatMap write) rest) :
    ∃ present, readTables data sizing tables position = .ok present ∧
      ∀ t ∈ present, t.sizing = sizing ∧ t.data = (write t.id).toArray := by
  induction tables generalizing position with
  | nil => exact ⟨[], rfl, List.forall_mem_nil _⟩
  | cons table tables ih =>
      obtain ⟨present, hpresent, htables⟩ := ih h.behind
      have hsize := h.front.size_eq
      have hrows := extract_of_standsAt h.front
      rw [hlength] at hpresent hsize hrows
      have hdata : (write table).toArray.size =
          sizing.rowCount table * sizing.rowBytes table := hlength table
      refine ⟨Table.ofBytes table sizing (write table).toArray hdata :: present,
        (readTables_cons rfl).2 ⟨by omega, _, present, rfl, rfl, hrows.symm, hpresent, rfl⟩, ?_⟩
      exact List.forall_mem_cons.2 ⟨⟨rfl, rfl⟩, htables⟩

end TablesStream

theorem Sizing.ofCounts_eq {count : TableId → Nat} {tables : List TableId} (heapSizes : Nat)
    (habsent : ∀ table, table ∉ tables → count table = 0) :
    Sizing.ofCounts (tables.map fun table => (table, count table)) heapSizes =
      ⟨count, heapSizes⟩ := by
  have hcount : ∀ table, (Sizing.ofCounts (tables.map fun table => (table, count table))
      heapSizes).rowCount table = count table := by
    intro table
    by_cases h : table ∈ tables
    · show ((tables.map fun table => (table, count table)).reverse.lookup table).getD 0 = _
      rw [← List.map_reverse, List.lookup_graph count (List.mem_reverse.2 h)]
      rfl
    · rw [habsent table h]
      refine Nat.eq_zero_of_not_pos fun hpos => h ?_
      obtain ⟨table', hmem, heq⟩ := List.mem_map.1 (mem_of_rowCount_pos hpos)
      rwa [(Prod.mk.inj heq).1] at hmem
  exact congrArg (Sizing.mk · heapSizes) (funext hcount)

/-! ### Headers -/

/-- The fields of a written header, each at its place. -/
structure HeaderAt (data : Bytes) (c : TablesContent) : Prop where
  majorVersion : data.byteAt 4 = c.majorVersion.toNat
  minorVersion : data.byteAt 5 = c.minorVersion.toNat
  heapSizes : data.byteAt 6 = c.heapSizes.toNat
  valid : data.littleEndian 8 8 = c.valid
  sorted : data.littleEndian 16 8 = c.sorted.toNat

theorem TablesContent.headerAt {c : TablesContent} (h : StandsAt data 0 c.encodeHeader rest) :
    HeaderAt data c := by
  have hversions := h.behind.front
  have hmasks := h.behind.behind
  have hsorted := hmasks.behind
  simp only [littleEndianBytes_length, List.length_cons, List.length_nil]
    at hversions hmasks hsorted
  have hvalid : c.valid < 1 <<< (8 * 8) := Nat.lt_trans c.valid_lt (by decide)
  exact {
    majorVersion := hversions.byteAt
    minorVersion := hversions.tail.byteAt
    heapSizes := hversions.tail.tail.byteAt
    valid := hmasks.front.littleEndian hvalid
    sorted := hsorted.littleEndian c.sorted.toNat_lt }

/-! ### Streams -/

namespace TablesStream

/-- The stream shows what was written. -/
structure Holds (s : TablesStream) (c : TablesContent) : Prop where
  majorVersion : s.majorVersion = c.majorVersion.toNat
  minorVersion : s.minorVersion = c.minorVersion.toNat
  heapSizes : s.sizing.heapSizes = c.heapSizes.toNat
  isPresent : ∀ table, s.isPresent table = c.isPresent table
  isSorted : ∀ table, s.isSorted table = c.sorted.toNat.testBit table.number
  rowCount : ∀ table, s.rowCount table = c.rowCount table
  tables : ∀ table, c.isPresent table = true →
    ∃ t, s.table table = .ok t ∧ t.id = table ∧ t.Holds (c.rows table)

theorem holds_of_parses {c : TablesContent} (h : c.WellFormed) {s : TablesStream}
    (hparses : Parses data s) (hmajor : s.majorVersion = c.majorVersion.toNat)
    (hminor : s.minorVersion = c.minorVersion.toNat) (hvalid : s.valid = c.valid)
    (hsorted : s.sorted = c.sorted.toNat) (hsizing : s.sizing = c.sizing)
    (hrows : ∀ t ∈ s.present, t.data = (c.encodeRows t.id).toArray) : s.Holds c := by
  have hids : s.present.map Table.id = c.present := by
    rw [(readTables_ok hparses.tables).1, hvalid, c.tablesOf_valid]
  have hpresent : ∀ table, s.isPresent table = true ↔ c.isPresent table = true := by
    intro table
    rw [← TablesContent.mem_present, ← hids, isPresent, table?, List.find?_isSome, List.mem_map]
    simp
  refine ⟨hmajor, hminor, congrArg Sizing.heapSizes hsizing,
    fun table => Bool.eq_iff_iff.2 (hpresent table), fun table => by rw [isSorted, hsorted],
    fun table => by rw [TablesStream.rowCount, hsizing]; rfl, ?_⟩
  intro table htable
  obtain ⟨t, ht⟩ := isPresent_iff.1 ((hpresent table).2 htable)
  obtain ⟨hmem, hid⟩ := of_table? ht
  subst hid
  have hts := (hparses.consistent.sizing t hmem).trans hsizing
  refine ⟨t, table_eq_ok.2 ht, rfl, Table.holds_of_data ?_ ?_ ?_⟩
  · rw [Table.rowCount, hts]
    rfl
  · rw [hts]
    exact h.fits t.id
  · rw [hts, hrows t hmem]
    rfl

/-- Reading gives back what was written, whatever bytes follow. -/
theorem parse_written (c : TablesContent) (h : c.WellFormed) (rest : List UInt8) :
    ∃ s, parse (c.encode ++ rest).toArray = .ok s ∧ s.Holds c := by
  generalize hdata : (c.encode ++ rest).toArray = data
  have hstands : StandsAt data 0 c.encode rest := ⟨Nat.zero_le _, by simp [← hdata]⟩
  have hheader := TablesContent.headerAt hstands.front
  have hcounts := hstands.behind.front
  have htables := hstands.behind.behind.behind
  rw [Nat.zero_add, TablesContent.encodeHeader_length] at hcounts htables
  rw [TablesContent.encodeCounts_length, TablesContent.encodeExtra_length] at htables
  -- the counts give the sizing back, and with it the places of the tables
  have hread := readCounts_written (fun table _ => h.rowCount_lt table) hcounts
  have hsizing : Sizing.ofCounts (c.present.map fun table => (table, c.rowCount table))
      c.heapSizes.toNat = c.sizing :=
    Sizing.ofCounts_eq _ fun _ habsent => TablesContent.rowCount_of_absent habsent
  obtain ⟨present, hpresent, hrows⟩ := readTables_written h.encodeRows_length htables
  have hparses : Parses data ⟨c.majorVersion.toNat, c.minorVersion.toNat, c.valid, c.sorted.toNat,
      c.sizing, present⟩ := {
    header := by
      have hsize := hstands.front.size_eq
      rw [TablesContent.encodeHeader_length] at hsize
      omega
    majorVersion := hheader.majorVersion.symm
    minorVersion := hheader.minorVersion.symm
    valid := hheader.valid.symm
    supported := by
      rw [Nat.shiftRight_eq_div_pow, ← Nat.one_shiftLeft]
      exact Nat.div_eq_of_lt c.valid_lt
    sorted := hheader.sorted.symm
    counts := ⟨_, by rwa [c.tablesOf_valid], by rw [hheader.heapSizes]; exact hsizing.symm⟩
    tables := by rwa [rowsOffset, c.tablesOf_valid] }
  exact ⟨_, parse_eq_ok_iff.2 hparses,
    holds_of_parses h hparses rfl rfl rfl rfl rfl fun t ht => (hrows t ht).2⟩

/-- A type whose fields begin behind all the rows of `Field`; names are offsets into a large heap,
and four bytes stand between counts and rows. -/
def contentWithFields (fields : Nat) : TablesContent where
  reserved := 0
  majorVersion := 2
  minorVersion := 0
  heapSizes := 0x41
  padding := 1
  sorted := 0x10
  extra := 0xFFFFFFFF
  rows?
    | .typeDef => some [[0x100001, 0x12345, 0, 5, fields + 1, 1]]
    | .field => some (List.replicate fields [0x16, 0x20000, 0xFFFF])
    | .methodDef => some []
    | _ => none

/-- With so many rows of `Field` a reference to them takes four bytes. -/
theorem contentWithFields_wellFormed {fields : Nat} (hmany : 0x10000 ≤ fields)
    (hword : fields + 1 < 0x100000000) : (contentWithFields fields).WellFormed := by
  have hfields : (contentWithFields fields).rowCount .field = fields := List.length_replicate
  have hwide : (contentWithFields fields).sizing.columnBytes (.index .field) = 4 := by
    rw [Sizing.columnBytes, Sizing.tableIndexBytes]
    exact if_neg (Nat.not_lt.2 (Nat.le_trans hmany (Nat.le_of_eq hfields.symm)))
  have hlarge : (contentWithFields fields).sizing.columnBytes (.heap .string) = 4 := by
    have hflag : (0x41 : UInt8).toNat.testBit 0 = true := by decide
    exact if_pos hflag
  have hother : ∀ table,
      table = .typeDef ∨ table = .field ∨ (contentWithFields fields).rows table = [] := by
    intro table
    cases table <;> simp [TablesContent.rows, contentWithFields]
  -- 16 bits fit everywhere, more only where the column takes four bytes
  have hfits : ∀ kind value, value < 1 <<< (8 * 2) ∨
      (contentWithFields fields).sizing.columnBytes kind = 4 ∧ value < 1 <<< (8 * 4) →
        value < 1 <<< (8 * (contentWithFields fields).sizing.columnBytes kind) := by
    rintro kind value (hsmall | ⟨hwidth, hvalue⟩)
    · obtain hwidth | hwidth := (contentWithFields fields).sizing.columnBytes_eq kind
      · rwa [hwidth]
      · rw [hwidth]
        exact Nat.lt_trans hsmall (by decide)
    · rwa [hwidth]
  constructor
  · intro table
    obtain rfl | rfl | hnone := hother table
    · exact Nat.lt_of_lt_of_le (Nat.lt_succ_self 1) (by decide)
    · rw [hfields]
      omega
    · rw [TablesContent.rowCount, hnone]
      decide
  · intro table row hrow
    obtain rfl | rfl | hnone := hother table
    · obtain rfl := List.mem_singleton.1 hrow
      simp only [Sizing.FitsRow, TableId.columns, Column.long, Column.string, Column.coded,
        Column.index, List.forall₂_cons, List.forall₂_nil_left_iff, and_true]
      exact ⟨hfits _ _ (.inr ⟨rfl, by decide⟩), hfits _ _ (.inr ⟨hlarge, by decide⟩),
        hfits _ _ (.inl (by decide)), hfits _ _ (.inl (by decide)),
        hfits _ _ (.inr ⟨hwide, hword⟩), hfits _ _ (.inl (by decide))⟩
    · obtain rfl := List.eq_of_mem_replicate hrow
      simp only [Sizing.FitsRow, TableId.columns, Column.word, Column.string, Column.blob,
        List.forall₂_cons, List.forall₂_nil_left_iff, and_true]
      exact ⟨hfits _ _ (.inl (by decide)), hfits _ _ (.inr ⟨hlarge, by decide⟩),
        hfits _ _ (.inl (by decide))⟩
    · rw [hnone] at hrow
      cases hrow

theorem parse_written_fields : (contentWithFields 0x10000).WellFormed ∧
    ∃ s, parse ((contentWithFields 0x10000).encode ++ [0xFF, 0x00]).toArray = .ok s ∧
      s.Holds (contentWithFields 0x10000) := by
  have hwellFormed : (contentWithFields 0x10000).WellFormed :=
    contentWithFields_wellFormed (Nat.le_refl _) (by decide)
  exact ⟨hwellFormed, parse_written _ hwellFormed _⟩

end TablesStream

end CliMeta
