import CliMeta.Proofs.Reader.Inversion
import CliMeta.Table.Stream

/-!
What the tables of an accepted stream have in common. `Parses` says all that an accepted stream owes
to its bytes; `Consistent` is what follows for the tables among each other: each is laid out by the
sizing of the whole stream, a table with rows is one of those present, and row counts are 32-bit
words. What is said about rows, cells and references rests on these facts and not on the bytes.
-/

namespace CliMeta

namespace Sizing

theorem two_le_rowBytes (s : Sizing) (table : TableId) : 2 ≤ s.rowBytes table := by
  rw [rowBytes]
  cases h : table.columns with
  | nil => exact absurd h table.columns_ne_nil
  | cons column columns =>
      have hwidth := s.columnBytes_eq column.kind
      rw [List.foldr_cons]
      omega

/-! ### Counts -/

variable {counts : List (TableId × Nat)} {heapSizes : Nat}

theorem mem_of_rowCount_pos {table : TableId} (h : 0 < (ofCounts counts heapSizes).rowCount table) :
    (table, (ofCounts counts heapSizes).rowCount table) ∈ counts := by
  have hcount : (ofCounts counts heapSizes).rowCount table =
      (counts.reverse.lookup table).getD 0 := rfl
  rw [hcount] at h ⊢
  cases hlookup : counts.reverse.lookup table with
  | none =>
      rw [hlookup] at h
      exact absurd h (Nat.lt_irrefl 0)
  | some count =>
      obtain ⟨front, back, hsplit, -⟩ := List.lookup_eq_some_iff.1 hlookup
      rw [← List.mem_reverse, hsplit]
      simp

theorem rowCount_lt {bound : Nat} (hbound : 0 < bound) (h : ∀ entry ∈ counts, entry.2 < bound)
    (table : TableId) : (ofCounts counts heapSizes).rowCount table < bound := by
  obtain hzero | hpos := Nat.eq_zero_or_pos ((ofCounts counts heapSizes).rowCount table)
  · rwa [hzero]
  · exact h _ (mem_of_rowCount_pos hpos)

end Sizing

/-- A table is known by its id, its sizing and its bytes; the rest follows from them. -/
theorem Table.eq_of_data {t u : Table} (hid : t.id = u.id) (hsizing : t.sizing = u.sizing)
    (hdata : t.data = u.data) : t = u := by
  cases t with
  | mk id sizing data columns rowSize harranged hsize =>
    cases u with
    | mk id' sizing' data' columns' rowSize' harranged' hsize' =>
      simp only at hid hsizing hdata
      subst hid hsizing hdata
      obtain ⟨rfl, rfl⟩ := Prod.mk.inj (harranged.trans harranged'.symm)
      rfl

namespace TablesStream

variable {data : Bytes} {s : TablesStream}

/-! ### The steps of reading -/

theorem readCounts_cons {table : TableId} {tables : List TableId} {offset : Nat}
    {counts : List (TableId × Nat)} :
    readCounts data (table :: tables) offset = .ok counts ↔
      offset + 4 ≤ data.size ∧ ∃ others, readCounts data tables (offset + 4) = .ok others ∧
        counts = (table, data.littleEndian offset 4) :: others := by
  rw [readCounts]
  by_cases h : offset + 4 ≤ data.size
  · rw [if_pos h]
    cases hothers : readCounts data tables (offset + 4) with
    | error e => simp [bind, Except.bind]
    | ok others => simp [h, bind, Except.bind, pure, Except.pure, eq_comm]
  · simp [h, throw, throwThe, MonadExceptOf.throw]

theorem readTables_cons {sizing : Sizing} {table : TableId} {tables : List TableId}
    {offset stop : Nat} {present : List Table}
    (hstop : stop = offset + sizing.rowCount table * sizing.rowBytes table) :
    readTables data sizing (table :: tables) offset = .ok present ↔
      stop ≤ data.size ∧ ∃ t others, t.id = table ∧ t.sizing = sizing ∧
        t.data = data.extract offset stop ∧ readTables data sizing tables stop = .ok others ∧
        present = t :: others := by
  subst hstop
  rw [readTables]
  by_cases h : offset + sizing.rowCount table * sizing.rowBytes table ≤ data.size
  · rw [dif_pos h]
    cases hothers : readTables data sizing tables
        (offset + sizing.rowCount table * sizing.rowBytes table) with
    | error e => simp [bind, Except.bind]
    | ok others =>
        simp only [bind, Except.bind, pure, Except.pure, Except.ok.injEq]
        constructor
        · rintro rfl
          exact ⟨h, _, others, rfl, rfl, rfl, rfl, rfl⟩
        · rintro ⟨-, t, others', hid, hsizing, hdata, rfl, rfl⟩
          exact congrArg (· :: others) (Table.eq_of_data hid.symm hsizing.symm hdata.symm)
  · rw [dif_neg h]
    simp [h, throw, throwThe, MonadExceptOf.throw]

def rowsOffset (s : TablesStream) : Nat :=
  headerSize + 4 * (tablesOf s.valid).length + if s.sizing.hasExtraData then 4 else 0

/-- The stream is what the bytes hold. -/
structure Parses (data : Bytes) (s : TablesStream) : Prop where
  header : headerSize ≤ data.size
  majorVersion : s.majorVersion = data.byteAt 4
  minorVersion : s.minorVersion = data.byteAt 5
  valid : s.valid = data.littleEndian 8 8
  supported : s.valid >>> TableId.count = 0
  sorted : s.sorted = data.littleEndian 16 8
  counts : ∃ counts, readCounts data (tablesOf s.valid) headerSize = .ok counts ∧
    s.sizing = Sizing.ofCounts counts (data.byteAt 6)
  tables : readTables data s.sizing (tablesOf s.valid) s.rowsOffset = .ok s.present

theorem parse_eq (data : Bytes) :
    parse data =
      if data.size < headerSize then .error .outOfBounds
      else
        let valid := data.littleEndian 8 8
        if valid >>> TableId.count ≠ 0 then .error (.malformed (.unsupportedTables valid))
        else
          match readCounts data (tablesOf valid) headerSize with
          | .error e => .error e
          | .ok counts =>
              let sizing := Sizing.ofCounts counts (data.byteAt 6)
              let extra := if sizing.hasExtraData then 4 else 0
              (readTables data sizing (tablesOf valid)
                (headerSize + 4 * (tablesOf valid).length + extra)).map fun present =>
                  ⟨data.byteAt 4, data.byteAt 5, valid, data.littleEndian 16 8, sizing,
                    present⟩ := by
  rw [parse]
  by_cases hheader : data.size < headerSize
  · rw [if_pos hheader, if_pos hheader]
    rfl
  rw [if_neg hheader, if_neg hheader]
  by_cases hsupported : data.littleEndian 8 8 >>> TableId.count ≠ 0
  · simp only [if_pos hsupported]
    rfl
  simp only [if_neg hsupported]
  simp only [bind, Except.bind, pure, Except.pure, Except.map]
  cases readCounts data (tablesOf (data.littleEndian 8 8)) headerSize with
  | error e => rfl
  | ok counts => rfl

theorem parse_eq_ok_iff : parse data = .ok s ↔ Parses data s := by
  rw [parse_eq]
  constructor
  · intro h
    split at h
    · cases h
    simp only at h
    split at h
    · cases h
    rename_i hheader hsupported
    split at h
    · cases h
    rename_i counts hcounts
    obtain ⟨present, htables, rfl⟩ := Reader.exists_of_map_ok h
    exact ⟨by omega, rfl, rfl, rfl, by simpa using hsupported, rfl, ⟨counts, hcounts, rfl⟩, htables⟩
  · intro h
    obtain ⟨counts, hcounts, hsizing⟩ := h.counts
    have hheader := h.header
    have hsupported := h.supported
    have htables := h.tables
    rw [if_neg (by omega)]
    simp only [← h.valid, hcounts, hsupported, ← hsizing, ne_eq, not_true_eq_false, if_false]
    rw [rowsOffset] at htables
    rw [htables, ← h.majorVersion, ← h.minorVersion, ← h.sorted]
    rfl

/-! ### What is read -/

theorem readCounts_ok {tables : List TableId} {offset : Nat} {counts : List (TableId × Nat)}
    (h : readCounts data tables offset = .ok counts) :
    counts.map Prod.fst = tables ∧ ∀ entry ∈ counts, entry.2 < 0x100000000 := by
  induction tables generalizing offset counts with
  | nil =>
      obtain rfl := Except.ok.inj h
      exact ⟨rfl, List.forall_mem_nil _⟩
  | cons table tables ih =>
      obtain ⟨hinside, others, hothers, rfl⟩ := readCounts_cons.1 h
      obtain ⟨htables, hwords⟩ := ih hothers
      refine ⟨by rw [List.map_cons, htables], List.forall_mem_cons.2 ⟨?_, hwords⟩⟩
      exact (Reader.StandsAt.of_littleEndian hinside).1

theorem readTables_ok {sizing : Sizing} {tables : List TableId} {offset : Nat}
    {present : List Table} (h : readTables data sizing tables offset = .ok present) :
    present.map Table.id = tables ∧
      ∀ t ∈ present, t.sizing = sizing ∧ t.data.size ≤ data.size := by
  induction tables generalizing offset present with
  | nil =>
      obtain rfl := Except.ok.inj h
      exact ⟨rfl, List.forall_mem_nil _⟩
  | cons table tables ih =>
      obtain ⟨hinside, t, others, rfl, hsizing, hdata, hothers, rfl⟩ := (readTables_cons rfl).1 h
      obtain ⟨htables, htail⟩ := ih hothers
      refine ⟨by rw [List.map_cons, htables], List.forall_mem_cons.2 ⟨⟨hsizing, ?_⟩, htail⟩⟩
      rw [hdata, Array.size_extract]
      omega

/-- What holds of the tables of an accepted stream among each other. -/
structure Consistent (s : TablesStream) : Prop where
  sizing : ∀ t ∈ s.present, t.sizing = s.sizing
  present : ∀ table, 0 < s.rowCount table → table ∈ s.present.map Table.id
  word : ∀ table, s.rowCount table < 0x100000000

theorem Parses.consistent (h : Parses data s) : s.Consistent where
  sizing t ht := ((readTables_ok h.tables).2 t ht).1
  present table hrows := by
    obtain ⟨counts, hcounts, hsizing⟩ := h.counts
    rw [(readTables_ok h.tables).1, ← (readCounts_ok hcounts).1]
    rw [rowCount, hsizing] at hrows
    exact List.mem_map_of_mem (Sizing.mem_of_rowCount_pos hrows)
  word table := by
    obtain ⟨counts, hcounts, hsizing⟩ := h.counts
    rw [rowCount, hsizing]
    exact Sizing.rowCount_lt (by decide) (readCounts_ok hcounts).2 table

theorem Parses.rows_inside (h : Parses data s) (table : TableId) :
    s.rowCount table * s.sizing.rowBytes table ≤ data.size := by
  obtain hzero | hpos := Nat.eq_zero_or_pos (s.rowCount table)
  · rw [hzero, Nat.zero_mul]
    exact Nat.zero_le _
  · obtain ⟨t, ht, rfl⟩ := List.mem_map.1 (h.consistent.present table hpos)
    obtain ⟨hsizing, hsize⟩ := (readTables_ok h.tables).2 t ht
    rwa [t.size_eq, t.rowSize_eq, hsizing] at hsize

/-! ### Tables and rows by number -/

variable {table : TableId} {t : Table}

theorem table_eq_ok : s.table table = .ok t ↔ s.table? table = some t := by
  rw [TablesStream.table]
  cases s.table? table <;> simp

theorem of_table? (h : s.table? table = some t) : t ∈ s.present ∧ t.id = table :=
  ⟨List.mem_of_find?_eq_some h, by simpa using List.find?_some h⟩

theorem isPresent_iff : s.isPresent table = true ↔ ∃ t, s.table? table = some t :=
  Option.isSome_iff_exists

namespace Consistent

theorem sizing_eq (h : s.Consistent) (ht : s.table? table = some t) : t.sizing = s.sizing :=
  h.sizing t (of_table? ht).1

theorem rowCount_eq (h : s.Consistent) (ht : s.table? table = some t) :
    t.rowCount = s.rowCount table := by
  rw [Table.rowCount, h.sizing_eq ht, (of_table? ht).2, rowCount]

theorem exists_table (h : s.Consistent) (hrows : 0 < s.rowCount table) :
    ∃ t, s.table? table = some t := by
  obtain ⟨t, ht, rfl⟩ := List.mem_map.1 (h.present table hrows)
  exact Option.isSome_iff_exists.1 (List.find?_isSome.2 ⟨t, ht, by simp⟩)

theorem exists_row (h : s.Consistent) {index : Nat} (hindex : index < s.rowCount table) :
    ∃ r, s.row table index = .ok r ∧ r.id = ⟨table, index⟩ := by
  obtain ⟨t, ht⟩ := h.exists_table (Nat.zero_lt_of_lt hindex)
  have hinside : index < t.rowCount := by rwa [h.rowCount_eq ht]
  refine ⟨⟨t, index, hinside⟩, ?_, ?_⟩
  · rw [TablesStream.row, table_eq_ok.2 ht]
    exact dif_pos hinside
  · rw [Row.id, (of_table? ht).2]

end Consistent

end TablesStream

end CliMeta
