import CliMeta.Proofs.Table.Declared
import CliMeta.Proofs.Table.Reference

/-!
Tokens and the rows that they stand for. A token numbers a table and counts a row of it from 1 in
24 bits, while row counts are 32-bit words, so how many rows a table has decides whether its tokens
tell its rows apart. A stream that is short enough has no table with too many.
-/

namespace CliMeta

/-- The token names the row: its table, and its place counted from 1. -/
structure Token.Names (t : Token) (id : RowId) : Prop where
  table : TableId.ofNumber? t.tableNumber = some id.table
  row : t.row = id.index + 1

namespace Token

theorem ofParts_names_iff (id : RowId) :
    (ofParts id.table.number (id.index + 1)).Names id ↔ id.index + 1 < 0x1000000 := by
  constructor
  · intro h
    have hrow := h.row
    rw [row_ofParts] at hrow
    omega
  · intro hlt
    refine ⟨?_, ?_⟩
    · rw [tableNumber_ofParts, TableId.ofNumber?_number]
    · rw [row_ofParts, Nat.mod_eq_of_lt hlt]

/-- A token names one row at most. -/
theorem Names.unique {t : Token} {id id' : RowId} (h : t.Names id) (h' : t.Names id') :
    id = id' := by
  obtain ⟨table, index⟩ := id
  obtain ⟨table', index'⟩ := id'
  obtain rfl : table = table' := Option.some.inj (h.table.symm.trans h'.table)
  obtain rfl : index = index' := Nat.succ.inj (h.row.symm.trans h'.row)
  rfl

end Token

theorem Row.token_names_iff (r : Row) : r.token.Names r.id ↔ r.index + 1 < 0x1000000 :=
  Token.ofParts_names_iff r.id

theorem RowReference.token_names_iff {reference : RowReference} {target : RowId}
    (h : reference.target = some target) :
    ∃ token, reference.token = some token ∧
      (token.Names target ↔ target.index + 1 < 0x1000000) := by
  refine ⟨_, ?_, Token.ofParts_names_iff target⟩
  rw [RowReference.token, h]
  rfl

/-! ### References of accessors -/

namespace Row

variable {r : Row} {column : Nat} {reference : RowReference} {target : RowId}

theorem exists_coded_column (h : r.coded column = .ok reference) :
    ∃ placed c, r.table.columns[column]? = some placed ∧ placed.kind = .coded c := by
  obtain ⟨cell, hcell, hthen⟩ := Reader.exists_of_bind_ok h
  obtain ⟨placed, hcolumn, hdecode⟩ := Reader.exists_of_bind_ok hcell
  have hplaced := Table.column_eq_ok.1 hcolumn
  obtain ⟨name, kind, offset, width⟩ := placed
  cases kind with
  | coded c => exact ⟨_, c, hplaced, rfl⟩
  | _ =>
      -- a cell of another kind is no reference
      obtain rfl := Except.ok.inj hdecode
      cases hthen

/-- A reference that an accessor hands out is null or refers to a row that is counted. -/
theorem coded_inside (h : r.coded column = .ok reference) (htarget : reference.target = some target) :
    target.index < r.table.sizing.rowCount target.table := by
  obtain ⟨placed, c, hplaced, hkind⟩ := exists_coded_column h
  have houtcome := r.codedTarget c (r.raw placed)
  rw [← coded_eq hplaced hkind, h] at houtcome
  cases houtcome with
  | null => cases htarget
  | found hrow htag hinside =>
      obtain rfl := Option.some.inj htarget
      exact Nat.lt_of_lt_of_le (Nat.sub_lt hrow Nat.one_pos) hinside

end Row

namespace TablesStream

variable {data : Bytes} {s : TablesStream} {table : TableId}

theorem row_id {index : Nat} {r : Row} (h : s.row table index = .ok r) : r.id = ⟨table, index⟩ := by
  obtain ⟨t, ht, hindex⟩ := Reader.exists_of_bind_ok h
  obtain ⟨rfl, rfl⟩ := Table.row_eq_ok.1 hindex
  rw [Row.id, (of_table? (table_eq_ok.1 ht)).2]

theorem Consistent.index_lt (hs : s.Consistent) {index : Nat} {r : Row}
    (h : s.row table index = .ok r) : index < s.rowCount table := by
  have hid := row_id h
  have hcount := hs.rowCount_eq (table?_of_row h)
  have hinside : r.index < r.table.rowCount := r.index_lt
  rwa [hcount, show r.index = index from congrArg RowId.index hid] at hinside

/-- The references of a row refer to rows of the stream. -/
theorem Consistent.coded_inside (hs : s.Consistent) {index column : Nat} {r : Row}
    {reference : RowReference} {target : RowId} (hrow : s.row table index = .ok r)
    (hcoded : r.coded column = .ok reference) (htarget : reference.target = some target) :
    target.index < s.rowCount target.table := by
  have hinside := Row.coded_inside hcoded htarget
  rwa [hs.sizing_eq (table?_of_row hrow)] at hinside

/-- A token of a table names a row that exists if its number is one of the rows counted from 1. -/
theorem Consistent.exists_named (hs : s.Consistent) {t : Token} {table : TableId} :
    (TableId.ofNumber? t.tableNumber = some table ∧ 0 < t.row ∧ t.row ≤ s.rowCount table) ↔
      ∃ index r, s.row table index = .ok r ∧ t.Names ⟨table, index⟩ := by
  constructor
  · rintro ⟨htable, hpos, hcounted⟩
    obtain ⟨r, hrow, -⟩ := hs.exists_row (show t.row - 1 < s.rowCount table by omega)
    exact ⟨t.row - 1, r, hrow, htable, (Nat.sub_add_cancel hpos).symm⟩
  · rintro ⟨index, r, hrow, hnames⟩
    have hinside := hs.index_lt hrow
    have hnumber : t.row = index + 1 := hnames.row
    exact ⟨hnames.table, by omega, by omega⟩

theorem token_table {index : Nat} {r : Row} (h : s.row table index = .ok r) :
    r.token.tableNumber = table.number := by
  rw [Row.token, Token.tableNumber_ofParts, show r.table.id = table from
    congrArg RowId.table (row_id h)]

/-- The tokens of the rows of a table, and of references to them, identify these rows. -/
structure TokensIdentify (s : TablesStream) (table : TableId) : Prop where
  rows : ∀ index r, s.row table index = .ok r → r.token.Names ⟨table, index⟩
  references : ∀ source index r column reference target, s.row source index = .ok r →
    r.coded column = .ok reference → reference.target = some target → target.table = table →
      ∃ token, reference.token = some token ∧ token.Names target
  distinct : ∀ index r other index' r', s.row table index = .ok r → s.row other index' = .ok r' →
    r.token = r'.token → table = other ∧ index = index'
  found : ∀ index r, s.row table index = .ok r → ∃ target,
    TableId.ofNumber? r.token.tableNumber = some target ∧ s.row target (r.token.row - 1) = .ok r

theorem Consistent.tokensIdentify_iff (hs : s.Consistent) (table : TableId) :
    s.TokensIdentify table ↔ s.rowCount table < 0x1000000 := by
  constructor
  · intro h
    by_contra hmany
    obtain ⟨r, hrow, hid⟩ := hs.exists_row (show 0xFFFFFF < s.rowCount table by omega)
    have hnames := h.rows _ r hrow
    rw [← hid, Row.token_names_iff] at hnames
    have hindex : r.index = 0xFFFFFF := congrArg RowId.index hid
    omega
  · intro hfew
    have hnames (index : Nat) (r : Row) (hrow : s.row table index = .ok r) :
        r.token.Names ⟨table, index⟩ := by
      have hid := row_id hrow
      have hindex : r.index = index := congrArg RowId.index hid
      have hcount := hs.index_lt hrow
      rw [← hid, Row.token_names_iff]
      omega
    refine ⟨hnames, ?_, ?_, ?_⟩
    · intro source index r column reference target hrow hcoded htarget htable
      obtain ⟨token, htoken, hiff⟩ := RowReference.token_names_iff htarget
      have hinside := hs.coded_inside hrow hcoded htarget
      rw [htable] at hinside
      exact ⟨token, htoken, hiff.2 (Nat.lt_of_le_of_lt hinside hfew)⟩
    · intro index r other index' r' hrow hrow' htoken
      -- the high byte of the token tells the tables apart, so both rows are of this one
      obtain rfl : table = other := by
        refine TableId.number_injective ?_
        rw [← token_table hrow, ← token_table hrow', htoken]
      have hname' := hnames index' r' hrow'
      rw [← htoken] at hname'
      have hsame := (hnames index r hrow).unique hname'
      exact ⟨rfl, congrArg RowId.index hsame⟩
    · intro index r hrow
      have hname := hnames index r hrow
      refine ⟨table, hname.table, ?_⟩
      rw [hname.row]
      exact hrow

/-- Two bytes for each row are the least, so the rows of a short stream can be numbered. -/
theorem Parses.rowCount_lt (h : Parses data s) (hsize : data.size < 0x2000000) (table : TableId) :
    s.rowCount table < 0x1000000 := by
  have hrows := h.rows_inside table
  have hbytes := Nat.mul_le_mul_left (s.rowCount table) (s.sizing.two_le_rowBytes table)
  omega

/-- The tokens of a table identify its rows if it has fewer rows than 24 bits can count, and only
then; in a stream of less than 32 megabytes this is so for all tables. A single row is named by its
token, and by the tokens of references to it, if its own place can be counted. -/
theorem tokens_identify_rows (hparse : parse data = .ok s) :
    (∀ table, s.TokensIdentify table ↔ s.rowCount table < 0x1000000) ∧
      (data.size < 0x2000000 → ∀ table, s.TokensIdentify table) ∧
      ∀ table index r, s.row table index = .ok r →
        (r.token.Names ⟨table, index⟩ ↔ index + 1 < 0x1000000) ∧
        ∀ column reference target, r.coded column = .ok reference →
          reference.target = some target →
            ∃ token, reference.token = some token ∧ target.index < s.rowCount target.table ∧
              (token.Names target ↔ target.index + 1 < 0x1000000) := by
  have hparses := parse_eq_ok_iff.1 hparse
  have hs := hparses.consistent
  refine ⟨hs.tokensIdentify_iff, fun hsize table => ?_, fun table index r hrow => ⟨?_, ?_⟩⟩
  · exact (hs.tokensIdentify_iff table).2 (hparses.rowCount_lt hsize table)
  · have hid := row_id hrow
    rw [← hid, Row.token_names_iff, show r.index = index from congrArg RowId.index hid]
  · intro column reference target hcoded htarget
    obtain ⟨token, htoken, hiff⟩ := RowReference.token_names_iff htarget
    exact ⟨token, htoken, hs.coded_inside hrow hcoded htarget, hiff⟩

theorem tokens_identify_rows_memberParents :
    ∃ s, parse memberParents = .ok s ∧ s.rowCount .memberRef = 5 ∧
      ∀ table, s.TokensIdentify table := by
  have hrun : (parse memberParents).map (fun s => s.rowCount .memberRef) = .ok 5 := by
    decide +kernel
  obtain ⟨s, hparse, hcount⟩ := Reader.exists_of_map_ok hrun
  exact ⟨s, hparse, hcount, (tokens_identify_rows hparse).2.1 (by decide)⟩

/-! ### More rows than tokens

The stream is too long to be evaluated. What its header declares is read from the front of the
bytes, and of the rows only their number is used. -/

/-- A stream that is complete has the row counts that it declares. -/
theorem Complete.exists_parse (h : Complete data) :
    ∃ s, parse data = .ok s ∧ s.sizing = declaredSizing data := by
  have hwhole := h.whole
  have hcounts : headerSize + 4 * bitsBelow (declaredMask data) 64 ≤ data.size := by
    rw [declaredSize, declaredStart] at hwhole
    omega
  obtain ⟨present, hpresent⟩ := exists_readTables hwhole
  rw [parse_supported h.header h.supported, if_pos hcounts, hpresent]
  exact ⟨_, rfl, rfl⟩

/-- The header of a stream with so many rows in one table that the last has a number of 25 bits. -/
def crowdedHeader : Bytes :=
  #[0, 0, 0, 0, 2, 0, 0, 1] ++ #[0, 0, 0, 0x04, 0, 0, 0, 0] ++ #[0, 0, 0, 0, 0, 0, 0, 0] ++
    #[1, 0, 0, 1]

def crowded : Bytes :=
  crowdedHeader ++ Array.replicate 0x2000002 0

theorem crowded_size : crowded.size = 0x200001E := by
  rw [crowded, Array.size_append, Array.size_replicate]
  rfl

theorem declaredMask_crowded : declaredMask crowded = 1 <<< 26 := by
  rw [declaredMask, crowded, Reader.littleEndian_append_left _ _ _ (by decide)]
  decide

theorem rowCount_declaredSizing (data : Bytes) (table : TableId) :
    (declaredSizing data).rowCount table = declaredCount data table :=
  rfl

theorem rowCount_crowded : (declaredSizing crowded).rowCount .moduleRef = 0x1000001 := by
  rw [rowCount_declaredSizing, declaredCount, declaredMask_crowded, if_pos (by decide),
    show headerSize + 4 * bitsBelow (1 <<< 26) TableId.moduleRef.number = 24 by decide,
    crowded, Reader.littleEndian_append_left _ _ _ (by decide)]
  decide

theorem heapSizes_crowded : crowded.byteAt 6 = 0 := by
  rw [crowded, Reader.byteAt_append_left _ _ (by decide)]
  decide

theorem rowsSize_crowded :
    rowsSize (declaredSizing crowded) (tablesOf (declaredMask crowded)) = 0x2000002 := by
  have htables : tablesOf (1 <<< 26) = [.moduleRef] := by decide
  have hbytes : (declaredSizing crowded).rowBytes .moduleRef = 2 := by
    rw [declaredSizing, heapSizes_crowded]
    rfl
  rw [declaredMask_crowded, htables, rowsSize_cons, rowCount_crowded, hbytes, rowsSize,
    List.map_nil, List.sum_nil]
  omega

theorem crowded_complete : Complete crowded where
  header := by
    rw [crowded_size]
    decide
  supported := by
    rw [supported_iff, declaredMask_crowded]
    decide
  whole := by
    have hbits : bitsBelow (1 <<< 26) 64 = 1 := by decide
    have hextra : ¬Nat.testBit 0 6 = true := by decide
    rw [declaredSize, rowsSize_crowded, declaredStart, declaredMask_crowded, hbits,
      heapSizes_crowded, if_neg hextra, crowded_size, headerSize]

/-- Two rows have one token, which names the first of them. -/
theorem crowded_ambiguous :
    crowded.size < 0x100000000 ∧ ∃ s r r', parse crowded = .ok s ∧
      s.row .moduleRef 0 = .ok r ∧ s.row .moduleRef 0x1000000 = .ok r' ∧ r ≠ r' ∧
      r.token = ⟨0x1A000001⟩ ∧ r'.token = ⟨0x1A000001⟩ := by
  obtain ⟨s, hparse, hsizing⟩ := crowded_complete.exists_parse
  have hcount : s.rowCount .moduleRef = 0x1000001 := by
    rw [rowCount, hsizing, rowCount_crowded]
  have hs := (parse_eq_ok_iff.1 hparse).consistent
  obtain ⟨r, hrow, hid⟩ := hs.exists_row (show 0 < s.rowCount .moduleRef by omega)
  obtain ⟨r', hrow', hid'⟩ := hs.exists_row (show 0x1000000 < s.rowCount .moduleRef by omega)
  obtain ⟨htable, hindex⟩ := RowId.mk.inj hid
  obtain ⟨htable', hindex'⟩ := RowId.mk.inj hid'
  refine ⟨by rw [crowded_size]; decide, s, r, r', hparse, hrow, hrow', ?_, ?_, ?_⟩
  · rintro rfl
    rw [hindex] at hindex'
    cases hindex'
  · rw [Row.token, htable, hindex]
    rfl
  · rw [Row.token, htable', hindex']
    rfl

end TablesStream

end CliMeta
