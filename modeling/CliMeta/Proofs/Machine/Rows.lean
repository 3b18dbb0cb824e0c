import CliMeta.Proofs.Machine.Tables
import CliMeta.Proofs.Table.Cells
import CliMeta.Proofs.Table.Ranges

/-!
Rows and cells, read with words. A table fits words if its bytes and one more row than it has can be
counted in 32 bits. Of such a table every row is cut out without a trap, its columns are found, and
the row behind the last is still counted, so row lists and references to missing rows are too.
-/

namespace CliMeta

namespace Machine

variable {t : Table} {r : Row} {s : TablesStream}

/-! ### Rows -/

def row (t : Table) (index : Nat) : Checked Row :=
  if h : index < t.rowCount then do
    let start ← mul 64 index t.rowSize
    let stop ← add 64 start t.rowSize
    match t.data.slice? start stop with
    | some _ => return ⟨t, index, h⟩
    | none => fail .outOfBounds
  else fail (.rowOutOfRange t.id index t.rowCount)

/-- The rows that are still to come, of which the number is known. -/
def rowsFrom (t : Table) : (fuel next : Nat) → Checked (List Row)
  | 0, _ => .ok []
  | fuel + 1, next => do
      discard <| sub t.rowCount next
      if t.rowCount ≤ next then return []
      match ← attempt (row t next) with
      | .ok first =>
          let others ← rowsFrom t fuel (← add 32 next 1)
          return first :: others
      | .error _ => return []

def rows (t : Table) : Checked (List Row) :=
  rowsFrom t t.rowCount 0

/-- The stored number of a cell, by its place in the whole table. -/
def rawCell (t : Table) (index column : Nat) : Checked Nat := do
  let placed ← lift (t.column column)
  let start ← mul 64 index t.rowSize
  let offset ← add 64 start placed.offset
  valueAt (unsigned placed.width) t.data offset

structure FitsWords (t : Table) : Prop where
  data : t.data.size < positions
  counted : ∀ table, t.sizing.rowCount table + 1 < positions

theorem FitsWords.rowCount_lt (h : FitsWords t) : t.rowCount + 1 < 2 ^ 32 :=
  h.counted t.id

theorem row_inside {index : Nat} (h : index < t.rowCount) :
    index * t.rowSize + t.rowSize ≤ t.data.size :=
  (Row.mk t index h).inside

theorem row_eq (ht : FitsWords t) (index : Nat) : row t index = lift (t.row index) := by
  rw [row, Table.row]
  by_cases h : index < t.rowCount
  · have hinside := row_inside h
    have hsize : t.data.size < 2 ^ 32 := ht.data
    have hcut : index * t.rowSize ≤ index * t.rowSize + t.rowSize ∧
        index * t.rowSize + t.rowSize ≤ t.data.size := ⟨Nat.le_add_right .., hinside⟩
    rw [dif_pos h, dif_pos h, mul_eq (by omega), ok_bind, add_eq (by omega), ok_bind,
      Bytes.slice?, if_pos hcut]
    rfl
  · rw [dif_neg h, dif_neg h]
    rfl

theorem rowsFrom_eq (ht : FitsWords t) {fuel next : Nat} (h : next + fuel = t.rowCount) :
    rowsFrom t fuel next = .ok (t.rows.drop next) := by
  have hlength : t.rows.length = t.rowCount := by rw [Table.rows, List.length_ofFn]
  induction fuel generalizing next with
  | zero => rw [rowsFrom, List.drop_of_length_le (by omega)]
  | succ fuel ih =>
      have hinside : next < t.rowCount := by omega
      have hrow : t.row next = .ok ⟨t, next, hinside⟩ := dif_pos hinside
      have hcounted := ht.rowCount_lt
      have hdrop : t.rows.drop next = ⟨t, next, hinside⟩ :: t.rows.drop (next + 1) := by
        rw [List.drop_eq_getElem_cons (by omega)]
        simp [Table.rows]
      rw [rowsFrom, sub_eq (by omega), row_eq ht, hrow, attempt_lift]
      show (if t.rowCount ≤ next then _ else _) = _
      rw [if_neg (by omega)]
      show (add 32 next 1 >>= _) = _
      rw [add_eq (by omega), ok_bind, ih (by omega), hdrop]
      rfl

theorem rows_eq (ht : FitsWords t) : rows t = .ok t.rows :=
  rowsFrom_eq ht (Nat.zero_add _)

/-- A column that is found is one of the table. -/
theorem mem_columns {column : Nat} {placed : PlacedColumn} (h : t.column column = .ok placed) :
    placed ∈ t.columns := by
  rw [Table.column] at h
  split at h
  · rename_i found
    cases h
    exact List.mem_of_getElem? found
  · cases h

theorem rawCell_eq (ht : FitsWords t) {index : Nat} (h : index < t.rowCount) (column : Nat) :
    rawCell t index column = lift (t.storedCell index column) := by
  rw [rawCell, Table.storedCell]
  refine bind_agrees rfl fun placed hplaced => ?_
  have hcolumn := Table.column_inside (mem_columns hplaced)
  have hinside := row_inside h
  have hsize : t.data.size < 2 ^ 32 := ht.data
  rw [mul_eq (by omega), ok_bind, add_eq (by omega), ok_bind, unsigned_valueAt (by omega)]
  rfl

/-! ### References -/

/-- Decodes a reference, of which the tag is cut out by a mask. -/
def decodeReference (c : CodedCategory) (raw : Nat) : Checked RowReference := do
  let unit ← shiftLeft 32 1 c.tagBits
  let mask ← sub unit 1
  let row ← shiftRight 32 raw c.tagBits
  if row = 0 then return .null c
  else
    match c.member? (raw &&& mask) with
    | some table => return ⟨c, some ⟨table, ← sub row 1⟩⟩
    | none => fail (.unknownCodedTag c (raw &&& mask))

def referenceToken (reference : RowReference) : Checked (Option Token) :=
  match reference.target with
  | some target => do
      let number ← add 32 target.index 1
      return some (Token.ofParts target.table.number number)
  | none => .ok none

/-- The row behind the one that is referred to can be counted. -/
def CountedReference (reference : RowReference) : Prop :=
  ∀ target, reference.target = some target → target.index + 1 < positions

theorem decodeReference_eq (c : CodedCategory) (raw : Nat) :
    decodeReference c raw = lift (c.decode raw) := by
  have htag := c.tagBits_le
  have hpower : 2 ^ c.tagBits ≤ 2 ^ 5 := Nat.pow_le_pow_right (by decide) htag
  have hunit : 1 <<< c.tagBits < 2 ^ 32 := by
    rw [Nat.one_shiftLeft]
    omega
  have hpos : 1 ≤ 1 <<< c.tagBits := by
    rw [Nat.one_shiftLeft]
    exact Nat.one_le_two_pow
  have hmask : raw &&& (1 <<< c.tagBits - 1) = raw % (1 <<< c.tagBits) := by
    rw [Nat.one_shiftLeft, Nat.and_two_pow_sub_one_eq_mod]
  rw [decodeReference, CodedCategory.decode, shiftLeft_eq (by omega) hunit, ok_bind, sub_eq hpos,
    ok_bind, shiftRight_eq (by omega), ok_bind, hmask]
  refine ite_agrees (fun _ => rfl) fun hrow => ?_
  cases c.member? (raw % (1 <<< c.tagBits)) with
  | none => rfl
  | some table =>
      simp only
      rw [sub_eq (Nat.one_le_iff_ne_zero.2 hrow), ok_bind]
      rfl

/-- What is decoded from a 32-bit word refers to a row that can be counted. -/
theorem decode_counted {c : CodedCategory} {raw : Nat} {reference : RowReference}
    (hraw : raw < positions) (h : c.decode raw = .ok reference) : CountedReference reference := by
  intro target htarget
  have hshift : raw >>> c.tagBits ≤ raw := Nat.shiftRight_le raw c.tagBits
  rw [CodedCategory.decode] at h
  generalize raw >>> c.tagBits = shifted at h hshift
  split at h
  · cases h
    cases htarget
  · split at h
    · cases h
      cases htarget
      simp only
      omega
    · cases h

theorem referenceToken_eq {reference : RowReference} (h : CountedReference reference) :
    referenceToken reference = .ok reference.token := by
  rw [referenceToken, RowReference.token]
  cases htarget : reference.target with
  | none => rfl
  | some target =>
      have hcounted : target.index + 1 < 2 ^ 32 := h target htarget
      simp only
      rw [add_eq hcounted]
      rfl

/-! ### Cells -/

def token (r : Row) : Checked Token := do
  let number ← add 32 r.index 1
  return Token.ofParts r.table.id.number number

/-- The stored number of a column, by its place in the row. -/
def raw (r : Row) (column : Nat) : Checked Nat := do
  let placed ← elementAt r.table.columns column
  valueAt (unsigned placed.width) r.data placed.offset

/-- Fails unless a reference points to a row that exists. -/
def checkTarget (r : Row) (reference : RowReference) : Checked RowReference :=
  match reference.target with
  | some target => do
      let count ← rowCount r.table.sizing target.table
      if target.index < count then return reference
      else fail (.danglingReference target.table (← add 32 target.index 1))
  | none => .ok reference

def decode (r : Row) (column : Nat) : Checked Cell := do
  let raw ← raw r column
  let placed ← elementAt r.table.columns column
  match placed.kind with
  | .word => return .word raw
  | .long => return .long raw
  | .heap heap => return .heap heap raw
  | .index table => return .index table raw
  | .coded category =>
      let reference ← decodeReference category raw
      return .coded (← checkTarget r reference)

def cell (r : Row) (column : Nat) : Checked Cell :=
  if column < r.table.columns.length then decode r column
  else fail (.malformed (.noColumn r.table.id column))

theorem token_eq (ht : FitsWords r.table) : token r = .ok r.token := by
  have hindex : r.index < r.table.rowCount := r.index_lt
  have hcounted := ht.rowCount_lt
  rw [token, add_eq (by omega)]
  rfl

theorem raw_eq {column : Nat} {placed : PlacedColumn}
    (h : r.table.columns[column]? = some placed) : raw r column = .ok (r.raw placed) := by
  have hfits := r.column_inside_data (List.mem_of_getElem? h)
  rw [raw, elementAt_eq h, ok_bind, unsigned_valueAt hfits]
  rfl

theorem checkTarget_eq {reference : RowReference} (h : CountedReference reference) :
    checkTarget r reference = lift (r.checkTarget reference) := by
  rw [checkTarget, Row.checkTarget]
  cases htarget : reference.target with
  | none => rfl
  | some target =>
      have hcounted : target.index + 1 < 2 ^ 32 := h target htarget
      simp only
      rw [rowCount_eq, ok_bind]
      split
      · rfl
      · rw [add_eq hcounted]
        rfl

/-- A reference that passes is the one that was checked. -/
theorem checkTarget_ok {reference checked : RowReference}
    (h : r.checkTarget reference = .ok checked) : checked = reference := by
  rw [Row.checkTarget] at h
  split at h
  · split at h
    · exact (Except.ok.inj h).symm
    · cases h
  · exact (Except.ok.inj h).symm

theorem decode_eq {column : Nat} {placed : PlacedColumn}
    (h : r.table.columns[column]? = some placed) : decode r column = lift (r.decode placed) := by
  have hmem := List.mem_of_getElem? h
  rw [decode, Row.decode, raw_eq h, ok_bind, elementAt_eq h, ok_bind]
  cases placed.kind with
  | word | long | heap | index => rfl
  | coded category =>
      refine bind_agrees (decodeReference_eq category _) fun reference hreference => ?_
      refine bind_agrees (checkTarget_eq ?_) fun _ _ => rfl
      exact decode_counted (Row.raw_lt_word hmem) hreference

theorem cell_eq (r : Row) (column : Nat) : cell r column = lift (r.cell column) := by
  rw [cell, Row.cell, Table.column]
  by_cases hcolumn : column < r.table.columns.length
  · rw [if_pos hcolumn, List.getElem?_eq_getElem hcolumn]
    exact decode_eq (List.getElem?_eq_getElem hcolumn)
  · rw [if_neg hcolumn, List.getElem?_eq_none (Nat.not_lt.1 hcolumn)]
    rfl

/-- The number that a cell holds is a 32-bit word, or the row that it refers to can be counted. -/
def CellFits : Cell → Prop
  | .word number | .long number | .heap _ number | .index _ number => number < positions
  | .coded reference => CountedReference reference

theorem cell_fits {column : Nat} {found : Cell} (h : r.cell column = .ok found) :
    CellFits found := by
  obtain ⟨placed, hplaced, hdecode⟩ := Reader.exists_of_bind_ok h
  have hraw : r.raw placed < positions := Row.raw_lt_word (mem_columns hplaced)
  rw [Row.decode] at hdecode
  cases hkind : placed.kind with
  | word | long | heap | index =>
      simp only [hkind] at hdecode
      cases hdecode
      exact hraw
  | coded category =>
      simp only [hkind] at hdecode
      obtain ⟨reference, hreference, hdecode⟩ := Reader.exists_of_bind_ok hdecode
      obtain ⟨checked, hchecked, hdecode⟩ := Reader.exists_of_bind_ok hdecode
      cases hdecode
      rw [CellFits, checkTarget_ok hchecked]
      exact decode_counted hraw hreference

/-! ### Accessors by role -/

def cellNamed (r : Row) (name : String) : Checked Cell :=
  match r.table.id.columnIndex? name with
  | some column => cell r column
  | none => fail (.malformed (.noColumnNamed r.table.id name))

def word (r : Row) (column : Nat) : Checked Nat := do
  match ← cell r column with
  | .word value => return value
  | _ => lift (r.wrongRole column .shortConstant)

def long (r : Row) (column : Nat) : Checked Nat := do
  match ← cell r column with
  | .long value => return value
  | _ => lift (r.wrongRole column .longConstant)

def heapOffset (r : Row) (column : Nat) : Checked Nat := do
  match ← cell r column with
  | .heap _ offset => return offset
  | _ => lift (r.wrongRole column .heapIndex)

def tableIndex (r : Row) (column : Nat) : Checked (Option Nat) := do
  match ← cell r column with
  | .index table raw =>
      if raw = 0 then return none
      else if (← rowCount r.table.sizing table) < raw then fail (.danglingReference table raw)
      else return some (← sub raw 1)
  | _ => lift (r.wrongRole column .tableIndex)

def coded (r : Row) (column : Nat) : Checked RowReference := do
  match ← cell r column with
  | .coded reference => return reference
  | _ => lift (r.wrongRole column .codedIndex)

theorem cellNamed_eq (r : Row) (name : String) : cellNamed r name = lift (r.cellNamed name) := by
  rw [cellNamed, Row.cellNamed]
  cases r.table.id.columnIndex? name with
  | none => rfl
  | some column => exact cell_eq r column

theorem word_eq (r : Row) (column : Nat) : word r column = lift (r.word column) :=
  bind_agrees (cell_eq r column) fun found _ => by cases found <;> rfl

theorem long_eq (r : Row) (column : Nat) : long r column = lift (r.long column) :=
  bind_agrees (cell_eq r column) fun found _ => by cases found <;> rfl

theorem heapOffset_eq (r : Row) (column : Nat) :
    heapOffset r column = lift (r.heapOffset column) :=
  bind_agrees (cell_eq r column) fun found _ => by cases found <;> rfl

theorem coded_eq (r : Row) (column : Nat) : coded r column = lift (r.coded column) :=
  bind_agrees (cell_eq r column) fun found _ => by cases found <;> rfl

/-- What a column holds into a heap is a word. -/
theorem heapOffset_lt {column offset : Nat} (h : r.heapOffset column = .ok offset) :
    offset < positions := by
  obtain ⟨found, hcell, hfound⟩ := Reader.exists_of_bind_ok h
  have hfits := cell_fits hcell
  cases found with
  | heap =>
      cases hfound
      exact hfits
  | word | long | index | coded => cases hfound

theorem coded_counted {column : Nat} {reference : RowReference}
    (h : r.coded column = .ok reference) : CountedReference reference := by
  obtain ⟨found, hcell, hfound⟩ := Reader.exists_of_bind_ok h
  have hfits := cell_fits hcell
  cases found with
  | coded =>
      cases hfound
      exact hfits
  | word | long | heap | index => cases hfound

theorem tableIndex_eq (r : Row) (column : Nat) :
    tableIndex r column = lift (r.tableIndex column) := by
  refine bind_agrees (cell_eq r column) fun found _ => ?_
  cases found with
  | index table raw =>
      by_cases hnull : raw = 0
      · simp only [hnull, if_true]
        rfl
      · simp only [hnull, if_false]
        rw [rowCount_eq, ok_bind]
        split
        · rfl
        · rw [sub_eq (Nat.one_le_iff_ne_zero.2 hnull)]
          rfl
  | word | long | heap | coded => rfl

/-! ### Row lists -/

/-- The number of rows that a list into a table can run over. -/
def listTargetRows (s : Sizing) (target : TableId) : Checked Nat :=
  match target.pointerTable? with
  | some pointer => do
      let count ← rowCount s pointer
      if 0 < count then rowCount s pointer else rowCount s target
  | none => rowCount s target

/-- The start of the list of the next row, or the place behind the last row of the target. -/
def listEnd (r : Row) (column count : Nat) : Checked Nat := do
  let next ← add 32 r.index 1
  if next < r.table.rowCount then rawCell r.table next column else add 32 count 1

/-- The rows between two stored places, which are moved into a target of so many rows. -/
def rangeBetween (target : TableId) (count raw stop : Nat) : Checked RowRange := do
  let limit ← add 32 count 1
  let first ← clamp raw 1 limit
  let behind ← clamp stop first limit
  return ⟨target, ← sub first 1, ← sub behind 1⟩

def range (r : Row) (column : Nat) : Checked RowRange := do
  match ← cell r column with
  | .index target raw =>
      let count ← listTargetRows r.table.sizing target
      let stop ← listEnd r column count
      rangeBetween target count raw stop
  | _ => lift (r.wrongRole column .rowList)

/-- The number of rows of a row list. -/
def rangeSize (range : RowRange) : Checked Nat :=
  sub range.stop range.start

theorem listTargetRows_eq (s : Sizing) (target : TableId) :
    listTargetRows s target = .ok (s.listTargetRows target) := by
  rw [listTargetRows, Sizing.listTargetRows]
  cases target.pointerTable? with
  | none => exact rowCount_eq s target
  | some pointer =>
      simp only
      rw [rowCount_eq, ok_bind]
      split
      · rfl
      · exact rowCount_eq s target

/-- Row lists run over rows that are counted somewhere. -/
theorem listTargetRows_lt {s : Sizing} (hs : ∀ table, s.rowCount table + 1 < positions)
    (target : TableId) : s.listTargetRows target + 1 < 2 ^ 32 := by
  rw [Sizing.listTargetRows]
  split
  · split
    · exact hs _
    · exact hs _
  · exact hs _

theorem listEnd_eq (ht : FitsWords r.table) (column : Nat) {count : Nat}
    (hcount : count + 1 < 2 ^ 32) :
    listEnd r column count =
      lift (if r.index + 1 < r.table.rowCount then r.table.storedCell (r.index + 1) column
        else pure (count + 1)) := by
  have hindex : r.index < r.table.rowCount := r.index_lt
  have hcounted := ht.rowCount_lt
  rw [listEnd, add_eq (by omega), ok_bind]
  exact ite_agrees (fun hnext => rawCell_eq ht hnext column) fun _ => add_eq hcount

theorem rangeBetween_eq (target : TableId) {count : Nat} (h : count + 1 < 2 ^ 32)
    (raw stop : Nat) :
    rangeBetween target count raw stop = .ok (.between target count raw stop) := by
  have hfirst : 1 ≤ min (max raw 1) (count + 1) := by omega
  have hlimit : min (max raw 1) (count + 1) ≤ count + 1 := Nat.min_le_right ..
  have hbehind : 1 ≤ min (max stop (min (max raw 1) (count + 1))) (count + 1) := by omega
  rw [rangeBetween, add_eq h, ok_bind, clamp_eq (by omega), ok_bind, clamp_eq hlimit, ok_bind,
    sub_eq hfirst, ok_bind, sub_eq hbehind]
  rfl

theorem range_eq (ht : FitsWords r.table) (column : Nat) :
    range r column = lift (r.range column) := by
  refine bind_agrees (cell_eq r column) fun found _ => ?_
  cases found with
  | word | long | heap | coded => rfl
  | index target raw =>
      have hcount := listTargetRows_lt ht.counted target
      simp only
      rw [listTargetRows_eq, ok_bind, listEnd_eq ht column hcount, wordOf_eq_ok hcount]
      show _ = lift (if r.index + 1 < r.table.rowCount then _ else _)
      split
      · exact bind_agrees rfl fun next _ => rangeBetween_eq target hcount raw next
      · exact rangeBetween_eq target hcount raw _

/-- A row list lies between two stored places. -/
theorem range_between (ht : FitsWords r.table) {column : Nat} {range : RowRange}
    (h : r.range column = .ok range) :
    ∃ target raw next, range =
      RowRange.between target (r.table.sizing.listTargetRows target) raw next := by
  rw [Row.range] at h
  obtain ⟨found, -, hrange⟩ := Reader.exists_of_bind_ok h
  cases found with
  | word | long | heap | coded => cases hrange
  | index target raw =>
      have hcount := listTargetRows_lt ht.counted target
      simp only at hrange
      rw [wordOf_eq_ok hcount] at hrange
      change (if r.index + 1 < r.table.rowCount then _ else _) = _ at hrange
      split at hrange
      · obtain ⟨next, -, hfound⟩ := Reader.exists_of_bind_ok hrange
        cases hfound
        exact ⟨target, raw, next, rfl⟩
      · cases hrange
        exact ⟨target, raw, _, rfl⟩

theorem rangeSize_eq (ht : FitsWords r.table) {column : Nat} {range : RowRange}
    (h : r.range column = .ok range) : rangeSize range = .ok range.size := by
  obtain ⟨target, raw, next, rfl⟩ := range_between ht h
  have hcount := listTargetRows_lt ht.counted target
  have hinside : (RowRange.between target (r.table.sizing.listTargetRows target) raw next).start ≤
      (RowRange.between target (r.table.sizing.listTargetRows target) raw next).stop ∧ _ ≤ _ :=
    RowRange.between_inside raw next
  rw [rangeSize, sub_eq hinside.1, RowRange.size]
  congr 1
  omega

/-! ### The tables of a stream -/

/-- The table of a number, if it is present. -/
def findTable (s : TablesStream) (table : TableId) : Checked (Option Table) := do
  checkIndex TableId.count table.number
  return s.table? table

def tableOf (s : TablesStream) (table : TableId) : Checked Table := do
  match ← findTable s table with
  | some t => return t
  | none => fail (.tableAbsent table)

def rowOf (s : TablesStream) (table : TableId) (index : Nat) : Checked Row := do
  row (← tableOf s table) index

def dangling {α : Type} (target : RowId) : Checked α := do
  fail (.danglingReference target.table (← add 32 target.index 1))

def resolve (s : TablesStream) (reference : RowReference) : Checked (Option Row) :=
  match reference.target with
  | none => .ok none
  | some target => do
      match ← findTable s target.table with
      | some t =>
          if target.index < t.rowCount then
            let found ← row t target.index
            return some found
          else
            dangling target
      | none => dangling target

def physicalRow (s : TablesStream) (table : TableId) (logical : Nat) : Checked Nat :=
  match table.pointerTable? with
  | none => .ok logical
  | some pointer => do
      match ← findTable s pointer with
      | none => return logical
      | some t =>
          match ← tableIndex (← row t logical) 0 with
          | some physical => return physical
          | none => fail (.danglingReference table 0)

def rowsIn (s : TablesStream) (range : RowRange) : Checked (List (Except Error Row)) :=
  collect (fun logical => do rowOf s range.target (← physicalRow s range.target logical))
    range.toList

/-- Every table that is present fits words. -/
def TablesFit (s : TablesStream) : Prop :=
  ∀ t ∈ s.present, FitsWords t

theorem findTable_eq (s : TablesStream) (table : TableId) :
    findTable s table = .ok (s.table? table) := by
  rw [findTable, checkIndex_eq table.number_lt_count]
  rfl

theorem tableOf_eq (s : TablesStream) (table : TableId) :
    tableOf s table = lift (s.table table) := by
  rw [tableOf, TablesStream.table, findTable_eq, ok_bind]
  cases s.table? table <;> rfl

theorem TablesFit.of_table? (hs : TablesFit s) {table : TableId} (h : s.table? table = some t) :
    FitsWords t :=
  hs t (TablesStream.of_table? h).1

theorem rowOf_eq (hs : TablesFit s) (table : TableId) (index : Nat) :
    rowOf s table index = lift (s.row table index) :=
  bind_agrees (tableOf_eq s table) fun _ ht =>
    row_eq (hs.of_table? (TablesStream.table_eq_ok.1 ht)) index

/-- The rows of a stream are rows of the tables that are present. -/
theorem TablesFit.of_row (hs : TablesFit s) {table : TableId} {index : Nat}
    (h : s.row table index = .ok r) : FitsWords r.table := by
  obtain ⟨t, ht, hrow⟩ := Reader.exists_of_bind_ok h
  rw [Table.row] at hrow
  split at hrow
  · cases hrow
    exact hs.of_table? (TablesStream.table_eq_ok.1 ht)
  · cases hrow

theorem resolve_eq (hs : TablesFit s) {reference : RowReference}
    (h : CountedReference reference) : resolve s reference = lift (s.resolve reference) := by
  rw [resolve, TablesStream.resolve]
  cases htarget : reference.target with
  | none => rfl
  | some target =>
      have hcounted : target.index + 1 < 2 ^ 32 := h target htarget
      have hdangling : (dangling target : Checked (Option Row)) =
          fail (.danglingReference target.table (target.index + 1)) := by
        rw [dangling, add_eq hcounted, ok_bind]
      simp only
      rw [findTable_eq, ok_bind, hdangling]
      cases ht : s.table? target.table with
      | none => rfl
      | some t =>
          by_cases hindex : target.index < t.rowCount
          · have hrow : t.row target.index = .ok ⟨t, target.index, hindex⟩ := dif_pos hindex
            simp only [hindex, if_true, dif_pos]
            rw [row_eq (hs.of_table? ht), hrow]
            rfl
          · simp only [hindex, if_false, dif_neg, not_false_eq_true]
            rfl

theorem physicalRow_eq (hs : TablesFit s) (table : TableId) (logical : Nat) :
    physicalRow s table logical = lift (s.physicalRow table logical) := by
  rw [physicalRow, TablesStream.physicalRow]
  cases table.pointerTable? with
  | none => rfl
  | some pointer =>
      simp only [Option.bind_some]
      rw [findTable_eq, ok_bind]
      cases ht : s.table? pointer with
      | none => rfl
      | some t =>
          refine bind_agrees (row_eq (hs.of_table? ht) logical) fun found _ => ?_
          refine bind_agrees (tableIndex_eq found 0) fun physical _ => ?_
          cases physical <;> rfl

theorem rowsIn_eq (hs : TablesFit s) (range : RowRange) :
    rowsIn s range = .ok (s.rowsIn range) :=
  collect_eq fun logical _ => bind_agrees (physicalRow_eq hs range.target logical) fun _ _ =>
    rowOf_eq hs range.target _

end Machine

end CliMeta
