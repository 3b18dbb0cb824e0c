import CliMeta.Proofs.Reader.Contained
import CliMeta.Proofs.Reader.Inversion
import CliMeta.Table.Basic

/-!
Cells by their place in the table and by their place in the row. A row is a slice of the table, and
the layout keeps every column inside of it, so both ways lead to the same number.
-/

namespace CliMeta

theorem Sizing.place_inside {s : Sizing} {offset : Nat} {columns : List Column}
    {placed : PlacedColumn} (h : placed ∈ s.place offset columns) :
    placed.offset + placed.width ≤
      offset + columns.foldr (fun column size => s.columnBytes column.kind + size) 0 := by
  induction columns generalizing offset with
  | nil => exact absurd h (List.not_mem_nil)
  | cons column columns ih =>
      rw [List.foldr_cons]
      obtain rfl | hlater := List.mem_cons.1 h
      · simp only
        omega
      · have hinside := ih hlater
        omega

theorem Sizing.place_width {s : Sizing} {offset : Nat} {columns : List Column}
    {placed : PlacedColumn} (h : placed ∈ s.place offset columns) :
    placed.width = s.columnBytes placed.kind := by
  induction columns generalizing offset with
  | nil => cases h
  | cons column columns ih =>
      obtain rfl | hlater := List.mem_cons.1 h
      · rfl
      · exact ih hlater

theorem Sizing.place_columns (s : Sizing) (offset : Nat) (columns : List Column) :
    (s.place offset columns).map (fun placed => ⟨placed.name, placed.kind⟩) = columns := by
  induction columns generalizing offset with
  | nil => rfl
  | cons column columns ih => rw [place, List.map_cons, ih]

namespace Table

variable {t : Table}

/-- The number that is stored in a column of a row, by its place in the table. -/
def stored (t : Table) (placed : PlacedColumn) (index : Nat) : Nat :=
  t.data.littleEndian (index * t.rowSize + placed.offset) placed.width

theorem storedCell_eq {column : Nat} {placed : PlacedColumn}
    (h : t.columns[column]? = some placed) (index : Nat) :
    t.storedCell index column = .ok (t.stored placed index) := by
  rw [storedCell, Table.column, h]
  rfl

theorem exists_placed {column : Nat} {c : Column} (h : t.id.columns[column]? = some c) :
    ∃ placed, t.columns[column]? = some placed ∧ placed.kind = c.kind := by
  rw [← t.sizing.place_columns 0 t.id.columns, List.getElem?_map, Option.map_eq_some_iff] at h
  obtain ⟨placed, hplaced, rfl⟩ := h
  exact ⟨placed, by rwa [t.columns_eq], rfl⟩

theorem column_eq_ok {column : Nat} {placed : PlacedColumn} :
    t.column column = .ok placed ↔ t.columns[column]? = some placed := by
  rw [Table.column]
  cases t.columns[column]? <;> simp

theorem column_inside {placed : PlacedColumn} (h : placed ∈ t.columns) :
    placed.offset + placed.width ≤ t.rowSize := by
  rw [t.columns_eq] at h
  have hinside := Sizing.place_inside h
  rwa [Nat.zero_add, ← Sizing.rowBytes, ← t.rowSize_eq] at hinside

theorem row_eq_ok {index : Nat} {r : Row} :
    t.row index = .ok r ↔ r.table = t ∧ r.index = index := by
  rw [Table.row]
  by_cases h : index < t.rowCount
  · rw [dif_pos h, Except.ok.injEq]
    constructor
    · rintro rfl
      exact ⟨rfl, rfl⟩
    · rintro ⟨rfl, rfl⟩
      rfl
  · rw [dif_neg h]
    constructor
    · intro heq
      cases heq
    · rintro ⟨rfl, rfl⟩
      exact absurd r.index_lt h

/-- What is said of a row in terms of its index is said of all rows in order. -/
theorem map_rows {α : Type} {f : Row → α} {g : Nat → α}
    (h : ∀ r : Row, r.table = t → f r = g r.index) :
    t.rows.map f = (List.range t.rowCount).map g := by
  rw [rows, List.map_ofFn]
  apply List.ext_getElem
  · simp
  · intro index hleft hright
    rw [List.getElem_ofFn, List.getElem_map, List.getElem_range]
    exact h _ rfl

end Table

namespace Row

variable {r : Row} {column : Nat} {placed : PlacedColumn}

theorem inside (r : Row) :
    r.index * r.table.rowSize + r.table.rowSize ≤ r.table.data.size := by
  rw [r.table.size_eq, ← Nat.succ_mul]
  exact Nat.mul_le_mul_right _ r.index_lt

theorem column_inside_data (h : placed ∈ r.table.columns) :
    placed.offset + placed.width ≤ r.data.size := by
  have hcolumn := Table.column_inside h
  have hinside := r.inside
  rw [Row.data, Array.size_extract]
  omega

theorem raw_lt (h : placed ∈ r.table.columns) : r.raw placed < 1 <<< (8 * placed.width) :=
  (Reader.StandsAt.of_littleEndian (r.column_inside_data h)).1

theorem raw_lt_word (h : placed ∈ r.table.columns) : r.raw placed < 0x100000000 := by
  have hwidth := Sizing.place_width (r.table.columns_eq ▸ h)
  have hraw := raw_lt h
  obtain htwo | hfour := r.table.sizing.columnBytes_eq placed.kind
  · rw [hwidth, htwo] at hraw
    exact Nat.lt_trans hraw (by decide)
  · rw [hwidth, hfour] at hraw
    exact hraw

theorem raw_eq_stored (h : placed ∈ r.table.columns) :
    r.raw placed = r.table.stored placed r.index := by
  have hcolumn := Table.column_inside h
  rw [raw, Row.data, Bytes.littleEndian_extract r.inside (by omega), Table.stored]

theorem cell_index {target : TableId} (h : r.table.columns[column]? = some placed)
    (hkind : placed.kind = .index target) :
    r.cell column = .ok (.index target (r.raw placed)) := by
  rw [cell, Table.column, h]
  show r.decode placed = _
  rw [decode, hkind]

end Row

end CliMeta
