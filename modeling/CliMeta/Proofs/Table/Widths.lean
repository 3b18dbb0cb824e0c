import CliMeta.Proofs.Table.Accepted
import CliMeta.Proofs.Table.Cells
import CliMeta.Proofs.Table.Encoding
import Mathlib.Algebra.GroupWithZero.Nat
import Mathlib.Data.List.Basic

/-!
Why columns are as wide as they are. The width of a category is chosen by looking at the longest of
its tables alone; what this stands for is a statement on the exact numbers of all rows of all its
tables under all their tags. A narrow column holds each of these numbers, and a wide one each that
is a word, so nothing is cut off a reference on its way into a column.
-/

namespace CliMeta

namespace Sizing

variable {s : Sizing} {c : CodedCategory} {table : TableId} {tag row : Nat}

/-! ### Numbers that fit -/

/-- A tag fills bits that a shifted row leaves free, so it needs no room of its own. -/
theorem tagged_lt_iff {bits width : Nat} (htag : tag < 2 ^ bits) (hbits : bits ≤ width) :
    row <<< bits ||| tag < 2 ^ width ↔ row <<< bits < 2 ^ width := by
  constructor
  · exact Nat.lt_of_le_of_lt Nat.left_le_or
  · intro hrow
    exact Nat.or_lt_two_pow hrow
      (Nat.lt_of_lt_of_le htag (Nat.pow_le_pow_right (by decide) hbits))

theorem longest_mem (s : Sizing) (tables : List TableId) :
    s.longest tables = 0 ∨ ∃ table ∈ tables, s.rowCount table = s.longest tables := by
  rw [longest]
  cases hmax : (tables.map s.rowCount).max? with
  | none => exact .inl rfl
  | some count => exact .inr (List.mem_map.1 (List.max?_mem hmax))

theorem rowCount_le_longest {tables : List TableId} (h : table ∈ tables) :
    s.rowCount table ≤ s.longest tables :=
  List.le_max?_getD_of_mem (List.mem_map_of_mem h)

/-- The longest table leaves room for the tags exactly if every table does. -/
theorem longest_narrow (s : Sizing) (tables : List TableId) (bits : Nat) :
    s.longest tables <<< bits < 2 ^ 16 ↔
      ∀ table ∈ tables, s.rowCount table <<< bits < 2 ^ 16 := by
  simp only [Nat.shiftLeft_eq]
  constructor
  · intro h table htable
    exact Nat.lt_of_le_of_lt (Nat.mul_le_mul_right _ (rowCount_le_longest htable)) h
  · intro h
    obtain hnone | ⟨table, htable, hlongest⟩ := longest_mem s tables
    · rw [hnone]
      omega
    · rw [← hlongest]
      exact h table htable

theorem codedIndexBytes_eq_two_iff :
    s.codedIndexBytes c = 2 ↔ ∀ table tag, c.HasTag table tag → ∀ row ≤ s.rowCount table,
      row <<< c.tagBits ||| tag < 2 ^ 16 := by
  have hnarrow : s.codedIndexBytes c = 2 ↔ s.longest c.tables <<< c.tagBits < 2 ^ 16 := by
    simp [codedIndexBytes]
  have hbits := c.tagBits_le
  rw [hnarrow, longest_narrow]
  constructor
  · intro h table tag htag row hrow
    have hlast := h table (CodedCategory.mem_tables_iff.2 ⟨tag, htag⟩)
    refine (tagged_lt_iff htag.lt (by omega)).2 (Nat.lt_of_le_of_lt ?_ hlast)
    rw [Nat.shiftLeft_eq, Nat.shiftLeft_eq]
    exact Nat.mul_le_mul_right _ hrow
  · intro h table htable
    obtain ⟨tag, htag⟩ := CodedCategory.mem_tables_iff.1 htable
    exact (tagged_lt_iff htag.lt (by omega)).1 (h table tag htag _ (Nat.le_refl _))

theorem tableIndexBytes_eq_two_iff :
    s.tableIndexBytes table = 2 ↔ ∀ row ≤ s.rowCount table, row < 2 ^ 16 := by
  have hnarrow : s.tableIndexBytes table = 2 ↔ s.rowCount table < 2 ^ 16 := by
    simp [tableIndexBytes]
  rw [hnarrow]
  exact ⟨fun h row hrow => Nat.lt_of_le_of_lt hrow h, fun h => h _ (Nat.le_refl _)⟩

/-- The width holds the number of a row as soon as a word does. -/
theorem tagged_fits (htag : c.HasTag table tag) (hrow : row ≤ s.rowCount table) :
    row <<< c.tagBits ||| tag < 2 ^ (8 * s.codedIndexBytes c) ↔
      row <<< c.tagBits ||| tag < 2 ^ 32 := by
  obtain htwo | hfour : s.codedIndexBytes c = 2 ∨ s.codedIndexBytes c = 4 :=
    s.columnBytes_eq (.coded c)
  · have hsmall := codedIndexBytes_eq_two_iff.1 htwo table tag htag row hrow
    rw [htwo]
    exact ⟨fun _ => Nat.lt_trans hsmall (by decide), fun _ => hsmall⟩
  · rw [hfour]

/-- The number that a reference to an existing row is stored as fits the width. -/
theorem stored_fits {raw : Nat} {r : RowReference} {target : RowId} (hraw : raw < 2 ^ 32)
    (hdecode : c.decode raw = .ok r) (htarget : r.target = some target)
    (hexists : target.index < s.rowCount target.table) :
    raw < 2 ^ (8 * s.codedIndexBytes c) := by
  obtain ⟨-, hrow, htag⟩ := CodedCategory.target_of_decode hdecode htarget
  have hnumber : (target.index + 1) <<< c.tagBits ||| raw % 2 ^ c.tagBits = raw := by
    have hjoin := CodedCategory.join_parts c.tagBits raw
    rw [Nat.one_shiftLeft] at hjoin
    rw [← hrow, ← Nat.shiftLeft_add_eq_or_of_lt htag.lt, hjoin]
  have hfits := tagged_fits htag (Nat.succ_le_of_lt hexists)
  rw [hnumber] at hfits
  exact hfits.2 hraw

theorem index_fits (h : s.rowCount table < 2 ^ 32) (hrow : row ≤ s.rowCount table) :
    row < 2 ^ (8 * s.tableIndexBytes table) := by
  obtain htwo | hfour : s.tableIndexBytes table = 2 ∨ s.tableIndexBytes table = 4 :=
    s.columnBytes_eq (.index table)
  · rw [htwo]
    exact tableIndexBytes_eq_two_iff.1 htwo row hrow
  · rw [hfour]
    exact Nat.lt_of_le_of_lt hrow h

/-! ### Columns side by side -/

theorem place_offset {offset index : Nat} {columns : List Column} {placed : PlacedColumn}
    (h : (s.place offset columns)[index]? = some placed) :
    placed.offset =
      offset + (((s.place offset columns).take index).map PlacedColumn.width).sum := by
  induction columns generalizing offset index with
  | nil => simp [place] at h
  | cons column columns ih =>
      cases index with
      | zero =>
          obtain rfl := Option.some.inj h
          simp
      | succ index =>
          rw [place, List.getElem?_cons_succ] at h
          rw [ih h, place, List.take_succ_cons, List.map_cons, List.sum_cons, Nat.add_assoc]

theorem sum_place (s : Sizing) (offset : Nat) (columns : List Column) :
    ((s.place offset columns).map PlacedColumn.width).sum =
      columns.foldr (fun column size => s.columnBytes column.kind + size) 0 := by
  induction columns generalizing offset with
  | nil => rfl
  | cons column columns ih => rw [place, List.map_cons, List.sum_cons, ih, List.foldr_cons]

end Sizing

/-- The columns of the schema stand side by side from the first byte of a row to its last one, each
in the width of its kind. -/
structure Table.Contiguous (t : Table) : Prop where
  schema : t.columns.map (fun placed => (⟨placed.name, placed.kind⟩ : Column)) = t.id.columns
  width : ∀ placed ∈ t.columns, placed.width = t.sizing.columnBytes placed.kind
  offset : ∀ index placed, t.columns[index]? = some placed →
    placed.offset = ((t.columns.take index).map PlacedColumn.width).sum
  rowSize : (t.columns.map PlacedColumn.width).sum = t.rowSize
  rowBytes : (t.columns.map PlacedColumn.width).sum = t.sizing.rowBytes t.id

theorem Table.contiguous (t : Table) : t.Contiguous := by
  have hsum : (t.columns.map PlacedColumn.width).sum = t.sizing.rowBytes t.id := by
    rw [t.columns_eq]
    exact t.sizing.sum_place 0 t.id.columns
  constructor
  case schema =>
    rw [t.columns_eq]
    exact t.sizing.place_columns 0 t.id.columns
  case width =>
    intro placed hplaced
    rw [t.columns_eq] at hplaced
    exact Sizing.place_width hplaced
  case offset =>
    intro index placed hplaced
    rw [t.columns_eq] at hplaced ⊢
    rw [Sizing.place_offset hplaced, Nat.zero_add]
    rfl
  case rowSize => rw [hsum, t.rowSize_eq]
  case rowBytes => exact hsum

namespace Sizing

/-- References take two bytes exactly where these hold the numbers of all rows, tables are laid out
in these widths, and no reference to a row that exists is too large for its column. -/
structure ExactWidths (s : Sizing) : Prop where
  coded_two_iff : ∀ c, s.codedIndexBytes c = 2 ↔ ∀ table tag, c.HasTag table tag →
    ∀ row ≤ s.rowCount table, row <<< c.tagBits ||| tag < 2 ^ 16
  coded_four : ∀ c, s.codedIndexBytes c ≠ 2 → s.codedIndexBytes c = 4
  index_two_iff : ∀ table, s.tableIndexBytes table = 2 ↔ ∀ row ≤ s.rowCount table, row < 2 ^ 16
  index_four : ∀ table, s.tableIndexBytes table ≠ 2 → s.tableIndexBytes table = 4
  tables : ∀ t : Table, t.sizing = s → t.Contiguous
  /-- The number that is stored for a row of a table is not cut off. -/
  index_fits : ∀ table, ∀ row ≤ s.rowCount table, row < 2 ^ (8 * s.tableIndexBytes table)
  /-- No word that refers to an existing row is cut off. -/
  coded_fits : ∀ (c : CodedCategory), ∀ raw < 2 ^ 32, ∀ (r : RowReference) (target : RowId),
    c.decode raw = .ok r → r.target = some target → target.index < s.rowCount target.table →
      raw < 2 ^ (8 * s.codedIndexBytes c)
  /-- Over exact numbers only what is no word at all is cut off. -/
  tagged_fits : ∀ c table tag, c.HasTag table tag → ∀ row ≤ s.rowCount table,
    (row <<< c.tagBits ||| tag < 2 ^ (8 * s.codedIndexBytes c) ↔
      row <<< c.tagBits ||| tag < 2 ^ 32)

/-- Whatever the row counts, which are words, and the heap sizes, columns are exactly as wide as
they have to be. -/
theorem widths_exact (s : Sizing) (h : ∀ table, s.rowCount table < 2 ^ 32) : s.ExactWidths where
  coded_two_iff _ := codedIndexBytes_eq_two_iff
  coded_four c := (s.columnBytes_eq (.coded c)).resolve_left
  index_two_iff _ := tableIndexBytes_eq_two_iff
  index_four table := (s.columnBytes_eq (.index table)).resolve_left
  tables t _ := t.contiguous
  index_fits table _ hrow := index_fits (h table) hrow
  coded_fits _ _ hraw _ _ hdecode htarget hexists := stored_fits hraw hdecode htarget hexists
  tagged_fits _ _ _ htag _ hrow := tagged_fits htag hrow

/-- Counts at the limits: fields and types are one row short of needing four bytes, in a reference
of their own and in a category with two tag bits, while parameters have the one row too many for a
category with five; there are as many events as a word can count. -/
def limitCounts : Sizing :=
  ofCounts [(.field, 0xFFFF), (.typeRef, 0x3FFF), (.param, 0x800), (.event, 0xFFFFFFFF)] 0x05

theorem widths_exact_limitCounts :
    (∀ table, limitCounts.rowCount table < 2 ^ 32) ∧ limitCounts.ExactWidths ∧
      limitCounts.tableIndexBytes .field = 2 ∧ limitCounts.codedIndexBytes .typeDefOrRef = 2 ∧
      limitCounts.codedIndexBytes .hasCustomAttribute = 4 ∧
      limitCounts.tableIndexBytes .event = 4 := by
  have hwords : ∀ table, limitCounts.rowCount table < 2 ^ 32 :=
    rowCount_lt (by decide) (by decide)
  exact ⟨hwords, widths_exact limitCounts hwords, by decide, by decide, by decide, by decide⟩

end Sizing

end CliMeta
