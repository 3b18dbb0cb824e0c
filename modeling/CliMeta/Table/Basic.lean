import CliMeta.Table.Reference
import CliMeta.Table.Sizing

/-!
Tables, rows and cells. A table is a slice of the tables stream with the layout that the sizing
gives its columns; a row is a place in a table that exists. Cells are decoded when they are asked
for, so a damaged cell spoils only itself.
-/

namespace CliMeta

structure Table where
  id : TableId
  sizing : Sizing
  data : Bytes
  columns : List PlacedColumn
  rowSize : Nat
  arranged : (columns, rowSize) = sizing.arrange 0 id.columns
  size_eq : data.size = sizing.rowCount id * rowSize

/-- A row of a table, counted from 0. -/
structure Row where
  table : Table
  index : Nat
  index_lt : index < table.sizing.rowCount table.id

inductive Cell where
  | word (value : Nat)
  | long (value : Nat)
  | heap (heap : HeapKind) (offset : Nat)
  /-- A row of a table as it is stored, counted from 1. -/
  | index (table : TableId) (raw : Nat)
  | coded (reference : RowReference)
  deriving DecidableEq, Repr

/-! ### Tables -/

namespace Table

theorem columns_eq (t : Table) : t.columns = t.sizing.layout t.id := by
  have harranged := t.arranged
  rw [Sizing.arrange_eq] at harranged
  exact (Prod.mk.inj harranged).1

theorem rowSize_eq (t : Table) : t.rowSize = t.sizing.rowBytes t.id := by
  have harranged := t.arranged
  rw [Sizing.arrange_eq, Nat.zero_add] at harranged
  exact (Prod.mk.inj harranged).2

def ofBytes (id : TableId) (sizing : Sizing) (data : Bytes)
    (h : data.size = sizing.rowCount id * sizing.rowBytes id) : Table where
  id
  sizing
  data
  columns := (sizing.arrange 0 id.columns).1
  rowSize := (sizing.arrange 0 id.columns).2
  arranged := rfl
  size_eq := by rw [h, Sizing.arrange_eq, Nat.zero_add, Sizing.rowBytes]

def rowCount (t : Table) : Nat :=
  t.sizing.rowCount t.id

def row (t : Table) (index : Nat) : Except Error Row :=
  if h : index < t.rowCount then .ok ⟨t, index, h⟩
  else .error (.rowOutOfRange t.id index t.rowCount)

def rows (t : Table) : List Row :=
  List.ofFn fun index : Fin t.rowCount => ⟨t, index, index.isLt⟩

def column (t : Table) (column : Nat) : Except Error PlacedColumn :=
  match t.columns[column]? with
  | some placed => .ok placed
  | none => .error (.malformed (.noColumn t.id column))

/-- The stored number of a cell, found by its place in the whole table. -/
def storedCell (t : Table) (index column : Nat) : Except Error Nat := do
  let placed ← t.column column
  return t.data.littleEndian (index * t.rowSize + placed.offset) placed.width

end Table

/-! ### Rows

A reference is checked against the row counts when its cell is decoded. The accessors by role at
the end take the content of a cell of the role that the schema gives the column. -/

namespace Row

def tableId (r : Row) : TableId :=
  r.table.id

def id (r : Row) : RowId :=
  ⟨r.table.id, r.index⟩

def token (r : Row) : Token :=
  Token.ofParts r.table.id.number (r.index + 1)

def data (r : Row) : Bytes :=
  r.table.data.extract (r.index * r.table.rowSize) (r.index * r.table.rowSize + r.table.rowSize)

/-- The stored number of a column, found by its place in the row. -/
def raw (r : Row) (placed : PlacedColumn) : Nat :=
  r.data.littleEndian placed.offset placed.width

/-- Fails unless a reference points to a row that exists. -/
def checkTarget (r : Row) (reference : RowReference) : Except Error RowReference :=
  match reference.target with
  | some target =>
      if target.index < r.table.sizing.rowCount target.table then .ok reference
      else .error (.danglingReference target.table (target.index + 1))
  | none => .ok reference

def decode (r : Row) (placed : PlacedColumn) : Except Error Cell :=
  let raw := r.raw placed
  match placed.kind with
  | .word => .ok (.word raw)
  | .long => .ok (.long raw)
  | .heap heap => .ok (.heap heap raw)
  | .index table => .ok (.index table raw)
  | .coded category => do
      let reference ← category.decode raw
      return .coded (← r.checkTarget reference)

def cell (r : Row) (column : Nat) : Except Error Cell := do
  r.decode (← r.table.column column)

def cellNamed (r : Row) (name : String) : Except Error Cell :=
  match r.table.id.columnIndex? name with
  | some column => r.cell column
  | none => .error (.malformed (.noColumnNamed r.table.id name))

def cells (r : Row) : List (Except Error Cell) :=
  r.table.columns.map r.decode

def wrongRole {α : Type} (r : Row) (column : Nat) (expected : ColumnRole) : Except Error α :=
  .error (.malformed (.columnRole r.table.id column expected))

def word (r : Row) (column : Nat) : Except Error Nat := do
  match ← r.cell column with
  | .word value => return value
  | _ => r.wrongRole column .shortConstant

def long (r : Row) (column : Nat) : Except Error Nat := do
  match ← r.cell column with
  | .long value => return value
  | _ => r.wrongRole column .longConstant

def heapOffset (r : Row) (column : Nat) : Except Error Nat := do
  match ← r.cell column with
  | .heap _ offset => return offset
  | _ => r.wrongRole column .heapIndex

/-- The row, counted from 0, that a column refers to; a stored zero refers to none. -/
def tableIndex (r : Row) (column : Nat) : Except Error (Option Nat) := do
  match ← r.cell column with
  | .index table raw =>
      if raw = 0 then return none
      else if r.table.sizing.rowCount table < raw then throw (.danglingReference table raw)
      else return some (raw - 1)
  | _ => r.wrongRole column .tableIndex

def coded (r : Row) (column : Nat) : Except Error RowReference := do
  match ← r.cell column with
  | .coded reference => return reference
  | _ => r.wrongRole column .codedIndex

def codedCategory? (r : Row) (column : Nat) : Option CodedCategory :=
  match r.table.columns[column]? with
  | some ⟨_, .coded category, _, _⟩ => some category
  | _ => none

end Row

end CliMeta
