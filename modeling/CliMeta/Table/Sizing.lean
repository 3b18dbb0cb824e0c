import CliMeta.Table.Schema

/-!
Column widths. A reference takes two bytes where these reach every row that exists and four
otherwise, so the widths of all tables depend on the row counts of all tables and on the heap size
flags.
-/

namespace CliMeta

/-- The row count of every table, and the flags that tell which heaps are large. -/
structure Sizing where
  rowCount : TableId → Nat
  heapSizes : Nat

structure PlacedColumn where
  name : String
  kind : ColumnKind
  offset : Nat
  width : Nat
  deriving DecidableEq, Repr

namespace Sizing

/-- The counts given for tables, zero for all others. Where a table is given twice, the later
count holds. -/
def ofCounts (counts : List (TableId × Nat)) (heapSizes : Nat) : Sizing :=
  let reversed := counts.reverse
  ⟨fun table => (reversed.lookup table).getD 0, heapSizes⟩

/-- The flag of a heap in the heap sizes; the heap of user strings has none. -/
def largeHeapFlag? : HeapKind → Option Nat
  | .string => some 0
  | .guid => some 1
  | .blob => some 2
  | .userString => none

def isLargeHeap (s : Sizing) (heap : HeapKind) : Bool :=
  match largeHeapFlag? heap with
  | some bit => s.heapSizes.testBit bit
  | none => false

/-- Four more bytes follow the row counts if this flag is set. -/
def hasExtraData (s : Sizing) : Bool :=
  s.heapSizes.testBit 6

def heapIndexBytes (s : Sizing) (heap : HeapKind) : Nat :=
  if s.isLargeHeap heap then 4 else 2

def tableIndexBytes (s : Sizing) (table : TableId) : Nat :=
  if s.rowCount table < 0x10000 then 2 else 4

def longest (s : Sizing) (tables : List TableId) : Nat :=
  (tables.map s.rowCount).max?.getD 0

def codedIndexBytes (s : Sizing) (category : CodedCategory) : Nat :=
  if s.longest category.tables <<< category.tagBits < 0x10000 then 2 else 4

def columnBytes (s : Sizing) : ColumnKind → Nat
  | .word => 2
  | .long => 4
  | .heap heap => s.heapIndexBytes heap
  | .index table => s.tableIndexBytes table
  | .coded category => s.codedIndexBytes category

def rowBytes (s : Sizing) (table : TableId) : Nat :=
  table.columns.foldr (fun column size => s.columnBytes column.kind + size) 0

/-- Puts columns side by side from an offset on. -/
def place (s : Sizing) (offset : Nat) : List Column → List PlacedColumn
  | [] => []
  | column :: columns =>
      let width := s.columnBytes column.kind
      ⟨column.name, column.kind, offset, width⟩ :: s.place (offset + width) columns

def layout (s : Sizing) (table : TableId) : List PlacedColumn :=
  s.place 0 table.columns

/-- Puts columns side by side from an offset on, and gives the offset that is reached. -/
def arrange (s : Sizing) (offset : Nat) : List Column → List PlacedColumn × Nat
  | [] => ([], offset)
  | column :: columns =>
      let width := s.columnBytes column.kind
      let (others, stop) := s.arrange (offset + width) columns
      (⟨column.name, column.kind, offset, width⟩ :: others, stop)

theorem arrange_eq (s : Sizing) (offset : Nat) (columns : List Column) :
    s.arrange offset columns = (s.place offset columns,
      offset + columns.foldr (fun column size => s.columnBytes column.kind + size) 0) := by
  induction columns generalizing offset with
  | nil => rfl
  | cons column columns ih => rw [arrange, ih, place, List.foldr_cons, Nat.add_assoc]

theorem columnBytes_eq (s : Sizing) (kind : ColumnKind) :
    s.columnBytes kind = 2 ∨ s.columnBytes kind = 4 := by
  cases kind <;>
    simp only [columnBytes, heapIndexBytes, tableIndexBytes, codedIndexBytes] <;>
    (try split) <;> simp

end Sizing

end CliMeta
