import CliMeta.Table.Basic
import CliMeta.Word

/-!
Row lists. A row owns a run of rows of another table: its list column stores where the run starts,
and the run ends where that of the next row starts. Where the target has a pointer table with rows,
the run counts rows of the pointer table.
-/

namespace CliMeta

/-- The rows from `start` up to `stop` of a table, counted from 0. -/
structure RowRange where
  target : TableId
  start : Nat
  stop : Nat
  deriving DecidableEq, Repr

namespace RowRange

/-- The number of rows, as a 32-bit word. -/
def size (r : RowRange) : Nat :=
  (r.stop + 0x100000000 - r.start) % 0x100000000

def isEmpty (r : RowRange) : Bool :=
  r.start == r.stop

def contains (r : RowRange) (row : Nat) : Bool :=
  r.start ≤ row && row < r.stop

def toList (r : RowRange) : List Nat :=
  List.range' r.start (r.stop - r.start)

theorem mem_toList {r : RowRange} {row : Nat} : row ∈ r.toList ↔ r.contains row = true := by
  simp only [toList, List.mem_range'_1, contains, Bool.and_eq_true, decide_eq_true_eq]
  omega

end RowRange

/-- The number of rows that a list into a table can run over. -/
def Sizing.listTargetRows (s : Sizing) (target : TableId) : Nat :=
  match target.pointerTable? with
  | some pointer => if 0 < s.rowCount pointer then s.rowCount pointer else s.rowCount target
  | none => s.rowCount target

/-- The rows that a list column gives to a row. Starts outside the target are moved to its
nearest end, so the range lies inside the target whatever is stored. The number behind the last row
of the target is a 32-bit word. -/
def Row.range (r : Row) (column : Nat) : Except Error RowRange := do
  match ← r.cell column with
  | .index target raw =>
      let limit ← wordOf 32 (r.table.sizing.listTargetRows target + 1)
      let next ←
        if r.index + 1 < r.table.rowCount then r.table.storedCell (r.index + 1) column
        else pure limit
      let start := min (max raw 1) limit
      let stop := min (max next start) limit
      return ⟨target, start - 1, stop - 1⟩
  | _ => r.wrongRole column .rowList

end CliMeta
