import CliMeta.Table.Range

/-!
The tables stream: a header that names the tables present and counts their rows, and then the rows
of these tables. References are resolved within one stream.
-/

namespace CliMeta

structure TablesStream where
  majorVersion : Nat
  minorVersion : Nat
  /-- The mask of the tables that the stream declares. -/
  valid : Nat
  /-- The mask of the tables that are declared to be sorted. -/
  sorted : Nat
  sizing : Sizing
  present : List Table

namespace TablesStream

/-- Reads a row count for each of the tables, from an offset on. -/
def readCounts (data : Bytes) :
    List TableId → (offset : Nat) → Except Error (List (TableId × Nat))
  | [], _ => .ok []
  | table :: tables, offset => do
      if offset + 4 ≤ data.size then
        let others ← readCounts data tables (offset + 4)
        return (table, data.littleEndian offset 4) :: others
      else throw .outOfBounds

/-- Cuts the rows of each of the tables out of the stream, from an offset on. -/
def readTables (data : Bytes) (sizing : Sizing) :
    List TableId → (offset : Nat) → Except Error (List Table)
  | [], _ => .ok []
  | table :: tables, offset =>
      let size := sizing.rowCount table * sizing.rowBytes table
      if h : offset + size ≤ data.size then do
        let rows := data.extract offset (offset + size)
        let others ← readTables data sizing tables (offset + size)
        return Table.ofBytes table sizing rows (by simp [rows, size]; omega) :: others
      else throw .outOfBounds

/-- The size of the header without the row counts. -/
def headerSize : Nat := 24

def tablesOf (valid : Nat) : List TableId :=
  TableId.all.filter fun table => valid.testBit table.number

def parse (data : Bytes) : Except Error TablesStream := do
  if data.size < headerSize then throw .outOfBounds
  let valid := data.littleEndian 8 8
  if valid >>> TableId.count ≠ 0 then throw (.malformed (.unsupportedTables valid))
  let declared := tablesOf valid
  let counts ← readCounts data declared headerSize
  let sizing := Sizing.ofCounts counts (data.byteAt 6)
  let extra := if sizing.hasExtraData then 4 else 0
  let present ← readTables data sizing declared (headerSize + 4 * declared.length + extra)
  return {
    majorVersion := data.byteAt 4
    minorVersion := data.byteAt 5
    valid
    sorted := data.littleEndian 16 8
    sizing
    present }

def table? (s : TablesStream) (table : TableId) : Option Table :=
  s.present.find? fun t => t.id = table

def isPresent (s : TablesStream) (table : TableId) : Bool :=
  (s.table? table).isSome

def isSorted (s : TablesStream) (table : TableId) : Bool :=
  s.sorted.testBit table.number

def rowCount (s : TablesStream) (table : TableId) : Nat :=
  s.sizing.rowCount table

def table (s : TablesStream) (table : TableId) : Except Error Table :=
  match s.table? table with
  | some t => .ok t
  | none => .error (.tableAbsent table)

def row (s : TablesStream) (table : TableId) (index : Nat) : Except Error Row := do
  (← s.table table).row index

/-- The row that a reference points to; a null reference points to none. -/
def resolve (s : TablesStream) (reference : RowReference) : Except Error (Option Row) :=
  match reference.target with
  | none => .ok none
  | some target =>
      let dangling := .error (.danglingReference target.table (target.index + 1))
      match s.table? target.table with
      | some t =>
          if h : target.index < t.rowCount then .ok (some ⟨t, target.index, h⟩) else dangling
      | none => dangling

/-- The row of a table that a place in a row list stands for: the pointer table of the table, if
it is present, is looked up. -/
def physicalRow (s : TablesStream) (table : TableId) (logical : Nat) : Except Error Nat :=
  match table.pointerTable?.bind s.table? with
  | none => .ok logical
  | some pointer => do
      match ← (← pointer.row logical).tableIndex 0 with
      | some physical => return physical
      | none => throw (.danglingReference table 0)

def rowsIn (s : TablesStream) (range : RowRange) : List (Except Error Row) :=
  range.toList.map fun logical => do
    s.row range.target (← s.physicalRow range.target logical)

end TablesStream

end CliMeta
