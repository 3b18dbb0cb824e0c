import CliMeta.Record.Field

/-!
Records, the rows of a table with their fields read. The type of a record follows from the fields of
its table, so one reader serves all tables.
-/

namespace CliMeta

/-- A value of whatever form a field has. -/
abbrev FieldValue : Type := (form : FieldForm) × form.Value

abbrev FieldValues : List RecordField → Type
  | [] => Unit
  | field :: fields => field.form.Value × FieldValues fields

namespace FieldValues

/-- Reads fields one after the other, each at its own column. -/
def read (h : Heaps) (r : Row) : (fields : List RecordField) → Except Error (FieldValues fields)
  | [] => .ok ()
  | field :: fields => do
      let first ← field.form.read h r field.column
      let others ← read h r fields
      return (first, others)

def toList : {fields : List RecordField} → FieldValues fields → List (String × FieldValue)
  | [], _ => []
  | field :: _, (first, others) => (field.name, ⟨field.form, first⟩) :: toList others

end FieldValues

structure Record (table : TableId) where
  token : Token
  values : FieldValues table.fields

namespace Record

/-- Reads a row as one of a table. The first field that cannot be read is reported. -/
def ofRow (h : Heaps) (table : TableId) (r : Row) : Except Error (Record table) :=
  if r.tableId = table then
    (FieldValues.read h r table.fields).map fun values => ⟨r.token, values⟩
  else .error (.malformed (.rowOfOtherTable r.tableId table))

/-- The names of the fields with their values, the token first. -/
def toList {table : TableId} (r : Record table) : List (String × FieldValue) :=
  ("token", ⟨.token, r.token⟩) :: r.values.toList

end Record

end CliMeta
