import CliMeta.Image.Basic
import CliMeta.Proofs.Machine.Heap
import CliMeta.Proofs.Machine.Rows

/-!
Records, read with words. Tables have few columns, so the numbers of the columns of a field can be
counted; and what a column holds into a heap is a 32-bit word, so it can be looked up there.
-/

namespace CliMeta.Machine

variable {h : Heaps} {r : Row}

/-! ### Fields -/

def constant (r : Row) : ConstantWidth → (column : Nat) → Checked Nat
  | .word => word r
  | .long => long r

def version (r : Row) (first : Nat) : Checked AssemblyVersion := do
  let major ← word r first
  let minor ← word r (← add 64 first 1)
  let build ← word r (← add 64 first 2)
  let revision ← word r (← add 64 first 3)
  return ⟨major, minor, build, revision⟩

/-- Reads a field of which the first column is given. -/
def field (h : Heaps) (r : Row) (column : Nat) : (form : FieldForm) → Checked form.Value
  | .constant width => constant r width column
  | .lowByte => return (← word r column) % 0x100
  | .token => return ⟨← long r column⟩
  | .flags width _ => return ⟨← constant r width column⟩
  | .version => version r column
  | .text => do string h.strings (← heapOffset r column)
  | .blob => do blob h.blobs (← heapOffset r column)
  | .guid => do guid h.guids (← heapOffset r column)
  | .row => tableIndex r column
  | .reference => coded r column
  | .rows => range r column

def fieldValues (h : Heaps) (r : Row) : (fields : List RecordField) → Checked (FieldValues fields)
  | [] => .ok ()
  | f :: fields => do
      let first ← field h r f.column f.form
      let others ← fieldValues h r fields
      return (first, others)

theorem constant_eq (r : Row) (width : ConstantWidth) (column : Nat) :
    constant r width column = lift (r.constant width column) := by
  cases width with
  | word => exact word_eq r column
  | long => exact long_eq r column

theorem version_eq {column : Nat} (hcolumn : column + 3 < 2 ^ 64) :
    version r column = lift (FieldForm.version.read h r column) := by
  refine bind_agrees (word_eq r column) fun major _ => ?_
  rw [add_eq (by omega), ok_bind]
  refine bind_agrees (word_eq r _) fun minor _ => ?_
  rw [add_eq (by omega), ok_bind]
  refine bind_agrees (word_eq r _) fun build _ => ?_
  rw [add_eq hcolumn, ok_bind]
  exact bind_agrees (word_eq r _) fun revision _ => rfl

theorem field_eq (hh : HeapsFit h) (ht : FitsWords r.table) {column : Nat} (form : FieldForm)
    (hcolumn : column < positions) : field h r column form = lift (form.read h r column) := by
  cases form with
  | constant width => exact constant_eq r width column
  | lowByte => exact bind_agrees (word_eq r column) fun _ _ => rfl
  | token => exact bind_agrees (long_eq r column) fun _ _ => rfl
  | flags width => exact bind_agrees (constant_eq r width column) fun _ _ => rfl
  | version =>
      have hword : column < 2 ^ 32 := hcolumn
      exact version_eq (by omega)
  | text => exact bind_agrees (heapOffset_eq r column) fun offset _ => string_eq h.strings offset
  | blob => exact bind_agrees (heapOffset_eq r column) fun offset _ => blob_eq hh.blobs offset
  | guid =>
      exact bind_agrees (heapOffset_eq r column) fun offset hoffset =>
        guid_eq h.guids (heapOffset_lt hoffset)
  | row => exact tableIndex_eq r column
  | reference => exact coded_eq r column
  | rows => exact range_eq ht column

theorem fieldValues_eq (hh : HeapsFit h) (ht : FitsWords r.table) {fields : List RecordField}
    (hcolumns : ∀ f ∈ fields, f.column < positions) :
    fieldValues h r fields = lift (FieldValues.read h r fields) := by
  induction fields with
  | nil => rfl
  | cons f fields ih =>
      refine bind_agrees (field_eq hh ht f.form (hcolumns f List.mem_cons_self)) fun first _ => ?_
      have hothers := ih fun other hmem => hcolumns other (List.mem_cons_of_mem f hmem)
      exact bind_agrees hothers fun others _ => rfl

/-! ### Records of rows -/

/-- Reads a row as one of a table. -/
def recordOf (h : Heaps) (table : TableId) (r : Row) : Checked (Record table) :=
  if r.tableId = table then do
    let token ← token r
    let values ← fieldValues h r table.fields
    return ⟨token, values⟩
  else fail (.malformed (.rowOfOtherTable r.tableId table))

def record (image : Image) (table : TableId) (index : Nat) : Checked (Record table) := do
  let row ← rowOf image.tables table index
  recordOf image.heaps table row

theorem recordOf_eq (hh : HeapsFit h) (ht : FitsWords r.table) (table : TableId) :
    recordOf h table r = lift (Record.ofRow h table r) := by
  rw [recordOf, Record.ofRow]
  refine ite_agrees (fun _ => ?_) fun _ => rfl
  have hcolumns : ∀ f ∈ table.fields, f.column < positions := by cases table <;> decide
  rw [token_eq ht, ok_bind, fieldValues_eq hh ht hcolumns]
  cases FieldValues.read h r table.fields <;> rfl

theorem record_eq {image : Image} (hh : HeapsFit image.heaps) (ht : TablesFit image.tables)
    (table : TableId) (index : Nat) :
    record image table index = lift (image.record table index) :=
  bind_agrees (rowOf_eq ht table index) fun _ hr => recordOf_eq hh (ht.of_row hr) table

end CliMeta.Machine
