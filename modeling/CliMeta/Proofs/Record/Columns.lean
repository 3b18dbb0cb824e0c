import CliMeta.Proofs.Heap.Numbering
import CliMeta.Proofs.Outcome
import CliMeta.Proofs.Record.Sources
import CliMeta.Proofs.Table.Indirection
import CliMeta.Proofs.Table.Reference

/-!
Records and the columns of their rows. An accessor that suits the kind of a column succeeds in
decoding it, and gives what the name of the column gives. Since every field has the position and the
accessor that its source asks for, a record that is read comes to the sources of its table in all
its fields; one that cannot be read has a column that leads nowhere, or a list over more rows than a
word can count the place behind.
-/

namespace CliMeta

/-! ### Cells by name -/

/-- No table has two columns of one name. -/
theorem TableId.columns_nodup (t : TableId) : (t.columns.map Column.name).Nodup := by
  cases t <;> decide

theorem TableId.columnIndex?_name {t : TableId} {column : Nat} {c : Column}
    (h : t.columns[column]? = some c) : t.columnIndex? c.name = some column := by
  obtain ⟨hlt, rfl⟩ := List.getElem?_eq_some_iff.1 h
  rw [columnIndex?, List.findIdx?_eq_some_iff_getElem]
  refine ⟨hlt, by simp, fun other hother hsame => ?_⟩
  have hapart := List.pairwise_iff_getElem.1 t.columns_nodup other column (by simp; omega)
    (by simpa using hlt) hother
  rw [List.getElem_map, List.getElem_map] at hapart
  exact hapart (eq_of_beq hsame)

namespace Row

variable {r : Row} {column : Nat} {name : String}

/-- A column of the schema is decoded by its kind, whether it is asked for by name or by place. -/
theorem exists_decode {c : Column} (h : r.tableId.columns[column]? = some c) :
    ∃ placed ∈ r.table.columns, placed.kind = c.kind ∧
      r.cell column = r.decode placed ∧ r.cellNamed c.name = r.decode placed := by
  obtain ⟨placed, hplaced, hkind⟩ := Table.exists_placed h
  have hcell : r.cell column = r.decode placed := by
    rw [cell, Table.column, hplaced]
    rfl
  have hindex : r.table.id.columnIndex? c.name = some column := TableId.columnIndex?_name h
  refine ⟨placed, List.mem_of_getElem? hplaced, hkind, hcell, ?_⟩
  rw [cellNamed, hindex, ← hcell]

theorem exists_of_cellNamed {found : Cell} (h : r.cellNamed name = .ok found) :
    ∃ placed ∈ r.table.columns, r.decode placed = .ok found := by
  rw [cellNamed] at h
  split at h
  · obtain ⟨placed, hcolumn, hdecode⟩ := Reader.exists_of_bind_ok h
    exact ⟨placed, List.mem_of_getElem? (Table.column_eq_ok.1 hcolumn), hdecode⟩
  · cases h

/-- A cell that is no reference holds the stored number of a column of its kind. -/
theorem decode_eq_ok {placed : PlacedColumn} {found : Cell} (h : r.decode placed = .ok found) :
    match found with
    | .word value => placed.kind = .word ∧ r.raw placed = value
    | .long value => placed.kind = .long ∧ r.raw placed = value
    | .heap heap offset => placed.kind = .heap heap ∧ r.raw placed = offset
    | .index table raw => placed.kind = .index table ∧ r.raw placed = raw
    | .coded _ => ∃ category, placed.kind = .coded category := by
  rw [decode] at h
  cases hkind : placed.kind with
  | word | long | heap | index =>
      simp only [hkind] at h
      cases h
      exact ⟨rfl, rfl⟩
  | coded category =>
      simp only [hkind] at h
      obtain ⟨reference, -, hthen⟩ := Reader.exists_of_bind_ok h
      obtain ⟨checked, -, hend⟩ := Reader.exists_of_bind_ok hthen
      cases hend
      exact ⟨category, rfl⟩

theorem word_lt {value : Nat} (h : r.cellNamed name = .ok (.word value)) : value < 0x10000 := by
  obtain ⟨placed, hplaced, hdecode⟩ := exists_of_cellNamed h
  obtain ⟨hkind, rfl⟩ := decode_eq_ok hdecode
  have hwidth := Sizing.place_width (r.table.columns_eq ▸ hplaced)
  have hraw := raw_lt hplaced
  rw [hkind] at hwidth
  rwa [hwidth] at hraw

/-! ### Columns by their roles -/

theorem word_named (h : columnName? r.tableId.columns (· == .word) column = some name) :
    ∃ value, r.word column = .ok value ∧ r.cellNamed name = .ok (.word value) := by
  obtain ⟨placed, -, hkind, hcell, hnamed⟩ := exists_decode (column_of_name h)
  rw [decode, hkind] at hcell hnamed
  exact ⟨r.raw placed, by rw [word, hcell]; rfl, hnamed⟩

theorem long_named (h : columnName? r.tableId.columns (· == .long) column = some name) :
    ∃ value, r.long column = .ok value ∧ r.cellNamed name = .ok (.long value) := by
  obtain ⟨placed, -, hkind, hcell, hnamed⟩ := exists_decode (column_of_name h)
  rw [decode, hkind] at hcell hnamed
  exact ⟨r.raw placed, by rw [long, hcell]; rfl, hnamed⟩

theorem constant_named {width : ConstantWidth}
    (h : columnName? r.tableId.columns (· == width.kind) column = some name) :
    ∃ value, r.constant width column = .ok value ∧
      r.cellNamed name = .ok (width.cell value) := by
  cases width with
  | word => exact word_named h
  | long => exact long_named h

theorem heapOffset_named {heap : HeapKind}
    (h : columnName? r.tableId.columns (· == .heap heap) column = some name) :
    ∃ offset, r.heapOffset column = .ok offset ∧
      r.cellNamed name = .ok (.heap heap offset) := by
  obtain ⟨placed, -, hkind, hcell, hnamed⟩ := exists_decode (column_of_name h)
  rw [decode, hkind] at hcell hnamed
  exact ⟨r.raw placed, by rw [heapOffset, hcell]; rfl, hnamed⟩

end Row

/-! ### Fields -/

/-- What a field is read as is what its source comes to. -/
theorem FieldForm.gives (h : Heaps) {r : Row} {form : FieldForm} {column : Nat}
    {source : FieldSource} (hsource : form.source? r.tableId.columns column = some source) :
    source.Gives h r ((form.read h r column).map fun value => ⟨form, value⟩) := by
  cases form with
  | constant width =>
      obtain ⟨name, hname, rfl⟩ := Option.map_eq_some_iff.1 hsource
      obtain ⟨value, hread, hcell⟩ := Row.constant_named hname
      rw [read, hread]
      exact .constant hcell
  | lowByte =>
      obtain ⟨name, hname, rfl⟩ := Option.map_eq_some_iff.1 hsource
      obtain ⟨value, hread, hcell⟩ := Row.word_named hname
      rw [read, hread]
      exact .lowByte hcell
  | token =>
      obtain ⟨name, hname, rfl⟩ := Option.map_eq_some_iff.1 hsource
      obtain ⟨value, hread, hcell⟩ := Row.long_named hname
      rw [read, hread]
      exact .token hcell
  | flags width kind =>
      obtain ⟨name, hname, rfl⟩ := Option.map_eq_some_iff.1 hsource
      obtain ⟨value, hread, hcell⟩ := Row.constant_named hname
      rw [read, hread]
      exact .flags hcell
  | version =>
      obtain ⟨first, hfirst, hsource⟩ := Option.bind_eq_some_iff.1 hsource
      obtain ⟨second, hsecond, hsource⟩ := Option.bind_eq_some_iff.1 hsource
      obtain ⟨third, hthird, hsource⟩ := Option.bind_eq_some_iff.1 hsource
      obtain ⟨fourth, hfourth, hsource⟩ := Option.bind_eq_some_iff.1 hsource
      cases hsource
      obtain ⟨major, hmajor, hmajorCell⟩ := Row.word_named hfirst
      obtain ⟨minor, hminor, hminorCell⟩ := Row.word_named hsecond
      obtain ⟨build, hbuild, hbuildCell⟩ := Row.word_named hthird
      obtain ⟨revision, hrevision, hrevisionCell⟩ := Row.word_named hfourth
      rw [read, hmajor, hminor, hbuild, hrevision]
      exact .version hmajorCell hminorCell hbuildCell hrevisionCell
  | text =>
      obtain ⟨name, hname, rfl⟩ := Option.map_eq_some_iff.1 hsource
      obtain ⟨offset, hread, hcell⟩ := Row.heapOffset_named hname
      rw [read, hread]
      exact .text hcell
  | blob =>
      obtain ⟨name, hname, rfl⟩ := Option.map_eq_some_iff.1 hsource
      obtain ⟨offset, hread, hcell⟩ := Row.heapOffset_named hname
      rw [read, hread]
      exact .blob hcell
  | guid =>
      obtain ⟨name, hname, rfl⟩ := Option.map_eq_some_iff.1 hsource
      obtain ⟨offset, hread, hcell⟩ := Row.heapOffset_named hname
      rw [read, hread]
      exact .guid hcell
  | row =>
      obtain ⟨name, hname, rfl⟩ := Option.map_eq_some_iff.1 hsource
      obtain ⟨target, hcolumn⟩ := index_of_name hname
      exact .row hcolumn
  | reference =>
      obtain ⟨name, hname, rfl⟩ := Option.map_eq_some_iff.1 hsource
      obtain ⟨category, hcolumn⟩ := coded_of_name hname
      exact .reference hcolumn
  | rows =>
      obtain ⟨name, hname, rfl⟩ := Option.map_eq_some_iff.1 hsource
      obtain ⟨target, hcolumn⟩ := index_of_name hname
      exact .rows hcolumn

/-! ### Fields that cannot be read -/

/-- A column leads nowhere: to no entry of a heap, to no table or to no row. -/
inductive BrokenLink : Error → Prop
  | heap (heap : HeapKind) (offset : Nat) : BrokenLink (.heapRead heap offset)
  | tag (category : CodedCategory) (tag : Nat) : BrokenLink (.unknownCodedTag category tag)
  | row (target : TableId) (row : Nat) : BrokenLink (.danglingReference target row)

theorem StringHeap.broken {heap : StringHeap} {offset : Nat} {e : Error}
    (h : heap.get offset = .error e) : BrokenLink e := by
  rw [get] at h
  split at h
  · cases h
  · split at h <;> cases h
    exact .heap _ _

theorem BlobHeap.broken {heap : BlobHeap} {offset : Nat} {e : Error}
    (h : heap.get offset = .error e) : BrokenLink e := by
  rw [get, entry] at h
  split at h
  · cases h
  · split at h <;> cases h
    exact .heap _ _

/-- The number of an entry that a column holds is far from those whose entries end beyond words. -/
theorem GuidHeap.broken {heap : GuidHeap} {index : Nat} {e : Error} (hindex : index < 0x100000000)
    (h : heap.get index = .error e) : BrokenLink e := by
  cases index with
  | zero => cases h
  | succ place =>
      rw [get_eq (Nat.succ_pos place), if_pos (Nat.lt_trans hindex (by decide))] at h
      split at h <;> cases h
      exact .heap _ _

namespace Row

variable {r : Row} {column : Nat} {name : String} {e : Error}

/-- A list column gives a range of the rows of its target, unless these are too many. -/
theorem range_cases {target : TableId}
    (hcolumn : r.tableId.columns[column]? = some ⟨name, .index target⟩) :
    (∃ range, r.range column = .ok range ∧ range.target = target) ∨
      r.range column = .error .overflow ∧
        0x100000000 ≤ r.table.sizing.listTargetRows target + 1 := by
  obtain ⟨placed, hplaced, hkind⟩ := Table.exists_placed hcolumn
  by_cases hword : r.table.sizing.listTargetRows target + 1 < 0x100000000
  · exact .inl ⟨_, range_eq_between hplaced hkind hword, rfl⟩
  · have hbeyond := Nat.not_lt.1 hword
    exact .inr ⟨range_eq_overflow hplaced hkind hbeyond, hbeyond⟩

theorem range_target {target : TableId} {range : RowRange}
    (hcolumn : r.tableId.columns[column]? = some ⟨name, .index target⟩)
    (h : r.range column = .ok range) : target = range.target := by
  obtain ⟨found, hfound, rfl⟩ | ⟨hoverflow, -⟩ := range_cases hcolumn
  · rw [hfound] at h
    cases h
    rfl
  · rw [hoverflow] at h
    cases h

end Row

/-- Every field has a value, which is what its source comes to. -/
def FieldValues.FollowSources (h : Heaps) (r : Row) (sources : List (String × FieldSource))
    {fields : List RecordField} (values : FieldValues fields) : Prop :=
  List.Forall₂ (fun source entry => entry.1 = source.1 ∧ source.2.Gives h r (.ok entry.2))
    sources values.toList

theorem FieldValues.read_follows (h : Heaps) {r : Row} {fields : List RecordField}
    {sources : List (String × FieldSource)}
    (hreads : List.Forall₂ (RecordField.Reads r.tableId.columns) fields sources) :
    (∃ values, FieldValues.read h r fields = .ok values ∧ values.FollowSources h r sources) ∨
    ∃ e, FieldValues.read h r fields = .error e ∧
      ∃ source ∈ sources, source.2.Gives h r (.error e) := by
  induction hreads with
  | nil => exact .inl ⟨(), rfl, .nil⟩
  | @cons field source fields sources hfield _ ih =>
      obtain ⟨hname, hsource⟩ := hfield
      have hfirst := FieldForm.gives h hsource
      rw [FieldValues.read]
      cases hread : field.form.read h r field.column with
      | error e =>
          rw [hread] at hfirst
          exact .inr ⟨e, rfl, source, List.mem_cons_self, hfirst⟩
      | ok first =>
          rw [hread] at hfirst
          obtain ⟨values, hvalues, hfollow⟩ | ⟨e, he, other, hother, hgives⟩ := ih
          · rw [hvalues]
            exact .inl ⟨(first, values), rfl, .cons ⟨hname, hfirst⟩ hfollow⟩
          · rw [he]
            exact .inr ⟨e, rfl, other, .tail _ hother, hgives⟩

namespace Record

/-- The fields of a record are what their sources come to in the row, and its token is that of the
row. -/
structure FollowsSchema (h : Heaps) (r : Row) {table : TableId} (record : Record table) :
    Prop where
  token : record.token = r.token
  values : record.values.FollowSources h r table.sources

variable {h : Heaps} {r : Row} {table : TableId}

theorem read_sources (h : Heaps) (htable : r.tableId = table) :
    (∃ values, FieldValues.read h r table.fields = .ok values ∧
      values.FollowSources h r table.sources) ∨
    ∃ e, FieldValues.read h r table.fields = .error e ∧
      ∃ source ∈ table.sources, source.2.Gives h r (.error e) := by
  subst htable
  exact FieldValues.read_follows h r.tableId.fields_read_sources

/-- A record that is read keeps to the names of the columns. -/
theorem followsSchema_of_ok {record : Record table} (hrecord : ofRow h table r = .ok record) :
    r.tableId = table ∧ record.FollowsSchema h r := by
  rw [ofRow] at hrecord
  split at hrecord
  · rename_i htable
    obtain ⟨values, hvalues, rfl⟩ := Reader.exists_of_map_ok hrecord
    obtain ⟨values', hvalues', hfollow⟩ | ⟨e, he, -⟩ := read_sources h htable
    · obtain rfl := Except.ok.inj (hvalues.symm.trans hvalues')
      exact ⟨htable, rfl, hfollow⟩
    · rw [hvalues] at he
      cases he
  · cases hrecord

/-- How a row of a tables stream is read as one of a table. -/
inductive Outcome (s : TablesStream) (h : Heaps) (r : Row) (table : TableId) :
    Except Error (Record table) → Prop
  | read {record : Record table} (htable : r.tableId = table)
      (hfollows : record.FollowsSchema h r) : Outcome s h r table (.ok record)
  /-- The column of a field leads nowhere. -/
  | broken {e : Error} (htable : r.tableId = table)
      (hsource : ∃ source ∈ table.sources, source.2.Gives h r (.error e)) (hlink : BrokenLink e) :
      Outcome s h r table (.error e)
  /-- The list of a field runs over as many rows as a word can count. -/
  | overflow {field name : String} {column total : Nat} {target : TableId}
      (htable : r.tableId = table) (hsource : (field, .rows name) ∈ table.sources)
      (hcolumn : table.columns[column]? = some ⟨name, .index target⟩)
      (hcounts : s.ListCounts target total) (hmost : total + 1 = 0x100000000) :
      Outcome s h r table (.error .overflow)
  | otherTable (htable : r.tableId ≠ table) :
      Outcome s h r table (.error (.malformed (.rowOfOtherTable r.tableId table)))

end Record

end CliMeta
