import CliMeta.Proofs.Table.Indirection

/-!
Coded references and the rows behind them. A reference is checked in two places: the accessor of a
row compares it with the row counts that the widths are computed from, and the stream looks for the
row among the tables that it holds. `CodedTarget` says what a number of a category stands for, given
how many rows each table has; both checks come to that, so a reference that an accessor hands out
always leads to its row.
-/

namespace CliMeta

/-- What a number of a category stands for, given the number of rows of each table. Its low bits
are a tag and the others a row, counted from 1. -/
inductive CodedTarget (c : CodedCategory) (rowCount : TableId → Nat) (raw : Nat) :
    Except Error RowReference → Prop
  | null (hrow : raw >>> c.tagBits = 0) : CodedTarget c rowCount raw (.ok (.null c))
  | unknown (hrow : 0 < raw >>> c.tagBits) (htag : c.member? (raw % (1 <<< c.tagBits)) = none) :
      CodedTarget c rowCount raw (.error (.unknownCodedTag c (raw % (1 <<< c.tagBits))))
  | dangling {table : TableId} (htag : c.member? (raw % (1 <<< c.tagBits)) = some table)
      (hpast : rowCount table < raw >>> c.tagBits) :
      CodedTarget c rowCount raw (.error (.danglingReference table (raw >>> c.tagBits)))
  | found {table : TableId} (hrow : 0 < raw >>> c.tagBits)
      (htag : c.member? (raw % (1 <<< c.tagBits)) = some table)
      (hinside : raw >>> c.tagBits ≤ rowCount table) :
      CodedTarget c rowCount raw (.ok ⟨c, some ⟨table, raw >>> c.tagBits - 1⟩⟩)

/-! ### The check of an accessor -/

namespace Row

variable {r : Row} {column : Nat} {placed : PlacedColumn} {c : CodedCategory}

theorem coded_eq (hplaced : r.table.columns[column]? = some placed)
    (hkind : placed.kind = .coded c) :
    r.coded column = c.decode (r.raw placed) >>= r.checkTarget := by
  have hcell : r.cell column = r.decode placed := by
    rw [cell, Table.column, hplaced]
    rfl
  rw [coded, hcell, decode, hkind]
  dsimp only
  cases hdecode : c.decode (r.raw placed) with
  | error e => rfl
  | ok reference =>
      show ((r.checkTarget reference >>= _) >>= _) = r.checkTarget reference
      cases r.checkTarget reference <;> rfl

/-- A row is looked at before its tag, and a tag before the number of rows. -/
theorem codedTarget (r : Row) (c : CodedCategory) (raw : Nat) :
    CodedTarget c r.table.sizing.rowCount raw (c.decode raw >>= r.checkTarget) := by
  by_cases hrow : raw >>> c.tagBits = 0
  · rw [c.decode_null hrow]
    exact .null hrow
  · have hpos := Nat.pos_of_ne_zero hrow
    have hback : raw >>> c.tagBits - 1 + 1 = raw >>> c.tagBits := Nat.sub_add_cancel hpos
    rw [CodedCategory.decode]
    simp only [hrow, if_false]
    cases htag : c.member? (raw % (1 <<< c.tagBits)) with
    | none => exact .unknown hpos htag
    | some table =>
        show CodedTarget _ _ _ (r.checkTarget ⟨c, some ⟨table, raw >>> c.tagBits - 1⟩⟩)
        rw [checkTarget]
        by_cases hinside : raw >>> c.tagBits - 1 < r.table.sizing.rowCount table
        · simp only [hinside, if_true]
          exact .found hpos htag (by omega)
        · simp only [hinside, if_false, hback]
          exact .dangling htag (by omega)

end Row

namespace TablesStream

variable {data : Bytes} {s : TablesStream}

/-! ### The check of the stream -/

theorem Consistent.rowCount_of_absent (hs : s.Consistent) {table : TableId}
    (h : s.table? table = none) : s.rowCount table = 0 := by
  by_contra hrows
  obtain ⟨t, ht⟩ := hs.exists_table (Nat.pos_of_ne_zero hrows)
  rw [h] at ht
  cases ht

theorem Consistent.resolve_inside (hs : s.Consistent) {reference : RowReference} {target : RowId}
    (htarget : reference.target = some target) (hinside : target.index < s.rowCount target.table) :
    ∃ row, s.row target.table target.index = .ok row ∧ row.id = target ∧
      s.resolve reference = .ok (some row) := by
  obtain ⟨row, hrow, hid⟩ := hs.exists_row hinside
  refine ⟨row, hrow, hid, ?_⟩
  have ht := table?_of_row hrow
  obtain ⟨table, index⟩ := target
  cases hid
  rw [resolve, htarget]
  simp only [ht]
  exact dif_pos row.index_lt

/-- A row behind the last one is not found, whether its table is absent or too short. -/
theorem Consistent.resolve_past (hs : s.Consistent) {reference : RowReference} {target : RowId}
    (htarget : reference.target = some target) (hpast : s.rowCount target.table ≤ target.index) :
    s.resolve reference = .error (.danglingReference target.table (target.index + 1)) := by
  rw [resolve, htarget]
  cases ht : s.table? target.table with
  | none => simp only [ht]
  | some t =>
      have hcount := hs.rowCount_eq ht
      have hnot : ¬target.index < t.rowCount := by omega
      simp only [ht, hnot, dif_neg, not_false_eq_true]

theorem Consistent.resolve_eq_checkTarget (hs : s.Consistent) {r : Row}
    (hsizing : r.table.sizing = s.sizing) (reference : RowReference) :
    (s.resolve reference).map (Option.map Row.id) =
      (r.checkTarget reference).map RowReference.target := by
  rw [Row.checkTarget, hsizing]
  cases htarget : reference.target with
  | none => simp [resolve, htarget, Except.map]
  | some target =>
      obtain hinside | hpast := Nat.lt_or_ge target.index (s.rowCount target.table)
      · obtain ⟨row, -, hid, hresolve⟩ := hs.resolve_inside htarget hinside
        have hinside' : target.index < s.sizing.rowCount target.table := hinside
        simp [hresolve, hinside', hid, htarget, Except.map]
      · have hpast' : ¬target.index < s.sizing.rowCount target.table := Nat.not_lt.2 hpast
        simp [hs.resolve_past htarget hpast, hpast', Except.map]

/-! ### What an accessor hands out -/

/-- When a coded cell is null, when its tag is unknown, when its row does not exist, and that it
leads to its row in all other cases. -/
structure CodedOutcome (s : TablesStream) (c : CodedCategory) (raw : Nat)
    (outcome : Except Error RowReference) : Prop where
  null_iff : (∃ reference, outcome = .ok reference ∧ reference.isNull = true) ↔
    raw >>> c.tagBits = 0
  unknown_iff : outcome = .error (.unknownCodedTag c (raw % (1 <<< c.tagBits))) ↔
    0 < raw >>> c.tagBits ∧ c.member? (raw % (1 <<< c.tagBits)) = none
  dangling_iff : ∀ table, outcome = .error (.danglingReference table (raw >>> c.tagBits)) ↔
    c.member? (raw % (1 <<< c.tagBits)) = some table ∧ s.rowCount table < raw >>> c.tagBits
  /-- There are no other errors. -/
  errors : ∀ e, outcome = .error e → e = .unknownCodedTag c (raw % (1 <<< c.tagBits)) ∨
    ∃ table, e = .danglingReference table (raw >>> c.tagBits)
  resolved : ∀ table, c.member? (raw % (1 <<< c.tagBits)) = some table → 0 < raw >>> c.tagBits →
    raw >>> c.tagBits ≤ s.rowCount table →
      ∃ reference row, outcome = .ok reference ∧ s.resolve reference = .ok (some row) ∧
        s.row table (raw >>> c.tagBits - 1) = .ok row ∧
        row.id = ⟨table, raw >>> c.tagBits - 1⟩

theorem Consistent.codedOutcome (hs : s.Consistent) {c : CodedCategory} {raw : Nat}
    {outcome : Except Error RowReference} (h : CodedTarget c s.rowCount raw outcome) :
    s.CodedOutcome c raw outcome := by
  cases h with
  | null hrow =>
      constructor <;> simp [hrow, RowReference.null, RowReference.isNull]
  | unknown hrow htag =>
      constructor <;> simp [hrow, htag, Nat.ne_of_gt hrow]
  | @dangling table htag hpast =>
      have hrow : 0 < raw >>> c.tagBits := Nat.zero_lt_of_lt hpast
      constructor
      case null_iff => simp [Nat.ne_of_gt hrow]
      case unknown_iff => simp [htag]
      case dangling_iff =>
        intro table'
        constructor
        · intro heq
          cases heq
          exact ⟨htag, hpast⟩
        · rintro ⟨htag', -⟩
          rw [htag] at htag'
          cases htag'
          rfl
      case errors => simp
      case resolved =>
        intro table' htag' _ hinside
        rw [htag] at htag'
        cases htag'
        exact absurd hinside (Nat.not_le.2 hpast)
  | @found table hrow htag hinside =>
      constructor
      case null_iff => simp [RowReference.isNull, Nat.ne_of_gt hrow]
      case unknown_iff => simp [htag]
      case dangling_iff => simp [htag, hinside]
      case errors => simp
      case resolved =>
        intro table' htag' _ _
        rw [htag] at htag'
        cases htag'
        have hexists : raw >>> c.tagBits - 1 < s.rowCount table := by omega
        let reference : RowReference := ⟨c, some ⟨table, raw >>> c.tagBits - 1⟩⟩
        have htarget : reference.target = some ⟨table, raw >>> c.tagBits - 1⟩ := rfl
        obtain ⟨row, hrow, hid, hresolve⟩ := hs.resolve_inside htarget hexists
        exact ⟨reference, row, rfl, hresolve, hrow, hid⟩

/-- A coded cell is null, has an unknown tag, refers to a row that does not exist, or leads to its
row. Of any number of any category the accessor and the stream say the same, where a table that is
absent counts as one without rows. -/
theorem coded_resolved (hparse : parse data = .ok s) {table : TableId} {index : Nat} {r : Row}
    (hrow : s.row table index = .ok r) :
    (∀ (column : Nat) (col : Column) (c : CodedCategory), table.columns[column]? = some col →
      col.kind = .coded c → ∃ raw, r.table.storedCell index column = .ok raw ∧
        s.CodedOutcome c raw (r.coded column)) ∧
    (∀ (c : CodedCategory) (raw : Nat),
      (c.decode raw >>= s.resolve).map (Option.map Row.id) =
        (c.decode raw >>= r.checkTarget).map RowReference.target) ∧
    ∀ target, s.table? target = none → s.rowCount target = 0 := by
  have hs := (parse_eq_ok_iff.1 hparse).consistent
  have ht := table?_of_row hrow
  have hsizing := hs.sizing_eq ht
  refine ⟨?_, ?_, fun target => hs.rowCount_of_absent⟩
  · intro column col c hcolumn hkind
    obtain ⟨placed, hplaced, hplacedKind⟩ := exists_placed ht hcolumn hkind
    obtain ⟨t, -, hindex⟩ := Reader.exists_of_bind_ok hrow
    obtain ⟨rfl, rfl⟩ := Table.row_eq_ok.1 hindex
    refine ⟨r.raw placed, ?_, ?_⟩
    · rw [Table.storedCell_eq hplaced, Row.raw_eq_stored (List.mem_of_getElem? hplaced)]
    · have htarget := r.codedTarget c (r.raw placed)
      rw [hsizing, ← Row.coded_eq hplaced hplacedKind] at htarget
      exact hs.codedOutcome htarget
  · intro c raw
    cases c.decode raw with
    | error e => rfl
    | ok reference => exact hs.resolve_eq_checkTarget hsizing reference

/-- Members whose parents are, in this order, null under some tag, the only type, a type that does
not exist, a row of a table that is absent, and a row under a tag of no table. -/
def memberParents : Bytes :=
  #[0, 0, 0, 0, 2, 0, 0, 1] ++ #[0x04, 0x04, 0, 0, 0, 0, 0, 0] ++ #[0, 0, 0, 0, 0, 0, 0, 0] ++
    #[1, 0, 0, 0] ++ #[5, 0, 0, 0] ++
    #[0, 0, 0, 0, 0, 0, 0, 0, 0, 0] ++ #[0, 0] ++ #[0, 0] ++
    #[0x01, 0, 0, 0, 0, 0] ++ #[0x08, 0, 0, 0, 0, 0] ++ #[0x10, 0, 0, 0, 0, 0] ++
    #[0x0C, 0, 0, 0, 0, 0] ++ #[0x0F, 0, 0, 0, 0, 0]

theorem coded_resolved_memberParents :
    ∃ s, parse memberParents = .ok s ∧ ∀ index < 5, ∃ r raw, s.row .memberRef index = .ok r ∧
      r.table.storedCell index 0 = .ok raw ∧ s.CodedOutcome .memberRefParent raw (r.coded 0) := by
  have hrun : (parse memberParents).map (fun s => s.rowCount .memberRef) = .ok 5 := by
    decide +kernel
  obtain ⟨s, hparse, hcount⟩ := Reader.exists_of_map_ok hrun
  have hs := (parse_eq_ok_iff.1 hparse).consistent
  have hcolumn : (TableId.columns .memberRef)[0]? = some (.coded "Class" .memberRefParent) := rfl
  refine ⟨s, hparse, fun index hindex => ?_⟩
  obtain ⟨r, hrow, -⟩ := hs.exists_row (show index < s.rowCount .memberRef by omega)
  obtain ⟨raw, hraw, houtcome⟩ := (coded_resolved hparse hrow).1 0 _ _ hcolumn rfl
  exact ⟨r, raw, hrow, hraw, houtcome⟩

example :
    (parse memberParents).map (fun s => (List.range 5).map fun index =>
      s.row .memberRef index >>= fun r => r.coded 0) =
    .ok [.ok (.null .memberRefParent), .ok ⟨.memberRefParent, some ⟨.typeDef, 0⟩⟩,
      .error (.danglingReference .typeDef 2), .error (.danglingReference .typeSpec 1),
      .error (.unknownCodedTag .memberRefParent 7)] := by
  decide +kernel

end TablesStream

end CliMeta
