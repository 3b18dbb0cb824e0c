import CliMeta.Proofs.Table.Ranges

/-!
Row lists behind pointer tables. Two functions decide whether a pointer table is in force: a range
counts the rows of a pointer table that has any, while a lookup goes through a pointer table that
is present. They agree except where a pointer table is present without rows; there every lookup
fails with a row that is out of range.
-/

namespace CliMeta

/-- A pointer table has one column, which stores rows of the table that it redirects. -/
theorem TableId.pointer_column {target pointer : TableId}
    (h : target.pointerTable? = some pointer) :
    ∃ name, pointer.columns[0]? = some ⟨name, .index target⟩ := by
  cases target <;> cases h <;> exact ⟨_, rfl⟩

theorem Row.tableIndex_eq {r : Row} {column : Nat} {placed : PlacedColumn} {target : TableId}
    (hplaced : r.table.columns[column]? = some placed) (hkind : placed.kind = .index target) :
    r.tableIndex column =
      if r.raw placed = 0 then .ok none
      else if r.table.sizing.rowCount target < r.raw placed then
        .error (.danglingReference target (r.raw placed))
      else .ok (some (r.raw placed - 1)) := by
  rw [Row.tableIndex, Row.cell_index hplaced hkind]
  rfl

namespace TablesStream

variable {data : Bytes} {s : TablesStream} {target pointer table : TableId} {logical total : Nat}

/-- Every pointer table of the target that is present has rows. -/
def PointersFilled (s : TablesStream) (target : TableId) : Prop :=
  ∀ pointer, target.pointerTable? = some pointer → s.isPresent pointer = true →
    0 < s.rowCount pointer

/-- No pointer table of the target is present. -/
def NoPointers (s : TablesStream) (target : TableId) : Prop :=
  ∀ pointer, target.pointerTable? = some pointer → s.isPresent pointer = false

/-- How the lookup of a row of a list can end. -/
inductive LookedUp (s : TablesStream) (target : TableId) (logical : Nat) :
    Except Error Nat → Prop
  | direct {r : Row} (hnone : s.NoPointers target) (hrow : s.row target logical = .ok r) :
      LookedUp s target logical (.ok logical)
  | redirected {pointer : TableId} {t : Table} {physical : Nat} {r : Row}
      (hpointer : target.pointerTable? = some pointer) (ht : s.table pointer = .ok t)
      (hentry : t.storedCell logical 0 = .ok (physical + 1))
      (hrow : s.row target physical = .ok r) : LookedUp s target logical (.ok physical)
  /-- The entry of the pointer table is null or behind the rows of the target. -/
  | dangling {pointer : TableId} {t : Table} {entry : Nat}
      (hpointer : target.pointerTable? = some pointer) (ht : s.table pointer = .ok t)
      (hentry : t.storedCell logical 0 = .ok entry)
      (hdangling : entry = 0 ∨ s.rowCount target < entry) :
      LookedUp s target logical (.error (.danglingReference target entry))

theorem PointersFilled.noPointers (h : s.PointersFilled target) (hdirect : s.Direct target) :
    s.NoPointers target := by
  intro pointer hpointer
  by_contra hpresent
  have hrows := h pointer hpointer (by simpa using hpresent)
  exact absurd (hdirect pointer hpointer) (Nat.ne_of_gt hrows)

theorem table?_of_row {index : Nat} {r : Row} (h : s.row table index = .ok r) :
    s.table? table = some r.table := by
  obtain ⟨t, ht, hrow⟩ := Reader.exists_of_bind_ok h
  obtain ⟨rfl, -⟩ := Table.row_eq_ok.1 hrow
  exact table_eq_ok.1 ht

/-- The range that a list column gives to a row lies inside what such lists count, unless the number
behind the last row that is counted is no word. -/
theorem exists_range (hs : s.Consistent) {index : Nat} {r : Row}
    (hrow : s.row table index = .ok r) {column : Nat} {c : Column}
    (hcolumn : table.columns[column]? = some c) (hkind : c.kind = .index target) :
    ∃ total, s.ListCounts target total ∧
      (total + 1 = 0x100000000 ∧ r.range column = .error .overflow ∨
        ∃ range, r.range column = .ok range ∧ range.target = target ∧
          range.start ≤ range.stop ∧ range.stop ≤ total) := by
  have ht := table?_of_row hrow
  obtain ⟨placed, hplaced, hplacedKind⟩ := exists_placed ht hcolumn hkind
  have hcounts := hs.listCounts ht target
  obtain ⟨counted, hcounted⟩ := hcounts.exists_table
  have hcount := hs.word counted
  refine ⟨_, hcounts, ?_⟩
  by_cases hword : r.table.sizing.listTargetRows target + 1 < 0x100000000
  · obtain ⟨hinside, hstop⟩ := RowRange.between_inside _ _
    exact .inr ⟨_, Row.range_eq_between hplaced hplacedKind hword, rfl, hinside, hstop⟩
  · exact .inl ⟨by omega, Row.range_eq_overflow hplaced hplacedKind (Nat.not_lt.1 hword)⟩

/-! ### Looking up a row -/

theorem physicalRow_direct (h : s.NoPointers target) (logical : Nat) :
    s.physicalRow target logical = .ok logical := by
  have hnone : target.pointerTable?.bind s.table? = none := by
    rw [Option.bind_eq_none_iff]
    intro pointer hpointer
    simpa [isPresent] using h pointer hpointer
  rw [physicalRow, hnone]

theorem physicalRow_pointer {t : Table} (hpointer : target.pointerTable? = some pointer)
    (ht : s.table? pointer = some t) :
    s.physicalRow target logical =
      t.row logical >>= fun r => r.tableIndex 0 >>= fun physical? =>
        match physical? with
        | some physical => .ok physical
        | none => .error (.danglingReference target 0) := by
  rw [physicalRow, hpointer, Option.bind_some, ht]
  rfl

theorem physicalRow_entry (hs : s.Consistent) (hpointer : target.pointerTable? = some pointer)
    (hlogical : logical < s.rowCount pointer) :
    s.LookedUp target logical (s.physicalRow target logical) := by
  obtain ⟨t, ht⟩ := hs.exists_table (Nat.zero_lt_of_lt hlogical)
  obtain ⟨name, hcolumn⟩ := TableId.pointer_column hpointer
  obtain ⟨placed, hplaced, hkind⟩ := exists_placed ht hcolumn rfl
  have hinside : logical < t.rowCount := by rwa [hs.rowCount_eq ht]
  let r : Row := ⟨t, logical, hinside⟩
  have hentry : t.storedCell logical 0 = .ok (r.raw placed) := by
    rw [Table.storedCell_eq hplaced, r.raw_eq_stored (List.mem_of_getElem? hplaced)]
  have hrow : t.row logical = .ok r := dif_pos hinside
  have hindex : r.tableIndex 0 = _ := Row.tableIndex_eq hplaced hkind
  rw [show r.table.sizing = s.sizing from hs.sizing_eq ht] at hindex
  rw [physicalRow_pointer hpointer ht, hrow]
  change s.LookedUp target logical (r.tableIndex 0 >>= _)
  rw [hindex]
  by_cases hnull : r.raw placed = 0
  · rw [if_pos hnull]
    have hdangling := LookedUp.dangling hpointer (table_eq_ok.2 ht) hentry (.inl hnull)
    rwa [hnull] at hdangling
  · rw [if_neg hnull]
    by_cases hpast : s.sizing.rowCount target < r.raw placed
    · rw [if_pos hpast]
      exact .dangling hpointer (table_eq_ok.2 ht) hentry (.inr hpast)
    · rw [if_neg hpast]
      have hexact : r.raw placed - 1 < s.rowCount target := by
        rw [rowCount]
        omega
      obtain ⟨row, hrow, -⟩ := hs.exists_row hexact
      rw [← Nat.sub_add_cancel (Nat.pos_of_ne_zero hnull)] at hentry
      exact .redirected hpointer (table_eq_ok.2 ht) hentry hrow

/-- Where every pointer table that is present has rows, what a list counts can be looked up. -/
theorem ListCounts.lookedUp (hcounts : s.ListCounts target total) (hs : s.Consistent)
    (hfilled : s.PointersFilled target) (hlogical : logical < total) :
    s.LookedUp target logical (s.physicalRow target logical) := by
  cases hcounts with
  | pointers hpointer => exact physicalRow_entry hs hpointer hlogical
  | own hdirect =>
      have hnone := hfilled.noPointers hdirect
      rw [physicalRow_direct hnone]
      obtain ⟨r, hrow, -⟩ := hs.exists_row hlogical
      exact .direct hnone hrow

theorem ListCounts.eq_of_direct (hcounts : s.ListCounts target total) (hdirect : s.Direct target) :
    total = s.rowCount target := by
  cases hcounts with
  | pointers hpointer hrows => exact absurd (hdirect _ hpointer) (Nat.ne_of_gt hrows)
  | own => rfl

/-! ### The rows of a list -/

theorem rowsIn_length {range : RowRange} (hstart : range.start ≤ range.stop)
    (hstop : range.stop < 0x100000000) : (s.rowsIn range).length = range.size := by
  rw [rowsIn, List.length_map, RowRange.toList, List.length_range', RowRange.size]
  omega

/-- The list that a column gives to a row can be looked up row by row: each place in it leads to a
row that exists or to a dangling entry of the pointer table, and without a pointer table the rows
are those of the range, in order. There is no list only if the rows that it would run over are as
many as a word can count. -/
theorem range_lookedUp (hparse : parse data = .ok s) {index : Nat} {r : Row}
    (hrow : s.row table index = .ok r) {column : Nat} {c : Column}
    (hcolumn : table.columns[column]? = some c) (hkind : c.kind = .index target)
    (hfilled : s.PointersFilled target) :
    (∃ total, s.ListCounts target total ∧ total + 1 = 0x100000000 ∧
      r.range column = .error .overflow) ∨
    ∃ range, r.range column = .ok range ∧ range.target = target ∧
      (∀ logical, range.contains logical = true →
        s.LookedUp target logical (s.physicalRow target logical)) ∧
      (s.rowsIn range).length = range.size ∧
      (s.Direct target → s.rowsIn range = range.toList.map (s.row target) ∧
        ∀ logical ∈ range.toList, ∃ row, s.row target logical = .ok row ∧
          row.id = ⟨target, logical⟩) := by
  have hs := (parse_eq_ok_iff.1 hparse).consistent
  obtain ⟨total, hcounts, ⟨hmost, hrange⟩ | ⟨range, hrange, htarget, hinside, htotal⟩⟩ :=
    exists_range hs hrow hcolumn hkind
  · exact .inl ⟨total, hcounts, hmost, hrange⟩
  have hlookedUp : ∀ logical, range.contains logical = true → logical < total := by
    intro logical hcontains
    rw [RowRange.contains, Bool.and_eq_true, decide_eq_true_eq, decide_eq_true_eq] at hcontains
    exact Nat.lt_of_lt_of_le hcontains.2 htotal
  refine .inr ⟨range, hrange, htarget, fun logical hcontains => ?_, ?_, fun hdirect => ?_⟩
  · exact hcounts.lookedUp hs hfilled (hlookedUp logical hcontains)
  · obtain ⟨counted, hcounted⟩ := hcounts.exists_table
    have hword : total < 0x100000000 := hcounted ▸ hs.word counted
    exact rowsIn_length hinside (Nat.lt_of_le_of_lt htotal hword)
  · constructor
    · refine List.map_congr_left fun logical _ => ?_
      rw [htarget, physicalRow_direct (hfilled.noPointers hdirect)]
      rfl
    · intro logical hlogical
      have hlt := hlookedUp logical (RowRange.mem_toList.1 hlogical)
      rw [hcounts.eq_of_direct hdirect] at hlt
      exact hs.exists_row hlt

/-- A type whose list runs over the rows of `FieldPtr`, if there are any, and else over the two rows
of `Field`. -/
def typeWithPointers (entries : List UInt8) : Bytes :=
  #[0, 0, 0, 0, 2, 0, 0, 1] ++ #[0x1C, 0, 0, 0, 0, 0, 0, 0] ++ #[0, 0, 0, 0, 0, 0, 0, 0] ++
    #[1, 0, 0, 0] ++ #[UInt8.ofNat entries.length, 0, 0, 0] ++ #[2, 0, 0, 0] ++
    #[0, 0, 0, 0, 0, 0, 0, 0, 0, 0] ++ #[1, 0] ++ #[1, 0] ++
    (entries.flatMap fun entry => [entry, 0]).toArray ++
    #[0, 0, 0, 0, 0, 0] ++ #[0, 0, 0, 0, 0, 0]

theorem range_lookedUp_entries :
    ∃ s r range, parse (typeWithPointers [2, 0, 9]) = .ok s ∧ s.row .typeDef 0 = .ok r ∧
      r.range 4 = .ok range ∧ (s.rowsIn range).length = range.size ∧
      ∀ logical, range.contains logical = true →
        s.LookedUp .field logical (s.physicalRow .field logical) := by
  have hrun : (parse (typeWithPointers [2, 0, 9])).map (fun s =>
      (s.rowCount .typeDef, s.rowCount .fieldPtr)) = .ok (1, 3) := by
    decide +kernel
  obtain ⟨s, hparse, hfacts⟩ := Reader.exists_of_map_ok hrun
  obtain ⟨htypes, hpointers⟩ := Prod.mk.inj hfacts
  have hs := (parse_eq_ok_iff.1 hparse).consistent
  obtain ⟨r, hrow, -⟩ := hs.exists_row (show 0 < s.rowCount .typeDef by omega)
  have hcolumn : (TableId.columns .typeDef)[4]? = some (.index "FieldList" .field) := rfl
  have hfilled : s.PointersFilled .field := by
    intro pointer hpointer _
    obtain rfl := Option.some.inj hpointer
    omega
  obtain ⟨total, hcounts, hmost, -⟩ | ⟨range, hrange, -, hlookedUp, hlength, -⟩ :=
    range_lookedUp hparse hrow hcolumn rfl hfilled
  · cases hcounts with
    | pointers hpointer =>
        obtain rfl := Option.some.inj hpointer
        omega
    | own hdirect => exact absurd (hdirect .fieldPtr rfl) (by omega)
  · exact ⟨s, r, range, hparse, hrow, hrange, hlength, hlookedUp⟩

/-- With an empty pointer table the list runs over the rows of `Field`, and no lookup succeeds. -/
theorem typeWithPointers_empty :
    (do
      let s ← parse (typeWithPointers [])
      let r ← s.row .typeDef 0
      let range ← r.range 4
      return (range, s.physicalRow range.target 0)) =
    .ok (⟨.field, 0, 2⟩, .error (.rowOutOfRange .fieldPtr 0 0)) := by
  decide +kernel

end TablesStream

end CliMeta
