import CliMeta.Proofs.Table.Accepted
import CliMeta.Proofs.Table.Cells
import CliMeta.Table.Range
import Mathlib.Order.Monotone.Basic

/-!
Row lists as a partition. Whatever a list column stores, the ranges that it gives lie inside the
rows that a list into the target counts. A range is made from two reads, of its own row and of the
next one; where the stored starts do not decrease, both are values of one nondecreasing function,
the boundary in front of a row, so that each range ends where the next one begins.
-/

namespace CliMeta

/-! ### Ranges between boundaries -/

/-- Ranges that split the rows below a total among themselves. -/
structure RowRange.Partition (ranges : List RowRange) (total : Nat) : Prop where
  first : ∀ range, ranges.head? = some range → range.start = 0
  joined : ∀ index front back, ranges[index]? = some front → ranges[index + 1]? = some back →
    front.stop = back.start
  last : ∀ range, ranges.getLast? = some range → range.stop = total
  once : ∀ row < total, ∃! index : Nat, ∃ range : RowRange, ranges[index]? = some range ∧
    range.contains row = true

/-- A number that a nondecreasing function passes lies between two consecutive values, and only
there. -/
theorem existsUnique_between {f : Nat → Nat} (hmono : Monotone f) {count row : Nat}
    (hstart : f 0 ≤ row) (hstop : row < f count) :
    ∃! index, index < count ∧ f index ≤ row ∧ row < f (index + 1) := by
  have hexists : ∃ index, index < count ∧ f index ≤ row ∧ row < f (index + 1) := by
    induction count with
    | zero => exact absurd hstop (Nat.not_lt.2 hstart)
    | succ count ih =>
        by_cases hlast : f count ≤ row
        · exact ⟨count, Nat.lt_succ_self count, hlast, hstop⟩
        · obtain ⟨index, hindex, hbetween⟩ := ih (Nat.lt_of_not_le hlast)
          exact ⟨index, Nat.lt_succ_of_lt hindex, hbetween⟩
  obtain ⟨index, hindex, hlow, hhigh⟩ := hexists
  refine ⟨index, ⟨hindex, hlow, hhigh⟩, ?_⟩
  rintro other ⟨-, hlow', hhigh'⟩
  -- of two such places the later one begins behind the number
  obtain hlt | heq | hgt := Nat.lt_trichotomy other index
  · exact absurd (Nat.le_trans (hmono hlt) hlow) (Nat.not_le.2 hhigh')
  · exact heq
  · exact absurd (Nat.le_trans (hmono hgt) hlow') (Nat.not_le.2 hhigh)

theorem RowRange.partition_of_monotone (target : TableId) {f : Nat → Nat} (hmono : Monotone f)
    {count : Nat} (hfirst : f 0 = 0) :
    RowRange.Partition ((List.range count).map fun index => ⟨target, f index, f (index + 1)⟩)
      (f count) := by
  have hrange : ∀ index range, ((List.range count).map fun index =>
      (⟨target, f index, f (index + 1)⟩ : RowRange))[index]? = some range ↔
        index < count ∧ range = ⟨target, f index, f (index + 1)⟩ := by
    intro index range
    rw [List.getElem?_map]
    by_cases h : index < count
    · simp [h, eq_comm]
    · simp [h]
  constructor
  · intro range hhead
    rw [List.head?_eq_getElem?] at hhead
    obtain ⟨-, rfl⟩ := (hrange 0 range).1 hhead
    exact hfirst
  · intro index front back hfront hback
    obtain ⟨-, rfl⟩ := (hrange index front).1 hfront
    obtain ⟨-, rfl⟩ := (hrange (index + 1) back).1 hback
    rfl
  · intro range hlast
    rw [List.getLast?_eq_getElem?, List.length_map, List.length_range] at hlast
    obtain ⟨hinside, rfl⟩ := (hrange (count - 1) range).1 hlast
    show f (count - 1 + 1) = f count
    rw [Nat.sub_add_cancel (by omega)]
  · intro row hrow
    have hstart : f 0 ≤ row := Nat.le_trans (Nat.le_of_eq hfirst) (Nat.zero_le row)
    have hbetween := existsUnique_between hmono hstart hrow
    refine (existsUnique_congr fun index => ?_).1 hbetween
    constructor
    · rintro ⟨hindex, hlow, hhigh⟩
      exact ⟨_, (hrange index _).2 ⟨hindex, rfl⟩, by simp [RowRange.contains, hlow, hhigh]⟩
    · rintro ⟨range, hfound, hcontains⟩
      obtain ⟨hindex, rfl⟩ := (hrange index range).1 hfound
      simpa [RowRange.contains, hindex] using hcontains

/-! ### Ranges from stored starts -/

namespace RowRange

/-- The row in front of which a stored start puts the begin of a range. -/
def boundary (total raw : Nat) : Nat :=
  min (max raw 1) (total + 1) - 1

/-- The range from one stored start to the next. -/
def between (target : TableId) (total start next : Nat) : RowRange :=
  ⟨target, boundary total start,
    min (max next (min (max start 1) (total + 1))) (total + 1) - 1⟩

variable {target : TableId} {total : Nat}

theorem between_inside (start next : Nat) :
    (between target total start next).start ≤ (between target total start next).stop ∧
      (between target total start next).stop ≤ total := by
  simp only [between, boundary]
  omega

theorem boundary_mono {raw raw' : Nat} (h : raw ≤ raw') :
    boundary total raw ≤ boundary total raw' := by
  simp only [boundary]
  omega

theorem boundary_le (raw : Nat) : boundary total raw ≤ total := by
  simp only [boundary]
  omega

theorem boundary_first {raw : Nat} (h : raw ≤ 1) : boundary total raw = 0 := by
  simp only [boundary]
  omega

theorem boundary_last : boundary total (total + 1) = total := by
  simp only [boundary]
  omega

theorem between_of_boundary_le {start next : Nat}
    (h : boundary total start ≤ boundary total next) :
    between target total start next = ⟨target, boundary total start, boundary total next⟩ := by
  simp only [between, boundary, mk.injEq, true_and] at h ⊢
  omega

end RowRange

/-! ### Ranges of rows -/

namespace Table

variable {t : Table}

/-- The stored start of a row, and behind the last row the end of the target. -/
def listStart (t : Table) (placed : PlacedColumn) (total index : Nat) : Nat :=
  if index < t.rowCount then t.stored placed index else total + 1

/-- The ranges between the stored starts of a list column. -/
def listRanges (t : Table) (placed : PlacedColumn) (target : TableId) (total : Nat) :
    List RowRange :=
  (List.range t.rowCount).map fun index =>
    .between target total (t.stored placed index) (t.listStart placed total (index + 1))

/-- The row in front of which the list of a row begins. -/
def listBoundary (t : Table) (placed : PlacedColumn) (total index : Nat) : Nat :=
  RowRange.boundary total (t.listStart placed total index)

variable {placed : PlacedColumn} {total : Nat}

theorem listStart_of_lt {index : Nat} (h : index < t.rowCount) :
    t.listStart placed total index = t.stored placed index :=
  if_pos h

theorem listBoundary_of_le {index : Nat} (h : t.rowCount ≤ index) :
    t.listBoundary placed total index = total := by
  rw [listBoundary, listStart, if_neg (Nat.not_lt.2 h), RowRange.boundary_last]

theorem listBoundary_mono
    (hsorted : ((List.range t.rowCount).map (t.stored placed)).Pairwise (· ≤ ·)) :
    Monotone (t.listBoundary placed total) := by
  refine monotone_nat_of_le_succ fun index => ?_
  by_cases hnext : index + 1 < t.rowCount
  · have hindex : index < t.rowCount := Nat.lt_of_succ_lt hnext
    have hle := List.pairwise_iff_getElem.1 hsorted index (index + 1)
      (by simpa using hindex) (by simpa using hnext) (Nat.lt_succ_self index)
    simp only [List.getElem_map, List.getElem_range] at hle
    rw [listBoundary, listBoundary, listStart_of_lt hindex, listStart_of_lt hnext]
    exact RowRange.boundary_mono hle
  · rw [listBoundary_of_le (Nat.not_lt.1 hnext)]
    exact RowRange.boundary_le _

/-- Between boundaries that do not decrease no range is cut short. -/
theorem listRanges_eq (target : TableId) (hmono : Monotone (t.listBoundary placed total)) :
    t.listRanges placed target total = (List.range t.rowCount).map fun index =>
      ⟨target, t.listBoundary placed total index, t.listBoundary placed total (index + 1)⟩ := by
  refine List.map_congr_left fun index hindex => ?_
  rw [← listStart_of_lt (List.mem_range.1 hindex)]
  exact RowRange.between_of_boundary_le (hmono (Nat.le_succ index))

theorem listRanges_partition (target : TableId) (hrows : 0 < t.rowCount)
    (hsorted : ((List.range t.rowCount).map (t.stored placed)).Pairwise (· ≤ ·))
    (hfirst : t.stored placed 0 ≤ 1) :
    RowRange.Partition (t.listRanges placed target total) total := by
  have hmono : Monotone (t.listBoundary placed total) := listBoundary_mono hsorted
  have hbegin : t.listBoundary placed total 0 = 0 := by
    rw [listBoundary, listStart_of_lt hrows, RowRange.boundary_first hfirst]
  have hpartition : RowRange.Partition _ (t.listBoundary placed total t.rowCount) :=
    RowRange.partition_of_monotone target hmono hbegin
  rwa [listBoundary_of_le (Nat.le_refl _), ← listRanges_eq target hmono] at hpartition

end Table

namespace Row

variable {r : Row} {column : Nat} {placed : PlacedColumn} {target : TableId}

/-- A row that is asked for a list gives the range between its own start and the next one, as long
as the number behind the last row of the target is a word. -/
theorem range_eq_between (hplaced : r.table.columns[column]? = some placed)
    (hkind : placed.kind = .index target)
    (hword : r.table.sizing.listTargetRows target + 1 < 0x100000000) :
    r.range column = .ok (RowRange.between target (r.table.sizing.listTargetRows target)
      (r.table.stored placed r.index)
      (r.table.listStart placed (r.table.sizing.listTargetRows target) (r.index + 1))) := by
  rw [Row.range, Row.cell_index hplaced hkind, Row.raw_eq_stored (List.mem_of_getElem? hplaced),
    Table.storedCell_eq hplaced, Table.listStart]
  show (wordOf 32 (r.table.sizing.listTargetRows target + 1) >>= _) = _
  rw [wordOf_eq_ok hword]
  by_cases hnext : r.index + 1 < r.table.rowCount
  · simp only [hnext, if_true]
    rfl
  · simp only [hnext, if_false]
    rfl

theorem range_eq_overflow (hplaced : r.table.columns[column]? = some placed)
    (hkind : placed.kind = .index target)
    (hword : 0x100000000 ≤ r.table.sizing.listTargetRows target + 1) :
    r.range column = .error .overflow := by
  rw [Row.range, Row.cell_index hplaced hkind]
  show (wordOf 32 (r.table.sizing.listTargetRows target + 1) >>= _) = _
  rw [wordOf_eq_overflow hword]
  rfl

end Row

namespace TablesStream

variable {data : Bytes} {s : TablesStream} {target : TableId}

/-- No pointer table redirects the rows of the target. -/
def Direct (s : TablesStream) (target : TableId) : Prop :=
  ∀ pointer, target.pointerTable? = some pointer → s.rowCount pointer = 0

/-- What a list into a table counts: the rows of its pointer table where that has any, and else its
own. -/
inductive ListCounts (s : TablesStream) (target : TableId) : Nat → Prop
  | pointers {pointer : TableId} (hpointer : target.pointerTable? = some pointer)
      (hrows : 0 < s.rowCount pointer) : ListCounts s target (s.rowCount pointer)
  | own (hdirect : s.Direct target) : ListCounts s target (s.rowCount target)

theorem listCounts (s : TablesStream) (target : TableId) :
    s.ListCounts target (s.sizing.listTargetRows target) := by
  rw [Sizing.listTargetRows]
  cases hpointer : target.pointerTable? with
  | none => exact .own fun pointer h => by rw [hpointer] at h; cases h
  | some pointer =>
      by_cases hrows : 0 < s.sizing.rowCount pointer
      · simp only [hrows, if_true]
        exact .pointers hpointer hrows
      · simp only [hrows, if_false]
        refine .own fun other h => ?_
        rw [hpointer] at h
        obtain rfl := Option.some.inj h
        exact Nat.eq_zero_of_not_pos hrows

theorem exists_placed {table : TableId} {t : Table} (ht : s.table? table = some t) {column : Nat}
    {c : Column} (hcolumn : table.columns[column]? = some c) {kind : ColumnKind}
    (hkind : c.kind = kind) : ∃ placed, t.columns[column]? = some placed ∧ placed.kind = kind := by
  rw [← (of_table? ht).2] at hcolumn
  obtain ⟨placed, hplaced, hplacedKind⟩ := Table.exists_placed hcolumn
  exact ⟨placed, hplaced, hplacedKind.trans hkind⟩

theorem Consistent.listCounts (hs : s.Consistent) {table : TableId} {t : Table}
    (ht : s.table? table = some t) (target : TableId) :
    s.ListCounts target (t.sizing.listTargetRows target) := by
  rw [hs.sizing_eq ht]
  exact s.listCounts target

/-- In a short stream there is always a 32-bit word for the row behind the last. -/
theorem Parses.rowCount_succ_lt (h : Parses data s) (hsize : data.size < 0x100000000)
    (table : TableId) : s.rowCount table + 1 < 0x100000000 := by
  have hinside := h.rows_inside table
  have hwide : s.rowCount table * 2 ≤ s.rowCount table * s.sizing.rowBytes table :=
    Nat.mul_le_mul_left _ (s.sizing.two_le_rowBytes table)
  omega

theorem ListCounts.exists_table {total : Nat} (hcounts : s.ListCounts target total) :
    ∃ table, s.rowCount table = total := by
  cases hcounts with
  | pointers => exact ⟨_, rfl⟩
  | own => exact ⟨_, rfl⟩

/-- The lists that a column gives to the rows of a table lie inside the rows that such lists count,
whatever is stored. Where the stored starts do not decrease and the first leaves no row out, they
split these rows among themselves. -/
theorem ranges_partition (hparse : parse data = .ok s) (hsize : data.size < 0x100000000)
    {table : TableId} (hrows : 0 < s.rowCount table) {column : Nat} {c : Column}
    (hcolumn : table.columns[column]? = some c) (hkind : c.kind = .index target) :
    ∃ t total, s.table table = .ok t ∧ s.ListCounts target total ∧ total + 1 < 0x100000000 ∧
      ∃ (starts : List Nat) (ranges : List RowRange),
        t.rows.map (fun r => r.cell column) = starts.map (fun raw => .ok (.index target raw)) ∧
        t.rows.map (fun r => r.range column) = ranges.map .ok ∧
        (∀ range ∈ ranges,
          range.target = target ∧ range.start ≤ range.stop ∧ range.stop ≤ total) ∧
        (starts.Pairwise (· ≤ ·) → (∀ first, starts.head? = some first → first ≤ 1) →
          RowRange.Partition ranges total) := by
  have hparses := parse_eq_ok_iff.1 hparse
  obtain ⟨t, ht⟩ := hparses.consistent.exists_table hrows
  have hcount : t.rowCount = s.rowCount table := hparses.consistent.rowCount_eq ht
  obtain ⟨placed, hplaced, hplacedKind⟩ := exists_placed ht hcolumn hkind
  have hcounts := hparses.consistent.listCounts ht target
  generalize htotal : t.sizing.listTargetRows target = total at hcounts
  obtain ⟨counted, hcounted⟩ := hcounts.exists_table
  have hword : total + 1 < 0x100000000 := hcounted ▸ hparses.rowCount_succ_lt hsize counted
  refine ⟨t, total, table_eq_ok.2 ht, hcounts, hword, (List.range t.rowCount).map (t.stored placed),
    t.listRanges placed target total, ?_, ?_, ?_, ?_⟩
  · rw [List.map_map]
    refine Table.map_rows fun r hr => ?_
    subst hr
    rw [Row.cell_index hplaced hplacedKind, Row.raw_eq_stored (List.mem_of_getElem? hplaced)]
    rfl
  · rw [Table.listRanges, List.map_map]
    refine Table.map_rows fun r hr => ?_
    subst hr
    rw [Row.range_eq_between hplaced hplacedKind (htotal ▸ hword), htotal]
    rfl
  · intro range hrange
    obtain ⟨index, -, rfl⟩ := List.mem_map.1 hrange
    exact ⟨rfl, RowRange.between_inside _ _⟩
  · intro hsorted hfirst
    have hpos : 0 < t.rowCount := by rwa [hcount]
    refine Table.listRanges_partition target hpos hsorted (hfirst _ ?_)
    rw [List.head?_eq_getElem?, List.getElem?_map, List.getElem?_range hpos]
    rfl

/-- Three types over two rows of `FieldPtr`; the single row of `Field` does not count. -/
def pointedFields : Bytes :=
  #[0, 0, 0, 0, 2, 0, 0, 1] ++ #[0x1C, 0, 0, 0, 0, 0, 0, 0] ++ #[0, 0, 0, 0, 0, 0, 0, 0] ++
    #[3, 0, 0, 0] ++ #[2, 0, 0, 0] ++ #[1, 0, 0, 0] ++
    #[0, 0, 0, 0, 0, 0, 0, 0, 0, 0] ++ #[0, 0] ++ #[0, 0] ++
    #[0, 0, 0, 0, 0, 0, 0, 0, 0, 0] ++ #[2, 0] ++ #[0, 0] ++
    #[0, 0, 0, 0, 0, 0, 0, 0, 0, 0] ++ #[7, 0] ++ #[0, 0] ++
    #[1, 0, 1, 0] ++
    #[0, 0, 0, 0, 0, 0]

theorem ranges_partition_pointedFields :
    ∃ s t ranges, parse pointedFields = .ok s ∧ s.table .typeDef = .ok t ∧
      t.rows.map (fun r => r.range 4) = ranges.map .ok ∧ RowRange.Partition ranges 2 := by
  have hrun : (parse pointedFields).map (fun s => (s.rowCount .typeDef, s.rowCount .fieldPtr,
      (s.table .typeDef).map fun t => t.rows.map fun r => r.cell 4)) =
      .ok (3, 2, .ok [.ok (.index .field 0), .ok (.index .field 2), .ok (.index .field 7)]) := by
    decide +kernel
  obtain ⟨s, hparse, hfacts⟩ := Reader.exists_of_map_ok hrun
  simp only [Prod.mk.injEq] at hfacts
  obtain ⟨htypes, hpointers, hcells⟩ := hfacts
  have hcolumn : (TableId.columns .typeDef)[4]? = some (.index "FieldList" .field) := rfl
  obtain ⟨t, total, ht, hcounts, -, starts, ranges, hstarts, hranges, -, hpartition⟩ :=
    ranges_partition hparse (by decide +kernel) (by omega) hcolumn rfl
  have htotal : total = 2 := by
    cases hcounts with
    | pointers hpointer => obtain rfl := Option.some.inj hpointer; exact hpointers
    | own hdirect => exact absurd (hdirect .fieldPtr rfl) (by omega)
  have hvalues : starts = [0, 2, 7] := by
    rw [ht] at hcells
    refine (List.map_inj_right fun raw raw' h => ?_).1
      (hstarts.symm.trans (Except.ok.inj hcells))
    simpa using h
  subst htotal hvalues
  exact ⟨s, t, ranges, hparse, ht, hranges, hpartition (by decide) (by simp)⟩

end TablesStream

end CliMeta
