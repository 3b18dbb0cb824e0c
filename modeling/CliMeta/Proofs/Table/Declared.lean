import CliMeta.Proofs.Table.RoundTrip
import Mathlib.Algebra.GroupWithZero.Nat
import Mathlib.Data.Nat.Count

/-!
Which bytes are a tables stream. The header and the row counts declare how long the whole stream
is, and the check of this length is spread over the counts and the tables. Together the pieces come
to one comparison with the size of the data, with one gap: the extra bytes are only passed over, so
it is left to the tables behind them to notice that they are missing.
-/

namespace CliMeta

namespace TablesStream

variable {data : Bytes} {mask : Nat}

/-! ### What a stream declares -/

/-- How many bits of a mask are set below a place. -/
def bitsBelow (mask place : Nat) : Nat :=
  Nat.count (fun bit => mask.testBit bit = true) place

/-- The mask of the tables that are declared. -/
def declaredMask (data : Bytes) : Nat :=
  data.littleEndian 8 8

/-- The row count that is declared for a table. The counts stand behind the header, one for each
table that is declared. -/
def declaredCount (data : Bytes) (table : TableId) : Nat :=
  if (declaredMask data).testBit table.number then
    data.littleEndian (headerSize + 4 * bitsBelow (declaredMask data) table.number) 4
  else 0

def declaredSizing (data : Bytes) : Sizing :=
  ⟨declaredCount data, data.byteAt 6⟩

/-- The bytes in front of the rows: the header, a count for every bit of the mask, and the extra
data that a flag announces. -/
def declaredStart (data : Bytes) : Nat :=
  headerSize + 4 * bitsBelow (declaredMask data) 64 +
    if (data.byteAt 6).testBit 6 then 4 else 0

/-- The bytes of all the rows of some tables. -/
def rowsSize (sizing : Sizing) (tables : List TableId) : Nat :=
  (tables.map fun table => sizing.rowCount table * sizing.rowBytes table).sum

/-- The size of the whole stream that is declared. -/
def declaredSize (data : Bytes) : Nat :=
  declaredStart data + rowsSize (declaredSizing data) (tablesOf (declaredMask data))

/-- There is a table for every bit of the mask. -/
def Supported (data : Bytes) : Prop :=
  ∀ bit, TableId.count ≤ bit → (declaredMask data).testBit bit = false

/-- The data hold the whole stream that they declare. -/
structure Complete (data : Bytes) : Prop where
  header : headerSize ≤ data.size
  supported : Supported data
  whole : declaredSize data ≤ data.size

/-- No tables are declared, and the data end within the extra bytes. -/
structure CutInExtra (data : Bytes) : Prop where
  header : headerSize ≤ data.size
  tableless : declaredMask data = 0
  announced : (data.byteAt 6).testBit 6 = true
  cut : data.size < headerSize + 4

theorem CutInExtra.not_complete (h : CutInExtra data) : ¬Complete data := by
  intro hcomplete
  have hstart : headerSize + 4 ≤ declaredStart data := by
    rw [declaredStart, if_pos h.announced]
    omega
  have hwhole : declaredStart data ≤ data.size :=
    (Nat.le_add_right ..).trans hcomplete.whole
  exact absurd h.cut (Nat.not_lt.2 (hstart.trans hwhole))

/-! ### Masks -/

theorem bitsBelow_succ (mask place : Nat) :
    bitsBelow mask (place + 1) = bitsBelow mask place + if mask.testBit place then 1 else 0 :=
  Nat.count_succ ..

theorem supported_iff : Supported data ↔ declaredMask data >>> TableId.count = 0 := by
  constructor
  · intro h
    apply Nat.eq_of_testBit_eq
    intro bit
    rw [Nat.testBit_shiftRight, Nat.zero_testBit]
    exact h _ (Nat.le_add_right ..)
  · intro h bit hbit
    have hshifted := Nat.testBit_shiftRight (i := TableId.count) (j := bit - TableId.count)
      (declaredMask data)
    rw [h, Nat.zero_testBit, Nat.add_sub_cancel' hbit] at hshifted
    exact hshifted.symm

theorem Supported.bitsBelow_eq (h : Supported data) :
    bitsBelow (declaredMask data) 64 = bitsBelow (declaredMask data) TableId.count := by
  have hnone : Nat.count (fun bit => (declaredMask data).testBit (TableId.count + bit) = true) 19 =
      0 := Nat.count_of_forall_not fun bit _ => by simp [h _ (Nat.le_add_right ..)]
  exact (Nat.count_add _ TableId.count 19).trans (by rw [hnone]; rfl)

/-- Of tables with consecutive numbers those in a mask are counted one after the other. -/
theorem filter_places (mask : Nat) {tables : List TableId} {place : Nat}
    (h : tables.map TableId.number = List.range' place tables.length) :
    let declared := tables.filter fun table => mask.testBit table.number
    bitsBelow mask place + declared.length = bitsBelow mask (place + tables.length) ∧
      declared.map (fun table => bitsBelow mask table.number) =
        List.range' (bitsBelow mask place) declared.length := by
  induction tables generalizing place with
  | nil => exact ⟨rfl, rfl⟩
  | cons table tables ih =>
      simp only [List.map_cons, List.length_cons, List.range'_succ, List.cons.injEq] at h
      obtain ⟨rfl, hothers⟩ := h
      obtain ⟨hlength, hplaces⟩ := ih hothers
      rw [bitsBelow_succ] at hlength hplaces
      have hstop : table.number + (tables.length + 1) = table.number + 1 + tables.length := by omega
      by_cases hbit : mask.testBit table.number = true
      · simp only [hbit, if_true] at hlength hplaces
        simp only [List.filter_cons, hbit, if_true, List.length_cons, List.map_cons,
          List.range'_succ, hplaces, hstop, ← hlength, and_true]
        omega
      · simp only [hbit, Bool.false_eq_true, if_false, Nat.add_zero] at hlength hplaces
        simp only [List.filter_cons, hbit, Bool.false_eq_true, if_false, List.length_cons, hstop]
        exact ⟨hlength, hplaces⟩

theorem tablesOf_places (mask : Nat) :
    (tablesOf mask).length = bitsBelow mask TableId.count ∧
      (tablesOf mask).map (fun table => bitsBelow mask table.number) =
        List.range' 0 (tablesOf mask).length := by
  have hall : TableId.all.map TableId.number = List.range' 0 TableId.all.length := rfl
  obtain ⟨hlength, hplaces⟩ := filter_places mask hall
  have hzero : bitsBelow mask 0 = 0 := rfl
  rw [hzero] at hlength hplaces
  rw [Nat.zero_add] at hlength
  exact ⟨hlength, hplaces⟩

/-! ### Counts -/

theorem readCounts_places (base : Nat) {tables : List TableId} {place : TableId → Nat} {start : Nat}
    (hplaces : tables.map place = List.range' start tables.length)
    (hstart : base + 4 * start ≤ data.size) :
    readCounts data tables (base + 4 * start) =
      if base + 4 * (start + tables.length) ≤ data.size then
        .ok (tables.map fun table => (table, data.littleEndian (base + 4 * place table) 4))
      else .error .outOfBounds := by
  induction tables generalizing start with
  | nil => simp [readCounts, hstart]
  | cons table tables ih =>
      simp only [List.map_cons, List.length_cons, List.range'_succ, List.cons.injEq] at hplaces
      obtain ⟨rfl, hothers⟩ := hplaces
      have hstop : place table + (tables.length + 1) = place table + 1 + tables.length := by omega
      rw [readCounts, List.length_cons, hstop]
      by_cases hinside : base + 4 * place table + 4 ≤ data.size
      · have hread := ih hothers hinside
        rw [Nat.mul_succ, ← Nat.add_assoc] at hread
        rw [if_pos hinside, hread]
        split <;> rfl
      · rw [if_neg hinside, if_neg (by omega)]
        rfl

theorem Supported.readCounts_eq (h : Supported data) (hheader : headerSize ≤ data.size) :
    readCounts data (tablesOf (declaredMask data)) headerSize =
      if headerSize + 4 * bitsBelow (declaredMask data) 64 ≤ data.size then
        .ok ((tablesOf (declaredMask data)).map fun table => (table, declaredCount data table))
      else .error .outOfBounds := by
  obtain ⟨hlength, hplaces⟩ := tablesOf_places (declaredMask data)
  have hcounts : (tablesOf (declaredMask data)).map (fun table => (table, declaredCount data table)) =
      (tablesOf (declaredMask data)).map fun table => (table, data.littleEndian
        (headerSize + 4 * bitsBelow (declaredMask data) table.number) 4) :=
    List.map_congr_left fun table htable =>
      congrArg (Prod.mk table) (if_pos (List.mem_filter.1 htable).2)
  have hread := readCounts_places headerSize hplaces hheader
  rw [Nat.mul_zero, Nat.add_zero, Nat.zero_add, hlength, ← h.bitsBelow_eq] at hread
  rw [hread, hcounts]

theorem ofCounts_declared (data : Bytes) :
    Sizing.ofCounts ((tablesOf (declaredMask data)).map fun table =>
      (table, declaredCount data table)) (data.byteAt 6) = declaredSizing data := by
  refine Sizing.ofCounts_eq _ fun table habsent => if_neg fun hbit => habsent ?_
  exact List.mem_filter.2 ⟨table.mem_all, hbit⟩

/-! ### Rows -/

variable {sizing : Sizing} {tables : List TableId} {offset : Nat}

theorem rowsSize_cons (sizing : Sizing) (table : TableId) (tables : List TableId) :
    rowsSize sizing (table :: tables) =
      sizing.rowCount table * sizing.rowBytes table + rowsSize sizing tables := rfl

/-- The tables are cut out one after the other, and each is there if all of their rows are. -/
theorem exists_readTables (h : offset + rowsSize sizing tables ≤ data.size) :
    ∃ present, readTables data sizing tables offset = .ok present := by
  induction tables generalizing offset with
  | nil => exact ⟨[], rfl⟩
  | cons table tables ih =>
      rw [rowsSize_cons, ← Nat.add_assoc] at h
      obtain ⟨others, hothers⟩ := ih h
      rw [readTables, dif_pos (Nat.le_of_add_right_le h), hothers]
      exact ⟨_, rfl⟩

/-- If rows are missing, some table is found to be out of bounds. Without tables nothing is asked,
so no bytes may be missing in front of them either. -/
theorem readTables_cut (hbounded : tables = [] → offset ≤ data.size)
    (h : data.size < offset + rowsSize sizing tables) :
    readTables data sizing tables offset = .error .outOfBounds := by
  induction tables generalizing offset with
  | nil => exact absurd (hbounded rfl) (Nat.not_le.2 h)
  | cons table tables ih =>
      rw [rowsSize_cons, ← Nat.add_assoc] at h
      by_cases hinside : offset + sizing.rowCount table * sizing.rowBytes table ≤ data.size
      · rw [readTables, dif_pos hinside, ih (fun _ => hinside) h]
        rfl
      · rw [readTables, dif_neg hinside]
        rfl

/-! ### Whole streams -/

/-- What becomes of the data: too short for a header, tables that are not known, a part that is
missing, or a stream. -/
inductive Verdict (data : Bytes) : Except Error TablesStream → Prop
  | headless (h : data.size < headerSize) : Verdict data (.error .outOfBounds)
  | unsupported (hheader : headerSize ≤ data.size) (h : ¬Supported data) :
      Verdict data (.error (.malformed (.unsupportedTables (declaredMask data))))
  | cut (hsupported : Supported data) (h : data.size < declaredSize data)
      (hnoticed : ¬CutInExtra data) : Verdict data (.error .outOfBounds)
  | accepted {s : TablesStream} (h : Complete data ∨ CutInExtra data) : Verdict data (.ok s)

theorem parse_unsupported (hheader : headerSize ≤ data.size) (h : ¬Supported data) :
    parse data = .error (.malformed (.unsupportedTables (declaredMask data))) := by
  rw [parse_eq, if_neg (Nat.not_lt.2 hheader)]
  exact if_pos (mt supported_iff.2 h)

theorem parse_supported (hheader : headerSize ≤ data.size) (h : Supported data) :
    parse data =
      if headerSize + 4 * bitsBelow (declaredMask data) 64 ≤ data.size then
        (readTables data (declaredSizing data) (tablesOf (declaredMask data))
          (declaredStart data)).map fun present =>
            ⟨data.byteAt 4, data.byteAt 5, declaredMask data, data.littleEndian 16 8,
              declaredSizing data, present⟩
      else .error .outOfBounds := by
  have hlength := (tablesOf_places (declaredMask data)).1
  rw [← h.bitsBelow_eq] at hlength
  rw [parse_eq, if_neg (Nat.not_lt.2 hheader)]
  refine (if_neg (not_not_intro (supported_iff.1 h))).trans ?_
  rw [show data.littleEndian 8 8 = declaredMask data from rfl, h.readCounts_eq hheader]
  by_cases hcounts : headerSize + 4 * bitsBelow (declaredMask data) 64 ≤ data.size
  · rw [if_pos hcounts, if_pos hcounts]
    simp only [ofCounts_declared, hlength]
    rfl
  · rw [if_neg hcounts, if_neg hcounts]

/-- Only the extra bytes can be missing from a stream that declares no tables. -/
theorem cutInExtra_of_tableless (hheader : headerSize ≤ data.size) (h : Supported data)
    (hnone : tablesOf (declaredMask data) = []) (hcut : data.size < declaredStart data) :
    CutInExtra data := by
  have hbits : bitsBelow (declaredMask data) 64 = 0 := by
    rw [h.bitsBelow_eq, ← (tablesOf_places _).1, hnone]
    rfl
  rw [declaredStart, hbits] at hcut
  have hannounced : (data.byteAt 6).testBit 6 = true := by
    by_contra hplain
    rw [if_neg hplain] at hcut
    omega
  rw [if_pos hannounced] at hcut
  refine ⟨hheader, Nat.eq_of_testBit_eq fun bit => ?_, hannounced, hcut⟩
  rw [Nat.zero_testBit]
  by_cases hbit : bit < TableId.count
  · exact Bool.eq_false_iff.2 (Nat.count_iff_forall_not.1 (h.bitsBelow_eq ▸ hbits) _ hbit)
  · exact h bit (Nat.le_of_not_lt hbit)

/-- The checks along the way come to these verdicts. -/
theorem parse_verdict (data : Bytes) : Verdict data (parse data) := by
  rcases Nat.lt_or_ge data.size headerSize with hshort | hheader
  · rw [parse_eq, if_pos hshort]
    exact .headless hshort
  by_cases hsupported : Supported data
  case neg =>
    rw [parse_unsupported hheader hsupported]
    exact .unsupported hheader hsupported
  rw [parse_supported hheader hsupported]
  by_cases hcounts : headerSize + 4 * bitsBelow (declaredMask data) 64 ≤ data.size
  case neg =>
    rw [if_neg hcounts]
    refine .cut hsupported ?_ fun hextra => hcounts ?_
    · rw [declaredSize, declaredStart]
      omega
    · rw [hextra.tableless]
      exact hheader
  rw [if_pos hcounts]
  by_cases hextra : CutInExtra data
  case pos =>
    -- without tables nothing is behind the extra bytes that would ask for them
    have hnone : tablesOf (declaredMask data) = [] := by
      rw [hextra.tableless]
      rfl
    rw [hnone]
    exact .accepted (.inr hextra)
  have hbounded (hnone : tablesOf (declaredMask data) = []) : declaredStart data ≤ data.size :=
    Nat.le_of_not_lt fun hcut => hextra (cutInExtra_of_tableless hheader hsupported hnone hcut)
  rcases Nat.lt_or_ge data.size (declaredSize data) with hcut | hwhole
  · rw [readTables_cut hbounded hcut]
    exact .cut hsupported hcut hextra
  · obtain ⟨present, hpresent⟩ := exists_readTables hwhole
    rw [hpresent]
    exact .accepted (.inl ⟨hheader, hsupported, hwhole⟩)

/-- Parsing succeeds on the complete streams, and beyond these only on the streams without tables
that end within their extra bytes. It reports a malformed stream exactly if there is a header with
tables that are not known; whatever else is missing is out of bounds. -/
theorem parse_accepts (data : Bytes) :
    ((∃ s, parse data = .ok s) ↔ Complete data ∨ CutInExtra data) ∧
      ((∃ defect, parse data = .error (.malformed defect)) ↔
        headerSize ≤ data.size ∧ ¬Supported data) ∧
      ∀ e, parse data = .error e →
        e = .malformed (.unsupportedTables (declaredMask data)) ∨ e = .outOfBounds := by
  have hverdict := parse_verdict data
  have hsupported : Complete data ∨ CutInExtra data → headerSize ≤ data.size ∧ Supported data := by
    rintro (hcomplete | hextra)
    · exact ⟨hcomplete.header, hcomplete.supported⟩
    · refine ⟨hextra.header, fun bit _ => ?_⟩
      rw [hextra.tableless, Nat.zero_testBit]
  cases hresult : parse data with
  | error e =>
      rw [hresult] at hverdict
      rcases hverdict with hshort | ⟨hheader, hunknown⟩ | ⟨hknown, hcut, hnoticed⟩
      · have hrefused : ¬(Complete data ∨ CutInExtra data) := fun h =>
          Nat.not_le.2 hshort (hsupported h).1
        simp [hrefused, Nat.not_le.2 hshort]
      · have hrefused : ¬(Complete data ∨ CutInExtra data) := fun h => hunknown (hsupported h).2
        simp [hrefused, hheader, hunknown]
      · have hrefused : ¬(Complete data ∨ CutInExtra data) := by
          rintro (hcomplete | hextra)
          · exact Nat.not_le.2 hcut hcomplete.whole
          · exact hnoticed hextra
        simp [hrefused, hknown]
  | ok s =>
      rw [hresult] at hverdict
      rcases hverdict with _ | _ | _ | haccepted
      simp [haccepted, (hsupported haccepted).2]

/-- A header without tables that announces extra bytes, of which there are none. -/
def headerWithoutExtra : Bytes :=
  (List.replicate 24 (0 : UInt8)).toArray.set! 6 0x40

/-- The announced bytes are not asked for. -/
theorem headerWithoutExtra_accepted :
    (∃ s, parse headerWithoutExtra = .ok s) ∧ ¬Complete headerWithoutExtra := by
  refine ⟨⟨⟨0, 0, 0, 0, Sizing.ofCounts [] 0x40, []⟩, rfl⟩, CutInExtra.not_complete ?_⟩
  exact ⟨by decide, by decide, by decide, by decide⟩

end TablesStream

end CliMeta
