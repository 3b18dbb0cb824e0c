import CliMeta.Proofs.Image.Tolerance
import CliMeta.Proofs.Outcome
import CliMeta.Proofs.Record.Columns
import Mathlib.Data.Nat.Bitwise

/-!
Argument slots and the parameters that a method declares. Both are numbered: the slots of a method
without an instance are one behind the places in its signature, which parameters carry as their
sequence. `SlotHolds` says what a slot holds in terms of the rows of the parameters. A sequence is a
16-bit word and the number of the last slot has no successor among these; that slot shares its
parameter with the slot in front of it.
-/

namespace CliMeta

open Reader

/-! ### Rows of parameters -/

def Row.HasSequence (r : Row) (place : Nat) : Prop :=
  r.cellNamed "Sequence" = .ok (.word place)

/-- The rows, in order, of the parameters that the method of a row declares. All of them are
found. -/
structure ParameterRows (image : Image) (r : Row) (rows : List Row) : Prop where
  list : ∃ range, (FieldSource.rows "ParamList").Gives image.heaps r (.ok ⟨.rows, range⟩) ∧
    range.target = .param ∧ image.tables.rowsIn range = rows.map .ok
  found : ∀ r ∈ rows, image.tables.row .param r.index = .ok r

/-- What stands for a place in a signature: the first row that carries its number, with the name of
that row, or nothing. -/
inductive PlaceHolds (h : Heaps) (rows : List Row) (place : Nat) : SlotRole → Prop
  | declared {front back : List Row} {r : Row} {name : String} (hrows : rows = front ++ r :: back)
      (hplace : r.HasSequence place) (hfirst : ∀ other ∈ front, ¬other.HasSequence place)
      (hname : (FieldSource.text "Name").Gives h r (.ok ⟨.text, name⟩)) :
      PlaceHolds h rows place (.parameter r.index name)
  | undeclared (hnone : ∀ r ∈ rows, ¬r.HasSequence place) : PlaceHolds h rows place .undeclared

/-- What an argument slot holds. With an instance, the first slot is that instance; without one the
slots begin with the first place. -/
inductive SlotHolds (h : Heaps) (rows : List Row) : Bool → Nat → SlotRole → Prop
  | receiver : SlotHolds h rows true 0 .receiver
  | behindReceiver {slot : Nat} {role : SlotRole} (hholds : PlaceHolds h rows (slot + 1) role) :
      SlotHolds h rows true (slot + 1) role
  | static {slot : Nat} {role : SlotRole} (hholds : PlaceHolds h rows (slot + 1) role) :
      SlotHolds h rows false slot role

theorem Row.HasSequence.unique {r : Row} {place place' : Nat} (h : r.HasSequence place)
    (h' : r.HasSequence place') : place = place' := by
  cases Except.ok.inj (h.symm.trans h')
  rfl

/-! ### Parameters and their rows -/

/-- The row declares the parameter. -/
structure Declares (h : Heaps) (r : Row) (p : Parameter) : Prop where
  sequence : r.HasSequence p.sequence
  row : p.row = r.index
  name : (FieldSource.text "Name").Gives h r (.ok ⟨.text, p.name⟩)

namespace FieldSource.Gives

variable {h : Heaps} {r : Row} {name : String}

theorem word {value : Nat}
    (hgives : (FieldSource.constant name).Gives h r (.ok ⟨.constant .word, value⟩)) :
    r.cellNamed name = .ok (.word value) := by
  generalize houtcome : (.ok ⟨.constant .word, value⟩ : Except Error FieldValue) = outcome
    at hgives
  cases hgives with
  | constant hcell =>
      cases houtcome
      exact hcell

theorem wordFlags {kind : FlagKind} {value : Flags kind}
    (hgives : (FieldSource.flags kind name).Gives h r (.ok ⟨.flags .word kind, value⟩)) :
    r.cellNamed name = .ok (.word value.bits) := by
  generalize houtcome : (.ok ⟨.flags .word kind, value⟩ : Except Error FieldValue) = outcome
    at hgives
  cases hgives with
  | flags hcell =>
      cases houtcome
      exact hcell

theorem list {range : RowRange}
    (hgives : (FieldSource.rows name).Gives h r (.ok ⟨.rows, range⟩)) :
    ∃ column : Nat, r.tableId.columns[column]? = some ⟨name, .index range.target⟩ := by
  generalize houtcome : (.ok ⟨.rows, range⟩ : Except Error FieldValue) = outcome at hgives
  cases hgives with
  | @rows _ target column hcolumn =>
      obtain ⟨range', hrange, hsame⟩ := exists_of_map_ok houtcome.symm
      cases hsame
      exact ⟨column, Row.range_target hcolumn hrange ▸ hcolumn⟩

end FieldSource.Gives

namespace Record

variable {h : Heaps} {r : Row}

theorem declares {record : Record .param} (hrecord : Record.ofRow h .param r = .ok record) :
    Declares h r (record.parameter r.index) := by
  obtain ⟨-, hfollows⟩ := followsSchema_of_ok hrecord
  obtain ⟨token, flags, sequence, name, ⟨⟩⟩ := record
  obtain _ | ⟨-, _ | ⟨⟨-, hsequence⟩, _ | ⟨⟨-, hname⟩, -⟩⟩⟩ := hfollows.values
  exact ⟨hsequence.word, rfl, hname⟩

theorem method_columns {record : Record .methodDef}
    (hrecord : Record.ofRow h .methodDef r = .ok record) :
    r.cellNamed "Flags" = .ok (.word record.method.flags.bits) ∧
      (FieldSource.rows "ParamList").Gives h r (.ok ⟨.rows, record.method.params⟩) ∧
      record.method.params.target = .param := by
  obtain ⟨htable, hfollows⟩ := followsSchema_of_ok hrecord
  obtain ⟨token, rva, implFlags, flags, name, signature, params, ⟨⟩⟩ := record
  obtain _ | ⟨-, _ | ⟨-, _ | ⟨⟨-, hflags⟩, _ | ⟨-, _ | ⟨-, _ | ⟨⟨-, hparams⟩, -⟩⟩⟩⟩⟩⟩ :=
    hfollows.values
  refine ⟨hflags.wordFlags, hparams, ?_⟩
  obtain ⟨column, hlist⟩ := hparams.list
  rw [htable] at hlist
  have hplace : (TableId.columnIndex? .methodDef "ParamList") = some column :=
    TableId.columnIndex?_name hlist
  obtain rfl : 5 = column := Option.some.inj hplace
  have hkind : ColumnKind.index .param = .index params.target :=
    congrArg Column.kind (Option.some.inj hlist)
  exact (ColumnKind.index.inj hkind).symm

end Record

theorem exists_rows {h : Heaps} {outcomes : List (Except Error Row)} {params : List Parameter}
    (hparams : List.Forall₂ (fun outcome p => ∃ r, outcome = .ok r ∧ Declares h r p)
      outcomes params) :
    ∃ rows, outcomes = rows.map .ok ∧ List.Forall₂ (Declares h) rows params := by
  induction hparams with
  | nil => exact ⟨[], rfl, .nil⟩
  | cons hfirst _ ih =>
      obtain ⟨r, rfl, hdeclares⟩ := hfirst
      obtain ⟨rows, rfl, hrows⟩ := ih
      exact ⟨r :: rows, rfl, .cons hdeclares hrows⟩

namespace Image

variable {image : Image} {index : Nat} {m : LoadedMethod}

theorem exists_parameterRows {method : Method} {params : List Parameter}
    (hparams : image.parameters method = .ok params) :
    ∃ rows, image.tables.rowsIn method.params = rows.map .ok ∧
      List.Forall₂ (Declares image.heaps) rows params := by
  refine exists_rows ((mapM_eq_ok_iff.1 hparams).imp fun outcome p hp => ?_)
  obtain ⟨r, rfl, hrow⟩ := exists_of_bind_ok hp
  obtain ⟨record, hrecord, hrow⟩ := exists_of_bind_ok hrow
  cases hrow
  exact ⟨r, rfl, Record.declares hrecord⟩

end Image

/-- The rows of a list are rows of the table that the list runs over. -/
theorem TablesStream.row_of_rowsIn {s : TablesStream} {range : RowRange} {rows : List Row}
    (hrows : s.rowsIn range = rows.map .ok) {r : Row} (hr : r ∈ rows) :
    s.row range.target r.index = .ok r := by
  have hmem : .ok r ∈ s.rowsIn range := hrows ▸ List.mem_map_of_mem hr
  obtain ⟨logical, -, hrow⟩ := List.mem_map.1 hmem
  obtain ⟨physical, -, hfound⟩ := exists_of_bind_ok hrow
  obtain ⟨t, -, hindex⟩ := exists_of_bind_ok hfound
  obtain ⟨-, rfl⟩ := Table.row_eq_ok.1 hindex
  exact hfound

/-- The first of the parameters that has a number comes from the first row that carries it. -/
theorem placeHolds_find {h : Heaps} {rows : List Row} {params : List Parameter}
    (hdeclares : List.Forall₂ (Declares h) rows params) (place : Nat) :
    PlaceHolds h rows place
      (match params.find? fun p => p.sequence = place with
      | some p => .parameter p.row p.name
      | none => .undeclared) := by
  induction hdeclares with
  | nil => exact .undeclared fun r hr => absurd hr List.not_mem_nil
  | @cons r p rows params hfirst _ ih =>
      by_cases hplace : p.sequence = place
      · rw [List.find?_cons_of_pos (by simpa using hplace)]
        show PlaceHolds h (r :: rows) place (.parameter p.row p.name)
        rw [hfirst.row]
        have hrows : r :: rows = [] ++ r :: rows := rfl
        exact .declared hrows (hplace ▸ hfirst.sequence)
          (fun other hother => absurd hother List.not_mem_nil) hfirst.name
      · have hnot : ¬r.HasSequence place := fun hcarries =>
          hplace (hfirst.sequence.unique hcarries)
        rw [List.find?_cons_of_neg (by simpa using hplace)]
        -- what is found behind the first row is a role like any other here
        generalize (match params.find? fun p => p.sequence = place with
          | some p => SlotRole.parameter p.row p.name
          | none => .undeclared) = role at ih
        cases ih with
        | @declared front back found name hrows hcarries hfront hname =>
            have hbehind : r :: rows = (r :: front) ++ found :: back := congrArg (r :: ·) hrows
            exact .declared hbehind hcarries (List.forall_mem_cons.2 ⟨hnot, hfront⟩) hname
        | undeclared hnone => exact .undeclared (List.forall_mem_cons.2 ⟨hnot, hnone⟩)

/-! ### Slots of a method -/

namespace LoadedMethod

variable {m : LoadedMethod} {h : Heaps} {rows : List Row}

/-- Only the first slot of a method with an instance is not a place in the signature. -/
theorem slotRole_receiver (hreceiver : m.hasReceiver = true) : m.slotRole 0 = .receiver := by
  rw [slotRole, if_pos ⟨hreceiver, rfl⟩]

theorem slotRole_place (hdeclares : List.Forall₂ (Declares h) rows m.params) {slot : Nat}
    (hargument : m.hasReceiver = true → 0 < slot) :
    PlaceHolds h rows (m.slotSequence slot) (m.slotRole slot) := by
  have hnot : ¬(m.hasReceiver = true ∧ slot = 0) := fun ⟨hreceiver, hzero⟩ => by
    have := hargument hreceiver
    omega
  rw [slotRole, if_neg hnot]
  exact placeHolds_find hdeclares _

/-- A row that a slot holds carries the number of the slot, which is not zero. -/
theorem exists_row_of_slotRole (hdeclares : List.Forall₂ (Declares h) rows m.params)
    {slot row : Nat} {name : String} (hrole : m.slotRole slot = .parameter row name) :
    ∃ r ∈ rows, r.index = row ∧ r.HasSequence (m.slotSequence slot) ∧
      0 < m.slotSequence slot := by
  have hargument (hreceiver : m.hasReceiver = true) : 0 < slot := by
    by_contra hzero
    obtain rfl : slot = 0 := by omega
    rw [slotRole_receiver hreceiver] at hrole
    cases hrole
  have hpositive : 0 < m.slotSequence slot := by
    rw [slotSequence]
    split
    · rename_i hreceiver
      exact hargument hreceiver
    · omega
  have hplace := slotRole_place hdeclares hargument
  rw [hrole] at hplace
  cases hplace with
  | @declared front back r name hrows hcarries =>
      exact ⟨r, hrows ▸ List.mem_append_right front List.mem_cons_self, rfl, hcarries, hpositive⟩

/-- Two slots are looked up under one number only at the end, and only without an instance. -/
theorem slotSequence_shared {slot slot' : Nat} (hlt : slot < slot') (hslot' : slot' < 0x10000)
    (h : m.slotSequence slot = m.slotSequence slot') :
    m.hasReceiver = false ∧ slot = 0xFFFE ∧ slot' = 0xFFFF := by
  rw [slotSequence, slotSequence] at h
  cases hreceiver : m.hasReceiver with
  | true =>
      rw [hreceiver, if_pos rfl, if_pos rfl] at h
      omega
  | false =>
      rw [hreceiver, if_neg Bool.false_ne_true, if_neg Bool.false_ne_true] at h
      exact ⟨rfl, by omega, by omega⟩

theorem placeHolds_behind {role : SlotRole} :
    PlaceHolds h rows 0x10000 role ↔ role = .undeclared := by
  have hnone (r : Row) : ¬r.HasSequence 0x10000 := fun hcarries =>
    Nat.lt_irrefl _ (Row.word_lt hcarries)
  constructor
  · intro hholds
    cases hholds with
    | @declared front back r name hrows hcarries => exact absurd hcarries (hnone r)
    | undeclared => rfl
  · rintro rfl
    exact .undeclared fun r _ => hnone r

theorem placeHolds_undeclared {place : Nat} {role : SlotRole}
    (hholds : PlaceHolds h rows place role) :
    role = .undeclared ↔ ¬∃ r ∈ rows, r.HasSequence place := by
  cases hholds with
  | @declared front back r name hrows hcarries =>
      have hmem : r ∈ rows := hrows ▸ List.mem_append_right front List.mem_cons_self
      exact ⟨fun h => (nomatch h), fun h => absurd ⟨r, hmem, hcarries⟩ h⟩
  | undeclared hnone =>
      exact ⟨fun _ ⟨r, hmem, hcarries⟩ => hnone r hmem hcarries, fun _ => rfl⟩

/-- Without an instance, the last slot holds what it should if no row carries the number of the slot
in front of it. -/
theorem slotHolds_last (hdeclares : List.Forall₂ (Declares h) rows m.params)
    (hreceiver : m.hasReceiver = false) :
    SlotHolds h rows false 0xFFFF (m.slotRole 0xFFFF) ↔
      ¬∃ other ∈ rows, other.HasSequence 0xFFFF := by
  -- the slot is looked up under its own number, since that number has no successor
  have hsequence : m.slotSequence 0xFFFF = 0xFFFF := by
    rw [slotSequence, hreceiver]
    rfl
  have hholds : PlaceHolds h rows (m.slotSequence 0xFFFF) (m.slotRole 0xFFFF) :=
    slotRole_place hdeclares fun _ => by decide
  rw [hsequence] at hholds
  rw [← placeHolds_undeclared hholds]
  constructor
  · intro hslot
    cases hslot with
    | static hbehind => exact placeHolds_behind.1 hbehind
  · exact fun hnone => .static (placeHolds_behind.2 hnone)

theorem slotHolds_iff (hdeclares : List.Forall₂ (Declares h) rows m.params) {slot : Nat}
    (hslot : slot < 0x10000) :
    SlotHolds h rows m.hasReceiver slot (m.slotRole slot) ↔
      ¬(m.hasReceiver = false ∧ slot = 0xFFFF ∧
        ∃ other ∈ rows, other.HasSequence 0xFFFF) := by
  have hplace (hargument : m.hasReceiver = true → 0 < slot) :
      PlaceHolds h rows (m.slotSequence slot) (m.slotRole slot) :=
    slotRole_place hdeclares hargument
  cases hreceiver : m.hasReceiver with
  | true =>
      cases slot with
      | zero =>
          rw [slotRole_receiver hreceiver]
          exact ⟨fun _ h => (nomatch h.1), fun _ => .receiver⟩
      | succ slot =>
          have hholds := hplace fun _ => Nat.succ_pos slot
          rw [slotSequence, if_pos hreceiver] at hholds
          exact ⟨fun _ h => (nomatch h.1), fun _ => .behindReceiver hholds⟩
  | false =>
      by_cases hlast : slot = 0xFFFF
      · subst hlast
        rw [slotHolds_last hdeclares hreceiver]
        exact ⟨fun hnone h => hnone h.2.2, fun h hsome => h ⟨rfl, rfl, hsome⟩⟩
      · have hholds := hplace fun h => by
          rw [hreceiver] at h
          cases h
        rw [slotSequence, hreceiver, if_neg Bool.false_ne_true, Nat.min_eq_left (by omega)]
          at hholds
        exact ⟨fun _ h => hlast h.2.1, fun _ => .static hholds⟩

end LoadedMethod

/-- How the slots of a method are assigned to the parameters that the method of a row declares.
Without an instance the last slot is looked up under the number of the slot in front of it. -/
structure SlotsAssigned (image : Image) (m : LoadedMethod) (r : Row) (rows : List Row) : Prop where
  parameters : ParameterRows image r rows
  receiver : ∃ flags, r.cellNamed "Flags" = .ok (.word flags) ∧
    (m.hasReceiver = true ↔ flags.testBit 4 = false)
  holds : ∀ slot < 0x10000, ∃ role, (image.resolver m).argument slot = .ok ⟨slot, role⟩ ∧
    (SlotHolds image.heaps rows m.hasReceiver slot role ↔
      ¬(m.hasReceiver = false ∧ slot = 0xFFFF ∧ ∃ other ∈ rows, other.HasSequence 0xFFFF))
  /-- The returned value is in no slot. -/
  arguments : ∀ slot row name,
    (image.resolver m).argument slot = .ok ⟨slot, .parameter row name⟩ →
      ∃ param, image.tables.row .param row = .ok param ∧ ¬param.HasSequence 0
  distinct : ∀ slot slot' row name name', slot < slot' → slot' < 0x10000 →
    (image.resolver m).argument slot = .ok ⟨slot, .parameter row name⟩ →
    (image.resolver m).argument slot' = .ok ⟨slot', .parameter row name'⟩ →
      m.hasReceiver = false ∧ slot = 0xFFFE ∧ slot' = 0xFFFF

theorem testBit_isInstance (flags : Flags .methodAttributes) :
    flags.isInstance = true ↔ flags.bits.testBit 4 = false := by
  have hbit : flags.bits &&& 0x10 = (flags.bits.testBit 4).toNat * 0x10 :=
    Nat.and_two_pow flags.bits 4
  rw [Flags.isInstance, Flags.has, hbit]
  cases flags.bits.testBit 4 <;> decide

namespace Image

variable {image : Image} {index : Nat} {m : LoadedMethod}

theorem argument_eq (image : Image) (m : LoadedMethod) (slot : Nat) :
    (image.resolver m).argument slot = .ok ⟨slot, m.slotRole slot⟩ :=
  rfl

/-- The parameters of a method that is read come from the rows that its own row lists. -/
theorem exists_declared (h : image.disassemble index = .ok m) :
    ∃ r rows, image.tables.row .methodDef index = .ok r ∧ ParameterRows image r rows ∧
      (∃ flags, r.cellNamed "Flags" = .ok (.word flags) ∧
        (m.hasReceiver = true ↔ flags.testBit 4 = false)) ∧
      List.Forall₂ (Declares image.heaps) rows m.params := by
  obtain ⟨record, hrecord, hthen⟩ := exists_of_bind_ok (disassemble_eq_ok.1 h).1
  obtain ⟨read, -, hthen⟩ := exists_of_bind_ok hthen
  obtain ⟨params, hparams, hthen⟩ := exists_of_bind_ok hthen
  cases hthen
  obtain ⟨r, hrow, hrecord⟩ := exists_of_bind_ok hrecord
  obtain ⟨hflags, hlist, htarget⟩ := Record.method_columns hrecord
  obtain ⟨rows, hrows, hdeclares⟩ := exists_parameterRows hparams
  have hfound (param : Row) (hmem : param ∈ rows) :
      image.tables.row .param param.index = .ok param := by
    rw [← htarget]
    exact TablesStream.row_of_rowsIn hrows hmem
  exact ⟨r, rows, hrow, ⟨⟨_, hlist, htarget, hrows⟩, hfound⟩,
    ⟨_, hflags, testBit_isInstance _⟩, hdeclares⟩

/-- The slots of a method hold the parameters of its row, each another one, as far as the places of
a signature have 16-bit numbers. -/
theorem disassemble_slots (h : image.disassemble index = .ok m) :
    ∃ r rows, image.tables.row .methodDef index = .ok r ∧ SlotsAssigned image m r rows := by
  obtain ⟨r, rows, hrow, hparameters, hreceiver, hdeclares⟩ := exists_declared h
  have hfound {slot row : Nat} {name : String}
      (hargument : (image.resolver m).argument slot = .ok ⟨slot, .parameter row name⟩) :
      ∃ param, image.tables.row .param row = .ok param ∧
        param.HasSequence (m.slotSequence slot) ∧ 0 < m.slotSequence slot := by
    have hrole : m.slotRole slot = .parameter row name :=
      congrArg ArgumentSlot.role (Except.ok.inj hargument)
    obtain ⟨param, hmem, rfl, hcarries, hpositive⟩ := m.exists_row_of_slotRole hdeclares hrole
    exact ⟨param, hparameters.found param hmem, hcarries, hpositive⟩
  refine ⟨r, rows, hrow, hparameters, hreceiver,
    fun slot hslot => ⟨_, argument_eq image m slot, ?_⟩, ?_, ?_⟩
  · exact m.slotHolds_iff hdeclares hslot
  · intro slot row name hargument
    obtain ⟨param, hparam, hcarries, hpositive⟩ := hfound hargument
    exact ⟨param, hparam, fun hzero => Nat.ne_of_gt hpositive (hcarries.unique hzero)⟩
  · intro slot slot' row name name' hlt hslot' hargument hargument'
    obtain ⟨param, hparam, hcarries, -⟩ := hfound hargument
    obtain ⟨param', hparam', hcarries', -⟩ := hfound hargument'
    obtain rfl := Except.ok.inj (hparam.symm.trans hparam')
    exact m.slotSequence_shared hlt hslot' (hcarries.unique hcarries')

/-- A method without an instance that declares a parameter for the last number and one for the
first. Its code loads the last two slots and the first. -/
def lastSlots : Bytes :=
  #[0x42, 0x53, 0x4A, 0x42, 1, 0, 1, 0, 0, 0, 0, 0, 4, 0, 0, 0, 0x76, 0x34, 0, 0, 0, 0, 1, 0] ++
    #[0x24, 0, 0, 0, 0x3A, 0, 0, 0, 0x23, 0x7E, 0, 0] ++
    #[0, 0, 0, 0, 2, 0, 0, 1, 0x40, 1, 0, 0, 0, 0, 0, 0, 0, 0, 0, 0, 0, 0, 0, 0] ++
    #[1, 0, 0, 0] ++ #[2, 0, 0, 0] ++
    #[0x5E, 0, 0, 0, 0, 0, 0x16, 0, 0, 0, 0, 0, 1, 0] ++
    #[0, 0, 0xFF, 0xFF, 0, 0] ++ #[0, 0, 1, 0, 0, 0] ++
    #[0x2E, 0xFE, 0x09, 0xFE, 0xFF, 0xFE, 0x09, 0xFF, 0xFF, 0x02, 0x26, 0x2A]

theorem exists_lastSlots :
    ∃ image m, ofBuffer lastSlots 0 94 .default = .ok image ∧ image.disassemble 0 = .ok m ∧
      m.hasReceiver = false ∧ m.slotRole 0 = .parameter 1 "" ∧
      m.slotRole 0xFFFE = .parameter 0 "" ∧ m.slotRole 0xFFFF = .parameter 0 "" := by
  have hrun : (do
      let image ← ofBuffer lastSlots 0 94 .default
      let m ← image.disassemble 0
      return (m.hasReceiver, m.slotRole 0, m.slotRole 0xFFFE, m.slotRole 0xFFFF)) =
        .ok (false, .parameter 1 "", .parameter 0 "", .parameter 0 "") := by
    decide +kernel
  obtain ⟨image, himage, hrun⟩ := exists_of_bind_ok hrun
  obtain ⟨m, hm, hroles⟩ := exists_of_bind_ok hrun
  simp only [pure, Except.pure, Except.ok.injEq, Prod.mk.injEq] at hroles
  exact ⟨image, m, himage, hm, hroles⟩

theorem disassemble_slots_lastSlots :
    ∃ image m r rows, ofBuffer lastSlots 0 94 .default = .ok image ∧
      image.disassemble 0 = .ok m ∧ m.slotRole 0 = .parameter 1 "" ∧
      image.tables.row .methodDef 0 = .ok r ∧ SlotsAssigned image m r rows := by
  obtain ⟨image, m, himage, hm, -, hfirst, -⟩ := exists_lastSlots
  obtain ⟨r, rows, hrow, hassigned⟩ := disassemble_slots hm
  exact ⟨image, m, r, rows, himage, hm, hfirst, hrow, hassigned⟩

/-- The last two slots are assigned to one parameter, although none is declared for the last. -/
theorem lastSlots_shared :
    ∃ image m r rows, ofBuffer lastSlots 0 94 .default = .ok image ∧
      image.disassemble 0 = .ok m ∧ m.hasReceiver = false ∧
      image.tables.row .methodDef 0 = .ok r ∧ ParameterRows image r rows ∧
      (image.resolver m).argument 0xFFFE = .ok ⟨0xFFFE, .parameter 0 ""⟩ ∧
      (image.resolver m).argument 0xFFFF = .ok ⟨0xFFFF, .parameter 0 ""⟩ ∧
      ¬SlotHolds image.heaps rows false 0xFFFF (.parameter 0 "") ∧
      SlotHolds image.heaps rows false 0xFFFF .undeclared := by
  obtain ⟨image, m, himage, hm, hstatic, -, hbefore, hlast⟩ := exists_lastSlots
  obtain ⟨r, rows, hrow, hparameters, -, -⟩ := exists_declared hm
  refine ⟨image, m, r, rows, himage, hm, hstatic, hrow, hparameters, ?_, ?_, ?_, ?_⟩
  · rw [argument_eq, hbefore]
  · rw [argument_eq, hlast]
  · intro hholds
    cases hholds with
    | static hbehind => cases LoadedMethod.placeHolds_behind.1 hbehind
  · exact .static (LoadedMethod.placeHolds_behind.2 rfl)

end Image

end CliMeta
