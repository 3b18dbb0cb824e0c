import CliMeta.Image.Method
import CliMeta.Proofs.Instruction.Lookup
import CliMeta.Proofs.Reader.Contained
import CliMeta.Proofs.Table.Indirection

/-!
Listings with lookups refine those without. The code of a method is listed item by item as it would
be without any metadata, with what the image has for its tokens, literals and argument slots, up to
the first operand that the image has nothing for; there one error ends the listing. If there is no
such operand, both listings end alike.
-/

namespace CliMeta

open Reader

/-! ### Operands without lookups -/

namespace RawOperand

def plain : RawOperand → Operand
  | .none => .none
  | .targets places => .targets places
  | .token t | .string t => .token t
  | .immediate value => .immediate value
  | .local index => .local index
  | .argument index => .argument ⟨index, .undeclared⟩

@[simp] theorem raw_operand (raw : RawOperand) : Resolver.raw.operand raw = .ok raw.plain := by
  cases raw <;> rfl

/-- The two forms of tokens go with their kinds. -/
def IsOf (kind : OperandKind) : RawOperand → Prop
  | .token _ => kind = .token
  | .string _ => kind = .string
  | _ => True

theorem reader_ensures (offset : Nat) (kind : OperandKind) :
    Ensures (reader offset kind) (IsOf kind) := by
  have hbranch (width : Nat) : Ensures (branchReader offset width) (IsOf kind) :=
    .bind (.trivial _) fun _ _ => .bind (.trivial _) fun _ _ => .bind (.trivial _) fun _ _ =>
      .pure True.intro
  have htable (next count : Nat) : Ensures (tableReader offset next count) (IsOf kind) :=
    .bind (.trivial _) fun _ _ => .pure True.intro
  cases kind with
  | none | implicitLocal | implicitArgument => exact .pure True.intro
  | shortBranch | branch => exact hbranch _
  | switch =>
      refine .bind (.trivial _) fun count _ => .bind (.trivial _) fun left _ => ?_
      refine .ite (fun _ => .bind (.throw (P := fun _ => True) _) fun _ _ => ?_) fun _ => ?_
      · exact .bind (.trivial _) fun place _ => htable _ count
      · exact .bind (.trivial _) fun place _ => htable _ count
  | token | string => exact .bind (.trivial _) fun _ _ => .pure rfl
  | _ => exact .bind (.trivial _) fun _ _ => .pure True.intro

end RawOperand

theorem RawInstruction.reader_isOf {code : Bytes} {place stop : Nat} {i : RawInstruction}
    (h : reader code place = .ok i stop) : i.operand.IsOf i.opcode.operand := by
  have hensures : Ensures (readerAt place) fun i => i.operand.IsOf i.opcode.operand := by
    refine .bind (.trivial _) fun number _ => ?_
    cases Opcode.lookup? number with
    | none => exact .throw _
    | some opcode =>
        refine .bind (RawOperand.reader_ensures place opcode.operand) fun operand hoperand => ?_
        exact .bind (.trivial _) fun stop _ => .pure hoperand
  rw [reader, orTruncated, openReader_eq] at h
  split at h
  · rename_i hread
    cases h
    exact hensures code place i stop hread
  · cases h
  · cases h

/-! ### Lookups in a loaded image -/

theorem UserStringHeap.text_error {heap : UserStringHeap} {offset : Nat} {e : Error}
    (h : heap.text offset = .error e) : e = .heapRead .userString offset := by
  rw [text, get, entry] at h
  split at h
  · cases h
  · split at h
    · split at h
      · cases h
      · cases h
        rfl
    · cases h
      rfl

namespace Image

variable {image : Image} {m : LoadedMethod} {kind : OperandKind} {t : Token} {e : Error}

/-- The image comes from metadata that were loaded, at whatever address and from whatever space. -/
def IsLoaded (image : Image) : Prop :=
  ∃ space clrHeader rva size options, load space clrHeader rva size options = .ok image

theorem isLoaded_of_ofMetadata {data : Bytes} (h : ofMetadata data = .ok image) : image.IsLoaded :=
  ⟨_, _, _, _, _, h⟩

theorem IsLoaded.consistent (h : image.IsLoaded) : image.tables.Consistent := by
  obtain ⟨space, clrHeader, rva, size, options, h⟩ := h
  obtain ⟨metadata, -, h⟩ := exists_of_bind_ok h
  obtain ⟨root, -, h⟩ := exists_of_bind_ok h
  obtain ⟨-, -, h⟩ := exists_of_bind_ok h
  obtain ⟨tablesHeader, -, h⟩ := exists_of_bind_ok h
  obtain ⟨strings, -, h⟩ := exists_of_bind_ok h
  obtain ⟨blobs, -, h⟩ := exists_of_bind_ok h
  obtain ⟨guids, -, h⟩ := exists_of_bind_ok h
  obtain ⟨userStrings, -, h⟩ := exists_of_bind_ok h
  obtain ⟨heaps, -, h⟩ := exists_of_bind_ok h
  obtain ⟨contents, -, h⟩ := exists_of_bind_ok h
  obtain ⟨tables, hparse, h⟩ := exists_of_bind_ok h
  cases h
  exact (TablesStream.parse_eq_ok_iff.1 hparse).consistent

def HasRow (image : Image) (t : Token) : Prop :=
  ∃ table row, TableId.ofNumber? t.tableNumber = some table ∧ 0 < t.row ∧
    image.tables.row table (t.row - 1) = .ok row

/-- What an operand without lookups stands for in a method. The kind tells the token of a literal
from other tokens. -/
inductive Meaning (image : Image) (m : LoadedMethod) : OperandKind → Operand → Operand → Prop where
  | none {kind : OperandKind} : Meaning image m kind .none .none
  | targets {kind : OperandKind} {places : List Nat} :
      Meaning image m kind (.targets places) (.targets places)
  | immediate {kind : OperandKind} {value : Immediate} :
      Meaning image m kind (.immediate value) (.immediate value)
  | local {kind : OperandKind} {index : Nat} : Meaning image m kind (.local index) (.local index)
  | argument {kind : OperandKind} {index : Nat} :
      Meaning image m kind (.argument ⟨index, .undeclared⟩) (.argument ⟨index, m.slotRole index⟩)
  | token {t : Token} (hrow : image.HasRow t) : Meaning image m .token (.token t) (.token t)
  | literal {t : Token} {value : String} (hmark : t.tableNumber = Token.userStringTable)
      (hentry : image.heaps.userStrings.text t.row = .ok value) :
      Meaning image m .string (.token t) (.text value)

/-- An operand that the image has nothing for, and the error that says so. -/
inductive Refused (image : Image) : OperandKind → Operand → Error → Prop where
  | noTable {t : Token} (htable : TableId.ofNumber? t.tableNumber = .none) :
      Refused image .token (.token t) (.malformed (.tokenWithoutTable t))
  | noRow {t : Token} {table : TableId} (htable : TableId.ofNumber? t.tableNumber = some table)
      (hrow : ¬image.HasRow t) : Refused image .token (.token t) (.danglingReference table t.row)
  | notLiteral {t : Token} (hmark : t.tableNumber ≠ Token.userStringTable) :
      Refused image .string (.token t) (.malformed (.notStringToken t))
  | noEntry {t : Token} (hmark : t.tableNumber = Token.userStringTable)
      (hentry : ∀ value, image.heaps.userStrings.text t.row ≠ .ok value) :
      Refused image .string (.token t) (.heapRead .userString t.row)

theorem Refused.not_meaning {plain operand : Operand} (h : Refused image kind plain e) :
    ¬Meaning image m kind plain operand := by
  intro hmeaning
  cases h with
  | noTable htable =>
      cases hmeaning with
      | token hrow =>
          obtain ⟨table, row, hsome, -⟩ := hrow
          rw [htable] at hsome
          cases hsome
  | noRow htable hrow =>
      cases hmeaning with
      | token h => exact hrow h
  | notLiteral hmark =>
      cases hmeaning with
      | literal h => exact hmark h
  | noEntry hmark hentry =>
      cases hmeaning with
      | literal _ h => exact hentry _ h

theorem Meaning.unique {plain operand operand' : Operand} (h : Meaning image m kind plain operand)
    (h' : Meaning image m kind plain operand') : operand = operand' := by
  cases h with
  | literal hmark hentry =>
      cases h' with
      | literal hmark' hentry' =>
          rw [hentry] at hentry'
          cases hentry'
          rfl
  | _ =>
      cases h'
      rfl

theorem Refused.unique {plain : Operand} {e' : Error} (h : Refused image kind plain e)
    (h' : Refused image kind plain e') : e = e' := by
  cases h with
  | noTable htable =>
      cases h' with
      | noTable => rfl
      | noRow htable' => simp [htable] at htable'
  | noRow htable hrow =>
      cases h' with
      | noTable htable' => simp [htable] at htable'
      | noRow htable' =>
          rw [htable] at htable'
          cases htable'
          rfl
  | notLiteral hmark =>
      cases h' with
      | notLiteral => rfl
      | noEntry hmark' => exact absurd hmark' hmark
  | noEntry hmark hentry =>
      cases h' with
      | notLiteral hmark' => exact absurd hmark hmark'
      | noEntry => rfl

theorem hasRow_iff (hs : image.tables.Consistent) {table : TableId}
    (htable : TableId.ofNumber? t.tableNumber = some table) :
    image.HasRow t ↔ 0 < t.row ∧ t.row ≤ image.tables.rowCount table := by
  constructor
  · rintro ⟨found, row, hfound, hpos, hrow⟩
    rw [htable] at hfound
    cases hfound
    have hcount := hs.rowCount_eq (TablesStream.table?_of_row hrow)
    obtain ⟨_, -, hindex⟩ := exists_of_bind_ok hrow
    obtain ⟨rfl, hsame⟩ := Table.row_eq_ok.1 hindex
    have hinside : row.index < row.table.rowCount := row.index_lt
    omega
  · rintro ⟨hpos, hle⟩
    have hinside : t.row - 1 < image.tables.rowCount table := by omega
    obtain ⟨row, hrow, -⟩ := hs.exists_row hinside
    exact ⟨table, row, htable, hpos, hrow⟩

theorem checkToken_ok (hs : image.tables.Consistent) {t' : Token}
    (h : image.checkToken t = .ok t') : t' = t ∧ image.HasRow t := by
  rw [checkToken] at h
  cases htable : TableId.ofNumber? t.tableNumber with
  | none => simp [htable] at h
  | some table =>
      simp only [htable] at h
      split at h
      · cases h
      · cases h
        exact ⟨rfl, (hasRow_iff hs htable).2 (by omega)⟩

theorem checkToken_error (hs : image.tables.Consistent) (h : image.checkToken t = .error e) :
    Refused image .token (.token t) e := by
  rw [checkToken] at h
  cases htable : TableId.ofNumber? t.tableNumber with
  | none =>
      simp only [htable] at h
      cases h
      exact .noTable htable
  | some table =>
      simp only [htable] at h
      split at h
      · cases h
        refine .noRow htable ?_
        rw [hasRow_iff hs htable]
        omega
      · cases h

theorem literal_ok {value : String} (h : image.literal t = .ok value) :
    Meaning image m .string (.token t) (.text value) := by
  rw [literal] at h
  split at h
  · exact .literal ‹_› h
  · cases h

theorem literal_error (h : image.literal t = .error e) : Refused image .string (.token t) e := by
  rw [literal] at h
  split at h
  · rename_i hmark
    obtain rfl := UserStringHeap.text_error h
    refine .noEntry hmark fun value hvalue => ?_
    rw [h] at hvalue
    cases hvalue
  · cases h
    exact .notLiteral ‹_›

/-- An operand that is looked up has a meaning or is refused. -/
theorem resolver_operand (hs : image.tables.Consistent) (m : LoadedMethod) {raw : RawOperand}
    (hkind : raw.IsOf kind) :
    (∃ operand, (image.resolver m).operand raw = .ok operand ∧
      Meaning image m kind raw.plain operand) ∨
    ∃ e, (image.resolver m).operand raw = .error e ∧ Refused image kind raw.plain e := by
  cases raw with
  | none => exact .inl ⟨_, rfl, .none⟩
  | targets places => exact .inl ⟨_, rfl, .targets⟩
  | immediate value => exact .inl ⟨_, rfl, .immediate⟩
  | «local» index => exact .inl ⟨_, rfl, .local⟩
  | argument index => exact .inl ⟨_, rfl, .argument⟩
  | token t =>
      obtain rfl : kind = .token := hkind
      have hlookup : (image.resolver m).operand (.token t) =
          (image.checkToken t).map .token := rfl
      rw [hlookup]
      cases hcheck : image.checkToken t with
      | ok t' =>
          obtain ⟨rfl, hrow⟩ := checkToken_ok hs hcheck
          exact .inl ⟨_, rfl, .token hrow⟩
      | error e => exact .inr ⟨e, rfl, checkToken_error hs hcheck⟩
  | string t =>
      obtain rfl : kind = .string := hkind
      simp only [Resolver.operand, resolver]
      cases hliteral : image.literal t with
      | ok value => exact .inl ⟨.text value, rfl, literal_ok hliteral⟩
      | error e => exact .inr ⟨e, rfl, literal_error hliteral⟩

theorem Refused.ne_outOfBounds {plain : Operand} (h : Refused image kind plain e) :
    e ≠ .outOfBounds := by
  cases h <;> exact fun h => nomatch h

/-! ### Listings -/

/-- How a listing with lookups goes along one without: items that differ only in what their operands
stand for, until the first operand that is refused, or up to the same end. -/
inductive Refines (image : Image) (m : LoadedMethod) :
    List (Except Error (Instruction Operand)) → List (Except Error (Instruction Operand)) →
      Prop where
  | ended : Refines image m [] []
  | failed {e : Error} : Refines image m [.error e] [.error e]
  | refused {i : Instruction Operand} {e : Error}
      {others : List (Except Error (Instruction Operand))}
      (h : Refused image i.opcode.operand i.operand e) :
      Refines image m (.ok i :: others) [.error e]
  | item {i : Instruction Operand} {operand : Operand}
      {others resolved : List (Except Error (Instruction Operand))}
      (h : Meaning image m i.opcode.operand i.operand operand)
      (hothers : Refines image m others resolved) :
      Refines image m (.ok i :: others) (.ok { i with operand } :: resolved)

theorem instruction_refines (hs : image.tables.Consistent) (m : LoadedMethod)
    {raw : RawInstruction} (hkind : raw.operand.IsOf raw.opcode.operand) :
    ∃ i, Resolver.raw.instruction raw = .ok i ∧
      ((∃ operand, (image.resolver m).instruction raw = .ok { i with operand } ∧
        Meaning image m i.opcode.operand i.operand operand) ∨
      ∃ e, (image.resolver m).instruction raw = .error e ∧
        Refused image i.opcode.operand i.operand e) := by
  refine ⟨{ raw with operand := raw.operand.plain }, ?_, ?_⟩
  · simp only [Resolver.instruction, RawOperand.raw_operand]
  · obtain ⟨operand, hoperand, hmeaning⟩ | ⟨e, hoperand, hrefused⟩ := resolver_operand hs m hkind
    · refine .inl ⟨operand, ?_, hmeaning⟩
      simp only [Resolver.instruction, hoperand]
    · refine .inr ⟨e, ?_, hrefused⟩
      have hbounds := hrefused.ne_outOfBounds
      rw [Resolver.instruction, hoperand]
      cases e <;> first | rfl | exact absurd rfl hbounds

/-- From every place on the listings go along together: each step without lookups is a step with
them, or the last one. -/
theorem listingFrom_refines (hs : image.tables.Consistent) (m : LoadedMethod) (code : Bytes)
    (fuel position : Nat) :
    Refines image m (Resolver.raw.listingFrom code fuel position)
      ((image.resolver m).listingFrom code fuel position) := by
  induction fuel generalizing position with
  | zero => exact .ended
  | succ fuel ih =>
      obtain hend | hinside : code.size ≤ position ∨ position < code.size := by omega
      · rw [Resolver.listingFrom_at_end hend, Resolver.listingFrom_at_end hend]
        exact .ended
      rw [Resolver.listingFrom_inside hinside, Resolver.listingFrom_inside hinside]
      simp only [Resolver.decodeAt]
      cases hread : RawInstruction.reader code position with
      | error e stop => exact .failed
      | ok raw stop =>
          obtain ⟨i, hraw, hlookup⟩ :=
            instruction_refines hs m (RawInstruction.reader_isOf hread)
          simp only [hraw]
          obtain ⟨operand, hoperand, hmeaning⟩ | ⟨e, hoperand, hrefused⟩ := hlookup
          · simp only [hoperand]
            exact .item hmeaning (ih stop)
          · simp only [hoperand]
            exact .refused hrefused

namespace Refines

variable {raws resolved : List (Except Error (Instruction Operand))}

/-- Where an item stands in the listing with lookups, one stands in that without. -/
theorem item_at (h : Refines image m raws resolved) {place : Nat} {j : Instruction Operand}
    (hj : resolved[place]? = some (.ok j)) :
    ∃ i, raws[place]? = some (.ok i) ∧ Meaning image m i.opcode.operand i.operand j.operand := by
  induction h generalizing place with
  | ended => cases hj
  | failed => cases place <;> cases hj
  | refused => cases place <;> cases hj
  | @item i operand others resolved hmeaning hothers ih =>
      cases place with
      | zero =>
          cases hj
          exact ⟨i, rfl, hmeaning⟩
      | succ place => exact ih hj

/-- A raw listing leaves nothing open about the listing with lookups. -/
theorem unique (h : Refines image m raws resolved)
    {resolved' : List (Except Error (Instruction Operand))}
    (h' : Refines image m raws resolved') : resolved = resolved' := by
  induction h generalizing resolved' with
  | ended =>
      cases h'
      rfl
  | failed =>
      cases h'
      rfl
  | refused hrefused =>
      cases h' with
      | refused hrefused' => rw [hrefused.unique hrefused']
      | item hmeaning => exact absurd hmeaning hrefused.not_meaning
  | item hmeaning hothers ih =>
      cases h' with
      | refused hrefused => exact absurd hmeaning hrefused.not_meaning
      | item hmeaning' hothers' => rw [hmeaning.unique hmeaning', ih hothers']

end Refines

/-- The listing of a method goes along the raw one and can go along it in no other way, also if
operands are looked up in the middle of reading. Its tokens have rows, and its texts are literals. -/
structure ListingRefines (image : Image) (m : LoadedMethod) : Prop where
  refines : Refines image m (Resolver.raw.listing (RawInstruction.listing m.code))
    (image.listing m)
  unique : ∀ resolved, Refines image m (Resolver.raw.listing (RawInstruction.listing m.code))
    resolved → resolved = image.listing m
  walked : image.listing m = (image.resolver m).walk m.code
  token : ∀ (i : Instruction Operand) (t : Token), .ok i ∈ image.listing m →
    i.operand = .token t → image.HasRow t
  text : ∀ (place : Nat) (i : Instruction Operand) (value : String),
    (image.listing m)[place]? = some (.ok i) → i.operand = .text value →
    ∃ raw t, (Resolver.raw.listing (RawInstruction.listing m.code))[place]? = some (.ok raw) ∧
      raw.operand = .token t ∧ image.heaps.userStrings.text t.row = .ok value

/-- The instructions of every method of a loaded image refine those that its code has without any
metadata. -/
theorem listing_refines (h : image.IsLoaded) (m : LoadedMethod) : ListingRefines image m := by
  have hrefines : Refines image m (Resolver.raw.listing (RawInstruction.listing m.code))
      (image.listing m) := listingFrom_refines h.consistent m m.code _ _
  constructor
  case refines => exact hrefines
  case unique => exact fun resolved h' => h'.unique hrefines
  case walked => exact Resolver.listing_eq_walk _ _
  case token =>
    intro i t hmem htoken
    obtain ⟨place, hplace⟩ := List.mem_iff_getElem?.1 hmem
    obtain ⟨raw, -, hmeaning⟩ := hrefines.item_at hplace
    rw [htoken] at hmeaning
    generalize raw.operand = plain at hmeaning
    generalize raw.opcode.operand = kind at hmeaning
    cases hmeaning with
    | token hrow => exact hrow
  case text =>
    intro place i value hplace htext
    obtain ⟨raw, hraw, hmeaning⟩ := hrefines.item_at hplace
    refine ⟨raw, ?_⟩
    rw [htext] at hmeaning
    generalize hplain : raw.operand = plain at hmeaning
    generalize raw.opcode.operand = kind at hmeaning
    cases hmeaning with
    | literal hmark hentry => exact ⟨_, hraw, rfl, hentry⟩

/-- A method that loads a literal, calls itself and then a method that does not exist. Behind the
root and its two streams stands the body. -/
def greeting : Bytes :=
  #[0x42, 0x53, 0x4A, 0x42, 1, 0, 1, 0, 0, 0, 0, 0, 4, 0, 0, 0, 0x76, 0x34, 0, 0, 0, 0, 2, 0] ++
    #[0x30, 0, 0, 0, 0x2C, 0, 0, 0, 0x23, 0x7E, 0, 0] ++
    #[0x5C, 0, 0, 0, 0x08, 0, 0, 0, 0x23, 0x55, 0x53, 0] ++
    #[0, 0, 0, 0, 2, 0, 0, 1, 0x40, 0, 0, 0, 0, 0, 0, 0, 0, 0, 0, 0, 0, 0, 0, 0, 1, 0, 0, 0] ++
    #[0x64, 0, 0, 0, 0, 0, 0x16, 0, 0, 0, 0, 0, 0, 0, 0, 0] ++
    #[0, 0x05, 0x48, 0, 0x69, 0, 0, 0] ++
    #[0x42, 0x72, 1, 0, 0, 0x70, 0x28, 1, 0, 0, 0x06, 0x28, 2, 0, 0, 0x06, 0x2A]

theorem listing_refines_greeting :
    ∃ image m, ofMetadata greeting = .ok image ∧ image.disassemble 0 = .ok m ∧
      m.code.size = 16 ∧ ListingRefines image m := by
  have hrun : (do
      let image ← ofMetadata greeting
      let m ← image.disassemble 0
      return m.code.size) = .ok 16 := by
    decide +kernel
  obtain ⟨image, himage, hrun⟩ := exists_of_bind_ok hrun
  obtain ⟨m, hm, hrun⟩ := exists_of_bind_ok hrun
  exact ⟨image, m, himage, hm, Except.ok.inj hrun,
    listing_refines (isLoaded_of_ofMetadata himage) m⟩

example :
    (do
      let image ← ofMetadata greeting
      let m ← image.disassemble 0
      return (image.listing m).map (·.map fun i => (i.offset, i.operand)) :
        Except Error (List (Except Error (Nat × Operand)))) =
    .ok [.ok (0, .text "Hi"), .ok (5, .token ⟨0x06000001⟩),
      .error (.danglingReference .methodDef 2)] := by
  decide +kernel

end Image

end CliMeta
