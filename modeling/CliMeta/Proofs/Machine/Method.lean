import CliMeta.Image.Method
import CliMeta.Proofs.Machine.Instruction
import CliMeta.Proofs.Machine.Record

/-!
The methods of an image, read with words. A method that is loaded has the parameters of a row list
and a body that lies in its bytes, so the parameters can be counted, and so can the places behind
the code and behind the regions of clauses.
-/

namespace CliMeta.Machine

variable {image : Image} {m : LoadedMethod}

/-! ### Loading -/

/-- The parameters of a list of rows, of which the length is asked for beforehand. -/
def parameters (image : Image) (method : Method) : Checked (List Parameter) := do
  let _ ← rangeSize method.params
  let found ← rowsIn image.tables method.params
  found.mapM fun outcome => do
    let row ← lift outcome
    let param ← recordOf image.heaps .param row
    return param.parameter row.index

def loadMethod (image : Image) (index : Nat) : Checked LoadedMethod := do
  let found ← record image .methodDef index
  let (body, data) ← readBody image.space found.method.rva
  let params ← parameters image found.method
  return ⟨found.method, body, data, params⟩

/-- What operations on an image rely on. -/
structure ImageFits (image : Image) : Prop where
  space : SpaceFits image.space
  heaps : HeapsFit image.heaps
  tables : TablesFit image.tables

/-- The fields of a record are read one after the other. -/
theorem read_fields_cons {h : Heaps} {r : Row} {f : RecordField} {fields : List RecordField}
    {values : FieldValues (f :: fields)}
    (hread : FieldValues.read h r (f :: fields) = .ok values) :
    f.form.read h r f.column = .ok values.1 ∧ FieldValues.read h r fields = .ok values.2 := by
  obtain ⟨first, hfirst, hthen⟩ := Reader.exists_of_bind_ok hread
  obtain ⟨others, hothers, hboth⟩ := Reader.exists_of_bind_ok hthen
  cases hboth
  exact ⟨hfirst, hothers⟩

/-- The parameters of a method are a row list of its row. -/
theorem range_of_method {h : Heaps} {r : Row} {found : Record .methodDef}
    (hrecord : Record.ofRow h .methodDef r = .ok found) :
    r.range 5 = .ok found.method.params := by
  rw [Record.ofRow] at hrecord
  split at hrecord
  · obtain ⟨values, hvalues, rfl⟩ := Reader.exists_of_map_ok hrecord
    have hbehindRva := (read_fields_cons hvalues).2
    have hbehindImplFlags := (read_fields_cons hbehindRva).2
    have hbehindFlags := (read_fields_cons hbehindImplFlags).2
    have hbehindName := (read_fields_cons hbehindFlags).2
    have hbehindSignature := (read_fields_cons hbehindName).2
    exact (read_fields_cons hbehindSignature).1
  · cases hrecord

/-- The rows of a list are rows of tables that are present. -/
theorem fits_of_rowsIn {s : TablesStream} (hs : TablesFit s) {range : RowRange} {r : Row}
    (h : .ok r ∈ s.rowsIn range) : FitsWords r.table := by
  obtain ⟨logical, -, hrow⟩ := List.mem_map.1 h
  obtain ⟨physical, -, hfound⟩ := Reader.exists_of_bind_ok hrow
  exact hs.of_row hfound

theorem parameters_eq (hi : ImageFits image) {method : Method}
    (hsize : rangeSize method.params = .ok method.params.size) :
    parameters image method = lift (image.parameters method) := by
  rw [parameters, hsize, ok_bind, rowsIn_eq hi.tables, ok_bind, Image.parameters]
  refine mapM_agrees fun outcome houtcome => ?_
  refine bind_agrees rfl fun row hrow => ?_
  subst hrow
  have hrecord := recordOf_eq hi.heaps (fits_of_rowsIn hi.tables houtcome) .param
  exact bind_agrees hrecord fun found _ => rfl

theorem loadMethod_eq (hi : ImageFits image) (index : Nat) :
    loadMethod image index = lift (image.loadMethod index) := by
  refine bind_agrees (record_eq hi.heaps hi.tables .methodDef index) fun found hfound => ?_
  obtain ⟨row, hrow, hrecord⟩ := Reader.exists_of_bind_ok hfound
  have hsize := rangeSize_eq (hi.tables.of_row hrow) (range_of_method hrecord)
  refine bind_agrees (readBody_eq hi.space found.method.rva) fun read _ => ?_
  exact bind_agrees (parameters_eq hi hsize) fun params _ => rfl

/-! ### Checks -/

/-- Whether a region lies in code of a size. -/
def regionWithin (codeSize : Nat) (r : CodeRegion) : Checked Bool := do
  let stop ← add 64 r.offset r.length
  return stop ≤ codeSize

/-- Whether the regions of all clauses do. The handler is looked at only if the protected region
lies in the code. -/
def clausesWithin (codeSize : Nat) : List ExceptionClause → Checked Bool
  | [] => .ok true
  | c :: clauses => do
      if ← regionWithin codeSize c.tryRegion then
        if ← regionWithin codeSize c.handler then clausesWithin codeSize clauses
        else return false
      else return false

def checkLocals (m : LoadedMethod) (tables : TablesStream) : Checked Unit := do
  let count ← rowCount tables.sizing .standAloneSig
  let locals := m.body.locals
  if locals.isNull ∨ TableId.ofNumber? locals.tableNumber = some .standAloneSig ∧
      0 < locals.row ∧ locals.row ≤ count then return ()
  else fail (.malformed (.invalidLocals m.method.token locals))

def checkClauses (m : LoadedMethod) : Checked Unit := do
  if ← clausesWithin m.body.codeSize m.body.clauses then return ()
  else fail (.malformed (.clauseOutsideCode m.method.token m.body.codeSize))

/-- The method of a row, with its body checked if the options ask for it. -/
def disassemble (image : Image) (index : Nat) : Checked LoadedMethod := do
  let method ← loadMethod image index
  if image.options.validateMethodBodies then
    checkLocals method image.tables
    checkClauses method
  return method

/-- What is known of the body of a method that has been loaded. -/
structure BodyFits (m : LoadedMethod) : Prop where
  data : m.data.size < positions
  size : bodySize m.body = .ok m.body.size
  clauses : ∀ c ∈ m.body.clauses, c.Counted

theorem BodyFits.of_read {a : AddressSpace} (ha : SpaceFits a) {rva : Nat}
    (h : MethodBody.read a rva = .ok (m.body, m.data)) : BodyFits m := by
  rw [MethodBody.read] at h
  split at h
  · obtain ⟨hbody, hdata⟩ := Prod.mk.inj (Except.ok.inj h)
    refine ⟨?_, ?_, ?_⟩
    · rw [← hdata]
      decide
    · rw [← hbody]
      rfl
    · rw [← hbody]
      exact fun c hc => absurd hc List.not_mem_nil
  · obtain ⟨length, -, h⟩ := Reader.exists_of_bind_ok h
    obtain ⟨data, hread, h⟩ := Reader.exists_of_bind_ok h
    obtain ⟨body, hbody, h⟩ := Reader.exists_of_bind_ok h
    obtain ⟨rfl, rfl⟩ := Prod.mk.inj (Except.ok.inj h)
    have hsize := ha _ _ _ hread
    exact ⟨hsize, bodySize_eq hsize hbody, counted_of_ofBytes hbody⟩

theorem bodyFits_of_loadMethod (hi : ImageFits image) {index : Nat}
    (h : image.loadMethod index = .ok m) : BodyFits m := by
  obtain ⟨found, -, h⟩ := Reader.exists_of_bind_ok h
  obtain ⟨read, hread, h⟩ := Reader.exists_of_bind_ok h
  obtain ⟨params, -, h⟩ := Reader.exists_of_bind_ok h
  cases h
  exact .of_read hi.space hread

theorem bodyFits_of_disassemble (hi : ImageFits image) {index : Nat}
    (h : image.disassemble index = .ok m) : BodyFits m := by
  obtain ⟨method, hmethod, h⟩ := Reader.exists_of_bind_ok h
  have hbody := bodyFits_of_loadMethod hi hmethod
  simp only at h
  split at h
  · obtain ⟨_, -, h⟩ := Reader.exists_of_bind_ok h
    obtain ⟨_, -, h⟩ := Reader.exists_of_bind_ok h
    cases h
    exact hbody
  · cases h
    exact hbody

theorem regionWithin_eq {codeSize : Nat} {r : CodeRegion} (h : r.offset + r.length < 2 ^ 64) :
    regionWithin codeSize r = .ok (r.within codeSize) := by
  rw [regionWithin, add_eq h]
  rfl

theorem clausesWithin_eq {codeSize : Nat} {clauses : List ExceptionClause}
    (h : ∀ c ∈ clauses, c.Counted) :
    clausesWithin codeSize clauses = .ok (clauses.all fun c =>
      c.tryRegion.within codeSize && c.handler.within codeSize) := by
  induction clauses with
  | nil => rfl
  | cons c clauses ih =>
      have hc := h c List.mem_cons_self
      rw [clausesWithin, regionWithin_eq hc.1, ok_bind, regionWithin_eq hc.2,
        ih fun other hother => h other (List.mem_cons_of_mem c hother), List.all_cons]
      cases c.tryRegion.within codeSize with
      | false => rfl
      | true =>
          cases c.handler.within codeSize <;> rfl

theorem checkLocals_eq (m : LoadedMethod) (tables : TablesStream) :
    checkLocals m tables = lift (m.checkLocals tables) := by
  rw [checkLocals, rowCount_eq, ok_bind, LoadedMethod.checkLocals]
  exact ite_agrees (fun _ => rfl) fun _ => rfl

theorem checkClauses_eq (hm : BodyFits m) : checkClauses m = lift m.checkClauses := by
  rw [checkClauses, clausesWithin_eq hm.clauses, ok_bind, LoadedMethod.checkClauses]
  exact ite_agrees (fun _ => rfl) fun _ => rfl

theorem disassemble_eq (hi : ImageFits image) (index : Nat) :
    disassemble image index = lift (image.disassemble index) := by
  refine bind_agrees (loadMethod_eq hi index) fun method hmethod => ?_
  have hbody := bodyFits_of_loadMethod hi hmethod
  cases image.options.validateMethodBodies with
  | false => rfl
  | true =>
      refine bind_agrees (checkLocals_eq method image.tables) fun _ _ => ?_
      exact bind_agrees (checkClauses_eq hbody) fun _ _ => rfl

/-! ### Instructions -/

/-- The code, without the header and the sections. -/
def methodCode (m : LoadedMethod) : Checked Bytes := do
  let stop ← bodySize m.body
  return (m.data.slice? m.body.headerSize stop).getD #[]

/-- Fails unless a token addresses a row that exists. -/
def checkToken (image : Image) (token : Token) : Checked Token :=
  match TableId.ofNumber? token.tableNumber with
  | none => fail (.malformed (.tokenWithoutTable token))
  | some table => do
      let count ← rowCount image.tables.sizing table
      if token.row = 0 ∨ count < token.row then fail (.danglingReference table token.row)
      else return token

/-- The literal of a string token. -/
def literal (image : Image) (token : Token) : Checked String :=
  if token.tableNumber = Token.userStringTable then literalText image.heaps.userStrings token.row
  else fail (.malformed (.notStringToken token))

/-- The lookups of the operands of a method. -/
def resolver (image : Image) (m : LoadedMethod) : CheckedResolver where
  token := checkToken image
  literal token := (literal image token).map some
  argument slot := .ok ⟨slot, m.slotRole slot⟩

/-- The instructions of a method with their operands looked up. -/
def listing (image : Image) (m : LoadedMethod) :
    Checked (List (Except Error (Instruction Operand))) := do
  let code ← methodCode m
  let raws ← instructions code
  (resolver image m).listing raws

theorem methodCode_eq (hm : BodyFits m) : methodCode m = .ok m.code := by
  rw [methodCode, hm.size]
  rfl

theorem size_code_lt (hm : BodyFits m) : m.code.size < positions := by
  rw [LoadedMethod.code]
  cases hcode : m.data.slice? m.body.headerSize m.body.size with
  | none => decide
  | some code =>
      obtain ⟨-, hinside, rfl⟩ := Bytes.slice?_eq_some hcode
      have hdata := hm.data
      rw [Option.getD_some, Array.size_extract]
      omega

theorem checkToken_eq (image : Image) (token : Token) :
    checkToken image token = lift (image.checkToken token) := by
  rw [checkToken, Image.checkToken]
  cases TableId.ofNumber? token.tableNumber with
  | none => rfl
  | some table =>
      simp only
      rw [rowCount_eq, ok_bind]
      exact ite_agrees (fun _ => rfl) fun _ => rfl

theorem literal_eq (hh : HeapsFit image.heaps) (token : Token) :
    literal image token = lift (image.literal token) := by
  exact ite_agrees (fun _ => literalText_eq hh.userStrings token.row) fun _ => rfl

theorem resolver_agrees (hh : HeapsFit image.heaps) (m : LoadedMethod) :
    (resolver image m).Agrees (image.resolver m) where
  token := checkToken_eq image
  literal token := map_agrees (literal_eq hh token) some
  argument _ := rfl

theorem listing_eq (hh : HeapsFit image.heaps) (hm : BodyFits m) :
    listing image m = .ok (image.listing m) := by
  rw [listing, methodCode_eq hm, ok_bind, instructions_eq (size_code_lt hm), ok_bind]
  exact (resolver_agrees hh m).listing_eq _

end CliMeta.Machine
