import CliMeta.Body.Extent
import CliMeta.Image.Basic
import CliMeta.Instruction.Operand

/-!
The code of a method of an image. Operands are looked up in the image: tokens have to address rows
that exist, string tokens stand for literals, and argument slots are matched with the declared
parameters.
-/

namespace CliMeta

structure LoadedMethod where
  method : Method
  body : MethodBody
  /-- The bytes of the body, the header counted. -/
  data : Bytes
  /-- The declared parameters in the order of their rows. -/
  params : List Parameter

namespace LoadedMethod

def hasReceiver (m : LoadedMethod) : Bool :=
  m.method.flags.isInstance

/-- The code, without the header and the sections. -/
def code (m : LoadedMethod) : Bytes :=
  (m.data.slice? m.body.headerSize m.body.size).getD #[]

/-- The place in the signature that an argument slot stands for, as a 16-bit word. Without a
receiver the first slot is the first parameter. -/
def slotSequence (m : LoadedMethod) (slot : Nat) : Nat :=
  if m.hasReceiver then slot else min (slot + 1) 0xFFFF

def slotRole (m : LoadedMethod) (slot : Nat) : SlotRole :=
  if m.hasReceiver ∧ slot = 0 then .receiver
  else
    match m.params.find? fun param => param.sequence = m.slotSequence slot with
    | some param => .parameter param.row param.name
    | none => .undeclared

/-- The locals are declared by no row or by one that exists. -/
def checkLocals (m : LoadedMethod) (tables : TablesStream) : Except Error Unit :=
  let locals := m.body.locals
  if locals.isNull ∨ TableId.ofNumber? locals.tableNumber = some .standAloneSig ∧
      0 < locals.row ∧ locals.row ≤ tables.rowCount .standAloneSig then .ok ()
  else .error (.malformed (.invalidLocals m.method.token locals))

/-- The regions of every clause lie in the code. -/
def checkClauses (m : LoadedMethod) : Except Error Unit :=
  let codeSize := m.body.codeSize
  if m.body.clauses.all fun c => c.tryRegion.within codeSize && c.handler.within codeSize then
    .ok ()
  else .error (.malformed (.clauseOutsideCode m.method.token codeSize))

end LoadedMethod

namespace Image

def parameters (image : Image) (method : Method) : Except Error (List Parameter) :=
  (image.tables.rowsIn method.params).mapM fun outcome => do
    let row ← outcome
    return (← Record.ofRow image.heaps .param row).parameter row.index

def loadMethod (image : Image) (index : Nat) : Except Error LoadedMethod := do
  let method := (← image.record .methodDef index).method
  let (body, data) ← MethodBody.read image.space method.rva
  return ⟨method, body, data, ← image.parameters method⟩

/-- The method of a row, with its body checked if the options ask for it. -/
def disassemble (image : Image) (index : Nat) : Except Error LoadedMethod := do
  let method ← image.loadMethod index
  if image.options.validateMethodBodies then
    method.checkLocals image.tables
    method.checkClauses
  return method

/-- Fails unless a token addresses a row that exists. -/
def checkToken (image : Image) (token : Token) : Except Error Token :=
  match TableId.ofNumber? token.tableNumber with
  | none => .error (.malformed (.tokenWithoutTable token))
  | some table =>
      if token.row = 0 ∨ image.tables.rowCount table < token.row then
        .error (.danglingReference table token.row)
      else .ok token

def literal (image : Image) (token : Token) : Except Error String :=
  if token.tableNumber = Token.userStringTable then image.heaps.userStrings.text token.row
  else .error (.malformed (.notStringToken token))

def resolver (image : Image) (m : LoadedMethod) : Resolver where
  token := image.checkToken
  literal token := (image.literal token).map some
  argument slot := .ok ⟨slot, m.slotRole slot⟩

def listing (image : Image) (m : LoadedMethod) : List (Except Error (Instruction Operand)) :=
  (image.resolver m).listing (RawInstruction.listing m.code)

end Image

end CliMeta
