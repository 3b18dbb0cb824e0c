import CliMeta.Decimal.Shortest
import CliMeta.Instruction.Basic
import CliMeta.Text.Quoted

/-!
Operands with their meaning. A resolver looks up what the numbers and tokens of raw operands stand
for; places, sizes and constants stay as they are. A listing with a resolver follows the raw listing
and ends early where the resolver refuses an operand.
-/

namespace CliMeta

inductive SlotRole where
  | undeclared
  | receiver
  /-- A declared parameter with its row, counted from 0. -/
  | parameter (row : Nat) (name : String)
  deriving DecidableEq, Repr

structure ArgumentSlot where
  index : Nat
  role : SlotRole
  deriving DecidableEq, Repr

inductive Operand where
  | none
  | targets (places : List Nat)
  | token (token : Token)
  | immediate (value : Immediate)
  | local (index : Nat)
  | argument (slot : ArgumentSlot)
  | text (value : String)
  deriving DecidableEq, Repr

structure Resolver where
  token : Token → Except Error Token
  /-- The literal of a string token, or `none` to keep the token. -/
  literal : Token → Except Error (Option String)
  argument : Nat → Except Error ArgumentSlot

namespace Resolver

/-- The resolver that knows nothing and refuses nothing. -/
def raw : Resolver where
  token := .ok
  literal _ := .ok none
  argument index := .ok ⟨index, .undeclared⟩

def operand (r : Resolver) : RawOperand → Except Error Operand
  | .none => .ok .none
  | .targets places => .ok (.targets places)
  | .token token => (r.token token).map .token
  | .string token => do
      match ← r.literal token with
      | some value => return .text value
      | none => return .token token
  | .immediate value => .ok (.immediate value)
  | .local index => .ok (.local index)
  | .argument index => (r.argument index).map .argument

/-- An instruction with its operand looked up. A lookup that runs out of data counts as code that
ends behind the instruction. -/
def instruction (r : Resolver) (i : RawInstruction) : Except Error (Instruction Operand) :=
  match r.operand i.operand with
  | .ok operand => .ok { i with operand }
  | .error .outOfBounds => .error (.bodyTruncated i.next)
  | .error e => .error e

/-- A listing with its operands looked up, up to the first one that is refused. -/
def listing (r : Resolver) :
    List (Except Error RawInstruction) → List (Except Error (Instruction Operand))
  | [] => []
  | .error e :: _ => [.error e]
  | .ok raw :: others =>
      match r.instruction raw with
      | .ok resolved => .ok resolved :: r.listing others
      | .error e => [.error e]

end Resolver

/-! ### Assembly text -/

def codeLabel (place : Nat) : String :=
  "IL_" ++ hexLower 4 place

def Immediate.text : Immediate → String
  | .int8 value | .int32 value | .int64 value => toString value
  | .uint8 value => toString value
  | .float32 bits => FloatFormat.single.text bits
  | .float64 bits => FloatFormat.double.text bits

def ArgumentSlot.text (slot : ArgumentSlot) : String :=
  match slot.role with
  | .undeclared => s!"A_{slot.index}"
  | .receiver => "this"
  | .parameter _ name => name

/-- The text of an operand, if it has one. The places of a switch stand in parentheses. -/
def Operand.text? (flow : FlowKind) : Operand → Option String
  | .none => .none
  | .targets places =>
      let labels := ", ".intercalate (places.map codeLabel)
      some (if flow = .switch then s!"({labels})" else labels)
  | .token t => some t.text
  | .immediate value => some value.text
  | .local index => some s!"V_{index}"
  | .argument slot => some slot.text
  | .text value => some (quoted value)

def Instruction.text (i : Instruction Operand) : String :=
  let head := s!"{codeLabel i.offset}: {i.opcode.mnemonic}"
  match i.operand.text? i.opcode.flow with
  | some operand => s!"{head} {operand}"
  | none => head

end CliMeta
