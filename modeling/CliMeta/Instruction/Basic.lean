import CliMeta.Instruction.Opcode
import CliMeta.Entries
import CliMeta.Reader

/-!
Instructions as the code spells them. Code is a sequence of instructions without gaps; operands are
numbers and tokens, and the displacements of branches are turned into places in the code.
-/

namespace CliMeta

/-- A constant inside an instruction. Floating-point constants are kept as their bits. -/
inductive Immediate where
  | int8 (value : Int) | uint8 (value : Nat) | int32 (value : Int) | int64 (value : Int)
  | float32 (bits : Nat) | float64 (bits : Nat)
  deriving DecidableEq, Repr

/-- An operand without any metadata looked up. -/
inductive RawOperand where
  | none
  | targets (places : List Nat)
  | token (token : Token)
  | string (token : Token)
  | immediate (value : Immediate)
  | local (index : Nat)
  | argument (index : Nat)
  deriving DecidableEq, Repr

structure Instruction (α : Type) where
  offset : Nat
  code : Nat
  opcode : Opcode
  size : Nat
  operand : α
  deriving DecidableEq, Repr

abbrev RawInstruction := Instruction RawOperand

namespace Instruction

variable {α : Type}

def next (i : Instruction α) : Nat :=
  i.offset + i.size

def fallsThrough (i : Instruction α) : Bool :=
  i.opcode.flow.fallsThrough

end Instruction

namespace RawOperand

/-- The place that a displacement from `next` leads to. A place is a 32-bit word. -/
def branchTarget (offset next : Nat) (displacement : Int) : Except Error Nat :=
  let target := (next : Int) + displacement
  if 0 ≤ target ∧ target < 0x100000000 then .ok target.toNat
  else .error (.malformed (.branchOutside offset target))

/-- Reads the displacement of a branch, which counts from the end of the instruction. -/
def branchReader (offset width : Nat) : Reader RawOperand := do
  let displacement ← Reader.signed width
  let next ← Reader.position
  return .targets [← Reader.ofExcept (branchTarget offset next displacement)]

def switchReader (offset : Nat) : Reader RawOperand := do
  let count ← Reader.unsigned 4
  if (← Reader.remaining) < 4 * count then throw .outOfBounds
  let next := (← Reader.position) + 4 * count
  let target := do Reader.ofExcept (branchTarget offset next (← Reader.signed 4))
  return .targets (← Reader.times target count)

def reader (offset : Nat) : OperandKind → Reader RawOperand
  | .none => pure .none
  | .shortBranch => branchReader offset 1
  | .branch => branchReader offset 4
  | .switch => switchReader offset
  | .token => return .token ⟨← Reader.unsigned 4⟩
  | .string => return .string ⟨← Reader.unsigned 4⟩
  | .int8 => return .immediate (.int8 (← Reader.signed 1))
  | .uint8 => return .immediate (.uint8 (← Reader.unsigned 1))
  | .int32 => return .immediate (.int32 (← Reader.signed 4))
  | .int64 => return .immediate (.int64 (← Reader.signed 8))
  | .float32 => return .immediate (.float32 (← Reader.unsigned 4))
  | .float64 => return .immediate (.float64 (← Reader.unsigned 8))
  | .shortLocal => return .local (← Reader.unsigned 1)
  | .local => return .local (← Reader.unsigned 2)
  | .shortArgument => return .argument (← Reader.unsigned 1)
  | .argument => return .argument (← Reader.unsigned 2)
  | .implicitLocal index => return .local index
  | .implicitArgument index => return .argument index

end RawOperand

def Opcode.numberReader : Reader Nat := do
  let first ← Reader.byte
  if first = Opcode.escape then return Opcode.escape * 0x100 + (← Reader.byte)
  else return first

namespace RawInstruction

/-- Reads an instruction from code that may end inside it. -/
def openReader : Reader RawInstruction := do
  let offset ← Reader.position
  let code ← Opcode.numberReader
  match Opcode.lookup? code with
  | none => throw (.unsupportedOpcode offset code)
  | some opcode =>
      let operand ← RawOperand.reader offset opcode.operand
      let stop ← Reader.position
      return ⟨offset, code, opcode, stop - offset, operand⟩

def reader : Reader RawInstruction :=
  openReader.orTruncated .bodyTruncated

/-- The instruction at a place of the code, and the number of bytes that it takes up. -/
def decode (code : Bytes) (place : Nat) : Except Error (RawInstruction × Nat) :=
  match reader code place with
  | .ok instruction next => .ok (instruction, next - place)
  | .error e _ => .error e

def listing (code : Bytes) : List (Except Error RawInstruction) :=
  (walkEntries (decode code) (fun place => code.size ≤ place) code.size 0).map
    fun outcome => outcome.map Prod.snd

end RawInstruction

end CliMeta
