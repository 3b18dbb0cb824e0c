import CliMeta.Instruction.Basic
import CliMeta.Proofs.Reader.Inversion

/-!
What comes of reading one instruction. It takes up the bytes that its size counts, at least one of
them and all inside the code; else its opcode is not assigned, the code ends inside it, or a branch
leads to a place that no 32-bit word can name.
-/

namespace CliMeta

open Reader

/-! ### Operands -/

/-- The errors of an operand by itself. -/
inductive IsOperandError (offset : Nat) : Error → Prop where
  | outOfBounds : IsOperandError offset .outOfBounds
  | branchOutside {target : Int} (h : target < 0 ∨ 0x100000000 ≤ target) :
      IsOperandError offset (.malformed (.branchOutside offset target))

namespace RawOperand

theorem branchTarget_raises (offset next : Nat) (displacement : Int) :
    Raises (Reader.ofExcept (branchTarget offset next displacement)) (IsOperandError offset) := by
  refine .ofExcept fun e h => ?_
  simp only [branchTarget] at h
  split at h
  · cases h
  · rename_i hexact
    cases h
    refine .branchOutside ?_
    omega

theorem branchReader_raises (offset width : Nat) :
    Raises (branchReader offset width) (IsOperandError offset) := by
  refine .bind (.signed width .outOfBounds) fun displacement => .bind .position fun next => ?_
  exact .bind (branchTarget_raises offset next displacement) fun _ => .pure _

/-- Reads one displacement of a switch and turns it into a place. -/
def placeReader (offset next : Nat) : Reader Nat := do
  Reader.ofExcept (branchTarget offset next (← Reader.signed 4))

/-- Reads the displacements of a switch, which count from a place. -/
def tableReader (offset next count : Nat) : Reader RawOperand := do
  return .targets (← Reader.times (placeReader offset next) count)

theorem switchReader_raises (offset : Nat) :
    Raises (switchReader offset) (IsOperandError offset) := by
  have hplace (next : Nat) : Raises (placeReader offset next) (IsOperandError offset) :=
    .bind (.signed 4 .outOfBounds) fun _ => branchTarget_raises offset next _
  have htable (next count : Nat) : Raises (tableReader offset next count) (IsOperandError offset) :=
    .bind (.times (hplace next) count) fun _ => .pure _
  refine .bind (.unsigned 4 .outOfBounds) fun count => .bind .remaining fun left => ?_
  refine .ite (fun _ => ?_) fun _ => ?_
  · exact .bind (.throw .outOfBounds) fun _ => .bind .position fun place => htable _ count
  · exact .bind .position fun place => htable _ count

theorem reader_raises (offset : Nat) (kind : OperandKind) :
    Raises (reader offset kind) (IsOperandError offset) := by
  cases kind with
  | none | implicitLocal | implicitArgument => exact .pure _
  | shortBranch | branch => exact branchReader_raises offset _
  | switch => exact switchReader_raises offset
  | int8 | int32 | int64 => exact .bind (.signed _ .outOfBounds) fun _ => .pure _
  | _ => exact .bind (.unsigned _ .outOfBounds) fun _ => .pure _

theorem branchReader_sequential (offset width : Nat) : (branchReader offset width).Sequential :=
  .bind (.signed width) fun _ => .bind .position fun _ => .bind (.ofExcept _) fun _ => .pure _

theorem switchReader_forward (offset : Nat) : (switchReader offset).Forward := by
  have hplace (next : Nat) : (placeReader offset next).Sequential :=
    .bind (.signed 4) fun _ => .ofExcept _
  have htable (next count : Nat) : (tableReader offset next count).Sequential :=
    .bind (.times (hplace next) count) fun _ => .pure _
  refine (Sequential.unsigned 4).forward.bind fun count => ?_
  refine .bind (fun _ _ h => ⟨Nat.le_refl _, h⟩) fun left => ?_
  refine .ite (.bind (Sequential.throw _).forward fun _ => ?_) ?_
  · exact Sequential.position.forward.bind fun place => (htable _ count).forward
  · exact Sequential.position.forward.bind fun place => (htable _ count).forward

theorem reader_forward (offset : Nat) (kind : OperandKind) : (reader offset kind).Forward := by
  cases kind with
  | none | implicitLocal | implicitArgument => exact (Sequential.pure _).forward
  | shortBranch | branch => exact (branchReader_sequential offset _).forward
  | switch => exact switchReader_forward offset
  | int8 | int32 | int64 => exact (Sequential.signed _).forward.bind fun _ =>
      (Sequential.pure _).forward
  | _ => exact (Sequential.unsigned _).forward.bind fun _ => (Sequential.pure _).forward

end RawOperand

/-! ### Opcodes -/

theorem Opcode.numberReader_raises : Raises numberReader (· = .outOfBounds) := by
  refine .bind (.unsigned 1 rfl) fun first => .ite (fun _ => ?_) fun _ => .pure _
  exact .bind (.unsigned 1 rfl) fun _ => .pure _

/-- The number of an opcode takes up at least one byte. -/
theorem Opcode.numberReader_stop {code : Bytes} {place : Nat} (h : place < code.size) :
    place < stop (numberReader code place) ∧ stop (numberReader code place) ≤ code.size := by
  have hbehind (first : Nat) : (if first = escape then do
      let second ← Reader.byte
      return escape * 0x100 + second
      else return first : Reader Nat).Forward :=
    .ite (Sequential.byte.forward.bind fun _ => (Sequential.pure _).forward)
      (Sequential.pure _).forward
  rw [numberReader, bind_of_ok (byte_inside h)]
  exact hbehind (code.byteAt place) code (place + 1) h

/-! ### Instructions -/

namespace RawInstruction

/-- Reads the instruction whose place is given. -/
def readerAt (place : Nat) : Reader RawInstruction := do
  let number ← Opcode.numberReader
  match Opcode.lookup? number with
  | none => throw (.unsupportedOpcode place number)
  | some opcode =>
      let operand ← RawOperand.reader place opcode.operand
      let stop ← Reader.position
      return ⟨place, number, opcode, stop - place, operand⟩

theorem openReader_eq (code : Bytes) (place : Nat) :
    openReader code place = readerAt place code place := rfl

/-- What can come of reading an instruction at a place inside the code. -/
inductive Outcome (code : Bytes) (place : Nat) :
    EStateM.Result Error Nat RawInstruction → Prop where
  | read {i : RawInstruction} (hoffset : i.offset = place) (hsize : 0 < i.size)
      (hinside : i.next ≤ code.size) (hopcode : Opcode.lookup? i.code = some i.opcode) :
      Outcome code place (.ok i i.next)
  | unsupported {number stop : Nat} :
      Outcome code place (.error (.unsupportedOpcode place number) stop)
  | truncated {stop : Nat} (hpast : place ≤ stop) (hinside : stop ≤ code.size) :
      Outcome code place (.error (.bodyTruncated stop) stop)
  | branchOutside {target : Int} {stop : Nat} (h : target < 0 ∨ 0x100000000 ≤ target) :
      Outcome code place (.error (.malformed (.branchOutside place target)) stop)

theorem reader_outcome {code : Bytes} {place : Nat} (h : place < code.size) :
    Outcome code place (reader code place) := by
  have hnumber := Opcode.numberReader_stop h
  rw [reader, orTruncated, openReader_eq, readerAt]
  cases hfirst : Opcode.numberReader code place with
  -- the code ends within the number
  | error e stop =>
      rw [hfirst] at hnumber
      obtain rfl := Opcode.numberReader_raises code place e stop hfirst
      rw [bind_of_error hfirst]
      exact .truncated (Nat.le_of_lt hnumber.1) hnumber.2
  | ok number middle =>
      rw [hfirst] at hnumber
      obtain ⟨hmoved, hmiddle⟩ := hnumber
      rw [stop_ok] at hmoved hmiddle
      rw [bind_of_ok hfirst]
      cases hlookup : Opcode.lookup? number with
      | none => exact .unsupported
      | some opcode =>
          have hoperand := RawOperand.reader_forward place opcode.operand code middle hmiddle
          cases hread : RawOperand.reader place opcode.operand code middle with
          | error e stop =>
              rw [hread] at hoperand
              simp only [bind_of_error hread]
              cases RawOperand.reader_raises place opcode.operand code middle e stop hread with
              | outOfBounds =>
                  exact .truncated (Nat.le_trans (Nat.le_of_lt hmoved) hoperand.1) hoperand.2
              | branchOutside hexact => exact .branchOutside hexact
          | ok operand next =>
              rw [hread] at hoperand
              obtain ⟨hafter, hnext⟩ := hoperand
              rw [stop_ok] at hafter hnext
              have hend : place + (next - place) = next := by omega
              have hread' : Outcome code place
                  (.ok ⟨place, number, opcode, next - place, operand⟩ (place + (next - place))) :=
                .read rfl (by show 0 < next - place; omega)
                  (by show place + (next - place) ≤ code.size; omega) hlookup
              rw [hend] at hread'
              simp only [bind_of_ok hread]
              exact hread'

end RawInstruction

end CliMeta
