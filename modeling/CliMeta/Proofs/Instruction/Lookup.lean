import CliMeta.Proofs.Instruction.Stream

/-!
Lookups in the middle of decoding. A reader may look an operand up as soon as it has read it, before
it knows where the instruction ends. That makes no difference: it comes to the same outcomes at the
same places as reading the instruction first, and its listing is that of a whole raw listing with
the operands looked up afterwards.
-/

namespace CliMeta

open Reader

namespace Resolver

variable {r : Resolver} {code : Bytes} {position : Nat}

/-- Reads an operand and looks it up on the spot. -/
def operandReader (r : Resolver) (offset : Nat) (kind : OperandKind) : Reader Operand := do
  let raw ← RawOperand.reader offset kind
  Reader.ofExcept (r.operand raw)

/-- Reads the instruction whose place is given, with its operand looked up on the spot. -/
def readerAt (r : Resolver) (place : Nat) : Reader (Instruction Operand) := do
  let number ← Opcode.numberReader
  match Opcode.lookup? number with
  | none => throw (.unsupportedOpcode place number)
  | some opcode =>
      let operand ← r.operandReader place opcode.operand
      let stop ← Reader.position
      return ⟨place, number, opcode, stop - place, operand⟩

def reader (r : Resolver) : Reader (Instruction Operand) :=
  Reader.orTruncated .bodyTruncated do
    let place ← Reader.position
    r.readerAt place

def decode (r : Resolver) (code : Bytes) (place : Nat) :
    Except Error (Instruction Operand × Nat) :=
  match r.reader code place with
  | .ok i next => .ok (i, next - place)
  | .error e _ => .error e

/-- The instructions of the code from its start on, each with its operand looked up while it is
read. -/
def walk (r : Resolver) (code : Bytes) : List (Except Error (Instruction Operand)) :=
  (walkEntries (r.decode code) (fun place => code.size ≤ place) code.size 0).map
    fun outcome => outcome.map Prod.snd

/-- The lookup does not move, so the instruction ends where it does without it. -/
theorem readerAt_eq (r : Resolver) (place : Nat) :
    r.readerAt place = (do
      let raw ← RawInstruction.readerAt place
      let operand ← Reader.ofExcept (r.operand raw.operand)
      return { raw with operand }) := by
  funext code position
  rw [readerAt, RawInstruction.readerAt, bind_apply, bind_apply, bind_apply]
  cases hnumber : Opcode.numberReader code position with
  | error e stop => rfl
  | ok number middle =>
      cases hlookup : Opcode.lookup? number with
      | none => simp only [hlookup, throw_apply]
      | some opcode =>
          simp only [hlookup, operandReader, bind_apply]
          cases hread : RawOperand.reader place opcode.operand code middle with
          | error e stop => rfl
          | ok raw next =>
              cases hoperand : r.operand raw <;> simp [Reader.position, hoperand]

/-- Reading and looking up, one with the other or one after the other. -/
theorem reader_eq (h : position < code.size) :
    r.reader code position =
      match r.decodeAt code position with
      | (.ok i, stop) => .ok i stop
      | (.error e, stop) => .error e stop := by
  have hopen : r.reader code position =
      (r.readerAt position).orTruncated .bodyTruncated code position := rfl
  have hraw : RawInstruction.reader code position =
      (RawInstruction.readerAt position).orTruncated .bodyTruncated code position := rfl
  have hinside := RawInstruction.reader_outcome h
  rw [hraw] at hinside
  rw [hopen, decodeAt, hraw, readerAt_eq]
  simp only [orTruncated, bind_apply] at hinside ⊢
  cases hread : RawInstruction.readerAt position code position with
  | error e stop => cases e <;> rfl
  | ok raw stop =>
      rw [hread] at hinside
      cases hinside with
      | read =>
          simp only [instruction]
          cases r.operand raw.operand with
          | ok operand => rfl
          | error e => cases e <;> rfl

/-- Operands looked up in the middle of reading or behind it, both up to the first error. -/
theorem listing_eq_walk (r : Resolver) (code : Bytes) :
    r.listing (RawInstruction.listing code) = r.walk code := by
  rw [listing_eq, walk]
  suffices h : ∀ fuel position, r.listingFrom code fuel position =
      (walkEntries (r.decode code) (fun place => code.size ≤ place) fuel position).map
        fun outcome => outcome.map Prod.snd from h code.size 0
  intro fuel position
  induction fuel generalizing position with
  | zero => rfl
  | succ fuel ih =>
      obtain hend | hinside : code.size ≤ position ∨ position < code.size := by omega
      · rw [listingFrom_at_end hend]
        simp [walkEntries, hend]
      · have hnot : ¬code.size ≤ position := by omega
        rw [listingFrom_inside hinside]
        simp only [walkEntries, hnot, decode, reader_eq hinside, decide_false, Bool.false_eq_true,
          if_false]
        rcases hdecode : r.decodeAt code position with ⟨result, stop⟩
        cases result with
        | error e => rfl
        | ok i =>
            obtain ⟨hoffset, hsize, hstop, -⟩ := decodeAt_ok hinside hdecode
            have hplace : position + (stop - position) = stop := by
              rw [Instruction.next] at hstop
              omega
            simp only [ih, List.map_cons, Except.map, hplace]

end Resolver

end CliMeta
