import CliMeta.Instruction.Operand
import CliMeta.Proofs.Instruction.Stream
import CliMeta.Proofs.Machine.Body

/-!
Instructions, read with words. A jump starts from a place in the code and goes as far as a 32-bit
number, so where it leads to is a 64-bit number, and only then is it looked at whether that is a
place. The table of a switch lies in the code before the place behind it is counted.
-/

namespace CliMeta.Machine

open Reader (FitsSigned)

variable {data code : Bytes} {start : Nat}

/-! ### Operands -/

/-- The place that a displacement from `next` leads to. -/
def branchTarget (offset next : Nat) (displacement : Int) : Checked Nat := do
  let target ← addSigned 64 next displacement
  if 0 ≤ target ∧ target < 0x100000000 then return target.toNat
  else fail (.malformed (.branchOutside offset target))

def branch (offset width : Nat) : CheckedReader RawOperand := do
  let displacement ← signed width
  let next ← liftReader Reader.position
  let place ← compute (branchTarget offset next displacement)
  return .targets [place]

/-- Reads one displacement of a switch and turns it into a place. -/
def switchPlace (offset next : Nat) : CheckedReader Nat := do
  let displacement ← signed 4
  compute (branchTarget offset next displacement)

def switch (offset : Nat) : CheckedReader RawOperand := do
  let count ← unsigned 4
  if (← liftReader Reader.remaining) < 4 * count then throw (.error .outOfBounds)
  let position ← liftReader Reader.position
  let next ← compute (add 64 position (4 * count))
  let places ← times (switchPlace offset next) count
  return .targets places

/-- Reads the operand of the instruction at an offset. -/
def operand (offset : Nat) : OperandKind → CheckedReader RawOperand
  | .none => pure .none
  | .shortBranch => branch offset 1
  | .branch => branch offset 4
  | .switch => switch offset
  | .token => return .token ⟨← unsigned 4⟩
  | .string => return .string ⟨← unsigned 4⟩
  | .int8 => return .immediate (.int8 (← signed 1))
  | .uint8 => return .immediate (.uint8 (← unsigned 1))
  | .int32 => return .immediate (.int32 (← signed 4))
  | .int64 => return .immediate (.int64 (← signed 8))
  | .float32 => return .immediate (.float32 (← unsigned 4))
  | .float64 => return .immediate (.float64 (← unsigned 8))
  | .shortLocal => return .local (← unsigned 1)
  | .local => return .local (← unsigned 2)
  | .shortArgument => return .argument (← unsigned 1)
  | .argument => return .argument (← unsigned 2)
  | .implicitLocal index => return .local index
  | .implicitArgument index => return .argument index

theorem branchTarget_eq (offset : Nat) {next : Nat} {displacement : Int}
    (hnext : next < 2 ^ 33) (hdisplacement : -2 ^ 31 ≤ displacement ∧ displacement < 2 ^ 31) :
    branchTarget offset next displacement =
      lift (RawOperand.branchTarget offset next displacement) := by
  rw [branchTarget, RawOperand.branchTarget, addSigned_eq (by omega), ok_bind]
  split <;> rfl

theorem follows_branch (offset : Nat) {width : Nat} (hpos : 0 < width) (hwidth : width ≤ 4) :
    Follows data start (branch offset width) (RawOperand.branchReader offset width) := by
  refine (follows_signed width).bind_where (.signed hpos) fun displacement hfits => ?_
  have hbound : 2 ^ (8 * width - 1) ≤ 2 ^ 31 := Nat.pow_le_pow_right (by decide) (by omega)
  rw [FitsSigned, Nat.one_shiftLeft] at hfits
  refine .position fun next _ _ hnext => ?_
  have hword : next < 2 ^ 32 := hnext
  have htarget : branchTarget offset next displacement =
      lift (RawOperand.branchTarget offset next displacement) :=
    branchTarget_eq offset (by omega) (by omega)
  exact (Follows.computed htarget).bind fun _ => .pure _

theorem follows_switchPlace (offset : Nat) {next : Nat} (hnext : next < 2 ^ 33) :
    Follows data start (switchPlace offset next) (RawOperand.placeReader offset next) := by
  refine (follows_signed 4).bind_where (.signed (by decide)) fun displacement hfits => ?_
  exact .computed (branchTarget_eq offset hnext hfits)

theorem follows_switch (offset : Nat) :
    Follows data start (switch offset) (RawOperand.switchReader offset) := by
  refine (follows_unsigned 4).bind fun count => .remaining fun left hleft => ?_
  refine .ite (fun _ => ?_) fun hcount => .position fun place _ hplace hword => ?_
  · exact Follows.bind_where (.throw _) (.throw (P := fun _ => False) _) fun _ h => h.elim
  · refine .of_words fun _ hsize => ?_
    have hless : data.size < 2 ^ 32 := hsize
    refine .compute (add_eq (by omega)) ?_
    exact (follows_times (follows_switchPlace offset (by omega)) count).bind fun _ => .pure _

theorem follows_operand (offset : Nat) (kind : OperandKind) :
    Follows data start (operand offset kind) (RawOperand.reader offset kind) := by
  cases kind with
  | none | implicitLocal | implicitArgument => exact .pure _
  | shortBranch | branch => exact follows_branch offset (by decide) (by decide)
  | switch => exact follows_switch offset
  | int8 | int32 | int64 => exact (follows_signed _).bind fun _ => .pure _
  | _ => exact (follows_unsigned _).bind fun _ => .pure _

/-! ### Instructions -/

def opcodeNumber : CheckedReader Nat := do
  let first ← byte
  if first = Opcode.escape then return Opcode.escape * 0x100 + (← byte)
  else return first

/-- Reads an instruction from code that may end inside it. -/
def instruction : CheckedReader RawInstruction := do
  let offset ← liftReader Reader.position
  let number ← opcodeNumber
  match Opcode.lookup? number with
  | none => throw (.error (.unsupportedOpcode offset number))
  | some opcode =>
      let operand ← operand offset opcode.operand
      let stop ← liftReader Reader.position
      let size ← compute (sub stop offset)
      return ⟨offset, number, opcode, size, operand⟩

/-- The instruction at a place of the code and the place behind it. -/
def instructionAt (code : Bytes) (place : Nat) : Checked (RawInstruction × Nat) :=
  match orTruncated .bodyTruncated instruction code place with
  | .ok found next => .ok (found, next)
  | .error s _ => .error s

/-- The instructions of the code from its start on. -/
def instructions (code : Bytes) : Checked (List (Except Error RawInstruction)) := do
  let found ← walk (instructionAt code) (fun place => .ok (code.size ≤ place)) code.size 0
  return found.map fun outcome => outcome.map Prod.snd

theorem follows_opcodeNumber : Follows data start opcodeNumber Opcode.numberReader :=
  follows_byte.bind fun _ => .ite (fun _ => follows_byte.bind fun _ => .pure _) fun _ => .pure _

theorem follows_instruction : Follows data start instruction RawInstruction.openReader := by
  refine .position fun offset _ _ _ => follows_opcodeNumber.bind fun number => ?_
  cases Opcode.lookup? number with
  | none => exact .throw _
  | some opcode =>
      refine (follows_operand offset opcode.operand).bind fun operand => ?_
      exact .position fun stop hstop _ _ => .compute (sub_eq hstop) (.pure _)

theorem instructionAt_eq (hsize : code.size < positions) {place : Nat} (h : place < code.size) :
    instructionAt code place =
      lift ((RawInstruction.decode code place).map fun found => (found.1, place + found.2)) := by
  have hfollows : Follows code place (orTruncated .bodyTruncated instruction)
      (RawInstruction.openReader.orTruncated .bodyTruncated) :=
    follows_orTruncated _ follows_instruction
  obtain ⟨hsame, hbounds⟩ := hfollows hsize place (Nat.le_refl place) (Nat.le_of_lt h)
  rw [instructionAt, hsame, RawInstruction.decode, RawInstruction.reader]
  cases hout : RawInstruction.openReader.orTruncated .bodyTruncated code place with
  | error e next => rfl
  | ok found next =>
      have hmoved := (hbounds found next hout).1
      simp only [liftOutcome, Except.map, Nat.add_sub_cancel' hmoved]
      rfl

theorem instructions_eq (hsize : code.size < positions) :
    instructions code = .ok (RawInstruction.listing code) := by
  have hwalk : walk (instructionAt code) (fun place => .ok (code.size ≤ place)) code.size 0 = _ :=
    walk_eq (fun _ => rfl) (fun place hbefore =>
      instructionAt_eq hsize (Nat.lt_of_not_le (of_decide_eq_false hbefore))) code.size 0
  rw [instructions, hwalk]
  rfl

/-! ### Operands with their meaning -/

/-- The lookups of operands. -/
structure CheckedResolver where
  token : Token → Checked Token
  literal : Token → Checked (Option String)
  argument : Nat → Checked ArgumentSlot

namespace CheckedResolver

def operand (r : CheckedResolver) : RawOperand → Checked Operand
  | .none => .ok .none
  | .targets places => .ok (.targets places)
  | .token token => (r.token token).map .token
  | .string token => do
      match ← r.literal token with
      | some value => return .text value
      | none => return .token token
  | .immediate value => .ok (.immediate value)
  | .local index => .ok (.local index)
  | .argument index => (r.argument index).map .argument

def instruction (r : CheckedResolver) (i : RawInstruction) : Checked (Instruction Operand) :=
  match r.operand i.operand with
  | .ok operand => .ok { i with operand }
  | .error (.error .outOfBounds) => fail (.bodyTruncated i.next)
  | .error s => .error s

/-- A listing with its operands looked up, up to the first one that is refused. -/
def listing (r : CheckedResolver) :
    List (Except Error RawInstruction) → Checked (List (Except Error (Instruction Operand)))
  | [] => .ok []
  | .error e :: _ => .ok [.error e]
  | .ok raw :: others => do
      match ← attempt (r.instruction raw) with
      | .ok resolved =>
          let later ← r.listing others
          return .ok resolved :: later
      | .error e => return [.error e]

/-- Comes to what a resolver comes to. -/
structure Agrees (c : CheckedResolver) (r : Resolver) : Prop where
  token : ∀ token, c.token token = lift (r.token token)
  literal : ∀ token, c.literal token = lift (r.literal token)
  argument : ∀ index, c.argument index = lift (r.argument index)

variable {c : CheckedResolver} {r : Resolver}

theorem Agrees.operand_eq (h : c.Agrees r) (raw : RawOperand) :
    c.operand raw = lift (r.operand raw) := by
  cases raw with
  | token token => exact map_agrees (h.token token) _
  | argument index => exact map_agrees (h.argument index) _
  | string token =>
      exact bind_agrees (h.literal token) fun found _ => by cases found <;> rfl
  | _ => rfl

theorem Agrees.instruction_eq (h : c.Agrees r) (raw : RawInstruction) :
    c.instruction raw = lift (r.instruction raw) := by
  rw [instruction, Resolver.instruction, h.operand_eq]
  cases r.operand raw.operand with
  | ok operand => rfl
  | error e => cases e <;> rfl

theorem Agrees.listing_eq (h : c.Agrees r) (raws : List (Except Error RawInstruction)) :
    c.listing raws = .ok (r.listing raws) := by
  induction raws with
  | nil => rfl
  | cons outcome others ih =>
      cases outcome with
      | error e => rfl
      | ok raw =>
          rw [listing, Resolver.listing, h.instruction_eq, attempt_lift, ok_bind]
          cases r.instruction raw with
          | error e => rfl
          | ok resolved =>
              simp only [ih, ok_bind]
              rfl

end CheckedResolver

/-! ### Places behind instructions -/

/-- The place of the instruction that follows. -/
def nextPlace {α : Type} (i : Instruction α) : Checked Nat :=
  add 32 i.offset i.size

/-- The instructions that are listed end in the code. -/
theorem next_le_of_listing {r : Resolver} {i : Instruction Operand}
    (h : .ok i ∈ r.listing (RawInstruction.listing code)) : i.next ≤ code.size := by
  obtain ⟨items, last, stop, hlisting, htiles, hstop, -⟩ :=
    r.listingFrom_tiles code (Nat.zero_le _) (Nat.sub_le code.size 0)
  rw [r.listing_eq code, hlisting] at h
  have hitem : i ∈ items := by simpa using h
  exact Nat.le_trans (htiles.next_le.2 i hitem) hstop

theorem nextPlace_eq (hsize : code.size < positions) {r : Resolver} {i : Instruction Operand}
    (h : .ok i ∈ r.listing (RawInstruction.listing code)) : nextPlace i = .ok i.next :=
  add_eq (Nat.lt_of_le_of_lt (next_le_of_listing h) hsize)

end CliMeta.Machine
