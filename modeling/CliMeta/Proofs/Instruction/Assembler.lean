import CliMeta.Instruction.Operand
import CliMeta.Proofs.Reader.Written

/-!
An assembler. Lines of an opcode and an operand, as a listing without lookups has them, are laid out
one behind the other; what the assembler accepts it gives back as a listing, with places and sizes,
and as bytes. It refuses opcodes that are not assigned, operands that are not of the form of their
opcode and numbers that do not fit.
-/

namespace CliMeta

open Reader

def unsignedBytes? (width value : Nat) : Option (List UInt8) :=
  if value < 1 <<< (8 * width) then some (littleEndianBytes value width) else none

def signedBytes? (width : Nat) (value : Int) : Option (List UInt8) :=
  if FitsSigned (8 * width) value then some (signedBytes width value) else none

theorem unsignedBytes?_eq_some {width value : Nat} {written : List UInt8} :
    unsignedBytes? width value = some written ↔
      value < 1 <<< (8 * width) ∧ written = littleEndianBytes value width := by
  unfold unsignedBytes?
  by_cases h : value < 1 <<< (8 * width)
  · simp only [h, if_true, true_and, Option.some.injEq, eq_comm]
  · simp only [h, if_false, false_and, reduceCtorEq]

theorem signedBytes?_eq_some {width : Nat} {value : Int} {written : List UInt8} :
    signedBytes? width value = some written ↔
      FitsSigned (8 * width) value ∧ written = signedBytes width value := by
  unfold signedBytes?
  by_cases h : FitsSigned (8 * width) value
  · simp only [h, if_true, true_and, Option.some.injEq, eq_comm]
  · simp only [h, if_false, false_and, reduceCtorEq]

/-! ### Jumps -/

/-- Whether a 32-bit word can name a place. -/
def IsPlace (place : Int) : Prop :=
  0 ≤ place ∧ place < 0x100000000

instance (place : Int) : Decidable (IsPlace place) :=
  inferInstanceAs (Decidable (_ ∧ _))

/-- The number of bytes that displacements take up, with what stands in front of them. -/
def OperandKind.jumpLength (kind : OperandKind) (count : Nat) : Nat :=
  match kind with
  | .shortBranch => 1
  | .switch => 4 + 4 * count
  | _ => 4

/-- The bytes of displacements: one for a branch, as many as are counted for a switch. -/
def OperandKind.jumpBytes? : OperandKind → (displacements : List Int) → Option (List UInt8)
  | .shortBranch, [displacement] => signedBytes? 1 displacement
  | .branch, [displacement] => signedBytes? 4 displacement
  | .switch, displacements =>
      if displacements.length < 0x100000000 ∧ ∀ d ∈ displacements, FitsSigned 32 d then
        some (littleEndianBytes displacements.length 4 ++ displacements.flatMap (signedBytes 4))
      else .none
  | _, _ => .none

/-- The displacements from a place to others. -/
def displacementsTo (next : Nat) (places : List Nat) : List Int :=
  places.map fun (place : Nat) => (place : Int) - next

theorem displacementsTo_length (next : Nat) (places : List Nat) :
    (displacementsTo next places).length = places.length :=
  List.length_map ..

/-! ### Operands -/

def Immediate.encode? : OperandKind → Immediate → Option (List UInt8)
  | .int8, .int8 value => signedBytes? 1 value
  | .uint8, .uint8 value => unsignedBytes? 1 value
  | .int32, .int32 value => signedBytes? 4 value
  | .int64, .int64 value => signedBytes? 8 value
  | .float32, .float32 bits => unsignedBytes? 4 bits
  | .float64, .float64 bits => unsignedBytes? 8 bits
  | _, _ => none

/-- The bytes of an operand that begins at a place. The displacements of a jump count from the end
of the instruction. -/
def Operand.encode? (kind : OperandKind) (start : Nat) : Operand → Option (List UInt8)
  | .none => if kind = .none then some [] else .none
  | .targets places =>
      if ∀ place ∈ places, IsPlace (place : Nat) then
        kind.jumpBytes? (displacementsTo (start + kind.jumpLength places.length) places)
      else .none
  | .token t =>
      match kind with
      | .token | .string => unsignedBytes? 4 t.value
      | _ => .none
  | .immediate value => value.encode? kind
  | .local index =>
      match kind with
      | .shortLocal => unsignedBytes? 1 index
      | .local => unsignedBytes? 2 index
      | .implicitLocal number => if index = number then some [] else .none
      | _ => .none
  | .argument ⟨index, .undeclared⟩ =>
      match kind with
      | .shortArgument => unsignedBytes? 1 index
      | .argument => unsignedBytes? 2 index
      | .implicitArgument number => if index = number then some [] else .none
      | _ => .none
  | _ => .none

/-! ### Instructions -/

/-- The bytes of the number of an opcode, highest byte first. -/
def Opcode.bytes (number : Nat) : List UInt8 :=
  if number < 0x100 then [UInt8.ofNat number]
  else [UInt8.ofNat (number / 0x100), UInt8.ofNat (number % 0x100)]

/-- An instruction without its place: the number of the opcode and the operand. -/
abbrev Line := Nat × Operand

def Instruction.line (i : Instruction Operand) : Line :=
  (i.code, i.operand)

namespace Assembler

/-- Puts a line at a place. -/
def instruction? (place : Nat) (line : Line) : Option (Instruction Operand × List UInt8) := do
  let (number, operand) := line
  let opcode ← Opcode.lookup? number
  let front := Opcode.bytes number
  let back ← operand.encode? opcode.operand (place + front.length)
  return (⟨place, number, opcode, (front ++ back).length, operand⟩, front ++ back)

/-- Puts lines one behind the other from a place on. -/
def assemble? (place : Nat) : List Line → Option (List (Instruction Operand) × List UInt8)
  | [] => some ([], [])
  | line :: others => do
      let (i, written) ← instruction? place line
      let (listing, behind) ← assemble? i.next others
      return (i :: listing, written ++ behind)

theorem instruction?_eq_some {place number : Nat} {operand : Operand} {i : Instruction Operand}
    {written : List UInt8} :
    instruction? place (number, operand) = some (i, written) ↔
      ∃ opcode back, Opcode.lookup? number = some opcode ∧
        operand.encode? opcode.operand (place + (Opcode.bytes number).length) = some back ∧
        written = Opcode.bytes number ++ back ∧
        i = ⟨place, number, opcode, written.length, operand⟩ := by
  constructor
  · intro h
    cases hlookup : Opcode.lookup? number with
    | none => simp [instruction?, hlookup] at h
    | some opcode =>
        cases hback : operand.encode? opcode.operand (place + (Opcode.bytes number).length) with
        | none => simp [instruction?, hlookup, hback] at h
        | some back =>
            simp only [instruction?, hlookup, hback, Option.bind_eq_bind, Option.bind_some,
              Option.pure_def, Option.some.injEq, Prod.mk.injEq] at h
            obtain ⟨rfl, rfl⟩ := h
            exact ⟨opcode, back, rfl, hback, rfl, rfl⟩
  · rintro ⟨opcode, back, hlookup, hback, rfl, rfl⟩
    simp [instruction?, hlookup, hback]

theorem assemble?_cons {place : Nat} {line : Line} {others : List Line}
    {listing : List (Instruction Operand)} {written : List UInt8} :
    assemble? place (line :: others) = some (listing, written) ↔
      ∃ i first rest behind, instruction? place line = some (i, first) ∧
        assemble? i.next others = some (rest, behind) ∧ listing = i :: rest ∧
        written = first ++ behind := by
  constructor
  · intro h
    cases hfirst : instruction? place line with
    | none => simp [assemble?, hfirst] at h
    | some first =>
        obtain ⟨i, first⟩ := first
        cases hothers : assemble? i.next others with
        | none => simp [assemble?, hfirst, hothers] at h
        | some rest =>
            obtain ⟨rest, behind⟩ := rest
            simp only [assemble?, hfirst, hothers, Option.bind_eq_bind, Option.bind_some,
              Option.pure_def, Option.some.injEq, Prod.mk.injEq] at h
            exact ⟨i, first, rest, behind, rfl, hothers, h.1.symm, h.2.symm⟩
  · rintro ⟨i, first, rest, behind, hfirst, hothers, rfl, rfl⟩
    simp [assemble?, hfirst, hothers]

end Assembler

end CliMeta
