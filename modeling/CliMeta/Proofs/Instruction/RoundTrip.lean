import CliMeta.Proofs.Instruction.Jump
import CliMeta.Proofs.Instruction.Stream

/-!
Listings without lookups and assembled code determine each other. What has been assembled is listed
as it was put down, and whatever code is listed without an error assembles to the same bytes again.
-/

namespace CliMeta

open Reader

/-! ### Opcodes -/

namespace Opcode

theorem lookup?_eq_some {number : Nat} {opcode : Opcode} (h : lookup? number = some opcode) :
    number < escape ∨ number / 0x100 = escape := by
  unfold lookup? at h
  split at h
  · left
    obtain hlt | hge := Nat.lt_or_ge number oneByte.length
    · rw [oneByte_length] at hlt
      rw [escape]
      omega
    · simp [List.getElem?_eq_none hge] at h
  · split at h
    · exact .inr ‹_›
    · cases h

theorem numberReader_reads {number : Nat} {opcode : Opcode} (h : lookup? number = some opcode) :
    Reads numberReader (bytes number) number := by
  obtain hone | htwo := lookup?_eq_some h
  · rw [escape] at hone
    have hnot : number ≠ escape := by
      rw [escape]
      omega
    rw [bytes, if_pos (by omega)]
    refine (Reads.byteOfNat (by omega)).bind_pure ?_
    rw [if_neg hnot]
    exact .pure number
  · have hnumber : escape * 0x100 + number % 0x100 = number := by
      rw [← htwo]
      omega
    have hlarge : ¬number < 0x100 := by
      rw [escape] at htwo
      omega
    rw [bytes, if_neg hlarge, htwo, ← List.singleton_append]
    refine (Reads.byteOfNat (by decide)).bind ?_
    rw [if_pos rfl]
    refine (Reads.byteOfNat (Nat.mod_lt _ (by decide))).bind_pure ?_
    rw [hnumber]
    exact .pure number

theorem numberReader_spells (start : Nat) :
    Spells numberReader start fun number written => written = bytes number := by
  refine .bind .byte fun first written ⟨hfirst, hwritten⟩ => .ite (fun hescape => ?_) fun _ => ?_
  · refine .bind .byte fun second written' ⟨hsecond, hwritten'⟩ => .pure ?_
    have hlarge : ¬escape * 0x100 + second < 0x100 := by
      rw [escape]
      omega
    have hhigh : (escape * 0x100 + second) / 0x100 = escape := by
      rw [escape]
      omega
    have hlow : (escape * 0x100 + second) % 0x100 = second := by
      rw [escape]
      omega
    rw [hwritten, hwritten', hescape, bytes, if_neg hlarge, hhigh, hlow]
    rfl
  · refine .pure ?_
    rw [hwritten, bytes, if_pos hfirst]
    rfl

theorem exists_bytes (number : Nat) : ∃ lead tail, bytes number = lead :: tail := by
  unfold bytes
  split
  · exact ⟨_, _, rfl⟩
  · exact ⟨_, _, rfl⟩

end Opcode

/-! ### Operands -/

namespace Operand

variable {data : Bytes} {offset start : Nat} {written rest : List UInt8}

theorem reads_unsigned {width value : Nat} (make : Nat → RawOperand)
    (h : unsignedBytes? width value = some written) :
    Reads (do return make (← Reader.unsigned width)) written (make value) := by
  obtain ⟨hlt, rfl⟩ := unsignedBytes?_eq_some.1 h
  exact (Reads.unsigned hlt).bind_pure (.pure _)

theorem reads_signed {width : Nat} (hwidth : 0 < width) {value : Int} (make : Int → RawOperand)
    (h : signedBytes? width value = some written) :
    Reads (do return make (← Reader.signed width)) written (make value) := by
  obtain ⟨hfits, rfl⟩ := signedBytes?_eq_some.1 h
  exact (Reads.signed hwidth hfits).bind_pure (.pure _)

theorem immediate_reads {kind : OperandKind} {value : Immediate}
    (h : value.encode? kind = some written) :
    Reads (RawOperand.reader offset kind) written (.immediate value) := by
  unfold Immediate.encode? at h
  split at h
  · exact reads_signed (by decide) (fun n => .immediate (.int8 n)) h
  · exact reads_unsigned (fun n => .immediate (.uint8 n)) h
  · exact reads_signed (by decide) (fun n => .immediate (.int32 n)) h
  · exact reads_signed (by decide) (fun n => .immediate (.int64 n)) h
  · exact reads_unsigned (fun n => .immediate (.float32 n)) h
  · exact reads_unsigned (fun n => .immediate (.float64 n)) h
  · cases h

theorem targets_read {kind : OperandKind} {places : List Nat}
    (hplaces : ∀ place ∈ places, IsPlace (place : Nat))
    (h : kind.jumpBytes? (displacementsTo (start + kind.jumpLength places.length) places) =
      some written) (hstands : StandsAt data start written rest) :
    RawOperand.reader offset kind data start = .ok (.targets places) (start + written.length) := by
  obtain ⟨hlength, hread⟩ := RawOperand.reader_yields offset h hstands
  rw [displacementsTo_length] at hlength
  have hall : RawOperand.placesFrom offset (start + written.length)
      (displacementsTo (start + kind.jumpLength places.length) places) = .ok places :=
    RawOperand.placesFrom_eq_ok.2 ⟨hplaces, by rw [hlength]⟩
  rw [hall] at hread
  exact hread

theorem reader_encode? (offset : Nat) {kind : OperandKind} {operand : Operand}
    (h : operand.encode? kind start = some written) (hstands : StandsAt data start written rest) :
    ∃ raw, RawOperand.reader offset kind data start = .ok raw (start + written.length) ∧
      Resolver.raw.operand raw = .ok operand := by
  have hnothing (raw : RawOperand) {p : Prop} [Decidable p]
      (h : (if p then some [] else .none) = some written) : p ∧ Reads (pure raw) written raw := by
    split at h
    · rename_i hp
      cases h
      exact ⟨hp, .pure raw⟩
    · cases h
  unfold encode? at h
  split at h
  · obtain ⟨rfl, hread⟩ := hnothing .none h
    exact ⟨_, hread data start rest hstands, rfl⟩
  · rename_i places
    split at h
    · exact ⟨_, targets_read ‹_› h hstands, rfl⟩
    · cases h
  · split at h
    · exact ⟨_, reads_unsigned (fun n => .token ⟨n⟩) h data start rest hstands, rfl⟩
    · exact ⟨_, reads_unsigned (fun n => .string ⟨n⟩) h data start rest hstands, rfl⟩
    · cases h
  · exact ⟨_, immediate_reads h data start rest hstands, rfl⟩
  · split at h
    · exact ⟨_, reads_unsigned .local h data start rest hstands, rfl⟩
    · exact ⟨_, reads_unsigned .local h data start rest hstands, rfl⟩
    · rename_i index number
      obtain ⟨rfl, hread⟩ := hnothing (.local number) h
      exact ⟨_, hread data start rest hstands, rfl⟩
    · cases h
  · split at h
    · exact ⟨_, reads_unsigned .argument h data start rest hstands, rfl⟩
    · exact ⟨_, reads_unsigned .argument h data start rest hstands, rfl⟩
    · rename_i index number
      obtain ⟨rfl, hread⟩ := hnothing (.argument number) h
      exact ⟨_, hread data start rest hstands, rfl⟩
    · cases h
  · cases h

/-- What is read as an operand stands in the code as its bytes. -/
def IsSpelled (kind : OperandKind) (start : Nat) (raw : RawOperand) (written : List UInt8) : Prop :=
  ∃ operand, Resolver.raw.operand raw = .ok operand ∧ operand.encode? kind start = some written

theorem spells_unsigned {kind : OperandKind} {width : Nat} (make : Nat → RawOperand)
    (operand : Nat → Operand) (hmake : ∀ n, Resolver.raw.operand (make n) = .ok (operand n))
    (hbytes : ∀ n, (operand n).encode? kind start = unsignedBytes? width n) :
    Spells (do return make (← Reader.unsigned width)) start (IsSpelled kind start) := by
  refine .bind (.unsigned width) fun value written hvalue => .pure ⟨operand value, hmake value, ?_⟩
  rw [List.append_nil, hbytes]
  exact unsignedBytes?_eq_some.2 hvalue

theorem spells_signed {kind : OperandKind} {width : Nat} (hwidth : 0 < width)
    (make : Int → RawOperand) (operand : Int → Operand)
    (hmake : ∀ n, Resolver.raw.operand (make n) = .ok (operand n))
    (hbytes : ∀ n, (operand n).encode? kind start = signedBytes? width n) :
    Spells (do return make (← Reader.signed width)) start (IsSpelled kind start) := by
  refine .bind (.signed hwidth) fun value written hvalue => .pure ⟨operand value, hmake value, ?_⟩
  rw [List.append_nil, hbytes]
  exact signedBytes?_eq_some.2 hvalue

theorem spells_jump (offset : Nat) {kind : OperandKind}
    (h : kind = .shortBranch ∨ kind = .branch ∨ kind = .switch) :
    Spells (RawOperand.reader offset kind) start (IsSpelled kind start) := by
  refine (RawOperand.reader_spells_jump h start).mono fun raw written hraw => ?_
  obtain ⟨displacements, places, hbytes, hplaces, rfl⟩ := hraw
  obtain ⟨hall, hdisplacements⟩ := RawOperand.placesFrom_eq_ok.1 hplaces
  have hlength := congrArg List.length hdisplacements
  rw [displacementsTo_length] at hlength
  refine ⟨.targets places, rfl, ?_⟩
  rw [encode?, if_pos hall, hlength, hdisplacements]
  exact hbytes

theorem reader_spells (offset : Nat) (kind : OperandKind) (start : Nat) :
    Spells (RawOperand.reader offset kind) start (IsSpelled kind start) := by
  cases kind with
  | none => exact .pure ⟨.none, rfl, rfl⟩
  | shortBranch => exact spells_jump offset (.inl rfl)
  | branch => exact spells_jump offset (.inr (.inl rfl))
  | switch => exact spells_jump offset (.inr (.inr rfl))
  | token | string => exact spells_unsigned _ (fun n => .token ⟨n⟩) (fun _ => rfl) fun _ => rfl
  | int8 =>
      exact spells_signed (by decide) _ (fun n => .immediate (.int8 n)) (fun _ => rfl) fun _ => rfl
  | uint8 => exact spells_unsigned _ (fun n => .immediate (.uint8 n)) (fun _ => rfl) fun _ => rfl
  | int32 =>
      exact spells_signed (by decide) _ (fun n => .immediate (.int32 n)) (fun _ => rfl) fun _ => rfl
  | int64 =>
      exact spells_signed (by decide) _ (fun n => .immediate (.int64 n)) (fun _ => rfl) fun _ => rfl
  | float32 =>
      exact spells_unsigned _ (fun n => .immediate (.float32 n)) (fun _ => rfl) fun _ => rfl
  | float64 =>
      exact spells_unsigned _ (fun n => .immediate (.float64 n)) (fun _ => rfl) fun _ => rfl
  | shortLocal | «local» => exact spells_unsigned _ .local (fun _ => rfl) fun _ => rfl
  | shortArgument | argument =>
      exact spells_unsigned _ (fun n => .argument ⟨n, .undeclared⟩) (fun _ => rfl) fun _ => rfl
  | implicitLocal index => exact .pure ⟨.local index, rfl, if_pos rfl⟩
  | implicitArgument index => exact .pure ⟨.argument ⟨index, .undeclared⟩, rfl, if_pos rfl⟩

end Operand

/-! ### Instructions -/

namespace Assembler

variable {data : Bytes} {place : Nat} {written rest : List UInt8}

theorem readerAt_opcode {number : Nat} {opcode : Opcode}
    (hlookup : Opcode.lookup? number = some opcode)
    (hstands : StandsAt data place (Opcode.bytes number) rest) :
    RawInstruction.readerAt place data place =
      (do
        let raw ← RawOperand.reader place opcode.operand
        let stop ← Reader.position
        return ⟨place, number, opcode, stop - place, raw⟩ : Reader RawInstruction) data
          (place + (Opcode.bytes number).length) := by
  rw [RawInstruction.readerAt, bind_of_ok (Opcode.numberReader_reads hlookup data place _ hstands)]
  simp only [hlookup]

theorem decodeAt_instruction? {line : Line} {i : Instruction Operand}
    (h : instruction? place line = some (i, written)) (hstands : StandsAt data place written rest) :
    Resolver.raw.decodeAt data place = (.ok i, place + written.length) := by
  obtain ⟨opcode, back, hlookup, hback, rfl, rfl⟩ := instruction?_eq_some.1 h
  obtain ⟨raw, hread, hoperand⟩ := Operand.reader_encode? place hback hstands.behind
  have hopen : RawInstruction.openReader data place =
      .ok ⟨place, line.1, opcode, (Opcode.bytes line.1 ++ back).length, raw⟩
        (place + (Opcode.bytes line.1 ++ back).length) := by
    rw [RawInstruction.openReader_eq, readerAt_opcode hlookup hstands.front, bind_of_ok hread,
      Nat.add_assoc, ← List.length_append]
    show EStateM.Result.ok (⟨place, line.1, opcode, _ - place, raw⟩ : RawInstruction) _ = _
    rw [Nat.add_sub_cancel_left]
  rw [Resolver.decodeAt, RawInstruction.reader, orTruncated, hopen]
  simp only [Resolver.instruction, hoperand]

/-- A jump out of the range of places is refused where it stands. -/
theorem decodeAt_jump_outside {number : Nat} {opcode : Opcode} {displacements : List Int}
    (hlookup : Opcode.lookup? number = some opcode)
    (hjump : opcode.operand.jumpBytes? displacements = some written)
    (hstands : StandsAt data place (Opcode.bytes number ++ written) rest)
    (hout : ∃ d ∈ displacements,
      ¬IsPlace ((place + (Opcode.bytes number ++ written).length : Nat) + d)) :
    ∃ d ∈ displacements, ¬IsPlace ((place + (Opcode.bytes number ++ written).length : Nat) + d) ∧
      (Resolver.raw.decodeAt data place).1 = .error (.malformed (.branchOutside place
        ((place + (Opcode.bytes number ++ written).length : Nat) + d))) := by
  obtain ⟨-, hyields⟩ := RawOperand.reader_yields place hjump hstands.behind
  obtain ⟨d, hmem, hexact, herror⟩ := RawOperand.placesFrom_eq_error place hout
  rw [Nat.add_assoc, ← List.length_append, herror] at hyields
  obtain ⟨stop, hread⟩ := hyields
  refine ⟨d, hmem, hexact, ?_⟩
  rw [Resolver.decodeAt, RawInstruction.reader, orTruncated, RawInstruction.openReader_eq,
    readerAt_opcode hlookup hstands.front, bind_of_error hread]

theorem readerAt_spells (place : Nat) :
    Spells (RawInstruction.readerAt place) place fun raw written =>
      ∃ i, Resolver.raw.instruction raw = .ok i ∧
        instruction? place i.line = some (i, written) := by
  refine .bind (Opcode.numberReader_spells place) fun number first hfirst => ?_
  subst hfirst
  split
  · exact .throw _
  · rename_i opcode hlookup
    refine .bind (Operand.reader_spells place opcode.operand _) fun raw back hraw => ?_
    obtain ⟨operand, hresolve, hback⟩ := hraw
    refine .bind .position fun stop nothing ⟨hstop, hnothing⟩ => .pure ?_
    subst hstop hnothing
    refine ⟨⟨place, number, opcode, (Opcode.bytes number ++ back).length, operand⟩, ?_, ?_⟩
    · have hsize : place + (Opcode.bytes number).length + back.length - place =
          (Opcode.bytes number ++ back).length := by
        rw [List.length_append]
        omega
      simp only [Resolver.instruction, hresolve, hsize]
    · rw [List.append_nil, List.append_nil]
      exact instruction?_eq_some.2 ⟨opcode, back, hlookup, hback, rfl, rfl⟩

/-- An instruction that is decoded is the one that the assembler puts there. -/
theorem instruction?_of_decodeAt {i : Instruction Operand} {stop : Nat} (h : place ≤ data.size)
    (hdecode : Resolver.raw.decodeAt data place = (.ok i, stop)) :
    ∃ written, instruction? place i.line = some (i, written) ∧ stop = place + written.length ∧
      StandsAt data place written (data.toList.drop stop) := by
  rw [Resolver.decodeAt, RawInstruction.reader, orTruncated,
    RawInstruction.openReader_eq] at hdecode
  cases hread : RawInstruction.readerAt place data place with
  | error e stop' =>
      rw [hread] at hdecode
      cases e <;> cases hdecode
  | ok raw stop' =>
      rw [hread] at hdecode
      obtain ⟨hresolve, rfl⟩ := Prod.mk.inj hdecode
      obtain ⟨written, ⟨i', hresolve', hput⟩, hstop, hstands⟩ :=
        readerAt_spells place data raw stop' h hread
      rw [hresolve'] at hresolve
      cases hresolve
      exact ⟨written, hput, hstop, hstands⟩

/-! ### Code -/

theorem exists_lead {line : Line} {i : Instruction Operand}
    (h : instruction? place line = some (i, written)) : ∃ lead tail, written = lead :: tail := by
  obtain ⟨opcode, back, -, -, rfl, -⟩ := instruction?_eq_some.1 h
  obtain ⟨lead, tail, hbytes⟩ := Opcode.exists_bytes line.1
  exact ⟨lead, tail ++ back, by rw [hbytes, List.cons_append]⟩

theorem next_of_instruction? {line : Line} {i : Instruction Operand}
    (h : instruction? place line = some (i, written)) :
    i.next = place + written.length ∧ i.line = line := by
  obtain ⟨opcode, back, -, -, rfl, rfl⟩ := instruction?_eq_some.1 h
  exact ⟨rfl, rfl⟩

/-- The listing of assembled code gives the lines back, and there are no more of them than bytes. -/
theorem lines_of_assemble? {lines : List Line} {listing : List (Instruction Operand)}
    (h : assemble? place lines = some (listing, written)) :
    listing.map Instruction.line = lines ∧ listing.length ≤ written.length := by
  induction lines generalizing place listing written with
  | nil =>
      cases h
      exact ⟨rfl, Nat.le_refl _⟩
  | cons line others ih =>
      obtain ⟨i, first, rest, behind, hfirst, hothers, rfl, rfl⟩ := assemble?_cons.1 h
      obtain ⟨hlines, hlength⟩ := ih hothers
      obtain ⟨lead, tail, rfl⟩ := exists_lead hfirst
      refine ⟨by rw [List.map_cons, hlines, (next_of_instruction? hfirst).2], ?_⟩
      simp only [List.length_cons, List.length_append]
      omega

/-- Assembled code is listed as it was put down, whatever is behind it. -/
theorem listingFrom_assembled {lines : List Line} {listing : List (Instruction Operand)}
    (h : assemble? place lines = some (listing, written))
    (hstands : StandsAt data place written rest) (fuel : Nat) :
    Resolver.raw.listingFrom data (listing.length + fuel) place =
      listing.map .ok ++ Resolver.raw.listingFrom data fuel (place + written.length) := by
  induction lines generalizing place listing written with
  | nil =>
      cases h
      rw [List.length_nil, Nat.zero_add]
      rfl
  | cons line others ih =>
      obtain ⟨i, first, listing, behind, hfirst, hothers, rfl, rfl⟩ := assemble?_cons.1 h
      obtain ⟨hnext, -⟩ := next_of_instruction? hfirst
      have hinside : place < data.size := by
        obtain ⟨lead, tail, rfl⟩ := exists_lead hfirst
        exact StandsAt.inside hstands.front
      have hbehind := hstands.behind
      rw [← hnext] at hbehind
      rw [List.length_cons, Nat.add_right_comm, Resolver.listingFrom_inside hinside,
        decodeAt_instruction? hfirst hstands.front]
      simp only
      rw [← hnext, ih hothers hbehind, hnext, List.length_append, Nat.add_assoc]
      rfl

theorem assemble?_at_end (hend : data.size ≤ place) {fuel : Nat}
    {listing : List (Instruction Operand)}
    (h : Resolver.raw.listingFrom data fuel place = listing.map .ok) :
    assemble? place (listing.map Instruction.line) = some (listing, data.toList.drop place) := by
  rw [Resolver.listingFrom_at_end hend] at h
  obtain rfl := List.map_eq_nil_iff.1 h.symm
  rw [List.drop_eq_nil_of_le hend]
  rfl

/-- What is listed without an error is what the assembler makes of the lines of the listing, and
the bytes are those that are left of the code. -/
theorem assemble?_of_listingFrom {fuel : Nat} {listing : List (Instruction Operand)}
    (hfuel : data.size - place ≤ fuel)
    (h : Resolver.raw.listingFrom data fuel place = listing.map .ok) :
    assemble? place (listing.map Instruction.line) = some (listing, data.toList.drop place) := by
  induction fuel generalizing place listing with
  | zero => exact assemble?_at_end (by omega) h
  | succ fuel ih =>
      obtain hend | hinside : data.size ≤ place ∨ place < data.size := by omega
      · exact assemble?_at_end hend h
      rw [Resolver.listingFrom_inside hinside] at h
      rcases hdecode : Resolver.raw.decodeAt data place with ⟨result, stop⟩
      rw [hdecode] at h
      cases listing with
      | nil => cases result <;> cases h
      | cons i others =>
          cases result with
          | error e => cases h
          | ok i' =>
              obtain ⟨hsame, hothers⟩ := List.cons.inj h
              cases hsame
              obtain ⟨written, hfirst, rfl, hstands⟩ :=
                instruction?_of_decodeAt (Nat.le_of_lt hinside) hdecode
              obtain ⟨hnext, -⟩ := next_of_instruction? hfirst
              -- the instruction takes up a byte, so less fuel covers what is left
              obtain ⟨lead, tail, hwritten⟩ := exists_lead hfirst
              have hlength : 0 < written.length := by
                rw [hwritten]
                exact Nat.zero_lt_succ _
              have hrest := ih (by omega) hothers
              rw [← hnext] at hrest
              rw [List.map_cons]
              refine assemble?_cons.2 ⟨i, written, others, _, hfirst, hrest, rfl, ?_⟩
              rw [hstands.2, hnext]

/-! ### The round trip -/

theorem decodeStream_assembled {lines : List Line} {listing : List (Instruction Operand)}
    (h : assemble? 0 lines = some (listing, written)) :
    Resolver.raw.decodeStream written.toArray = .ok listing := by
  have hstands : StandsAt written.toArray 0 written [] := ⟨Nat.zero_le _, by simp⟩
  obtain ⟨-, hlength⟩ := lines_of_assemble? h
  obtain ⟨fuel, hfuel⟩ : ∃ fuel, written.toArray.size = listing.length + fuel :=
    ⟨written.length - listing.length, by rw [List.size_toArray]; omega⟩
  have hend : written.toArray.size ≤ 0 + written.length := by simp
  rw [Resolver.decodeStream_eq_ok, hfuel, listingFrom_assembled h hstands,
    Resolver.listingFrom_at_end hend, List.append_nil]

/-- Behind assembled code a jump out of the range of places is the first error. -/
theorem decodeStream_jump_outside {lines : List Line} {listing : List (Instruction Operand)}
    {front : List UInt8} {number : Nat} {opcode : Opcode} {displacements : List Int}
    {jump : List UInt8} (h : assemble? 0 lines = some (listing, front))
    (hlookup : Opcode.lookup? number = some opcode)
    (hjump : opcode.operand.jumpBytes? displacements = some jump) (rest : List UInt8)
    (hout : ∃ d ∈ displacements,
      ¬IsPlace ((front.length + (Opcode.bytes number ++ jump).length : Nat) + d)) :
    ∃ d ∈ displacements,
      ¬IsPlace ((front.length + (Opcode.bytes number ++ jump).length : Nat) + d) ∧
        Resolver.raw.decodeStream (front ++ (Opcode.bytes number ++ jump) ++ rest).toArray =
          .error (.malformed (.branchOutside front.length
            ((front.length + (Opcode.bytes number ++ jump).length : Nat) + d))) := by
  generalize hcode : (front ++ (Opcode.bytes number ++ jump) ++ rest).toArray = code
  have hstands : StandsAt code 0 (front ++ (Opcode.bytes number ++ jump)) rest :=
    ⟨Nat.zero_le _, by simp [← hcode]⟩
  have hbehind := hstands.behind
  rw [Nat.zero_add] at hbehind
  have hinside : front.length < code.size := by
    obtain ⟨lead, tail, hbytes⟩ := Opcode.exists_bytes number
    rw [hbytes] at hbehind
    exact StandsAt.inside hbehind
  -- the lines in front leave fuel for the jump
  obtain ⟨-, hlength⟩ := lines_of_assemble? h
  obtain ⟨fuel, hfuel⟩ : ∃ fuel, code.size = listing.length + (fuel + 1) :=
    ⟨code.size - listing.length - 1, by omega⟩
  obtain ⟨d, hmem, hexact, herror⟩ := decodeAt_jump_outside hlookup hjump hbehind hout
  refine ⟨d, hmem, hexact, Resolver.decodeStream_eq_error listing ?_⟩
  rw [hfuel, listingFrom_assembled h hstands.front, Nat.zero_add,
    Resolver.listingFrom_inside hinside]
  rcases hdecode : Resolver.raw.decodeAt code front.length with ⟨result, stop⟩
  rw [hdecode] at herror
  cases herror
  rfl

end Assembler

open Assembler

/-- Assembler and raw listing are inverse to each other, and a jump in front of which the code is
assembled and that leads out of the range of places fails with the exact target. -/
theorem decodeStream_exact :
    (∀ lines listing written, assemble? 0 lines = some (listing, written) →
      listing.map Instruction.line = lines ∧
        Resolver.raw.decodeStream written.toArray = .ok listing) ∧
    (∀ code listing, Resolver.raw.decodeStream code = .ok listing →
      assemble? 0 (listing.map Instruction.line) = some (listing, code.toList)) ∧
    ∀ lines listing front number opcode displacements jump rest,
      assemble? 0 lines = some (listing, front) → Opcode.lookup? number = some opcode →
      opcode.operand.jumpBytes? displacements = some jump →
      let place := front.length
      let next := place + (Opcode.bytes number ++ jump).length
      (∃ d ∈ displacements, ¬IsPlace (next + d)) →
        ∃ d ∈ displacements, ¬IsPlace (next + d) ∧
          Resolver.raw.decodeStream (front ++ (Opcode.bytes number ++ jump) ++ rest).toArray =
            .error (.malformed (.branchOutside place (next + d))) := by
  refine ⟨fun lines listing written h => ⟨(lines_of_assemble? h).1, decodeStream_assembled h⟩,
    fun code listing h => ?_, ?_⟩
  · exact assemble?_of_listingFrom (Nat.le_refl _) (Resolver.decodeStream_eq_ok.1 h)
  · intro lines listing front number opcode displacements jump rest h hlookup hjump
    exact decodeStream_jump_outside h hlookup hjump rest

/-- A switch whose displacements count from the end of its table, an opcode of two bytes and a
branch back to it; and behind an instruction a branch to the place in front of the code. -/
theorem decodeStream_exact_switch :
    Resolver.raw.decodeStream #[0x45, 0x02, 0x00, 0x00, 0x00, 0xF3, 0xFF, 0xFF, 0xFF, 0x00, 0x00,
        0x00, 0x00, 0xFE, 0x09, 0x03, 0x00, 0x2B, 0xFA] =
      .ok [⟨0, 0x45, ⟨"switch", .switch, .switch⟩, 13, .targets [0, 13]⟩,
        ⟨13, 0xFE09, .taking "ldarg" .argument, 4, .argument ⟨3, .undeclared⟩⟩,
        ⟨17, 0x2B, ⟨"br.s", .shortBranch, .unconditional⟩, 2, .targets [13]⟩] ∧
    Resolver.raw.decodeStream #[0x00, 0x2B, 0xFC, 0x2A] =
      .error (.malformed (.branchOutside 1 (-1))) := by
  obtain ⟨hassembled, -, houtside⟩ := decodeStream_exact
  constructor
  · exact (hassembled [(0x45, .targets [0, 13]), (0xFE09, .argument ⟨3, .undeclared⟩),
      (0x2B, .targets [13])] _ _ rfl).2
  · obtain ⟨d, hmem, -, herror⟩ := houtside [(0x00, .none)] _ _ 0x2B _ [-4] _ [0x2A] rfl rfl rfl
      ⟨-4, by decide, by decide⟩
    obtain rfl := List.mem_singleton.1 hmem
    exact herror

end CliMeta
