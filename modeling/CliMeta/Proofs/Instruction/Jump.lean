import CliMeta.Proofs.Instruction.Assembler
import CliMeta.Proofs.Instruction.Outcome

/-!
Jumps. The displacements of a branch or a switch are bytes by themselves, and the places they lead
to, counted from the end of the instruction, are exact integers of which 32-bit words can name some.
Reading a jump and writing it are compared in these two steps.
-/

namespace CliMeta

open Reader

namespace RawOperand

variable {offset next : Nat}

/-! ### Places -/

theorem branchTarget_eq_ok {place : Nat} {displacement : Int} :
    branchTarget offset next displacement = .ok place ↔
      IsPlace place ∧ (place : Int) - next = displacement := by
  simp only [branchTarget, IsPlace]
  split
  · simp only [Except.ok.injEq]
    omega
  · simp only [reduceCtorEq, false_iff]
    omega

theorem branchTarget_outside {displacement : Int} (h : ¬IsPlace (next + displacement)) :
    branchTarget offset next displacement =
      .error (.malformed (.branchOutside offset (next + displacement))) :=
  if_neg h

/-- The places that displacements lead to, or the first one that no word can name. -/
def placesFrom (offset next : Nat) (displacements : List Int) : Except Error (List Nat) :=
  displacements.mapM (branchTarget offset next)

theorem placesFrom_cons (displacement : Int) (others : List Int) :
    placesFrom offset next (displacement :: others) = (do
      let place ← branchTarget offset next displacement
      let places ← placesFrom offset next others
      return place :: places) :=
  List.mapM_cons

theorem placesFrom_cons_eq_ok {displacement : Int} {others : List Int} {places : List Nat} :
    placesFrom offset next (displacement :: others) = .ok places ↔
      ∃ place rest, branchTarget offset next displacement = .ok place ∧
        placesFrom offset next others = .ok rest ∧ places = place :: rest := by
  rw [placesFrom_cons]
  cases branchTarget offset next displacement with
  | error e => simp [bind, Except.bind]
  | ok place =>
      cases placesFrom offset next others with
      | error e => simp [bind, Except.bind]
      | ok rest => simp [bind, Except.bind, pure, Except.pure, eq_comm]

theorem placesFrom_eq_ok {displacements : List Int} {places : List Nat} :
    placesFrom offset next displacements = .ok places ↔
      (∀ place ∈ places, IsPlace (place : Nat)) ∧ displacementsTo next places = displacements := by
  induction displacements generalizing places with
  | nil =>
      rw [displacementsTo, List.map_eq_nil_iff]
      constructor
      · intro h
        cases h
        exact ⟨List.forall_mem_nil _, rfl⟩
      · rintro ⟨-, rfl⟩
        rfl
  | cons displacement others ih =>
      rw [placesFrom_cons_eq_ok]
      constructor
      · rintro ⟨place, rest, hplace, hrest, rfl⟩
        obtain ⟨hexact, hdisplacement⟩ := branchTarget_eq_ok.1 hplace
        obtain ⟨hall, hothers⟩ := ih.1 hrest
        refine ⟨List.forall_mem_cons.2 ⟨hexact, hall⟩, ?_⟩
        rw [displacementsTo, List.map_cons, hdisplacement, ← hothers, displacementsTo]
      · rintro ⟨hall, hplaces⟩
        cases places with
        | nil => cases hplaces
        | cons place rest =>
            rw [displacementsTo, List.map_cons, List.cons.injEq] at hplaces
            obtain ⟨hexact, hrest⟩ := List.forall_mem_cons.1 hall
            exact ⟨place, rest, branchTarget_eq_ok.2 ⟨hexact, hplaces.1⟩, ih.2 ⟨hrest, hplaces.2⟩,
              rfl⟩

/-- The first displacement out of range is the one that is complained of. -/
theorem placesFrom_eq_error (offset : Nat) {displacements : List Int}
    (h : ∃ d ∈ displacements, ¬IsPlace (next + d)) :
    ∃ d ∈ displacements, ¬IsPlace (next + d) ∧
      placesFrom offset next displacements =
        .error (.malformed (.branchOutside offset (next + d))) := by
  induction displacements with
  | nil =>
      obtain ⟨d, hmem, -⟩ := h
      cases hmem
  | cons displacement others ih =>
      rw [placesFrom_cons]
      by_cases hfirst : IsPlace (next + displacement)
      -- the first leads to a place, so another one does not
      · obtain ⟨bad, hmem, hbad⟩ := h
        obtain rfl | hmem := List.mem_cons.1 hmem
        · exact absurd hfirst hbad
        obtain ⟨d, hd, hout, herror⟩ := ih ⟨bad, hmem, hbad⟩
        have hplace : branchTarget offset next displacement = .ok (next + displacement).toNat :=
          if_pos hfirst
        refine ⟨d, List.mem_cons_of_mem _ hd, hout, ?_⟩
        rw [hplace, herror]
        rfl
      · refine ⟨displacement, List.mem_cons_self .., hfirst, ?_⟩
        rw [branchTarget_outside hfirst]
        rfl

/-! ### Displacements -/

theorem displacement_yields {width : Nat} (hwidth : 0 < width) {displacement : Int}
    (hfits : FitsSigned (8 * width) displacement) {data : Bytes} {start : Nat} {rest : List UInt8}
    (hstands : StandsAt data start (signedBytes width displacement) rest) :
    (Reader.signed width).Yields data start (.ok displacement) (start + width) := by
  have hread := (Reads.signed hwidth hfits).yields hstands
  rwa [signedBytes_length] at hread

theorem table_yields (offset next : Nat) {displacements : List Int}
    (hfits : ∀ d ∈ displacements, FitsSigned 32 d) {data : Bytes} {start : Nat} {rest : List UInt8}
    (hstands : StandsAt data start (displacements.flatMap (signedBytes 4)) rest) :
    (Reader.times (placeReader offset next) displacements.length).Yields data start
      (placesFrom offset next displacements) (start + 4 * displacements.length) := by
  induction displacements generalizing start with
  | nil => exact .pure []
  | cons displacement others ih =>
      obtain ⟨hfirst, hothers⟩ := List.forall_mem_cons.1 hfits
      rw [List.flatMap_cons] at hstands
      have hbehind := hstands.behind
      rw [signedBytes_length] at hbehind
      have hdisplacement := displacement_yields (by decide : 0 < 4) hfirst hstands.front
      have hplace : (placeReader offset next).Yields data start
          (branchTarget offset next displacement) (start + 4) :=
        hdisplacement.bind fun d => .ofExcept _
      have hstop : start + 4 * (others.length + 1) = start + 4 + 4 * others.length := by omega
      rw [placesFrom_cons, List.length_cons, times_succ, hstop]
      exact hplace.bind fun place => (ih hothers hbehind).bind fun places => .pure _

/-- A branch leads where its displacement says from the end of the instruction. -/
theorem branchReader_yields {width : Nat} (hwidth : 0 < width) {displacement : Int}
    (hfits : FitsSigned (8 * width) displacement) {data : Bytes} {start : Nat} {rest : List UInt8}
    (hstands : StandsAt data start (signedBytes width displacement) rest) :
    (branchReader offset width).Yields data start
      ((placesFrom offset (start + width) [displacement]).map .targets) (start + width) := by
  have hplaces : (placesFrom offset (start + width) [displacement]).map RawOperand.targets = (do
      let place ← branchTarget offset (start + width) displacement
      return .targets [place]) := by
    rw [placesFrom_cons]
    cases branchTarget offset (start + width) displacement <;> rfl
  have hposition : Reader.position data (start + width) = .ok (start + width) (start + width) := rfl
  have hread : Reader.signed width data start = .ok displacement (start + width) :=
    displacement_yields hwidth hfits hstands
  rw [hplaces]
  refine Yields.after (Yields.after ?_ hposition) hread
  exact (Yields.ofExcept _).bind fun place => .pure _

/-- The places of a switch count from the end of all its displacements. -/
theorem switchReader_yields {displacements : List Int}
    (hlength : displacements.length < 0x100000000) (hfits : ∀ d ∈ displacements, FitsSigned 32 d)
    {data : Bytes} {start : Nat} {rest : List UInt8}
    (hstands : StandsAt data start
      (littleEndianBytes displacements.length 4 ++ displacements.flatMap (signedBytes 4)) rest) :
    (switchReader offset).Yields data start
      ((placesFrom offset (start + 4 + 4 * displacements.length) displacements).map .targets)
      (start + 4 + 4 * displacements.length) := by
  have hcount := Reads.unsigned hlength data start _ hstands.front
  have htable := hstands.behind
  have hsize := htable.size_eq
  rw [littleEndianBytes_length] at hcount htable hsize
  have htableLength :
      (displacements.flatMap (signedBytes 4)).length = 4 * displacements.length := by
    simp [List.length_flatMap, signedBytes_length, List.map_const', Nat.mul_comm]
  have hleft : Reader.remaining data (start + 4) = .ok (data.size - (start + 4)) (start + 4) := rfl
  have henough : ¬data.size - (start + 4) < 4 * displacements.length := by omega
  have hposition : Reader.position data (start + 4) = .ok (start + 4) (start + 4) := rfl
  refine Yields.after (Yields.after ?_ hleft) hcount
  -- all of the table is there, so it is not given up before it is read
  rw [if_neg henough]
  refine Yields.after ?_ hposition
  have hplaces := (table_yields offset (start + 4 + 4 * displacements.length) hfits htable).bind
      (g := fun places => .ok (RawOperand.targets places)) fun places => .pure _
  have hmap : (placesFrom offset (start + 4 + 4 * displacements.length) displacements >>=
      fun places => .ok (RawOperand.targets places)) =
        (placesFrom offset (start + 4 + 4 * displacements.length) displacements).map .targets := by
    cases placesFrom offset (start + 4 + 4 * displacements.length) displacements <;> rfl
  rw [hmap] at hplaces
  exact hplaces

/-- Displacements that stand in the code are taken for the places that they lead to, or for an error
if no word can name one of these. -/
theorem reader_yields (offset : Nat) {kind : OperandKind} {displacements : List Int}
    {written : List UInt8} (h : kind.jumpBytes? displacements = some written) {data : Bytes}
    {start : Nat} {rest : List UInt8} (hstands : StandsAt data start written rest) :
    written.length = kind.jumpLength displacements.length ∧
      (reader offset kind).Yields data start
        ((placesFrom offset (start + written.length) displacements).map .targets)
        (start + written.length) := by
  unfold OperandKind.jumpBytes? at h
  split at h
  · obtain ⟨hfits, rfl⟩ := signedBytes?_eq_some.1 h
    rw [signedBytes_length]
    exact ⟨rfl, branchReader_yields (by decide) hfits hstands⟩
  · obtain ⟨hfits, rfl⟩ := signedBytes?_eq_some.1 h
    rw [signedBytes_length]
    exact ⟨rfl, branchReader_yields (by decide) hfits hstands⟩
  · split at h
    · rename_i hall
      cases h
      have hlength : (littleEndianBytes displacements.length 4 ++
          displacements.flatMap (signedBytes 4)).length = 4 + 4 * displacements.length := by
        simp [List.length_flatMap, signedBytes_length, List.map_const', Nat.mul_comm]
      rw [hlength, ← Nat.add_assoc]
      exact ⟨rfl, switchReader_yields hall.1 hall.2 hstands⟩
    · cases h
  · cases h

/-! ### Jumps in any code -/

theorem branchReader_spells {width start : Nat} (hwidth : 0 < width) :
    Spells (branchReader offset width) start fun raw written =>
      ∃ displacement places, signedBytes? width displacement = some written ∧
        placesFrom offset (start + width) [displacement] = .ok places ∧ raw = .targets places := by
  refine .bind (.signed hwidth) fun displacement written ⟨hfits, hwritten⟩ => ?_
  subst hwritten
  refine .bind .position fun next nothing ⟨hnext, hnothing⟩ => ?_
  subst hnext hnothing
  refine .bind
    (R := fun place written => branchTarget offset _ displacement = .ok place ∧ written = [])
    (.ofExcept fun place hplace => ⟨hplace, rfl⟩) fun place nothing ⟨hplace, hnothing⟩ => .pure ?_
  subst hnothing
  rw [signedBytes_length] at hplace
  refine ⟨displacement, [place], ?_, ?_, rfl⟩
  · rw [List.append_nil, List.append_nil, List.append_nil]
    exact signedBytes?_eq_some.2 ⟨hfits, rfl⟩
  · exact placesFrom_cons_eq_ok.2 ⟨place, [], hplace, rfl, rfl⟩

theorem table_spells (offset next start count : Nat) :
    Spells (Reader.times (placeReader offset next) count) start fun places written =>
      ∃ displacements, displacements.length = count ∧ (∀ d ∈ displacements, FitsSigned 32 d) ∧
        written = displacements.flatMap (signedBytes 4) ∧
        placesFrom offset next displacements = .ok places := by
  induction count generalizing start with
  | zero => exact .pure ⟨[], rfl, List.forall_mem_nil _, rfl, rfl⟩
  | succ count ih =>
      have hplace : Spells (placeReader offset next) start fun place written =>
          ∃ displacement, FitsSigned 32 displacement ∧ written = signedBytes 4 displacement ∧
            branchTarget offset next displacement = .ok place := by
        refine .bind (.signed (by decide)) fun displacement written ⟨hfits, hwritten⟩ => ?_
        refine .ofExcept fun place hplace => ⟨displacement, hfits, ?_, hplace⟩
        rw [List.append_nil, hwritten]
      refine .bind hplace fun place first ⟨displacement, hfits, hfirst, htarget⟩ => ?_
      refine .bind (ih _) fun places others ⟨displacements, hcount, hall, hothers, hplaces⟩ => ?_
      refine .pure ⟨displacement :: displacements, ?_, ?_, ?_, ?_⟩
      · rw [List.length_cons, hcount]
      · exact List.forall_mem_cons.2 ⟨hfits, hall⟩
      · rw [hfirst, hothers, List.append_nil, List.flatMap_cons]
      · exact placesFrom_cons_eq_ok.2 ⟨place, places, htarget, hplaces, rfl⟩

theorem switchReader_spells (start : Nat) :
    Spells (switchReader offset) start fun raw written =>
      ∃ displacements places, OperandKind.switch.jumpBytes? displacements = some written ∧
        placesFrom offset (start + (4 + 4 * displacements.length)) displacements = .ok places ∧
        raw = .targets places := by
  refine .bind (.unsigned 4) fun count first ⟨hcount, hfirst⟩ => ?_
  subst hfirst
  refine .bind .remaining fun left nothing hnothing => ?_
  subst hnothing
  refine .ite (fun _ => ?_) fun _ => ?_
  · exact .bind (R := fun _ _ => False) (.throw _) fun _ _ himpossible => himpossible.elim
  refine .bind .position fun place nothing ⟨hplace, hnothing⟩ => ?_
  subst hplace hnothing
  refine .bind (table_spells offset _ _ count) fun places table htable => .pure ?_
  obtain ⟨displacements, rfl, hfits, rfl, hplaces⟩ := htable
  simp only [littleEndianBytes_length, List.length_nil, Nat.add_zero, Nat.add_assoc] at hplaces
  refine ⟨displacements, places, ?_, hplaces, rfl⟩
  rw [OperandKind.jumpBytes?, if_pos ⟨hcount, hfits⟩, List.append_nil, List.nil_append,
    List.nil_append]

/-- A jump that is read stands in the code as displacements that lead to its places. -/
theorem reader_spells_jump {kind : OperandKind}
    (h : kind = .shortBranch ∨ kind = .branch ∨ kind = .switch) (start : Nat) :
    Spells (reader offset kind) start fun raw written =>
      ∃ displacements places, kind.jumpBytes? displacements = some written ∧
        placesFrom offset (start + kind.jumpLength displacements.length) displacements =
          .ok places ∧ raw = .targets places := by
  obtain rfl | rfl | rfl := h
  · exact (branchReader_spells (by decide)).mono fun _ _ ⟨displacement, hrest⟩ =>
      ⟨[displacement], hrest⟩
  · exact (branchReader_spells (by decide)).mono fun _ _ ⟨displacement, hrest⟩ =>
      ⟨[displacement], hrest⟩
  · exact switchReader_spells start

end RawOperand

end CliMeta
