import CliMeta.Proofs.Signature.Spelling
import Mathlib.Algebra.GroupWithZero.Nat

/-!
The size of a signature. All the parts of a signature are counted: types, modifiers, references,
array dimensions, pointers, sizes and lower bounds. In every form of the signature each part takes
up bytes of its own, so no blob is decoded to more parts than it has bytes, whatever the numbers in
it declare.
-/

namespace CliMeta

open Reader

/-! ### Parts -/

mutual

/-- The types in a type, itself included, and what they have in front of their bases. -/
def TypeSig.parts : TypeSig → Nat
  | ⟨modifiers, byRef, arrayRank, pointerDepth, base⟩ =>
      1 + modifiers.length + byRef.toNat + arrayRank + pointerDepth + base.parts

def TypeBase.parts : TypeBase → Nat
  | .primitive _ | .named _ _ | .typeParameter _ | .methodParameter _ => 0
  | .genericInstance _ _ arguments => TypeSig.partsAll arguments
  | .array element shape => element.parts + shape.sizes.length + shape.lowerBounds.length
  | .functionPointer signature => signature.parts

def MemberSig.parts : MemberSig → Nat
  | ⟨_, _, _, returnType, params, varargs⟩ =>
      returnType.parts + TypeSig.partsAll params + TypeSig.partsAll varargs

def TypeSig.partsAll : List TypeSig → Nat
  | [] => 0
  | t :: others => t.parts + TypeSig.partsAll others

end

namespace Signature

def localsParts (entries : List LocalVariable) : Nat :=
  TypeSig.partsAll (entries.map (·.type))

def standaloneParts : StandaloneSig → Nat
  | .locals entries => localsParts entries
  | .method signature => signature.parts

end Signature

/-! ### Bytes of parts -/

theorem WrittenPrefix.length_le_allBytes (w : List WrittenPrefix) :
    (modifiers w).length + (marks w).length ≤ (allBytes w).length := by
  induction w with
  | nil => exact Nat.le_refl 0
  | cons next w ih =>
      have hbytes : allBytes (next :: w) = next.bytes ++ allBytes w := List.flatMap_cons
      rw [hbytes, List.length_append]
      cases next with
      | modifier required type =>
          rw [modifiers_cons, List.length_append, List.length_singleton, bytes, List.length_cons]
          show 1 + (modifiers w).length + (marks w).length ≤ _
          omega
      | mark m =>
          rw [marks_cons, List.length_append, List.length_singleton, bytes, List.length_singleton]
          show (modifiers w).length + (1 + (marks w).length) ≤ _
          omega

theorem TypePrefixes.length_marks (p : TypePrefixes) :
    p.marks.length = p.byRef.toNat + p.arrayRank + p.pointerDepth := by
  simp [marks, Nat.add_assoc]

/-- Members that each have a byte for every part have so together. -/
theorem SpelledEach.sum_le {α : Type} {Spelled : α → List UInt8 → Prop} {size : α → Nat}
    (h : ∀ a written, Spelled a written → size a ≤ written.length) {all : List α}
    {written : List UInt8} (hall : SpelledEach Spelled all written) :
    (all.map size).sum ≤ written.length := by
  induction all generalizing written with
  | nil => exact Nat.zero_le _
  | cons a others ih =>
      obtain ⟨first, behind, ha, hothers, rfl⟩ := hall
      rw [List.map_cons, List.sum_cons, List.length_append]
      exact Nat.add_le_add (h a first ha) (ih hothers)

theorem SpelledCounted.sum_le {α : Type} {Spelled : α → List UInt8 → Prop} {size : α → Nat}
    (h : ∀ a written, Spelled a written → size a ≤ written.length) {all : List α}
    {written : List UInt8} (hall : SpelledCounted Spelled all written) :
    (all.map size).sum ≤ written.length := by
  obtain ⟨count, behind, -, hbehind, rfl⟩ := hall
  rw [List.length_append]
  exact Nat.le_trans (hbehind.sum_le h) (Nat.le_add_left ..)

theorem compressedIn_length_pos (width value : Nat) : 0 < (compressedIn width value).length := by
  unfold compressedIn
  split <;> exact Nat.succ_pos _

theorem SpelledCounted.length_le {α : Type} {Spelled : α → List UInt8 → Prop}
    (h : ∀ a written, Spelled a written → 0 < written.length) {all : List α}
    {written : List UInt8} (hall : SpelledCounted Spelled all written) :
    all.length ≤ written.length := by
  have hsum : (all.map fun _ => 1).sum ≤ written.length := hall.sum_le h
  rwa [List.map_const', List.sum_replicate_nat, Nat.mul_one] at hsum

theorem ArrayShape.Spelled.length_le {shape : ArrayShape} {written : List UInt8}
    (h : shape.Spelled written) :
    shape.sizes.length + shape.lowerBounds.length ≤ written.length := by
  obtain ⟨rank, sizes, lowerBounds, -, hsizes, hbounds, rfl⟩ := h
  have hsize := hsizes.length_le fun value written ⟨n, _, hwritten⟩ =>
    hwritten ▸ compressedIn_length_pos n.width n.value
  have hbound := hbounds.length_le fun value written ⟨width, _, _, hwritten⟩ =>
    hwritten ▸ compressedIn_length_pos width _
  rw [List.length_append, List.length_append]
  omega

mutual

/-- In each of its forms a type has at least as many bytes as parts. -/
theorem TypeSig.Spelled.parts_le : (t : TypeSig) → ∀ {written}, t.Spelled written →
    t.parts ≤ written.length
  | ⟨modifiers, byRef, arrayRank, pointerDepth, base⟩, written, h => by
      obtain ⟨w, front, inside, behind, hmodifiers, hmarks, hdepth, hbase, rfl⟩ := h
      have hbaseParts := TypeBase.Spelled.parts_le base hbase
      have hprefixes := WrittenPrefix.length_le_allBytes w
      rw [hmodifiers, hmarks, TypePrefixes.length_marks] at hprefixes
      rw [TypeSig.parts, List.length_append]
      dsimp only at hprefixes
      omega

/-- The first tag of a base is the byte of the type that it belongs to. -/
theorem TypeBase.Spelled.parts_le : (base : TypeBase) → ∀ {pointers written},
    base.Spelled pointers written → 1 + pointers + base.parts ≤ written.length
  | .primitive p, pointers, written, h => by
      obtain ⟨rfl, rfl⟩ := h
      exact Nat.le_refl _
  | .named kind type, pointers, written, h => by
      obtain ⟨r, -, rfl, rfl⟩ := h
      simp [TypeBase.parts]
  | .genericInstance kind type arguments, pointers, written, h => by
      obtain ⟨r, count, behind, -, -, harguments, rfl⟩ := h
      have hparts := TypeSig.SpelledAll.parts_le arguments harguments
      simp [TypeBase.parts]
      omega
  | .typeParameter number, pointers, written, h => by
      obtain ⟨n, -, rfl, rfl⟩ := h
      simp [TypeBase.parts]
  | .methodParameter number, pointers, written, h => by
      obtain ⟨n, -, rfl, rfl⟩ := h
      simp [TypeBase.parts]
  | .array element shape, pointers, written, h => by
      obtain ⟨first, second, helement, hshape, rfl, rfl⟩ := h
      have hparts := TypeSig.Spelled.parts_le element helement
      have hlength := hshape.length_le
      simp [TypeBase.parts]
      omega
  | .functionPointer signature, pointers, written, h => by
      obtain ⟨behind, hsignature, rfl, rfl⟩ := h
      have hparts := MemberSig.Spelled.parts_le signature hsignature
      simp [TypeBase.parts]
      omega

theorem MemberSig.Spelled.parts_le : (m : MemberSig) → ∀ {written}, m.Spelled written →
    m.parts ≤ written.length
  | ⟨convention, genericParamCount, argumentCount, returnType, params, varargs⟩, written, h => by
      obtain ⟨first, generic, result, -, hresult, h⟩ := h
      have hresultParts := TypeSig.Spelled.parts_le returnType hresult
      split at h
      · obtain ⟨-, -, rfl, rfl, rfl⟩ := h
        simp [MemberSig.parts, TypeSig.partsAll]
        omega
      · obtain ⟨-, count, front, back, -, -, hfront, hback, rfl⟩ := h
        have hparams := TypeSig.SpelledAll.parts_le params hfront
        have hvarargs := TypeSig.SpelledVarargs.parts_le varargs hback
        simp [MemberSig.parts]
        omega

theorem TypeSig.SpelledAll.parts_le : (all : List TypeSig) → ∀ {written},
    TypeSig.SpelledAll all written → TypeSig.partsAll all ≤ written.length
  | [], _, _ => Nat.zero_le _
  | t :: others, _, h => by
      obtain ⟨first, behind, ht, hothers, rfl⟩ := h
      have hfirst := TypeSig.Spelled.parts_le t ht
      have hbehind := TypeSig.SpelledAll.parts_le others hothers
      rw [TypeSig.partsAll, List.length_append]
      omega

theorem TypeSig.SpelledVarargs.parts_le : (all : List TypeSig) → ∀ {marked written},
    TypeSig.SpelledVarargs marked all written → TypeSig.partsAll all ≤ written.length
  | [], _, _, _ => Nat.zero_le _
  | t :: others, _, _, h => by
      obtain ⟨mark, first, behind, -, ht, hothers, rfl⟩ := h
      have hfirst := TypeSig.Spelled.parts_le t ht
      have hbehind := TypeSig.SpelledVarargs.parts_le others hothers
      rw [TypeSig.partsAll, List.length_append, List.length_append]
      omega

end

/-! ### Whole signatures -/

theorem TypeSig.partsAll_eq_sum (all : List TypeSig) : partsAll all = (all.map parts).sum := by
  induction all with
  | nil => rfl
  | cons t others ih => rw [partsAll, List.map_cons, List.sum_cons, ih]

/-- Modifiers that are put in front of those of a type are parts of it. -/
theorem TypeSig.parts_withModifiers (t : TypeSig) (front : List CustomModifier) :
    { t with modifiers := front ++ t.modifiers }.parts = front.length + t.parts := by
  obtain ⟨modifiers, byRef, arrayRank, pointerDepth, base⟩ := t
  simp only [parts, List.length_append]
  omega

namespace Signature

theorem SpelledLocal.parts_le {v : LocalVariable} {written : List UInt8}
    (h : SpelledLocal v written) : v.type.parts ≤ written.length := by
  obtain ⟨w, t, behind, -, ht, htype, rfl⟩ := h
  have hparts := TypeSig.Spelled.parts_le t ht
  have hmodifiers := WrittenPrefix.length_le_allBytes w
  rw [htype, TypeSig.parts_withModifiers, List.length_append, List.length_append]
  omega

theorem SpelledLocals.parts_le {entries : List LocalVariable} {written : List UInt8}
    (h : SpelledLocals entries written) : localsParts entries ≤ written.length := by
  obtain ⟨behind, hall, rfl⟩ := h
  have hsum := hall.sum_le fun _ _ hv => SpelledLocal.parts_le hv
  rw [localsParts, TypeSig.partsAll_eq_sum, List.map_map]
  exact Nat.le_succ_of_le hsum

theorem SpelledInstantiation.parts_le {arguments : List TypeSig} {written : List UInt8}
    (h : SpelledInstantiation arguments written) :
    TypeSig.partsAll arguments ≤ written.length := by
  obtain ⟨behind, hall, rfl⟩ := h
  have hsum := hall.sum_le fun t _ ht => TypeSig.Spelled.parts_le t ht
  rw [TypeSig.partsAll_eq_sum]
  exact Nat.le_succ_of_le hsum

/-! ### Decoded blobs -/

/-- Whatever a blob is decoded to, the blob is a form of it and has a byte for each of its parts. -/
structure Accounted {α : Type} (decode : Bytes → Except Error α) (Spelled : α → List UInt8 → Prop)
    (parts : α → Nat) : Prop where
  spelled : ∀ blob a, decode blob = .ok a → Spelled a blob.toList
  parts_le : ∀ blob a, decode blob = .ok a → parts a ≤ blob.size

variable {α : Type} {r : Reader α} {Spelled : α → List UInt8 → Prop} {parts : α → Nat}

theorem spelled_of_complete (hr : r.Forward) (hspells : ∀ start, Spells r start Spelled)
    {blob : Bytes} {a : α} (h : r.complete blob = .ok a) : Spelled a blob.toList := by
  have hout := (Reader.complete_eq_ok_iff hr).1 h
  obtain ⟨written, hwritten, -, hstands⟩ := hspells 0 blob a blob.size (Nat.zero_le _) hout
  have hblob : blob.toList = written := by
    simpa [StandsAt, List.drop_eq_nil_of_le] using hstands
  exact hblob ▸ hwritten

theorem Accounted.of_complete (hr : r.Forward) (hspells : ∀ start, Spells r start Spelled)
    (hparts : ∀ a written, Spelled a written → parts a ≤ written.length) :
    Accounted r.complete Spelled parts where
  spelled _ _ h := spelled_of_complete hr hspells h
  parts_le blob a h := by
    simpa using hparts a blob.toList (spelled_of_complete hr hspells h)

/-- Every kind of signature is accounted for, under every limit on the nesting of types: the numbers
that it declares are those of the members that are returned, in their order, and it has at least as
many bytes as parts. -/
theorem decoders_accounted (limit : Nat) :
    Accounted (decodeMember limit) MemberSig.Spelled MemberSig.parts ∧
      Accounted (decodeLocals limit) SpelledLocals localsParts ∧
      Accounted (decodeType limit) TypeSig.Spelled TypeSig.parts ∧
      Accounted (decodeInstantiation limit) SpelledInstantiation TypeSig.partsAll ∧
      Accounted (decodeStandalone limit) SpelledStandalone standaloneParts := by
  have hsequential := TypeSig.reader_sequential limit limit
  have hspells := TypeSig.reader_spells limit limit
  have hmember : Accounted (decodeMember limit) MemberSig.Spelled MemberSig.parts :=
    .of_complete (MemberSig.reader_sequential hsequential).forward
      (MemberSig.reader_spells hspells) fun m _ hm => MemberSig.Spelled.parts_le m hm
  have hlocals : Accounted (decodeLocals limit) SpelledLocals localsParts :=
    .of_complete (localsReader_sequential hsequential).forward (localsReader_spells hspells)
      fun _ _ hentries => SpelledLocals.parts_le hentries
  have hstandalone (blob : Bytes) (a : StandaloneSig) (h : decodeStandalone limit blob = .ok a) :
      SpelledStandalone a blob.toList ∧ standaloneParts a ≤ blob.size := by
    unfold decodeStandalone at h
    split at h
    · obtain ⟨entries, hentries, rfl⟩ := exists_of_map_ok h
      exact ⟨hlocals.spelled blob entries hentries, hlocals.parts_le blob entries hentries⟩
    · obtain ⟨m, hm, rfl⟩ := exists_of_map_ok h
      exact ⟨hmember.spelled blob m hm, hmember.parts_le blob m hm⟩
  refine ⟨hmember, hlocals, ?_, ?_, ?_⟩
  · exact .of_complete hsequential.forward hspells fun t _ ht => TypeSig.Spelled.parts_le t ht
  · exact .of_complete (instantiationReader_sequential hsequential).forward
      (instantiationReader_spells hspells) fun _ _ harguments =>
        SpelledInstantiation.parts_le harguments
  · exact ⟨fun blob a h => (hstandalone blob a h).1, fun blob a h => (hstandalone blob a h).2⟩

/-- A sentinel in front of each of two variable arguments is a byte without a part. -/
theorem decoders_accounted_twoSentinels :
    ∃ m, decodeMember 8 #[0x05, 0x03, 0x01, 0x08, 0x41, 0x08, 0x41, 0x08] = .ok m ∧
      m.Spelled [0x05, 0x03, 0x01, 0x08, 0x41, 0x08, 0x41, 0x08] ∧ m.argumentCount = 3 ∧
      m.parts = 4 ∧ m.parts ≤ 8 := by
  let bare (p : Primitive) : TypeSig := ⟨[], false, 0, 0, .primitive p⟩
  let member : MemberSig :=
    ⟨⟨.varArg, ⟨0⟩⟩, 0, 3, bare .void, [bare .i4], [bare .i4, bare .i4]⟩
  have hmember : decodeMember 8 #[0x05, 0x03, 0x01, 0x08, 0x41, 0x08, 0x41, 0x08] =
      .ok member := by rfl
  obtain ⟨haccounted, -⟩ := decoders_accounted 8
  exact ⟨member, hmember, haccounted.spelled _ _ hmember, rfl, rfl,
    haccounted.parts_le _ _ hmember⟩

end Signature

end CliMeta
