import CliMeta.Proofs.Signature.Accepted
import CliMeta.Proofs.Signature.Reading

/-!
The round trip of signatures. The well-formed signatures whose nesting a limit covers are those that
can be decoded under it at all, and each is decoded from its canonical form. So whatever blob a
signature comes from, its canonical form means the same.
-/

namespace CliMeta

open Reader

/-- Exactly the values within a domain are decoded, each from its canonical form if not from
others. -/
structure RoundTrips {α : Type} (decode : Bytes → Except Error α) (encode : α → List UInt8)
    (Within : α → Prop) : Prop where
  decode_encode : ∀ a, Within a → decode (encode a).toArray = .ok a
  within_of_decode : ∀ blob a, decode blob = .ok a → Within a

namespace RoundTrips

variable {α β : Type} {decode : Bytes → Except Error α} {encode : α → List UInt8}
  {Within : α → Prop}

theorem of_reader {r : Reader α} (hreads : ∀ a, Within a → Reads r (encode a) a)
    (hensures : Ensures r Within) : RoundTrips r.complete encode Within where
  decode_encode a ha := (hreads a ha).complete
  within_of_decode blob a h := by
    unfold complete at h
    split at h
    · rename_i a' next hout
      split at h
      · cases h
      · cases h
        exact hensures blob 0 a next hout
    · cases h
    · cases h

end RoundTrips

namespace Signature

theorem type_reads {limit : Nat} {t : TypeSig} (h : TypeWithin limit t) :
    Reads (TypeSig.reader limit limit) t.encode t :=
  TypeSig.reader_reads limit limit h.1 h.2

theorem decodeMember_roundTrips (limit : Nat) :
    RoundTrips (decodeMember limit) MemberSig.encode (MemberWithin limit) := by
  have htype : Ensures (TypeSig.reader limit limit) fun t =>
      t.WellFormed ∧ t.nesting < limit + 1 :=
    (TypeSig.reader_ensures limit limit).mono fun t ht => ⟨ht.1, Nat.lt_succ_of_le ht.2⟩
  refine .of_reader (fun m hm => ?_) ?_
  · exact MemberSig.reader_reads hm.1 fun t ht hmost => type_reads ⟨ht, Nat.le_trans hmost hm.2⟩
  · exact (MemberSig.reader_ensures htype).mono fun m hm => ⟨hm.1, Nat.le_of_lt_succ hm.2⟩

theorem decodeLocals_roundTrips (limit : Nat) :
    RoundTrips (decodeLocals limit) encodeLocals (LocalsWithin limit) := by
  refine .of_reader (fun entries hentries => ?_)
    (localsReader_ensures (TypeSig.reader_ensures limit limit))
  obtain ⟨hlength, hall⟩ := hentries
  refine localsReader_reads hlength fun v hmem => ?_
  obtain ⟨pinned, modifiers, byRef, arrayRank, pointerDepth, base⟩ := v
  obtain ⟨⟨hm, hbase⟩, hnesting⟩ := hall _ hmem
  exact localReader_reads hm (type_reads ⟨⟨List.forall_mem_nil _, hbase⟩, hnesting⟩)

theorem decodeType_roundTrips (limit : Nat) :
    RoundTrips (decodeType limit) TypeSig.encode (TypeWithin limit) :=
  .of_reader (fun _ ht => type_reads ht) (TypeSig.reader_ensures limit limit)

theorem decodeInstantiation_roundTrips (limit : Nat) :
    RoundTrips (decodeInstantiation limit) encodeInstantiation (InstantiationWithin limit) := by
  refine .of_reader (fun arguments harguments => ?_)
    (instantiationReader_ensures (TypeSig.reader_ensures limit limit))
  exact instantiationReader_reads harguments.1 fun t hmem => type_reads (harguments.2 t hmem)

/-- The canonical form of a member does not begin like that of local variables. -/
theorem firstByte_member {m : MemberSig} (h : m.WellFormed) :
    Bytes.byteAt m.encode.toArray 0 % 16 ≠ 7 := by
  obtain ⟨convention, genericParamCount, argumentCount, returnType, params, varargs⟩ := m
  have hconvention : convention.WellFormed := h.1
  obtain ⟨hlt, hkind, -⟩ := hconvention.ofByte_toByte
  rw [MemberSig.encode_eq]
  simp only [Bytes.byteAt, List.getElem?_toArray, List.getElem?_cons_zero,
    UInt8.toNat_ofNat_of_lt' hlt, hkind]
  have hlocals := hconvention.not_locals
  cases hcase : convention.kind <;> first | decide | exact absurd hcase hlocals

theorem decodeStandalone_roundTrips (limit : Nat) :
    RoundTrips (decodeStandalone limit) encodeStandalone (StandaloneWithin limit) where
  decode_encode s hs := by
    cases s with
    | locals entries =>
        have hlocals : decodeStandalone limit (encodeLocals entries).toArray =
            (decodeLocals limit (encodeLocals entries).toArray).map .locals :=
          if_pos ⟨by simp [encodeLocals], rfl⟩
        rw [encodeStandalone, hlocals, (decodeLocals_roundTrips limit).decode_encode entries hs]
        rfl
    | method signature =>
        have hmember : decodeStandalone limit signature.encode.toArray =
            (decodeMember limit signature.encode.toArray).map .method :=
          if_neg fun hfirst => firstByte_member hs.1 hfirst.2
        rw [encodeStandalone, hmember, (decodeMember_roundTrips limit).decode_encode signature hs]
        rfl
  within_of_decode blob s h := by
    unfold decodeStandalone at h
    split at h
    · obtain ⟨entries, hout, rfl⟩ := exists_of_map_ok h
      exact (decodeLocals_roundTrips limit).within_of_decode blob entries hout
    · obtain ⟨signature, hout, rfl⟩ := exists_of_map_ok h
      exact (decodeMember_roundTrips limit).within_of_decode blob signature hout

/-- Every kind of signature makes the round trip, under every limit on the nesting of types. -/
theorem decoders_roundTrip (limit : Nat) :
    RoundTrips (decodeMember limit) MemberSig.encode (MemberWithin limit) ∧
      RoundTrips (decodeLocals limit) encodeLocals (LocalsWithin limit) ∧
      RoundTrips (decodeType limit) TypeSig.encode (TypeWithin limit) ∧
      RoundTrips (decodeInstantiation limit) encodeInstantiation (InstantiationWithin limit) ∧
      RoundTrips (decodeStandalone limit) encodeStandalone (StandaloneWithin limit) :=
  ⟨decodeMember_roundTrips limit, decodeLocals_roundTrips limit, decodeType_roundTrips limit,
    decodeInstantiation_roundTrips limit, decodeStandalone_roundTrips limit⟩

/-- A generic method with a modified parameter, a reference to an array of pointers to an instance
of a generic type, and with a variable argument, a pointer to a function that returns an array of
two dimensions. -/
def pointerMember : MemberSig :=
  let bare (base : TypeBase) : TypeSig := ⟨[], false, 0, 0, base⟩
  let listOf (argument : TypeBase) : TypeBase :=
    .genericInstance .referenceType ⟨.typeDefOrRef, some ⟨.typeDef, 0x200⟩⟩ [bare argument]
  let matrix : TypeBase := .array (bare (.primitive .r8)) ⟨2, [3, 0x4000], [-1]⟩
  ⟨⟨.varArg, ⟨0x10⟩⟩, 1, 2, bare (.primitive .void),
    [⟨[⟨true, .null .typeDefOrRef⟩], true, 1, 2, listOf (.methodParameter 0)⟩],
    [bare (.functionPointer ⟨⟨.default, ⟨0⟩⟩, 0, 0, bare matrix, [], []⟩)]⟩

/-- Its function pointer takes up two levels and the array within it one more. -/
theorem pointerMember_decoded :
    decodeMember 4 #[0x15, 0x01, 0x02, 0x01, 0x1F, 0x00, 0x10, 0x1D, 0x0F, 0x0F, 0x15, 0x12, 0x88,
      0x04, 0x01, 0x1E, 0x00, 0x41, 0x1B, 0x00, 0x00, 0x14, 0x0D, 0x02, 0x02, 0x03, 0xC0, 0x00,
      0x40, 0x00, 0x01, 0x7F] = .ok pointerMember := by
  have hwell : pointerMember.WellFormed := by decide +kernel
  exact (decoders_roundTrip 4).1.decode_encode pointerMember ⟨hwell, by decide⟩

end Signature

end CliMeta
