import CliMeta.Proofs.Signature.Sequential

/-!
A signature tells by itself where it ends. A blob that is accepted is accepted at its last byte and
nowhere else: with bytes behind it the reader stops at the same place, and over a proper front of it
the data give out.
-/

namespace CliMeta

open Reader

/-- An accepted blob is refused as soon as bytes are put behind it, which it then says are too many,
or taken away from its end, which it then says are missing. -/
structure SelfDelimiting {α : Type} (decode : Bytes → Except Error α) : Prop where
  extended : ∀ blob a, decode blob = .ok a → ∀ more : Bytes, more ≠ #[] →
    decode (blob ++ more) = .error (.signatureTrailing blob.size (blob.size + more.size))
  cut : ∀ blob a, decode blob = .ok a → ∀ front rest : Bytes, blob = front ++ rest → rest ≠ #[] →
    ∃ offset, offset ≤ front.size ∧ decode front = .error (.signatureTruncated offset)

section

variable {α : Type} {r : Reader α}

/-- A reader accepts a blob when it ends at its last byte. -/
theorem Reader.complete_eq_ok_iff {blob : Bytes} {a : α} (hr : r.Forward) :
    r.complete blob = .ok a ↔ r blob 0 = .ok a blob.size := by
  have hbounds := hr blob 0 (Nat.zero_le _)
  unfold complete
  cases hout : r blob 0 with
  | error e next => cases e <;> simp
  | ok a' next =>
      simp only [hout, stop_ok] at hbounds
      by_cases hless : next < blob.size
      · simp [hless]
        omega
      · have hend : next = blob.size := by omega
        simp [hend]

theorem SelfDelimiting.of_sequential (hr : r.Sequential) : SelfDelimiting r.complete where
  extended blob a h more hmore := by
    have hout := (complete_eq_ok_iff hr.forward).1 h
    have hlonger : r (blob ++ more) 0 = .ok a blob.size := by
      obtain hsame | ⟨next, hgave⟩ := hr.stable blob more 0 (Nat.zero_le _)
      · rw [← hsame, hout]
      · rw [hout] at hgave
        cases hgave
    have hpos : 0 < more.size := Array.size_pos_iff.2 hmore
    simp only [complete, hlonger, Array.size_append]
    rw [if_pos (by omega)]
  cut blob a h front rest hblob hrest := by
    have hout := (complete_eq_ok_iff hr.forward).1 h
    have hbounds := hr.forward front 0 (Nat.zero_le _)
    have hpos : 0 < rest.size := Array.size_pos_iff.2 hrest
    subst hblob
    obtain hsame | ⟨next, hgave⟩ := hr.stable front rest 0 (Nat.zero_le _)
    -- the whole blob is not read without its last bytes
    · rw [hsame, hout, Array.size_append] at hbounds
      simp only [stop_ok] at hbounds
      omega
    · rw [hgave] at hbounds
      exact ⟨next, hbounds.2, by rw [complete, hgave]⟩

end

/-- Taking the value over under another name changes neither of the two refusals. -/
theorem SelfDelimiting.map {α β : Type} {decode : Bytes → Except Error α} (f : α → β)
    (h : SelfDelimiting decode) : SelfDelimiting fun blob => (decode blob).map f := by
  constructor
  · intro blob b hb more hmore
    obtain ⟨a, ha, -⟩ := exists_of_map_ok hb
    show (decode (blob ++ more)).map f = _
    rw [h.extended blob a ha more hmore]
    rfl
  · intro blob b hb front rest hblob hrest
    obtain ⟨a, ha, -⟩ := exists_of_map_ok hb
    obtain ⟨offset, hle, hfront⟩ := h.cut blob a ha front rest hblob hrest
    refine ⟨offset, hle, ?_⟩
    show (decode front).map f = _
    rw [hfront]
    rfl

/-! ### A choice by the first byte -/

/-- Whether the first byte of a blob, if there is one, has a property. -/
def FirstByte (p : Nat → Prop) (blob : Bytes) : Prop :=
  blob.size ≠ 0 ∧ p (blob.byteAt 0)

theorem firstByte_append {p : Nat → Prop} {front : Bytes} (h : front.size ≠ 0) (rest : Bytes) :
    FirstByte p (front ++ rest) ↔ FirstByte p front := by
  have hlonger : (front ++ rest).size ≠ 0 := by
    rw [Array.size_append]
    omega
  rw [FirstByte, FirstByte, byteAt_append_left front rest (Nat.pos_of_ne_zero h)]
  exact ⟨fun hfirst => ⟨h, hfirst.2⟩, fun hfirst => ⟨hlonger, hfirst.2⟩⟩

/-- Two decoders between which the first byte chooses may stand together, if the one for blobs
without a first byte finds the empty blob truncated. -/
theorem SelfDelimiting.choose {α : Type} {p : Nat → Prop} {decode yes no : Bytes → Except Error α}
    (hyes : SelfDelimiting yes) (hno : SelfDelimiting no)
    (hthen : ∀ blob, FirstByte p blob → decode blob = yes blob)
    (helse : ∀ blob, ¬FirstByte p blob → decode blob = no blob)
    (hempty : no #[] = .error (.signatureTruncated 0)) : SelfDelimiting decode := by
  have hnil : decode #[] = .error (.signatureTruncated 0) := by
    rw [helse #[] fun h => h.1 rfl, hempty]
  have hnonempty {blob : Bytes} {a : α} (h : decode blob = .ok a) : blob.size ≠ 0 := by
    intro hsize
    rw [Array.size_eq_zero_iff.1 hsize, hnil] at h
    cases h
  constructor
  · intro blob a ha more hmore
    have hsame := firstByte_append (p := p) (hnonempty ha) more
    by_cases hfirst : FirstByte p blob
    · rw [hthen _ (hsame.2 hfirst)]
      exact hyes.extended blob a (hthen blob hfirst ▸ ha) more hmore
    · rw [helse _ fun h => hfirst (hsame.1 h)]
      exact hno.extended blob a (helse blob hfirst ▸ ha) more hmore
  · intro blob a ha front rest hblob hrest
    -- an empty front has no first byte to choose by
    by_cases hfront : front.size = 0
    · rw [Array.size_eq_zero_iff.1 hfront]
      exact ⟨0, Nat.le_refl _, hnil⟩
    have hsame := firstByte_append (p := p) hfront rest
    rw [← hblob] at hsame
    by_cases hfirst : FirstByte p blob
    · rw [hthen _ (hsame.1 hfirst)]
      exact hyes.cut blob a (hthen blob hfirst ▸ ha) front rest hblob hrest
    · rw [helse _ fun h => hfirst (hsame.2 h)]
      exact hno.cut blob a (helse blob hfirst ▸ ha) front rest hblob hrest

/-! ### Signatures -/

namespace Signature

theorem decodeMember_selfDelimiting (limit : Nat) : SelfDelimiting (decodeMember limit) :=
  .of_sequential (MemberSig.reader_sequential (TypeSig.reader_sequential limit limit))

theorem decodeLocals_selfDelimiting (limit : Nat) : SelfDelimiting (decodeLocals limit) :=
  .of_sequential (localsReader_sequential (TypeSig.reader_sequential limit limit))

/-- The first byte of a signature that stands alone is there to be looked at, or the blob is
empty and truncated either way. -/
theorem decodeStandalone_selfDelimiting (limit : Nat) :
    SelfDelimiting (decodeStandalone limit) := by
  have hthen (blob : Bytes) (h : FirstByte (· % 16 = 7) blob) :
      decodeStandalone limit blob = (decodeLocals limit blob).map .locals := if_pos h
  have helse (blob : Bytes) (h : ¬FirstByte (· % 16 = 7) blob) :
      decodeStandalone limit blob = (decodeMember limit blob).map .method := if_neg h
  exact .choose ((decodeLocals_selfDelimiting limit).map .locals)
    ((decodeMember_selfDelimiting limit).map .method) hthen helse rfl

/-- Every kind of signature is self-delimiting, under every limit on the nesting of types. -/
theorem decoders_selfDelimiting (limit : Nat) :
    SelfDelimiting (decodeMember limit) ∧ SelfDelimiting (decodeLocals limit) ∧
      SelfDelimiting (decodeType limit) ∧ SelfDelimiting (decodeInstantiation limit) ∧
      SelfDelimiting (decodeStandalone limit) := by
  have htype := TypeSig.reader_sequential limit limit
  refine ⟨decodeMember_selfDelimiting limit, decodeLocals_selfDelimiting limit, ?_, ?_,
    decodeStandalone_selfDelimiting limit⟩
  · exact .of_sequential htype
  · exact .of_sequential (instantiationReader_sequential htype)

/-- A pointer, with one byte too many and with one byte too few. -/
theorem decoders_selfDelimiting_pointer :
    ∃ t, decodeType 2 #[0x0F, 0x08] = .ok t ∧
      decodeType 2 (#[0x0F, 0x08] ++ #[0x08]) = .error (.signatureTrailing 2 3) ∧
      ∃ offset ≤ 1, decodeType 2 #[0x0F] = .error (.signatureTruncated offset) := by
  let pointer : TypeSig := ⟨[], false, 0, 1, .primitive .i4⟩
  have hpointer : decodeType 2 #[0x0F, 0x08] = .ok pointer := by rfl
  obtain ⟨-, -, htype, -⟩ := decoders_selfDelimiting 2
  exact ⟨pointer, hpointer, htype.extended _ _ hpointer #[0x08] (by decide),
    htype.cut _ _ hpointer #[0x0F] #[0x08] rfl (by decide)⟩

end Signature

end CliMeta
