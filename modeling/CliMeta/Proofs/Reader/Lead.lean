import CliMeta.Proofs.Reader.Compressed
import CliMeta.Proofs.Reader.Contained

/-!
The lead byte of a compressed integer. Its leading bits announce a width, and with it all that can
happen: the number stands there in the one form that it has in this width, or the buffer ends inside
the form, or no width is announced. A signed number is rotated within the bits of its width, so the
announced width also tells where its sign is.
-/

namespace CliMeta

namespace Reader

variable {α : Type} {data : Bytes} {position : Nat}

/-! ### Rotation -/

/-- The two's complement form of a number is its bit vector. -/
theorem toNat_ofInt_eq_wrap {bits : Nat} {value : Int} (hbits : 0 < bits)
    (h : FitsSigned bits value) : (BitVec.ofInt bits value).toNat = wrap bits value := by
  obtain ⟨hlow, hhigh⟩ := h
  have hhalf := shiftLeft_half hbits
  rw [BitVec.toNat_ofInt, ← Nat.one_shiftLeft, wrap]
  generalize 1 <<< bits = modulus at *
  generalize 1 <<< (bits - 1) = half at *
  split
  · rw [Int.emod_eq_of_lt (by omega) (by omega)]
  · rw [← Int.add_emod_right, Int.emod_eq_of_lt (by omega) (by omega)]

/-- The bit that a rotation to the left moves out at the top comes in at the bottom. -/
theorem toNat_rotateLeft_one {bits : Nat} (hbits : 1 < bits) (x : BitVec bits) :
    (x.rotateLeft 1).toNat = 2 * (x.toNat % 1 <<< (bits - 1)) + x.toNat / 1 <<< (bits - 1) := by
  have hhalf := shiftLeft_half (Nat.lt_of_succ_lt hbits)
  have hlt := x.isLt
  simp only [Nat.one_shiftLeft] at hhalf ⊢
  rw [hhalf] at hlt
  have htop : x.toNat / 2 ^ (bits - 1) < 2 ^ 1 := by
    rw [Nat.div_lt_iff_lt_mul (Nat.two_pow_pos _)]
    exact hlt
  rw [BitVec.toNat_rotateLeft, Nat.mod_eq_of_lt hbits, Nat.shiftRight_eq_div_pow, Nat.shiftLeft_eq,
    hhalf, Nat.mul_comm x.toNat, Nat.pow_one, Nat.mul_mod_mul_left]
  exact (Nat.two_pow_add_eq_or_of_lt htop _).symm

theorem rotate_eq_rotateLeft {bits : Nat} {value : Int} (hbits : 1 < bits)
    (h : FitsSigned bits value) :
    rotate bits value = ((BitVec.ofInt bits value).rotateLeft 1).toNat := by
  have hpos := Nat.lt_of_succ_lt hbits
  rw [toNat_rotateLeft_one hbits, toNat_ofInt_eq_wrap hpos h, rotate, wrap, shiftLeft_half hpos]
  obtain ⟨hlow, hhigh⟩ := h
  generalize 1 <<< (bits - 1) = half at *
  split
  · have hsmall : value.toNat < half := by omega
    rw [Nat.mod_eq_of_lt hsmall, Nat.div_eq_of_lt hsmall, Nat.add_zero]
  -- the sign is the highest bit of the form, and what is left of the form is the rest of the number
  · have hform : (value + (2 * half : Nat)).toNat = half + (value + half).toNat := by omega
    have hsmall : (value + half).toNat < half := by omega
    rw [hform, Nat.add_mod_left, Nat.mod_eq_of_lt hsmall, Nat.add_div_left _ (by omega),
      Nat.div_eq_of_lt hsmall]

/-- The bytes of a signed number in a width: the bits of the width hold its two's complement form,
rotated to the left by one. -/
def rotatedIn (width : Nat) (value : Int) : List UInt8 :=
  compressedIn width ((BitVec.ofInt (payloadBits width) value).rotateLeft 1).toNat

theorem rotatedIn_eq {width : Nat} {value : Int} (h : FitsSigned (payloadBits width) value) :
    rotatedIn width value = compressedIn width (rotate (payloadBits width) value) := by
  have hbits : 1 < payloadBits width := by
    unfold payloadBits
    split <;> decide
  rw [rotatedIn, rotate_eq_rotateLeft hbits h]

/-! ### Announced widths -/

/-- The width that the leading bits of a byte announce. -/
def announcedWidth? (lead : Nat) : Option Nat :=
  if lead / 0x80 = 0b0 then some 1
  else if lead / 0x40 = 0b10 then some 2
  else if lead / 0x20 = 0b110 then some 4
  else none

theorem announcedWidth?_eq (lead : Nat) :
    announcedWidth? lead =
      if lead < 0x80 then some 1 else if lead < 0xC0 then some 2
      else if lead < 0xE0 then some 4 else none := by
  unfold announcedWidth?
  grind

theorem announcedWidth?_eq_none {lead : Nat} (h : lead < 256) :
    announcedWidth? lead = none ↔ lead / 0x20 = 0b111 := by
  rw [announcedWidth?_eq]
  grind

/-- The form of a number announces its width. -/
theorem exists_lead_compressedIn {width value : Nat} (h : IsCompressedWidth width)
    (hvalue : value < 1 <<< payloadBits width) :
    ∃ lead tail, compressedIn width value = lead :: tail ∧
      announcedWidth? lead.toNat = some width := by
  have hbyte {number : Nat} (hnumber : number < 0x100) : (UInt8.ofNat number).toNat = number :=
    UInt8.toNat_ofNat_of_lt' hnumber
  rcases h with rfl | rfl | rfl
  all_goals
    simp only [payloadBits] at hvalue
    refine ⟨_, _, rfl, ?_⟩
    rw [hbyte (by omega), announcedWidth?_eq]
    grind

/-! ### Outcomes -/

/-- What the byte at a position lets a reader of a compressed integer come to. -/
inductive Announced (data : Bytes) (position : Nat) : EStateM.Result Error Nat α → Prop
  | ended (h : data.size ≤ position) : Announced data position (.error .outOfBounds position)
  | unannounced {defect : Defect} (h : position < data.size)
      (hlead : announcedWidth? (data.byteAt position) = none) :
      Announced data position (.error (.malformed defect) (position + 1))
  | short {width : Nat} (h : position < data.size)
      (hlead : announcedWidth? (data.byteAt position) = some width)
      (hshort : data.size < position + width) :
      Announced data position (.error .outOfBounds (position + 1))
  | number {width : Nat} {a : α} (h : position < data.size)
      (hlead : announcedWidth? (data.byteAt position) = some width)
      (hinside : position + width ≤ data.size) :
      Announced data position (.ok a (position + width))

theorem bytes_outside {count : Nat} (h : data.size < position + count) :
    bytes count data position = .error .outOfBounds position := by
  have hnot : ¬(position ≤ position + count ∧ position + count ≤ data.size) := by omega
  rw [bytes, Bytes.slice?, if_neg hnot]

theorem announced_compressed (data : Bytes) (position : Nat) :
    Announced data position (compressed data position) := by
  obtain hend | hinside : data.size ≤ position ∨ position < data.size := by omega
  · rw [compressed, bind_of_error (byte_at_end hend)]
    exact .ended hend
  have hwidth := announcedWidth?_eq (data.byteAt position)
  rw [compressed, bind_of_ok (byte_inside hinside)]
  by_cases hsmall : data.byteAt position < 0x80
  · rw [if_pos hsmall] at hwidth ⊢
    exact .number hinside hwidth hinside
  rw [if_neg hsmall] at hwidth ⊢
  by_cases hmiddle : data.byteAt position < 0xC0
  · rw [if_pos hmiddle] at hwidth ⊢
    obtain hshort | hsecond : data.size ≤ position + 1 ∨ position + 1 < data.size := by omega
    · rw [bind_of_error (byte_at_end hshort)]
      exact .short hinside hwidth (by omega)
    · rw [bind_of_ok (byte_inside hsecond)]
      exact .number hinside hwidth hsecond
  rw [if_neg hmiddle] at hwidth ⊢
  by_cases hlarge : data.byteAt position < 0xE0
  · rw [if_pos hlarge] at hwidth ⊢
    obtain hshort | hothers : data.size < position + 4 ∨ position + 4 ≤ data.size := by omega
    · rw [bind_of_error (bytes_outside (by omega))]
      exact .short hinside hwidth hshort
    · rw [bind_of_ok (bytes_eq_ok.2 ⟨by omega, rfl, rfl⟩)]
      exact .number hinside hwidth hothers
  · rw [if_neg hlarge] at hwidth ⊢
    exact .unannounced hinside hwidth

/-- The signed number is what the unsigned one stands for in its width. -/
theorem compressedSigned_eq (data : Bytes) (position : Nat) :
    compressedSigned data position =
      match compressed data position with
      | .ok value next => .ok (unrotate (payloadBits (next - position)) value) next
      | .error e stop => .error e stop := by
  show (compressed >>= fun value => Reader.position >>= fun stop =>
    Pure.pure (unrotate (payloadBits (stop - position)) value)) data position = _
  rw [bind_apply]
  cases compressed data position <;> rfl

theorem announced_compressedSigned (data : Bytes) (position : Nat) :
    Announced data position (compressedSigned data position) := by
  have hannounced := announced_compressed data position
  rw [compressedSigned_eq]
  generalize compressed data position = outcome at hannounced ⊢
  cases hannounced with
  | ended h => exact .ended h
  | unannounced h hlead => exact .unannounced h hlead
  | short h hlead hshort => exact .short h hlead hshort
  | number h hlead hinside => exact .number h hlead hinside

namespace Announced

variable {outcome : EStateM.Result Error Nat α}

theorem malformed_iff (h : Announced data position outcome) :
    (∃ defect stop, outcome = .error (.malformed defect) stop) ↔
      position < data.size ∧ data.byteAt position / 0x20 = 0b111 := by
  rw [← announcedWidth?_eq_none (data.byteAt_lt position)]
  cases h with
  | ended hend => simp [Nat.not_lt.2 hend]
  | unannounced hinside hlead => simp [hinside, hlead]
  | short hinside hlead hshort => simp [hlead]
  | number hinside hlead hfits => simp [hlead]

theorem outOfBounds_iff (h : Announced data position outcome) :
    (∃ stop, outcome = .error .outOfBounds stop) ↔
      (position < data.size →
        ∃ width, announcedWidth? (data.byteAt position) = some width ∧
          data.size < position + width) := by
  cases h with
  | ended hend => simp [Nat.not_lt.2 hend]
  | unannounced hinside hlead => simp [hinside, hlead]
  | short hinside hlead hshort => simp [hlead, hshort]
  | number hinside hlead hfits => simp [hinside, hlead, hfits]

theorem error (h : Announced data position outcome) {e : Error} {stop : Nat}
    (hout : outcome = .error e stop) : e = .outOfBounds ∨ ∃ defect, e = .malformed defect := by
  cases h with
  | ended hend => cases hout; exact .inl rfl
  | unannounced hinside hlead => cases hout; exact .inr ⟨_, rfl⟩
  | short hinside hlead hshort => cases hout; exact .inl rfl
  | number hinside hlead hfits => cases hout

theorem le_size (h : Announced data position outcome) {a : α} {next : Nat}
    (hout : outcome = .ok a next) : position ≤ data.size := by
  cases h with
  | number hinside hlead hfits => exact Nat.le_of_lt hinside
  | _ => cases hout

end Announced

/-! ### Numbers and their forms -/

/-- A number stands at a position in its form in a width, which the first byte announces. -/
structure StandsIn (data : Bytes) (position next : Nat) (width : Nat) (form : List UInt8) :
    Prop where
  lead : announcedWidth? (data.byteAt position) = some width
  form : data.slice? position next = some form.toArray
  next : next = position + width

theorem StandsIn.of_standsAt {width raw : Nat} {rest : List UInt8} (hwidth : IsCompressedWidth width)
    (hraw : raw < 1 <<< payloadBits width)
    (h : StandsAt data position (compressedIn width raw) rest) :
    StandsIn data position (position + (compressedIn width raw).length) width
      (compressedIn width raw) where
  lead := by
    obtain ⟨lead, tail, hform, hlead⟩ := exists_lead_compressedIn hwidth hraw
    rw [hform] at h
    rw [h.byteAt, hlead]
  form := h.slice?
  next := by rw [compressedIn_length hwidth]

theorem compressed_standsIn {value next : Nat} (h : compressed data position = .ok value next) :
    ∃ width, IsCompressedWidth width ∧ value < 1 <<< payloadBits width ∧
      StandsIn data position next width (compressedIn width value) := by
  obtain ⟨written, ⟨width, hwidth, hvalue, rfl⟩, rfl, hstands⟩ :=
    Spells.compressed data value next ((announced_compressed data position).le_size h) h
  exact ⟨width, hwidth, hvalue, .of_standsAt hwidth hvalue hstands⟩

theorem compressedSigned_standsIn {value : Int} {next : Nat}
    (h : compressedSigned data position = .ok value next) :
    ∃ width, IsCompressedWidth width ∧ FitsSigned (payloadBits width) value ∧
      StandsIn data position next width (rotatedIn width value) := by
  obtain ⟨written, ⟨width, hwidth, hvalue, rfl⟩, rfl, hstands⟩ :=
    Spells.compressedSigned data value next ((announced_compressedSigned data position).le_size h) h
  refine ⟨width, hwidth, hvalue, ?_⟩
  rw [rotatedIn_eq hvalue]
  exact .of_standsAt hwidth (rotate_lt (payloadBits_pos width) hvalue) hstands

/-- A reader whose numbers have one form in each width that holds them. The first byte of what it
meets decides on the width, and with it on the outcome. -/
structure ReadsForms (r : Reader α) (Fits : Nat → α → Prop) (form : Nat → α → List UInt8)
    (least : α → Nat) : Prop where
  reads : ∀ width a, IsCompressedWidth width → Fits width a →
    (form width a).length = width ∧ Reads r (form width a) a
  standsIn : ∀ data position a next, r data position = .ok a next →
    ∃ width, IsCompressedWidth width ∧ Fits width a ∧
      StandsIn data position next width (form width a)
  malformed_iff : ∀ data position,
    (∃ defect stop, r data position = .error (.malformed defect) stop) ↔
      position < data.size ∧ data.byteAt position / 0x20 = 0b111
  outOfBounds_iff : ∀ data position,
    (∃ stop, r data position = .error .outOfBounds stop) ↔
      (position < data.size →
        ∃ width, announcedWidth? (data.byteAt position) = some width ∧
          data.size < position + width)
  error : ∀ data position e stop, r data position = .error e stop →
    e = .outOfBounds ∨ ∃ defect, e = .malformed defect
  /-- The least width that holds a number is one of the three, and as good as any. -/
  least : ∀ a, Fits 4 a → IsCompressedWidth (least a) ∧ Fits (least a) a ∧
    (∀ width, IsCompressedWidth width → Fits width a → least a ≤ width) ∧
      Reads r (form (least a) a) a

theorem compressed_readsForms_unsigned :
    ReadsForms compressed (fun width value => value < 1 <<< payloadBits width) compressedIn
      compressedWidth where
  reads width value hwidth hvalue := ⟨compressedIn_length hwidth value, .compressedIn hwidth hvalue⟩
  standsIn data position value next h := compressed_standsIn h
  malformed_iff data position := (announced_compressed data position).malformed_iff
  outOfBounds_iff data position := (announced_compressed data position).outOfBounds_iff
  error data position e stop h := (announced_compressed data position).error h
  least value hvalue := by
    have hmost : value ≤ maxCompressed := Nat.le_of_lt_succ hvalue
    exact ⟨isCompressedWidth_compressedWidth value, lt_compressedWidth hmost,
      fun width hwidth hfits => compressedWidth_le hwidth hfits, .compressed hmost⟩

theorem compressed_readsForms_signed :
    ReadsForms compressedSigned (fun width => FitsSigned (payloadBits width)) rotatedIn
      compressedSignedWidth where
  reads width value hwidth hvalue := by
    rw [rotatedIn_eq hvalue]
    exact ⟨compressedIn_length hwidth _, .compressedSignedIn hwidth hvalue⟩
  standsIn data position value next h := compressedSigned_standsIn h
  malformed_iff data position := (announced_compressedSigned data position).malformed_iff
  outOfBounds_iff data position := (announced_compressedSigned data position).outOfBounds_iff
  error data position e stop h := (announced_compressedSigned data position).error h
  least value hvalue := by
    have hfits := fits_compressedSignedWidth hvalue
    refine ⟨isCompressedWidth_compressedSignedWidth value, hfits,
      fun width hwidth hwithin => compressedSignedWidth_le hwidth hwithin, ?_⟩
    rw [rotatedIn_eq hfits]
    exact .compressedSigned hvalue

/-- Compressed integers are read in their forms, unsigned ones and signed ones alike. -/
theorem compressed_readsForms :
    ReadsForms compressed (fun width value => value < 1 <<< payloadBits width) compressedIn
        compressedWidth ∧
      ReadsForms compressedSigned (fun width => FitsSigned (payloadBits width)) rotatedIn
        compressedSignedWidth :=
  ⟨compressed_readsForms_unsigned, compressed_readsForms_signed⟩

/-- In two bytes the sign is at another place than in one, although the rotated numbers are the
same. -/
example : valueAt compressedSigned #[0x7B] 0 = .ok (-3) ∧
    valueAt compressedSigned #[0x80, 0x7B] 0 = .ok (-8131) := by
  decide +kernel

end Reader

end CliMeta
