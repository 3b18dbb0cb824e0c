import CliMeta.Proofs.Reader.Inversion
import Mathlib.Data.List.Basic

/-!
Compressed integers, written. A width of one, two or four bytes holds 7, 14 or 29 bits of a number,
and its lead byte tells it from the others; signed numbers are rotated within these bits so that the
sign comes last. The shortest width that holds a number is its canonical one.
-/

namespace CliMeta

/-- The largest number that can be written compressed. -/
def maxCompressed : Nat := 0x1FFFFFFF

/-- The bytes of a compressed number in a width, highest byte first. -/
def compressedIn : (width value : Nat) → List UInt8
  | 1, value => [UInt8.ofNat value]
  | 2, value => [UInt8.ofNat (0x80 + value / 0x100), UInt8.ofNat (value % 0x100)]
  | _, value =>
      [UInt8.ofNat (0xC0 + value / 0x1000000), UInt8.ofNat (value / 0x10000 % 0x100),
        UInt8.ofNat (value / 0x100 % 0x100), UInt8.ofNat (value % 0x100)]

/-- The least width that holds a number. -/
def compressedWidth (value : Nat) : Nat :=
  if value < 0x80 then 1 else if value < 0x4000 then 2 else 4

def compressedBytes (value : Nat) : List UInt8 :=
  compressedIn (compressedWidth value) value

/-- Rotates a signed number within `bits` bits, which puts its sign lowest. -/
def rotate (bits : Nat) (value : Int) : Nat :=
  if 0 ≤ value then 2 * value.toNat
  else 2 * (value + (1 <<< (bits - 1) : Nat)).toNat + 1

/-- The least width that holds a signed number. -/
def compressedSignedWidth (value : Int) : Nat :=
  if -0x40 ≤ value ∧ value < 0x40 then 1
  else if -0x2000 ≤ value ∧ value < 0x2000 then 2
  else 4

def compressedSignedBytes (value : Int) : List UInt8 :=
  let width := compressedSignedWidth value
  compressedIn width (rotate (Reader.payloadBits width) value)

/-- The widths that a compressed number can have. -/
def IsCompressedWidth (width : Nat) : Prop :=
  width = 1 ∨ width = 2 ∨ width = 4

theorem compressedIn_length {width : Nat} (h : IsCompressedWidth width) (value : Nat) :
    (compressedIn width value).length = width := by
  rcases h with rfl | rfl | rfl <;> rfl

namespace Reader

/-- A number that fits the bits of a width is read back from it. -/
theorem Reads.compressedIn {width value : Nat} (h : IsCompressedWidth width)
    (hvalue : value < 1 <<< payloadBits width) :
    Reads compressed (compressedIn width value) value := by
  rcases h with rfl | rfl | rfl <;> simp only [payloadBits] at hvalue
  · have hsmall : value < 0x80 := by omega
    refine (Reads.byteOfNat (by omega)).bind_pure ?_
    rw [if_pos hsmall]
    exact .pure value
  · have hlarge : ¬0x80 + value / 0x100 < 0x80 := by omega
    have hlead : 0x80 + value / 0x100 < 0xC0 := by omega
    have hvalue : (0x80 + value / 0x100) % 0x40 * 0x100 + value % 0x100 = value := by omega
    rw [CliMeta.compressedIn, ← List.singleton_append]
    refine (Reads.byteOfNat (by omega)).bind ?_
    rw [if_neg hlarge, if_pos hlead]
    refine (Reads.byteOfNat (by omega)).bind_pure ?_
    rw [hvalue]
    exact .pure value
  · have hlarge : ¬0xC0 + value / 0x1000000 < 0x80 := by omega
    have hlarger : ¬0xC0 + value / 0x1000000 < 0xC0 := by omega
    have hlead : 0xC0 + value / 0x1000000 < 0xE0 := by omega
    have hvalue : (0xC0 + value / 0x1000000) % 0x20 * 0x1000000 +
        value / 0x10000 % 0x100 * 0x10000 + value / 0x100 % 0x100 * 0x100 + value % 0x100 =
          value := by omega
    refine (Reads.byteOfNat (by omega)).bind ?_
    rw [if_neg hlarge, if_neg hlarger, if_pos hlead]
    refine (Reads.bytes _).bind_pure ?_
    simp only [Bytes.byteAt, List.getElem?_toArray, List.getElem?_cons_zero,
      List.getElem?_cons_succ, UInt8.toNat_ofNat_of_lt' (Nat.mod_lt _ (by decide : 0x100 > 0))]
    rw [hvalue]
    exact .pure value

theorem isCompressedWidth_compressedWidth (value : Nat) :
    IsCompressedWidth (compressedWidth value) := by
  unfold compressedWidth IsCompressedWidth
  grind

/-- The least width has room for every number that can be written. -/
theorem lt_compressedWidth {value : Nat} (h : value ≤ maxCompressed) :
    value < 1 <<< payloadBits (compressedWidth value) := by
  unfold compressedWidth
  unfold maxCompressed at h
  split
  · assumption
  · split
    · assumption
    · simp only [payloadBits]
      omega

/-- No width that holds a number is less than the least one. -/
theorem compressedWidth_le {value width : Nat} (h : IsCompressedWidth width)
    (hvalue : value < 1 <<< payloadBits width) : compressedWidth value ≤ width := by
  unfold compressedWidth
  rcases h with rfl | rfl | rfl <;> simp only [payloadBits] at hvalue <;> grind

theorem Reads.compressed {value : Nat} (h : value ≤ maxCompressed) :
    Reads Reader.compressed (compressedBytes value) value :=
  .compressedIn (isCompressedWidth_compressedWidth value) (lt_compressedWidth h)

/-- Only zero is written with a zero byte in front. -/
theorem exists_lead_compressedBytes {value : Nat} (hpos : 0 < value) (h : value ≤ maxCompressed) :
    ∃ lead others, compressedBytes value = lead :: others ∧ lead ≠ 0 := by
  have hlead {number : Nat} (hnumber : 0 < number) (hbyte : number < 0x100) :
      UInt8.ofNat number ≠ 0 := by
    intro hzero
    have hnat := congrArg UInt8.toNat hzero
    rw [UInt8.toNat_ofNat_of_lt' hbyte] at hnat
    exact Nat.ne_of_gt hnumber hnat
  unfold maxCompressed at h
  rw [compressedBytes, compressedWidth]
  split
  · exact ⟨_, _, rfl, hlead hpos (by omega)⟩
  · split
    · exact ⟨_, _, rfl, hlead (by omega) (by omega)⟩
    · exact ⟨_, _, rfl, hlead (by omega) (by omega)⟩

/-! ### Signed numbers -/

theorem rotate_lt {bits : Nat} {value : Int} (hbits : 0 < bits) (h : FitsSigned bits value) :
    rotate bits value < 1 <<< bits := by
  obtain ⟨hlow, hhigh⟩ := h
  rw [shiftLeft_half hbits, rotate]
  split <;> omega

theorem unrotate_rotate {bits : Nat} {value : Int} (h : FitsSigned bits value) :
    unrotate bits (rotate bits value) = value := by
  obtain ⟨hlow, hhigh⟩ := h
  unfold unrotate rotate
  by_cases hsign : 0 ≤ value
  · simp only [hsign, if_true, Nat.mul_mod_right]
    omega
  · have hodd : (2 * (value + (1 <<< (bits - 1) : Nat)).toNat + 1) % 2 = 1 := by omega
    simp only [hsign, if_false, hodd, Nat.one_ne_zero]
    omega

/-- Every number that the bits hold is the rotated form of a signed number that fits them. -/
theorem unrotate_fits {bits value : Nat} (hbits : 0 < bits) (h : value < 1 <<< bits) :
    FitsSigned bits (unrotate bits value) ∧ rotate bits (unrotate bits value) = value := by
  rw [shiftLeft_half hbits] at h
  rw [FitsSigned, rotate, unrotate]
  generalize 1 <<< (bits - 1) = half at *
  constructor
  · split <;> omega
  · split <;> split <;> omega

theorem payloadBits_pos (width : Nat) : 0 < payloadBits width := by
  unfold payloadBits
  split <;> decide

/-- The width of the encoding is found again from the way that the position has moved. -/
theorem Reads.compressedSignedIn {width : Nat} {value : Int} (h : IsCompressedWidth width)
    (hvalue : FitsSigned (payloadBits width) value) :
    Reads compressedSigned (CliMeta.compressedIn width (rotate (payloadBits width) value))
      value := by
  intro data position rest hstands
  have hread := Reads.compressedIn h (rotate_lt (payloadBits_pos width) hvalue)
    data position rest hstands
  rw [compressedIn_length h] at hread ⊢
  show (Reader.compressed >>= fun raw =>
    Reader.position >>= fun stop =>
      Pure.pure (unrotate (payloadBits (stop - position)) raw)) data position = _
  rw [bind_of_ok hread]
  show EStateM.Result.ok (unrotate (payloadBits (position + width - position)) _) _ = _
  rw [Nat.add_sub_cancel_left, unrotate_rotate hvalue]

theorem isCompressedWidth_compressedSignedWidth (value : Int) :
    IsCompressedWidth (compressedSignedWidth value) := by
  unfold compressedSignedWidth IsCompressedWidth
  grind

theorem fits_compressedSignedWidth {value : Int} (h : FitsSigned 29 value) :
    FitsSigned (payloadBits (compressedSignedWidth value)) value := by
  unfold compressedSignedWidth
  split
  · assumption
  · split
    · assumption
    · exact h

theorem compressedSignedWidth_le {value : Int} {width : Nat} (h : IsCompressedWidth width)
    (hvalue : FitsSigned (payloadBits width) value) : compressedSignedWidth value ≤ width := by
  obtain ⟨hlow, hhigh⟩ := hvalue
  unfold compressedSignedWidth
  rcases h with rfl | rfl | rfl <;> simp only [payloadBits] at hlow hhigh <;> grind

theorem Reads.compressedSigned {value : Int} (h : FitsSigned 29 value) :
    Reads Reader.compressedSigned (compressedSignedBytes value) value :=
  .compressedSignedIn (isCompressedWidth_compressedSignedWidth value) (fits_compressedSignedWidth h)

/-! ### What any bytes are read as -/

theorem Ensures.byte : Ensures Reader.byte (· < 256) := by
  intro data position value next hout
  obtain hend | hinside : data.size ≤ position ∨ position < data.size := by omega
  · rw [byte_at_end hend] at hout
    cases hout
  · rw [byte_inside hinside] at hout
    cases hout
    exact data.byteAt_lt position

theorem Ensures.compressed : Ensures Reader.compressed (· ≤ maxCompressed) := by
  refine .bind .byte fun lead hlead => ?_
  unfold maxCompressed
  refine .ite (fun _ => .pure (by omega)) fun _ => .ite (fun _ => ?_) fun _ => ?_
  · exact .bind .byte fun second hsecond => .pure (by omega)
  · refine .ite (fun _ => ?_) fun _ => .malformed _
    refine .bind (.trivial _) fun others _ => .pure ?_
    have hfirst := others.byteAt_lt 0
    have hsecond := others.byteAt_lt 1
    have hthird := others.byteAt_lt 2
    omega

/-- Whatever is read as a compressed number is written in one of the three widths, though not always
in the least one. -/
theorem Spells.compressed {start : Nat} :
    Spells Reader.compressed start fun value written =>
      ∃ width, IsCompressedWidth width ∧ value < 1 <<< payloadBits width ∧
        written = compressedIn width value := by
  refine .bind .byte fun lead first ⟨hlead, hfirst⟩ => ?_
  subst hfirst
  refine .ite (fun hsmall => .pure ?_) fun hlarge => .ite (fun hmiddle => ?_) fun hlarger => ?_
  · exact ⟨1, .inl rfl, hsmall, rfl⟩
  · refine .bind .byte fun second written ⟨hsecond, hwritten⟩ => .pure ?_
    subst hwritten
    have hhigh : 0x80 + (lead % 0x40 * 0x100 + second) / 0x100 = lead := by omega
    have hlow : (lead % 0x40 * 0x100 + second) % 0x100 = second := by omega
    refine ⟨2, .inr (.inl rfl), ?_, ?_⟩
    · show _ < 0x4000
      omega
    · rw [compressedIn, hhigh, hlow]
      rfl
  · refine .ite (fun hlargest => ?_) fun _ => .throw _
    refine .bind (.bytes 3) fun others written ⟨hcount, hwritten⟩ => .pure ?_
    subst hwritten
    obtain ⟨a, b, c, hothers⟩ := List.length_eq_three.1 hcount
    have ha := a.toNat_lt
    have hb := b.toNat_lt
    have hc := c.toNat_lt
    simp only [Bytes.byteAt, ← Array.getElem?_toList, hothers, List.getElem?_cons_zero,
      List.getElem?_cons_succ]
    generalize hvalue : lead % 0x20 * 0x1000000 + a.toNat * 0x10000 + b.toNat * 0x100 + c.toNat =
      value
    have hhighest : 0xC0 + value / 0x1000000 = lead := by omega
    have hthird : value / 0x10000 % 0x100 = a.toNat := by omega
    have hsecond : value / 0x100 % 0x100 = b.toNat := by omega
    have hlowest : value % 0x100 = c.toNat := by omega
    refine ⟨4, .inr (.inr rfl), ?_, ?_⟩
    · show _ < 0x20000000
      omega
    · show _ = [UInt8.ofNat (0xC0 + value / 0x1000000), UInt8.ofNat (value / 0x10000 % 0x100),
        UInt8.ofNat (value / 0x100 % 0x100), UInt8.ofNat (value % 0x100)]
      rw [hhighest, hthird, hsecond, hlowest]
      simp

/-- Whatever is read as a signed number is written in a width that holds it. -/
theorem Spells.compressedSigned {start : Nat} :
    Spells Reader.compressedSigned start fun value written =>
      ∃ width, IsCompressedWidth width ∧ FitsSigned (payloadBits width) value ∧
        written = compressedIn width (rotate (payloadBits width) value) := by
  refine .bind .position fun place none ⟨hplace, hnone⟩ => ?_
  subst hplace hnone
  refine .bind .compressed fun raw written ⟨width, hwidth, hraw, hwritten⟩ => ?_
  refine .bind .position fun stop none ⟨hstop, hnone⟩ => .pure ?_
  subst hstop hnone hwritten
  obtain ⟨hfits, hrotate⟩ := unrotate_fits (payloadBits_pos width) hraw
  -- the position has moved by the width
  rw [compressedIn_length hwidth, List.length_nil, Nat.add_zero, Nat.add_sub_cancel_left]
  refine ⟨width, hwidth, hfits, ?_⟩
  rw [hrotate, List.nil_append, List.append_nil, List.append_nil]

theorem Ensures.compressedSigned : Ensures Reader.compressedSigned (FitsSigned 29) := by
  refine .bind (.trivial _) fun start _ => .bind .compressed fun raw hraw => ?_
  refine .bind (.trivial _) fun stop _ => .pure ?_
  unfold maxCompressed at hraw
  have hbits : 1 <<< (payloadBits (stop - start) - 1) ≤ 0x10000000 := by
    unfold payloadBits
    split <;> decide
  simp only [FitsSigned, unrotate]
  generalize 1 <<< (payloadBits (stop - start) - 1) = half at hbits ⊢
  split <;> omega

end Reader

end CliMeta
