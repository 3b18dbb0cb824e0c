/-!
Byte buffers. Every value of the metadata format is little-endian, so a buffer is read through
`Bytes.littleEndian`; signed values are the two's complement reading of the same bytes.
-/

namespace CliMeta

abbrev Bytes := Array UInt8

namespace Bytes

/-- The byte at a position, and zero past the end. -/
def byteAt (b : Bytes) (position : Nat) : Nat :=
  match b[position]? with
  | some byte => byte.toNat
  | none => 0

theorem byteAt_lt (b : Bytes) (position : Nat) : b.byteAt position < 256 := by
  unfold byteAt
  split
  · exact UInt8.toNat_lt _
  · decide

/-- The number that `width` bytes from a position spell, lowest byte first. -/
def littleEndian (b : Bytes) (position : Nat) : Nat → Nat
  | 0 => 0
  | width + 1 => b.byteAt position + 256 * b.littleEndian (position + 1) width

@[simp] theorem littleEndian_zero (b : Bytes) (position : Nat) :
    b.littleEndian position 0 = 0 := rfl

theorem littleEndian_succ (b : Bytes) (position width : Nat) :
    b.littleEndian position (width + 1) =
      b.byteAt position + 256 * b.littleEndian (position + 1) width := rfl

theorem byteAt_append (front back : List UInt8) (position : Nat) :
    byteAt (front ++ back).toArray (front.length + position) = byteAt back.toArray position := by
  simp only [byteAt, List.getElem?_toArray]
  rw [List.getElem?_append_right (Nat.le_add_right ..), Nat.add_sub_cancel_left]

/-- What is in front of the bytes does not matter. -/
theorem littleEndian_append (front back : List UInt8) (position width : Nat) :
    littleEndian (front ++ back).toArray (front.length + position) width =
      littleEndian back.toArray position width := by
  induction width generalizing position with
  | zero => rfl
  | succ width ih => rw [littleEndian_succ, littleEndian_succ, byteAt_append, Nat.add_assoc, ih]

/-- The bytes from `start` up to `stop`, if the buffer holds all of them. -/
def slice? (b : Bytes) (start stop : Nat) : Option Bytes :=
  if start ≤ stop ∧ stop ≤ b.size then some (b.extract start stop) else none

theorem slice?_eq_some {b taken : Bytes} {start stop : Nat} (h : b.slice? start stop = some taken) :
    start ≤ stop ∧ stop ≤ b.size ∧ taken = b.extract start stop := by
  unfold slice? at h
  split at h
  · rename_i inside
    exact ⟨inside.1, inside.2, (Option.some.inj h).symm⟩
  · cases h

theorem size_of_slice? {b taken : Bytes} {start length : Nat}
    (h : b.slice? start (start + length) = some taken) : taken.size = length := by
  obtain ⟨_, inside, rfl⟩ := slice?_eq_some h
  simp
  omega

/-- The place of the first zero byte from a position on. -/
def nulFrom? (b : Bytes) (position : Nat) : Option Nat :=
  if h : position < b.size then
    if b[position] = 0 then some position else b.nulFrom? (position + 1)
  else none
termination_by b.size - position

/-- The bytes before the first zero byte, and whether there is one. -/
def untilNul (b : Bytes) : Bytes × Bool :=
  match b.nulFrom? 0 with
  | some length => (b.extract 0 length, true)
  | none => (b, false)

end Bytes

/-- The little-endian bytes of a number, reduced to `width` bytes. -/
def littleEndianBytes (value : Nat) : Nat → List UInt8
  | 0 => []
  | width + 1 => UInt8.ofNat (value % 256) :: littleEndianBytes (value / 256) width

@[simp] theorem littleEndianBytes_length (value width : Nat) :
    (littleEndianBytes value width).length = width := by
  induction width generalizing value with
  | zero => rfl
  | succ width ih => simp [littleEndianBytes, ih]

/-- The bytes of a number that fits in them spell the number, whatever follows. -/
theorem Bytes.littleEndian_littleEndianBytes (value width : Nat) (rest : List UInt8)
    (h : value < 1 <<< (8 * width)) :
    littleEndian (littleEndianBytes value width ++ rest).toArray 0 width = value := by
  induction width generalizing value with
  | zero =>
      simp at h
      simp [h]
  | succ width ih =>
      have step : 1 <<< (8 * (width + 1)) = 1 <<< (8 * width) * 256 := by
        rw [Nat.mul_succ, Nat.shiftLeft_add, Nat.shiftLeft_eq]
      have tail := ih (value / 256) (by omega)
      have shifted := littleEndian_append [UInt8.ofNat (value % 256)]
        (littleEndianBytes (value / 256) width ++ rest) 0 width
      have head : byteAt (littleEndianBytes value (width + 1) ++ rest).toArray 0 = value % 256 := by
        simp [byteAt, littleEndianBytes]
      simp only [List.singleton_append, List.length_singleton, Nat.add_zero] at shifted
      rw [littleEndian_succ, head]
      simp only [littleEndianBytes]
      rw [List.cons_append, Nat.zero_add, shifted, tail]
      omega

/-- The two's complement reading of a number of `bits` bits. -/
def twosComplement (bits value : Nat) : Int :=
  if value < 1 <<< (bits - 1) then value else (value : Int) - (1 <<< bits : Nat)

end CliMeta
