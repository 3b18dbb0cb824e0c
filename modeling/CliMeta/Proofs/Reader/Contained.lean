import CliMeta.Proofs.Reader.Sequential

/-!
Contained readers. Such a reader comes to its value without a look at the bytes behind the place
where it stops, so it comes to the same value over every buffer that begins with the bytes in front
of that place. A sequential reader may look ahead, as `peek` does; a contained one may not. Where
the number of bytes that a reader moves by is known beforehand, `Consumes` tells it, and `Takes` that
these bytes are all it needs.
-/

namespace CliMeta

/-! ### Slices -/

namespace Bytes

variable {b : Bytes} {start stop : Nat}

theorem extract_append_rest (h : stop ≤ b.size) :
    b.extract 0 stop ++ b.extract stop b.size = b := by
  simp [Array.extract_append_extract, h]

theorem byteAt_extract (h : stop ≤ b.size) {position : Nat} (hposition : start + position < stop) :
    byteAt (b.extract start stop) position = b.byteAt (start + position) := by
  have hinside : position < (b.extract start stop).size := by
    rw [Array.size_extract]
    omega
  have hwhole : start + position < b.size := by omega
  rw [byteAt, byteAt, Array.getElem?_eq_getElem hinside, Array.getElem?_eq_getElem hwhole,
    Array.getElem_extract]

/-- A number that lies in a slice is the number at its place in the whole. -/
theorem littleEndian_extract (h : stop ≤ b.size) {position width : Nat}
    (hfits : start + position + width ≤ stop) :
    littleEndian (b.extract start stop) position width =
      b.littleEndian (start + position) width := by
  induction width generalizing position with
  | zero => rfl
  | succ width ih =>
      rw [littleEndian_succ, littleEndian_succ, byteAt_extract h (by omega), ih (by omega),
        Nat.add_assoc]

end Bytes

namespace Reader

variable {α β : Type}

/-! ### Outcomes of steps -/

theorem exists_of_bind_ok {outcome : Except Error α} {f : α → Except Error β} {b : β}
    (h : outcome >>= f = .ok b) : ∃ a, outcome = .ok a ∧ f a = .ok b := by
  cases outcome with
  | error e => cases h
  | ok a => exact ⟨a, rfl, h⟩

theorem unsigned_eq_ok {width position value next : Nat} {data : Bytes} :
    unsigned width data position = .ok value next ↔
      position + width ≤ data.size ∧ value = data.littleEndian position width ∧
        next = position + width := by
  rw [unsigned]
  by_cases h : position + width ≤ data.size
  · simp [h, eq_comm]
  · simp [h]

theorem skip_eq_ok {count position next : Nat} {data : Bytes} {u : Unit} :
    skip count data position = .ok u next ↔
      position + count ≤ data.size ∧ next = position + count := by
  rw [skip]
  by_cases h : position + count ≤ data.size
  · simp [h, eq_comm]
  · simp [h]

theorem seek_eq_ok {target position next : Nat} {data : Bytes} {u : Unit} :
    seek target data position = .ok u next ↔ target ≤ data.size ∧ next = target := by
  rw [seek]
  by_cases h : target ≤ data.size
  · simp [h, eq_comm]
  · simp [h]

theorem bytes_eq_ok {count position next : Nat} {data taken : Bytes} :
    bytes count data position = .ok taken next ↔
      position + count ≤ data.size ∧ taken = data.extract position (position + count) ∧
        next = position + count := by
  rw [bytes, Bytes.slice?]
  by_cases h : position + count ≤ data.size
  · simp [h, eq_comm]
  · simp [h]

theorem valueAt_eq_ok {r : Reader α} {data : Bytes} {position : Nat} {a : α} :
    r.valueAt data position = .ok a ↔ ∃ next, r data position = .ok a next := by
  rw [valueAt]
  cases r data position with
  | ok b next => simp
  | error e next => simp

/-! ### Contained readers -/

/-- Over the front of a buffer and over all of it, the values that stop inside the front are the
same. -/
def Agrees (r : Reader α) : Prop :=
  ∀ (front rest : Bytes) position a next, position ≤ front.size → next ≤ front.size →
    (r front position = .ok a next ↔ r (front ++ rest) position = .ok a next)

structure Contained (r : Reader α) : Prop where
  forward : r.Forward
  agrees : r.Agrees

theorem Contained.pure (a : α) : (pure a : Reader α).Contained where
  forward _ _ h := ⟨Nat.le_refl _, h⟩
  agrees _ _ _ _ _ _ _ := Iff.rfl

theorem Contained.throw (e : Error) : (throw e : Reader α).Contained where
  forward _ _ h := ⟨Nat.le_refl _, h⟩
  agrees _ _ _ _ _ _ _ := by simp

theorem Contained.malformed (defect : Defect) : (malformed defect : Reader α).Contained :=
  .throw _

theorem Contained.bind {r : Reader α} {f : α → Reader β} (hr : r.Contained)
    (hf : ∀ a, (f a).Contained) : (r >>= f).Contained where
  forward := hr.forward.bind fun a => (hf a).forward
  agrees front rest position b stop hposition hstop := by
    have hwhole : position ≤ (front ++ rest).size := by
      rw [Array.size_append]
      omega
    rw [bind_eq_ok, bind_eq_ok]
    constructor
    · rintro ⟨a, next, hfirst, hthen⟩
      have hnext := (hr.forward.of_ok hposition hfirst).2
      exact ⟨a, next, (hr.agrees front rest position a next hposition hnext).1 hfirst,
        ((hf a).agrees front rest next b stop hnext hstop).1 hthen⟩
    · rintro ⟨a, next, hfirst, hthen⟩
      -- the second reader only moves forward, so the first one stopped inside the front
      have hnext : next ≤ front.size :=
        Nat.le_trans ((hf a).forward.of_ok (hr.forward.of_ok hwhole hfirst).2 hthen).1 hstop
      exact ⟨a, next, (hr.agrees front rest position a next hposition hnext).2 hfirst,
        ((hf a).agrees front rest next b stop hnext hstop).2 hthen⟩

theorem Contained.ite {p : Prop} [Decidable p] {r s : Reader α} (hr : r.Contained)
    (hs : s.Contained) : (if p then r else s).Contained := by
  split
  · exact hr
  · exact hs

theorem Contained.unsigned (width : Nat) : (unsigned width).Contained where
  forward := (Sequential.unsigned width).forward
  agrees front rest position value next _ hnext := by
    rw [unsigned_eq_ok, unsigned_eq_ok, Array.size_append]
    constructor
    · rintro ⟨hinside, rfl, rfl⟩
      exact ⟨by omega, (littleEndian_append_left front rest width hinside).symm, rfl⟩
    · rintro ⟨-, rfl, rfl⟩
      exact ⟨hnext, littleEndian_append_left front rest width hnext, rfl⟩

theorem Contained.byte : Reader.byte.Contained := .unsigned 1

theorem Contained.skip (count : Nat) : (skip count).Contained where
  forward := (Sequential.skip count).forward
  agrees front rest position u next _ hnext := by
    rw [skip_eq_ok, skip_eq_ok, Array.size_append]
    constructor
    · rintro ⟨hinside, rfl⟩
      exact ⟨by omega, rfl⟩
    · rintro ⟨-, rfl⟩
      exact ⟨hnext, rfl⟩

theorem Contained.align (alignment : Nat) : (align alignment).Contained where
  forward data position h := (Contained.skip _).forward data position h
  agrees front rest position u next h hnext :=
    (Contained.skip _).agrees front rest position u next h hnext

theorem Contained.times {r : Reader α} (hr : r.Contained) (count : Nat) :
    (times r count).Contained := by
  induction count with
  | zero => exact .pure _
  | succ count ih => exact .bind hr fun _ => .bind ih fun _ => .pure _

theorem Contained.remaining_bind {f : Nat → Reader α} (hf : ∀ fuel, (f fuel).Contained)
    (hfuel : FuelFree f) : (remaining >>= f).Contained where
  forward data position h := (hf _).forward data position h
  agrees front rest position a next h hnext := by
    rw [Reader.remaining_bind, Reader.remaining_bind]
    -- the longer buffer gives more fuel, which is of no use
    have hmore : front.size - position ≤ (front ++ rest).size - position := by
      rw [Array.size_append]
      omega
    rw [hfuel front position h _ _ (Nat.le_refl _) hmore]
    exact (hf _).agrees front rest position a next h hnext

/-! ### Bytes consumed -/

/-- The reader fails, or moves by so many bytes that are there. -/
def Consumes (r : Reader α) (count : Nat) : Prop :=
  ∀ data position a next, position ≤ data.size → r data position = .ok a next →
    next = position + count ∧ next ≤ data.size

variable {count count' : Nat}

theorem Consumes.pure (a : α) : Consumes (pure a : Reader α) 0 := by
  intro data position b next hposition hout
  cases hout
  exact ⟨rfl, hposition⟩

theorem Consumes.bind {r : Reader α} {f : α → Reader β} (hr : Consumes r count)
    (hf : ∀ a, Consumes (f a) count') : Consumes (r >>= f) (count + count') := by
  intro data position b stop hposition hout
  obtain ⟨a, next, hfirst, hthen⟩ := bind_eq_ok.1 hout
  obtain ⟨rfl, hnext⟩ := hr data position a next hposition hfirst
  obtain ⟨rfl, hstop⟩ := hf a data _ b stop hnext hthen
  exact ⟨Nat.add_assoc .., hstop⟩

theorem Consumes.unsigned (width : Nat) : Consumes (unsigned width) width := by
  intro data position value next _ hout
  obtain ⟨hinside, -, rfl⟩ := unsigned_eq_ok.1 hout
  exact ⟨rfl, hinside⟩

theorem Consumes.byte : Consumes byte 1 := .unsigned 1

theorem Consumes.skip (count : Nat) : Consumes (skip count) count := by
  intro data position u next _ hout
  obtain ⟨hinside, rfl⟩ := skip_eq_ok.1 hout
  exact ⟨rfl, hinside⟩

/-! ### Bytes needed -/

/-- The reader moves by so many bytes, and fails only where there are not as many. -/
structure Takes (r : Reader α) (count : Nat) : Prop where
  consumes : Consumes r count
  enough : ∀ data position, position + count ≤ data.size →
    ∃ a, r data position = .ok a (position + count)

theorem Takes.pure (a : α) : Takes (pure a : Reader α) 0 where
  consumes := .pure a
  enough _ _ _ := ⟨a, rfl⟩

theorem Takes.bind {r : Reader α} {f : α → Reader β} (hr : Takes r count)
    (hf : ∀ a, Takes (f a) count') : Takes (r >>= f) (count + count') where
  consumes := hr.consumes.bind fun a => (hf a).consumes
  enough data position hinside := by
    rw [← Nat.add_assoc] at hinside ⊢
    obtain ⟨a, hfirst⟩ := hr.enough data position (Nat.le_trans (Nat.le_add_right ..) hinside)
    rw [bind_of_ok hfirst]
    exact (hf a).enough data (position + count) hinside

/-- A reader that ends without reading more. -/
theorem Takes.bind_pure {r : Reader α} (hr : Takes r count) (f : α → β) :
    Takes (r >>= fun a => Pure.pure (f a)) count :=
  hr.bind fun a => .pure (f a)

theorem Takes.ite {p : Prop} [Decidable p] {r s : Reader α} (hr : Takes r count)
    (hs : Takes s count) : Takes (if p then r else s) count := by
  split
  · exact hr
  · exact hs

theorem Takes.unsigned (width : Nat) : Takes (unsigned width) width where
  consumes := .unsigned width
  enough _ _ hinside := ⟨_, unsigned_eq_ok.2 ⟨hinside, rfl, rfl⟩⟩

theorem Takes.byte : Takes byte 1 := .unsigned 1

theorem Takes.skip (count : Nat) : Takes (skip count) count where
  consumes := .skip count
  enough _ _ hinside := ⟨(), skip_eq_ok.2 ⟨hinside, rfl⟩⟩

theorem Takes.times {r : Reader α} (hr : Takes r count) (repetitions : Nat) :
    Takes (times r repetitions) (repetitions * count) := by
  induction repetitions with
  | zero =>
      rw [Nat.zero_mul]
      exact .pure _
  | succ repetitions ih =>
      have htotal : (repetitions + 1) * count = count + repetitions * count := by
        rw [Nat.succ_mul, Nat.add_comm]
      rw [htotal]
      exact hr.bind fun _ => ih.bind_pure _

end Reader

/-! ### Whole words -/

open Reader

/-- The first multiple of four from a place on. -/
def alignedFrom (position : Nat) : Nat :=
  (position + 3) / 4 * 4

theorem le_alignedFrom (position : Nat) : position ≤ alignedFrom position := by
  rw [alignedFrom]
  omega

theorem align_eq_ok {data : Bytes} {position next : Nat} {u : Unit} :
    align 4 data position = .ok u next ↔ next = alignedFrom position ∧ next ≤ data.size := by
  have haligned : position + (4 - position % 4) % 4 = alignedFrom position := by
    rw [alignedFrom]
    omega
  rw [align, skip_eq_ok, haligned]
  constructor
  · rintro ⟨hinside, rfl⟩
    exact ⟨rfl, hinside⟩
  · rintro ⟨rfl, hinside⟩
    exact ⟨hinside, rfl⟩

end CliMeta
