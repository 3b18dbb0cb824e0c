import CliMeta.Proofs.Reader.Sequential

/-!
Reading what was written. `Reads r written a` says that wherever these bytes stand in a buffer, the
reader takes them for `a` and stops right behind them; it composes, so the bytes of a structure are
read back part by part. `Ensures r P` is the other side: a property of every value the reader can
come up with, whatever the bytes.
-/

namespace CliMeta

namespace Reader

variable {α β : Type}

/-- The rest of the buffer begins with bytes. -/
def StandsAt (data : Bytes) (position : Nat) (written rest : List UInt8) : Prop :=
  position ≤ data.size ∧ data.toList.drop position = written ++ rest

/-- Wherever the bytes stand, the reader takes them for the value and stops behind them. -/
def Reads (r : Reader α) (written : List UInt8) (a : α) : Prop :=
  ∀ data position rest, StandsAt data position written rest →
    r data position = .ok a (position + written.length)

theorem StandsAt.size_eq {data : Bytes} {position : Nat} {written rest : List UInt8}
    (h : StandsAt data position written rest) :
    data.size = position + written.length + rest.length := by
  have hlength := congrArg List.length h.2
  simp only [List.length_drop, Array.length_toList, List.length_append] at hlength
  have hle := h.1
  omega

/-- Behind a first part stands the second. -/
theorem StandsAt.behind {data : Bytes} {position : Nat} {first second rest : List UInt8}
    (h : StandsAt data position (first ++ second) rest) :
    StandsAt data (position + first.length) second rest := by
  have hsize := h.size_eq
  rw [List.length_append] at hsize
  refine ⟨by omega, ?_⟩
  rw [← List.drop_drop, h.2, List.append_assoc, List.drop_left]

theorem StandsAt.tail {data : Bytes} {position : Nat} {first : UInt8} {written rest : List UInt8}
    (h : StandsAt data position (first :: written) rest) :
    StandsAt data (position + 1) written rest := by
  rw [← List.singleton_append] at h
  exact h.behind

theorem StandsAt.front {data : Bytes} {position : Nat} {first second rest : List UInt8}
    (h : StandsAt data position (first ++ second) rest) :
    StandsAt data position first (second ++ rest) :=
  ⟨h.1, by rw [h.2, List.append_assoc]⟩

theorem StandsAt.getElem?_add {data : Bytes} {position : Nat} {written rest : List UInt8}
    (h : StandsAt data position written rest) (index : Nat) :
    data[position + index]? = (written ++ rest)[index]? := by
  rw [← h.2, List.getElem?_drop, Array.getElem?_toList]

theorem StandsAt.getElem? {data : Bytes} {position : Nat} {first : UInt8}
    {written rest : List UInt8} (h : StandsAt data position (first :: written) rest) :
    data[position]? = some first := by
  have hfirst := congrArg (fun l => l[0]?) h.2
  simpa using hfirst

theorem StandsAt.inside {data : Bytes} {position : Nat} {first : UInt8}
    {written rest : List UInt8} (h : StandsAt data position (first :: written) rest) :
    position < data.size := by
  have hsize := h.size_eq
  rw [List.length_cons] at hsize
  omega

theorem StandsAt.byteAt {data : Bytes} {position : Nat} {first : UInt8}
    {written rest : List UInt8} (h : StandsAt data position (first :: written) rest) :
    data.byteAt position = first.toNat := by
  rw [Bytes.byteAt, h.getElem?]

theorem StandsAt.byteAt_ofNat {data : Bytes} {position value : Nat} {written rest : List UInt8}
    (h : StandsAt data position (UInt8.ofNat value :: written) rest) (hvalue : value < 256) :
    data.byteAt position = value := by
  rw [h.byteAt, UInt8.toNat_ofNat_of_lt' hvalue]

theorem StandsAt.littleEndian {data : Bytes} {position : Nat} {value width : Nat}
    {rest : List UInt8} (hvalue : value < 1 <<< (8 * width))
    (h : StandsAt data position (littleEndianBytes value width) rest) :
    data.littleEndian position width = value := by
  have hdata : data = (data.toList.take position ++
      (littleEndianBytes value width ++ rest)).toArray := by
    rw [← h.2, List.take_append_drop, Array.toArray_toList]
  have hfront : (data.toList.take position).length = position := by
    rw [List.length_take, Array.length_toList]
    exact Nat.min_eq_left h.1
  calc
    data.littleEndian position width =
        Bytes.littleEndian (data.toList.take position ++
          (littleEndianBytes value width ++ rest)).toArray
            ((data.toList.take position).length + 0) width := by
      rw [← hdata, hfront, Nat.add_zero]
    _ = value := by
      rw [Bytes.littleEndian_append, Bytes.littleEndian_littleEndianBytes value width rest hvalue]

theorem StandsAt.slice? {data : Bytes} {position : Nat} {written rest : List UInt8}
    (h : StandsAt data position written rest) :
    data.slice? position (position + written.length) = some written.toArray := by
  have hsize := h.size_eq
  have hinside : position ≤ position + written.length ∧
      position + written.length ≤ data.size := by omega
  rw [Bytes.slice?, if_pos hinside]
  congr 1
  apply Array.ext'
  rw [Array.toList_extract, List.extract_eq_take_drop, h.2]
  simp

/-- Of items that are written in the same length, each stands at its multiple of that length. -/
theorem standsAt_item {data : Bytes} {position size : Nat} {rest : List UInt8}
    {write : α → List UInt8} {items : List α}
    (hsize : ∀ item ∈ items, (write item).length = size)
    (h : StandsAt data position (items.flatMap write) rest) {index : Nat} {item : α}
    (hitem : items[index]? = some item) :
    ∃ behind, StandsAt data (position + index * size) (write item) behind := by
  induction items generalizing position index with
  | nil => cases hitem
  | cons first others ih =>
      obtain ⟨hfirst, hothers⟩ := List.forall_mem_cons.1 hsize
      cases index with
      | zero =>
          obtain rfl := Option.some.inj hitem
          rw [Nat.zero_mul]
          exact ⟨_, h.front⟩
      | succ index =>
          obtain ⟨behind, hstands⟩ := ih hothers h.behind hitem
          rw [hfirst, Nat.add_assoc, Nat.add_comm size, ← Nat.succ_mul] at hstands
          exact ⟨behind, hstands⟩

theorem extract_of_standsAt {data : Bytes} {position : Nat} {written rest : List UInt8}
    (h : StandsAt data position written rest) :
    data.extract position (position + written.length) = written.toArray :=
  (Bytes.slice?_eq_some h.slice?).2.2.symm

/-! ### Composition -/

theorem Reads.pure (a : α) : Reads (pure a) [] a :=
  fun _ _ _ _ => rfl

theorem Reads.bind {r : Reader α} {f : α → Reader β} {first second : List UInt8} {a : α} {b : β}
    (hr : Reads r first a) (hf : Reads (f a) second b) : Reads (r >>= f) (first ++ second) b := by
  intro data position rest h
  rw [bind_of_ok (hr data position _ h.front), hf data _ rest h.behind, List.length_append,
    Nat.add_assoc]

/-- Behind what has been read, reading goes on with the value. -/
theorem Reads.step {r : Reader α} {f : α → Reader β} {written behind rest : List UInt8} {a : α}
    {data : Bytes} {position : Nat} {outcome : EStateM.Result Error Nat β} (hr : Reads r written a)
    (h : StandsAt data position (written ++ behind) rest)
    (hf : StandsAt data (position + written.length) behind rest →
      f a data (position + written.length) = outcome) : (r >>= f) data position = outcome := by
  rw [bind_of_ok (hr data position _ h.front)]
  exact hf h.behind

/-- A reader that reads nothing hands its value on. -/
theorem Reads.bind_nil {r : Reader α} {f : α → Reader β} {written : List UInt8} {a : α} {b : β}
    (hr : Reads r [] a) (hf : Reads (f a) written b) : Reads (r >>= f) written b :=
  hr.bind hf

/-- Where a last step reads nothing, the bytes are those of the step before. -/
theorem Reads.bind_pure {r : Reader α} {f : α → Reader β} {written : List UInt8} {a : α} {b : β}
    (hr : Reads r written a) (hf : Reads (f a) [] b) : Reads (r >>= f) written b := by
  simpa using hr.bind hf

theorem Reads.ofExcept {outcome : Except Error α} {a : α} (h : outcome = .ok a) :
    Reads (ofExcept outcome) [] a := by
  subst h
  exact .pure a

theorem Reads.byte (b : UInt8) : Reads Reader.byte [b] b.toNat := by
  intro data position rest h
  rw [byte_inside h.inside, h.byteAt]
  rfl

theorem Reads.byteOfNat {value : Nat} (h : value < 256) :
    Reads Reader.byte [UInt8.ofNat value] value := by
  have hread := Reads.byte (UInt8.ofNat value)
  rwa [UInt8.toNat_ofNat_of_lt' h] at hread

/-- It does not matter what is skipped. -/
theorem Reads.skipAll (written : List UInt8) :
    Reads (Reader.skip written.length) written () := by
  intro data position rest h
  have hsize := h.size_eq
  exact if_pos (by omega)

theorem Reads.skip (b : UInt8) : Reads (Reader.skip 1) [b] () :=
  .skipAll [b]

/-- The byte that is looked at is the first one of what follows. -/
theorem Reads.peek_bind {f : Nat → Reader α} {first : UInt8} {written : List UInt8} {a : α}
    (hf : Reads (f first.toNat) (first :: written) a) :
    Reads (Reader.peek >>= f) (first :: written) a := by
  intro data position rest h
  rw [bind_of_ok (peek_inside h.inside), h.byteAt]
  exact hf data position rest h

theorem StandsAt.unsigned {data : Bytes} {position value width : Nat} {rest : List UInt8}
    (hstands : StandsAt data position (littleEndianBytes value width) rest)
    (h : value < 1 <<< (8 * width)) :
    Reader.unsigned width data position = .ok value (position + width) := by
  have hsize := hstands.size_eq
  rw [littleEndianBytes_length] at hsize
  rw [Reader.unsigned, if_pos (by omega), hstands.littleEndian h]

theorem Reads.unsigned {value width : Nat} (h : value < 1 <<< (8 * width)) :
    Reads (unsigned width) (littleEndianBytes value width) value := by
  intro data position rest hstands
  rw [littleEndianBytes_length]
  exact hstands.unsigned h

theorem Reads.bytes (written : List UInt8) :
    Reads (bytes written.length) written written.toArray := by
  intro data position rest h
  rw [Reader.bytes, h.slice?]

theorem Reads.times {r : Reader α} {write : α → List UInt8} {all : List α}
    (h : ∀ a ∈ all, Reads r (write a) a) :
    Reads (times r all.length) (all.flatMap write) all := by
  induction all with
  | nil => exact .pure _
  | cons a all ih =>
      have hfirst := h a (List.mem_cons_self ..)
      have hothers := ih fun other hmem => h other (List.mem_cons_of_mem a hmem)
      exact hfirst.bind (hothers.bind_pure (.pure _))

/-! ### Outcomes -/

/-- The reader comes to an outcome; if that is a value, at a place. -/
def Yields (r : Reader α) (data : Bytes) (start : Nat) (outcome : Except Error α) (next : Nat) :
    Prop :=
  match outcome with
  | .ok a => r data start = .ok a next
  | .error e => ∃ stop, r data start = .error e stop

section

variable {data : Bytes} {start middle next : Nat}

theorem Reads.yields {r : Reader α} {written rest : List UInt8} {a : α} (hr : Reads r written a)
    (hstands : StandsAt data start written rest) :
    r.Yields data start (.ok a) (start + written.length) :=
  hr data start rest hstands

theorem Yields.pure (a : α) : (pure a : Reader α).Yields data start (.ok a) start :=
  rfl

theorem Yields.ofExcept (outcome : Except Error α) :
    (ofExcept outcome).Yields data start outcome start := by
  cases outcome with
  | ok a => rfl
  | error e => exact ⟨start, rfl⟩

/-- Behind a value that has been read, the outcome is that of what follows. -/
theorem Yields.after {r : Reader α} {f : α → Reader β} {a : α} {outcome : Except Error β}
    (hf : (f a).Yields data middle outcome next) (hr : r data start = .ok a middle) :
    (r >>= f).Yields data start outcome next := by
  cases outcome with
  | error e =>
      obtain ⟨stop, hout⟩ := hf
      exact ⟨stop, (bind_of_ok hr f).trans hout⟩
  | ok b => exact (bind_of_ok hr f).trans hf

theorem Yields.bind {r : Reader α} {f : α → Reader β} {outcome : Except Error α}
    {g : α → Except Error β} (hr : r.Yields data start outcome middle)
    (hf : ∀ a, (f a).Yields data middle (g a) next) :
    (r >>= f).Yields data start (outcome >>= g) next := by
  cases outcome with
  | error e =>
      obtain ⟨stop, hout⟩ := hr
      exact ⟨stop, bind_of_error hout f⟩
  | ok a => exact (hf a).after hr

theorem Yields.map {r : Reader α} {outcome : Except Error α} (hr : r.Yields data start outcome next)
    (f : α → β) : (r >>= fun a => Pure.pure (f a)).Yields data start (outcome.map f) next := by
  cases outcome with
  | error e =>
      obtain ⟨stop, hout⟩ := hr
      exact ⟨stop, bind_of_error hout _⟩
  | ok a => exact bind_of_ok hr _

theorem Yields.valueAt_eq {r : Reader α} {outcome : Except Error α}
    (h : r.Yields data start outcome next) : r.valueAt data start = outcome := by
  cases outcome with
  | error e =>
      obtain ⟨stop, hout⟩ := h
      rw [valueAt, hout]
  | ok a => rw [valueAt, show r data start = .ok a next from h]

end

/-! ### Signed numbers -/

/-- The numbers that `bits` bits hold with a sign. -/
def FitsSigned (bits : Nat) (value : Int) : Prop :=
  -((1 <<< (bits - 1) : Nat) : Int) ≤ value ∧ value < (1 <<< (bits - 1) : Nat)

instance (bits : Nat) (value : Int) : Decidable (FitsSigned bits value) :=
  inferInstanceAs (Decidable (_ ∧ _))

/-- The two's complement form of a number in `bits` bits. -/
def wrap (bits : Nat) (value : Int) : Nat :=
  if 0 ≤ value then value.toNat else (value + (1 <<< bits : Nat)).toNat

def signedBytes (width : Nat) (value : Int) : List UInt8 :=
  littleEndianBytes (wrap (8 * width) value) width

theorem signedBytes_length (width : Nat) (value : Int) :
    (signedBytes width value).length = width :=
  littleEndianBytes_length ..

theorem shiftLeft_half {bits : Nat} (h : 0 < bits) : 1 <<< bits = 2 * 1 <<< (bits - 1) := by
  rw [Nat.one_shiftLeft, Nat.one_shiftLeft, ← Nat.pow_succ', Nat.succ_eq_add_one,
    Nat.sub_add_cancel h]

theorem wrap_lt {bits : Nat} {value : Int} (hbits : 0 < bits) (h : FitsSigned bits value) :
    wrap bits value < 1 <<< bits := by
  obtain ⟨hlow, hhigh⟩ := h
  rw [shiftLeft_half hbits, wrap, shiftLeft_half hbits]
  split <;> omega

theorem twosComplement_wrap {bits : Nat} {value : Int} (hbits : 0 < bits)
    (h : FitsSigned bits value) : twosComplement bits (wrap bits value) = value := by
  obtain ⟨hlow, hhigh⟩ := h
  rw [twosComplement, wrap, shiftLeft_half hbits]
  split <;> split <;> omega

/-- Every number of `bits` bits is the form of a signed number that they hold. -/
theorem wrap_twosComplement {bits value : Nat} (hbits : 0 < bits) (h : value < 1 <<< bits) :
    FitsSigned bits (twosComplement bits value) ∧
      wrap bits (twosComplement bits value) = value := by
  rw [shiftLeft_half hbits] at h
  rw [FitsSigned, wrap, twosComplement, shiftLeft_half hbits]
  constructor
  · split <;> omega
  · split <;> split <;> omega

theorem Reads.signed {width : Nat} {value : Int} (hwidth : 0 < width)
    (h : FitsSigned (8 * width) value) : Reads (signed width) (signedBytes width value) value := by
  have hbits : 0 < 8 * width := by omega
  have hread := Reads.unsigned (wrap_lt hbits h)
  refine hread.bind_pure ?_
  rw [twosComplement_wrap hbits h]
  exact .pure value

/-! ### Fuel -/

/-- The bytes are read with any fuel that covers what is left. -/
def ReadsFueled (f : Nat → Reader α) (written : List UInt8) (a : α) : Prop :=
  ∀ data position rest fuel, StandsAt data position written rest → data.size - position ≤ fuel →
    f fuel data position = .ok a (position + written.length)

theorem ReadsFueled.bind {f : Nat → Reader α} {g : α → Reader β} {first second : List UInt8}
    {a : α} {b : β} (hf : ReadsFueled f first a) (hg : Reads (g a) second b) :
    Reads (remaining >>= fun fuel => f fuel >>= g) (first ++ second) b := by
  intro data position rest h
  rw [remaining_bind, bind_of_ok (hf data position _ _ h.front (Nat.le_refl _)),
    hg data _ rest h.behind, List.length_append, Nat.add_assoc]

/-- A first byte takes one unit of fuel. -/
theorem StandsAt.exists_fuel {data : Bytes} {position fuel : Nat} {first : UInt8}
    {written rest : List UInt8} (h : StandsAt data position (first :: written) rest)
    (hfuel : data.size - position ≤ fuel) :
    ∃ less, fuel = less + 1 ∧ data.size - (position + 1) ≤ less := by
  have hinside := h.inside
  exact ⟨fuel - 1, by omega, by omega⟩

/-! ### Properties of what is read -/

def Ensures (r : Reader α) (P : α → Prop) : Prop :=
  ∀ data position a next, r data position = .ok a next → P a

theorem Ensures.pure {P : α → Prop} {a : α} (h : P a) : Ensures (pure a) P := by
  intro data position b next hout
  cases hout
  exact h

theorem Ensures.throw {P : α → Prop} (e : Error) : Ensures (throw e) P := by
  intro data position a next hout
  cases hout

theorem Ensures.malformed {P : α → Prop} (defect : Defect) : Ensures (malformed defect) P :=
  .throw _

theorem Ensures.trivial (r : Reader α) : Ensures r fun _ => True :=
  fun _ _ _ _ _ => True.intro

theorem Ensures.ofExcept {P : α → Prop} {outcome : Except Error α}
    (h : ∀ a, outcome = .ok a → P a) : Ensures (ofExcept outcome) P := by
  cases outcome with
  | ok a => exact .pure (h a rfl)
  | error e => exact .throw e

theorem Ensures.bind {r : Reader α} {f : α → Reader β} {P : α → Prop} {Q : β → Prop}
    (hr : Ensures r P) (hf : ∀ a, P a → Ensures (f a) Q) : Ensures (r >>= f) Q := by
  intro data position b next hout
  obtain ⟨a, middle, hfirst, hthen⟩ := bind_eq_ok.1 hout
  exact hf a (hr data position a middle hfirst) data middle b next hthen

theorem Ensures.ite {p : Prop} [Decidable p] {r s : Reader α} {P : α → Prop}
    (hr : p → Ensures r P) (hs : ¬p → Ensures s P) : Ensures (if p then r else s) P := by
  split
  · rename_i h
    exact hr h
  · rename_i h
    exact hs h

theorem Ensures.mono {r : Reader α} {P Q : α → Prop} (hr : Ensures r P) (h : ∀ a, P a → Q a) :
    Ensures r Q :=
  fun data position a next hout => h a (hr data position a next hout)

theorem Ensures.times {r : Reader α} {P : α → Prop} (hr : Ensures r P) (count : Nat) :
    Ensures (times r count) fun all => all.length = count ∧ ∀ a ∈ all, P a := by
  induction count with
  | zero => exact .pure ⟨rfl, by simp⟩
  | succ count ih =>
      refine .bind hr fun first hfirst => .bind ih fun others hothers => .pure ⟨?_, ?_⟩
      · rw [List.length_cons, hothers.1]
      · exact List.forall_mem_cons.2 ⟨hfirst, hothers.2⟩

end Reader

end CliMeta
