import CliMeta.Reader

/-!
Sequential readers: they only move forward, stay inside the buffer, and depend on nothing but the
bytes they meet. Over a longer buffer such a reader does the same, unless it met the end of the
shorter one, and then it says so. Readers that ask how much is left are not sequential by
themselves; they become so where the answer is only used as fuel.
-/

namespace CliMeta

namespace Reader

variable {α β : Type}

/-- Where a value was taken over under another name, there was one to begin with. -/
theorem exists_of_map_ok {outcome : Except Error α} {f : α → β} {b : β}
    (h : outcome.map f = .ok b) : ∃ a, outcome = .ok a ∧ f a = b := by
  cases outcome with
  | error e => cases h
  | ok a => exact ⟨a, rfl, Except.ok.inj h⟩

/-- A successful run goes through a value of the first reader. -/
theorem bind_eq_ok {r : Reader α} {f : α → Reader β} {data : Bytes} {position stop : Nat} {b : β} :
    (r >>= f) data position = .ok b stop ↔
      ∃ a next, r data position = .ok a next ∧ f a data next = .ok b stop := by
  rw [bind_apply]
  cases hout : r data position with
  | error e next => simp
  | ok a next =>
      constructor
      · intro hthen
        exact ⟨a, next, rfl, hthen⟩
      · rintro ⟨a', next', heq, hthen⟩
        cases heq
        exact hthen

/-- The position at which an outcome leaves the reader. -/
def stop : EStateM.Result Error Nat α → Nat
  | .ok _ next => next
  | .error _ next => next

@[simp] theorem stop_ok (a : α) (next : Nat) :
    stop (.ok a next : EStateM.Result Error Nat α) = next := rfl

@[simp] theorem stop_error (e : Error) (next : Nat) :
    stop (.error e next : EStateM.Result Error Nat α) = next := rfl

/-- Whatever the outcome, the position has moved forward and is inside the buffer. -/
def Forward (r : Reader α) : Prop :=
  ∀ data position, position ≤ data.size →
    position ≤ stop (r data position) ∧ stop (r data position) ≤ data.size

/-- Over the front of a buffer the outcome is the same as over all of it, unless the data gave
out. -/
def Stable (r : Reader α) : Prop :=
  ∀ (front rest : Bytes) position, position ≤ front.size →
    r front position = r (front ++ rest) position ∨
      ∃ next, r front position = .error .outOfBounds next

structure Sequential (r : Reader α) : Prop where
  forward : r.Forward
  stable : r.Stable

theorem Sequential.pure (a : α) : (pure a : Reader α).Sequential where
  forward _ _ h := ⟨Nat.le_refl _, h⟩
  stable _ _ _ _ := .inl rfl

theorem Sequential.throw (e : Error) : (throw e : Reader α).Sequential where
  forward _ _ h := ⟨Nat.le_refl _, h⟩
  stable _ _ _ _ := .inl rfl

theorem Sequential.malformed (defect : Defect) : (malformed defect : Reader α).Sequential :=
  .throw _

theorem Sequential.ofExcept (outcome : Except Error α) : (ofExcept outcome).Sequential := by
  cases outcome with
  | ok a => exact .pure a
  | error e => exact .throw e

theorem Sequential.position : Reader.position.Sequential where
  forward _ _ h := ⟨Nat.le_refl _, h⟩
  stable _ _ _ _ := .inl rfl

theorem Forward.of_ok {r : Reader α} (hr : r.Forward) {data : Bytes} {position next : Nat} {a : α}
    (h : position ≤ data.size) (hout : r data position = .ok a next) :
    position ≤ next ∧ next ≤ data.size := by
  simpa [hout] using hr data position h

theorem Forward.bind {r : Reader α} {f : α → Reader β} (hr : r.Forward)
    (hf : ∀ a, (f a).Forward) : (r >>= f).Forward := by
  intro data position h
  have hfirst := hr data position h
  rw [bind_apply]
  cases hout : r data position with
  | error e next => simpa [hout] using hfirst
  | ok a next =>
      simp only [hout, stop_ok] at hfirst
      have hthen := hf a data next hfirst.2
      exact ⟨Nat.le_trans hfirst.1 hthen.1, hthen.2⟩

theorem Forward.ite {p : Prop} [Decidable p] {r s : Reader α} (hr : r.Forward)
    (hs : s.Forward) : (if p then r else s).Forward := by
  split
  · exact hr
  · exact hs

theorem Sequential.bind {r : Reader α} {f : α → Reader β} (hr : r.Sequential)
    (hf : ∀ a, (f a).Sequential) : (r >>= f).Sequential where
  forward := hr.forward.bind fun a => (hf a).forward
  stable front rest position h := by
    rw [bind_apply, bind_apply]
    obtain hsame | ⟨next, hout⟩ := hr.stable front rest position h
    · rw [← hsame]
      cases hout : r front position with
      | error e next => exact .inl rfl
      | ok a next =>
          exact (hf a).stable front rest next (hr.forward.of_ok h hout).2
    -- the data gave out before it came to the second reader
    · exact .inr ⟨next, by rw [hout]⟩

theorem Sequential.ite {p : Prop} [Decidable p] {r s : Reader α} (hr : r.Sequential)
    (hs : s.Sequential) : (if p then r else s).Sequential := by
  split
  · exact hr
  · exact hs

/-! ### Primitives -/

theorem byteAt_append_left (front rest : Bytes) {position : Nat} (h : position < front.size) :
    (front ++ rest).byteAt position = front.byteAt position := by
  simp [Bytes.byteAt, h, Nat.lt_add_right]

theorem littleEndian_append_left (front rest : Bytes) (width : Nat) {position : Nat}
    (h : position + width ≤ front.size) :
    (front ++ rest).littleEndian position width = front.littleEndian position width := by
  induction width generalizing position with
  | zero => rfl
  | succ width ih =>
      rw [Bytes.littleEndian_succ, Bytes.littleEndian_succ,
        byteAt_append_left front rest (by omega), ih (by omega)]

theorem Sequential.unsigned (width : Nat) : (unsigned width).Sequential where
  forward data position h := by
    unfold Reader.unsigned
    split
    · simp only [stop_ok]
      omega
    · simp only [stop_error]
      omega
  stable front rest position _ := by
    unfold Reader.unsigned
    by_cases hfits : position + width ≤ front.size
    · have hmore : position + width ≤ (front ++ rest).size := by
        rw [Array.size_append]
        omega
      rw [if_pos hfits, if_pos hmore, littleEndian_append_left front rest width hfits]
      exact .inl rfl
    · rw [if_neg hfits]
      exact .inr ⟨position, rfl⟩

theorem Sequential.byte : Reader.byte.Sequential := .unsigned 1

theorem Sequential.signed (width : Nat) : (signed width).Sequential :=
  .bind (.unsigned width) fun _ => .pure _

theorem Sequential.bytes (count : Nat) : (bytes count).Sequential where
  forward data position h := by
    unfold Reader.bytes
    cases htaken : data.slice? position (position + count) with
    | none => simp only [stop_error]; omega
    | some taken =>
        obtain ⟨hle, hsize, -⟩ := Bytes.slice?_eq_some htaken
        exact ⟨hle, hsize⟩
  stable front rest position _ := by
    unfold Reader.bytes
    cases htaken : front.slice? position (position + count) with
    | none => exact .inr ⟨position, rfl⟩
    | some taken =>
        obtain ⟨hle, hsize, rfl⟩ := Bytes.slice?_eq_some htaken
        have hmore : (front ++ rest).slice? position (position + count) =
            some (front.extract position (position + count)) := by
          have hlonger : position + count ≤ (front ++ rest).size := by
            rw [Array.size_append]
            omega
          simp only [Bytes.slice?, hle, hlonger, and_self, if_true]
          congr 1
          simp [Array.extract_append, Nat.sub_eq_zero_of_le hsize]
        rw [hmore]
        exact .inl rfl

theorem Sequential.peek : Reader.peek.Sequential where
  forward data position h := by
    unfold Reader.peek
    split <;> exact ⟨Nat.le_refl _, h⟩
  stable front rest position _ := by
    unfold Reader.peek
    by_cases hinside : position < front.size
    · simp [hinside, Array.getElem?_append_left hinside]
    · simp [hinside]

theorem Sequential.skip (count : Nat) : (skip count).Sequential where
  forward data position h := by
    unfold Reader.skip
    split
    · simp only [stop_ok]
      omega
    · simp only [stop_error]
      omega
  stable front rest position _ := by
    unfold Reader.skip
    by_cases hfits : position + count ≤ front.size
    · have hmore : position + count ≤ (front ++ rest).size := by
        rw [Array.size_append]
        omega
      rw [if_pos hfits, if_pos hmore]
      exact .inl rfl
    · rw [if_neg hfits]
      exact .inr ⟨position, rfl⟩

/-! ### Readers out of readers -/

theorem Sequential.compressed : Reader.compressed.Sequential := by
  refine .bind .byte fun lead => ?_
  refine .ite (.pure _) (.ite (.bind .byte fun _ => .pure _) (.ite ?_ (.malformed _)))
  exact .bind (.bytes 3) fun _ => .pure _

theorem Sequential.compressedSigned : Reader.compressedSigned.Sequential :=
  .bind .position fun _ => .bind .compressed fun _ => .bind .position fun _ => .pure _

theorem Sequential.times {r : Reader α} (hr : r.Sequential) (count : Nat) :
    (times r count).Sequential := by
  induction count with
  | zero => exact .pure _
  | succ count ih => exact .bind hr fun _ => .bind ih fun _ => .pure _

/-! ### What is left as fuel -/

/-- Any fuel that covers what is left has the same effect. -/
def FuelFree (f : Nat → Reader α) : Prop :=
  ∀ (data : Bytes) position, position ≤ data.size → ∀ fuel fuel',
    data.size - position ≤ fuel → data.size - position ≤ fuel' →
      f fuel data position = f fuel' data position

theorem bind_congr {r : Reader α} {f g : α → Reader β} {data : Bytes} {position : Nat}
    (h : ∀ a next, r data position = .ok a next → f a data next = g a data next) :
    (r >>= f) data position = (r >>= g) data position := by
  rw [bind_apply, bind_apply]
  cases hout : r data position with
  | error e next => rfl
  | ok a next => exact h a next hout

theorem FuelFree.bind {f : Nat → Reader α} (hf : FuelFree f) (g : α → Reader β) :
    FuelFree fun fuel => f fuel >>= g := by
  intro data position h fuel fuel' hfuel hfuel'
  show (f fuel >>= g) data position = (f fuel' >>= g) data position
  rw [bind_apply, bind_apply, hf data position h fuel fuel' hfuel hfuel']

theorem remaining_bind (f : Nat → Reader α) (data : Bytes) (position : Nat) :
    (remaining >>= f) data position = f (data.size - position) data position := rfl

theorem Sequential.remaining_bind {f : Nat → Reader α} (hf : ∀ fuel, (f fuel).Sequential)
    (hfuel : FuelFree f) : (remaining >>= f).Sequential where
  forward data position h := (hf _).forward data position h
  stable front rest position h := by
    rw [Reader.remaining_bind, Reader.remaining_bind]
    -- the longer buffer gives more fuel, which is of no use
    have hmore : front.size - position ≤ (front ++ rest).size - position := by
      rw [Array.size_append]
      omega
    rw [hfuel front position h _ _ (Nat.le_refl _) hmore]
    exact (hf _).stable front rest position h

/-! ### The end of the buffer -/

theorem byte_at_end {data : Bytes} {position : Nat} (h : data.size ≤ position) :
    Reader.byte data position = .error .outOfBounds position := by
  unfold Reader.byte Reader.unsigned
  rw [if_neg (by omega)]

theorem peek_at_end {data : Bytes} {position : Nat} (h : data.size ≤ position) :
    Reader.peek data position = .error .outOfBounds position := by
  simp [Reader.peek, h]

theorem peek_inside {data : Bytes} {position : Nat} (h : position < data.size) :
    Reader.peek data position = .ok (data.byteAt position) position := by
  simp [Reader.peek, Bytes.byteAt, h]

theorem byte_inside {data : Bytes} {position : Nat} (h : position < data.size) :
    Reader.byte data position = .ok (data.byteAt position) (position + 1) := by
  unfold Reader.byte Reader.unsigned
  rw [if_pos (by omega)]
  simp [Bytes.littleEndian_succ]

end Reader

end CliMeta
