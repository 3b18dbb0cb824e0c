import CliMeta.Proofs.Reader.Written

/-!
What the outcome of a reader tells about the bytes. `Spells r start R` says that a value that the
reader takes from a place stands there in bytes that `R` relates to it, up to the place where the
reader stops. `Raises r P` is a property of every error that the reader can end with.
-/

namespace CliMeta

namespace Reader

variable {α β : Type}

/-! ### Bytes of a value -/

def Spells (r : Reader α) (start : Nat) (R : α → List UInt8 → Prop) : Prop :=
  ∀ data a next, start ≤ data.size → r data start = .ok a next →
    ∃ written, R a written ∧ next = start + written.length ∧
      StandsAt data start written (data.toList.drop next)

variable {start : Nat}

theorem StandsAt.nil {data : Bytes} (h : start ≤ data.size) :
    StandsAt data start [] (data.toList.drop start) :=
  ⟨h, rfl⟩

/-- What stands behind a first part stands together with it. -/
theorem StandsAt.append {data : Bytes} {first second rest : List UInt8}
    (hfirst : StandsAt data start first (data.toList.drop (start + first.length)))
    (hsecond : StandsAt data (start + first.length) second rest) :
    StandsAt data start (first ++ second) rest :=
  ⟨hfirst.1, by rw [hfirst.2, hsecond.2, List.append_assoc]⟩

section

variable {data : Bytes} {written rest : List UInt8}

/-- What stands at a place is at the front of a slice from there that is long enough. -/
theorem StandsAt.extract {stop : Nat} (h : StandsAt data start written rest)
    (hstop : start + written.length ≤ stop) :
    ∃ behind, StandsAt (data.extract start stop) 0 written behind := by
  refine ⟨rest.take (stop - start - written.length), Nat.zero_le _, ?_⟩
  have hlength : written.length ≤ stop - start := by omega
  rw [List.drop_zero, Array.toList_extract, List.extract_eq_take_drop, h.2, List.take_append,
    List.take_of_length_le hlength]

/-- What a slice begins with stands at its place in the whole. -/
theorem StandsAt.of_extract {stop : Nat} (hstart : start ≤ data.size)
    (h : (data.extract start stop).toList = written ++ rest) :
    StandsAt data start written (data.toList.drop (start + written.length)) := by
  rw [Array.toList_extract, List.extract_eq_take_drop] at h
  obtain ⟨more, hmore⟩ : ∃ more, data.toList.drop start = written ++ more := by
    refine ⟨rest ++ (data.toList.drop start).drop (stop - start), ?_⟩
    rw [← List.append_assoc, ← h, List.take_append_drop]
  exact ⟨hstart, by rw [← List.drop_drop, hmore, List.drop_left]⟩

/-- A part of what is left stands in front of the remainder. -/
theorem StandsAt.of_drop {count : Nat} (h : start + count ≤ data.size) :
    StandsAt data start ((data.toList.drop start).take count)
      (data.toList.drop (start + count)) :=
  ⟨by omega, by rw [← List.drop_drop, List.take_append_drop]⟩

end

theorem Spells.pure {R : α → List UInt8 → Prop} {a : α} (h : R a []) :
    Spells (pure a) start R := by
  intro data b next hstart hout
  cases hout
  exact ⟨[], h, rfl, .nil hstart⟩

theorem Spells.throw {R : α → List UInt8 → Prop} (e : Error) : Spells (throw e) start R := by
  intro data a next hstart hout
  cases hout

theorem Spells.ofExcept {R : α → List UInt8 → Prop} {outcome : Except Error α}
    (h : ∀ a, outcome = .ok a → R a []) : Spells (ofExcept outcome) start R := by
  cases outcome with
  | ok a => exact .pure (h a rfl)
  | error e => exact .throw e

theorem Spells.position :
    Spells position start fun place written => place = start ∧ written = [] := by
  intro data place next hstart hout
  cases hout
  exact ⟨[], ⟨rfl, rfl⟩, rfl, .nil hstart⟩

theorem Spells.remaining : Spells remaining start fun _ written => written = [] := by
  intro data count next hstart hout
  cases hout
  exact ⟨[], rfl, rfl, .nil hstart⟩

theorem Spells.atEnd : Spells atEnd start fun _ written => written = [] := by
  intro data ended next hstart hout
  cases hout
  exact ⟨[], rfl, rfl, .nil hstart⟩

/-- The byte that is looked at is the first one of what is read behind the look, if anything is. -/
theorem Spells.peek_bind {f : Nat → Reader α} {R : α → List UInt8 → Prop}
    (hf : ∀ lead, Spells (f lead) start fun a written =>
      (∀ first ∈ written.head?, first.toNat = lead) → R a written) :
    Spells (peek >>= f) start R := by
  intro data a next hstart hout
  obtain ⟨lead, middle, hpeek, hthen⟩ := bind_eq_ok.1 hout
  rw [Reader.peek] at hpeek
  split at hpeek
  · rename_i byte hbyte
    cases hpeek
    obtain ⟨written, ha, hnext, hstands⟩ := hf _ data a next hstart hthen
    refine ⟨written, ha fun first hfirst => ?_, hnext, hstands⟩
    obtain ⟨tail, rfl⟩ := List.head?_eq_some_iff.1 hfirst
    rw [Option.some.inj (hstands.getElem?.symm.trans hbyte)]
  · cases hpeek

theorem Spells.bind {r : Reader α} {f : α → Reader β} {R : α → List UInt8 → Prop}
    {S : β → List UInt8 → Prop} (hr : Spells r start R)
    (hf : ∀ a first, R a first →
      Spells (f a) (start + first.length) fun b second => S b (first ++ second)) :
    Spells (r >>= f) start S := by
  intro data b next hstart hout
  obtain ⟨a, middle, hfirst, hthen⟩ := bind_eq_ok.1 hout
  obtain ⟨first, ha, rfl, hstands⟩ := hr data a middle hstart hfirst
  have hmiddle : start + first.length ≤ data.size := by
    have hsize := hstands.size_eq
    omega
  obtain ⟨second, hb, rfl, hbehind⟩ := hf a first ha data b next hmiddle hthen
  refine ⟨first ++ second, hb, ?_, hstands.append hbehind⟩
  rw [List.length_append, Nat.add_assoc]

theorem Spells.mono {r : Reader α} {R S : α → List UInt8 → Prop} (hr : Spells r start R)
    (h : ∀ a written, R a written → S a written) : Spells r start S := by
  intro data a next hstart hout
  obtain ⟨written, ha, hrest⟩ := hr data a next hstart hout
  exact ⟨written, h a written ha, hrest⟩

/-- A value is taken over under another name. -/
theorem Spells.bind_pure {r : Reader α} {f : α → β} {R : α → List UInt8 → Prop}
    {S : β → List UInt8 → Prop} (hr : Spells r start R)
    (h : ∀ a written, R a written → S (f a) written) :
    Spells (r >>= fun a => Pure.pure (f a)) start S :=
  .bind hr fun a first ha => .pure (by simpa using h a first ha)

theorem Spells.ite {p : Prop} [Decidable p] {r s : Reader α} {R : α → List UInt8 → Prop}
    (hr : p → Spells r start R) (hs : ¬p → Spells s start R) :
    Spells (if p then r else s) start R := by
  split
  · rename_i h
    exact hr h
  · rename_i h
    exact hs h

/-- Numbers are spelled by the bytes that they would be written as. -/
theorem StandsAt.of_littleEndian {data : Bytes} {position width : Nat}
    (h : position + width ≤ data.size) :
    data.littleEndian position width < 1 <<< (8 * width) ∧
      StandsAt data position (littleEndianBytes (data.littleEndian position width) width)
        (data.toList.drop (position + width)) := by
  induction width generalizing position with
  | zero => exact ⟨Nat.zero_lt_one, h, rfl⟩
  | succ width ih =>
      have hnext : position + 1 + width ≤ data.size := by omega
      obtain ⟨hlt, hstands⟩ := ih hnext
      -- the lowest byte and the number of the others are found again
      have hlow := data.byteAt_lt position
      have hmod : (data.byteAt position + 256 * data.littleEndian (position + 1) width) % 256 =
          data.byteAt position := by omega
      have hdiv : (data.byteAt position + 256 * data.littleEndian (position + 1) width) / 256 =
          data.littleEndian (position + 1) width := by omega
      have hinside : position < data.toList.length := by
        rw [Array.length_toList]
        omega
      have hbyte : UInt8.ofNat (data.byteAt position) = data.toList[position] := by
        rw [Array.getElem_toList, Bytes.byteAt, Array.getElem?_eq_getElem]
        exact UInt8.ofNat_toNat
      have hplace : position + (width + 1) = position + 1 + width := by omega
      have hstep : 1 <<< (8 * (width + 1)) = 1 <<< (8 * width) * 256 := by
        rw [Nat.mul_succ, Nat.shiftLeft_add, Nat.shiftLeft_eq]
      rw [Bytes.littleEndian_succ, littleEndianBytes, hmod, hdiv, hplace, hstep]
      refine ⟨by omega, by omega, ?_⟩
      rw [List.drop_eq_getElem_cons hinside, hstands.2, hbyte, List.cons_append]

theorem Spells.unsigned (width : Nat) :
    Spells (unsigned width) start fun value written =>
      value < 1 <<< (8 * width) ∧ written = littleEndianBytes value width := by
  intro data value next hstart hout
  rw [Reader.unsigned] at hout
  split at hout
  · rename_i hinside
    cases hout
    obtain ⟨hlt, hstands⟩ := StandsAt.of_littleEndian hinside
    exact ⟨_, ⟨hlt, rfl⟩, by rw [littleEndianBytes_length], hstands⟩
  · cases hout

theorem Spells.bytes (count : Nat) :
    Spells (bytes count) start fun taken written =>
      taken.size = count ∧ written = taken.toList := by
  intro data taken next hstart hout
  rw [Reader.bytes] at hout
  split at hout
  · rename_i hslice
    cases hout
    obtain ⟨-, hstop, rfl⟩ := Bytes.slice?_eq_some hslice
    have hlist : (data.extract start (start + count)).toList =
        (data.toList.drop start).take count := by
      rw [Array.toList_extract, List.extract_eq_take_drop, Nat.add_sub_cancel_left]
    have hcount := Bytes.size_of_slice? hslice
    refine ⟨_, ⟨hcount, rfl⟩, by rw [Array.length_toList, hcount], ?_⟩
    rw [hlist]
    exact StandsAt.of_drop hstop
  · cases hout

theorem Spells.skip (count : Nat) :
    Spells (skip count) start fun _ written => written.length = count := by
  intro data u next hstart hout
  rw [Reader.skip] at hout
  split at hout
  · rename_i hinside
    cases hout
    have hlength : ((data.toList.drop start).take count).length = count := by
      rw [List.length_take, List.length_drop, Array.length_toList]
      omega
    exact ⟨_, hlength, by rw [hlength], StandsAt.of_drop hinside⟩
  · cases hout

theorem Spells.byte :
    Spells byte start fun value written => value < 256 ∧ written = [UInt8.ofNat value] := by
  intro data value next hstart hout
  obtain ⟨written, ⟨hlt, rfl⟩, hnext, hstands⟩ := Spells.unsigned 1 data value next hstart hout
  have hmod : value % 256 = value := Nat.mod_eq_of_lt hlt
  simp only [littleEndianBytes, hmod] at hnext hstands
  exact ⟨_, ⟨hlt, rfl⟩, hnext, hstands⟩

theorem Spells.signed {width : Nat} (hwidth : 0 < width) :
    Spells (signed width) start fun value written =>
      FitsSigned (8 * width) value ∧ written = signedBytes width value := by
  refine .bind (.unsigned width) fun value written ⟨hlt, hwritten⟩ => .pure ?_
  obtain ⟨hfits, hwrap⟩ := wrap_twosComplement (by omega) hlt
  rw [List.append_nil, signedBytes, hwrap]
  exact ⟨hfits, hwritten⟩

theorem Ensures.unsigned (width : Nat) : Ensures (unsigned width) (· < 1 <<< (8 * width)) := by
  intro data position value next hout
  rw [Reader.unsigned] at hout
  split at hout
  · rename_i hinside
    cases hout
    exact (StandsAt.of_littleEndian hinside).1
  · cases hout

theorem Ensures.signed {width : Nat} (hwidth : 0 < width) :
    Ensures (signed width) (FitsSigned (8 * width)) :=
  .bind (.unsigned width) fun _ hvalue => .pure (wrap_twosComplement (by omega) hvalue).1

/-- Where the first part fails, nothing is read. -/
theorem Ensures.malformed_bind {P : β → Prop} (defect : Defect) (f : α → Reader β) :
    Ensures (Reader.malformed defect >>= f) P := by
  intro data position b next hout
  cases hout

/-- If what is read stands there in a stored form, so does what is read again and again. -/
theorem Spells.times {γ : Type} {r : Reader α} {value : γ → α} {write : γ → List UInt8}
    (hr : ∀ start, Spells r start fun a written => ∃ c, value c = a ∧ write c = written)
    (count : Nat) (start : Nat) :
    Spells (times r count) start fun all written =>
      ∃ stored : List γ, stored.length = count ∧ stored.map value = all ∧
        stored.flatMap write = written := by
  induction count generalizing start with
  | zero => exact .pure ⟨[], rfl, rfl, rfl⟩
  | succ count ih =>
      refine .bind (hr start) fun a first ⟨c, hvalue, hwrite⟩ => .bind (ih _) ?_
      rintro others second ⟨stored, hcount, hvalues, hwritten⟩
      refine .pure ⟨c :: stored, by rw [List.length_cons, hcount], ?_, ?_⟩
      · rw [List.map_cons, hvalue, hvalues]
      · rw [List.flatMap_cons, hwrite, hwritten, List.append_nil]

/-! ### Errors -/

def Raises (r : Reader α) (P : Error → Prop) : Prop :=
  ∀ data position e stop, r data position = .error e stop → P e

variable {P : Error → Prop}

theorem Raises.pure (a : α) : Raises (pure a) P := by
  intro data position e stop hout
  cases hout

theorem Raises.throw {e : Error} (h : P e) : Raises (α := α) (throw e) P := by
  intro data position e' stop hout
  cases hout
  exact h

theorem Raises.ofExcept {outcome : Except Error α} (h : ∀ e, outcome = .error e → P e) :
    Raises (ofExcept outcome) P := by
  cases outcome with
  | ok a => exact .pure a
  | error e => exact .throw (h e rfl)

theorem Raises.bind {r : Reader α} {f : α → Reader β} (hr : Raises r P)
    (hf : ∀ a, Raises (f a) P) : Raises (r >>= f) P := by
  intro data position e stop hout
  rw [bind_apply] at hout
  cases hfirst : r data position with
  | error e' stop' =>
      rw [hfirst] at hout
      cases hout
      exact hr data position e stop hfirst
  | ok a middle =>
      rw [hfirst] at hout
      exact hf a data middle e stop hout

theorem Raises.ite {p : Prop} [Decidable p] {r s : Reader α} (hr : p → Raises r P)
    (hs : ¬p → Raises s P) : Raises (if p then r else s) P := by
  split
  · rename_i h
    exact hr h
  · rename_i h
    exact hs h

theorem Raises.position : Raises position P := by
  intro data position e stop hout
  cases hout

theorem Raises.remaining : Raises remaining P := by
  intro data position e stop hout
  cases hout

theorem Raises.unsigned (width : Nat) (h : P .outOfBounds) : Raises (unsigned width) P := by
  intro data position e stop hout
  rw [Reader.unsigned] at hout
  split at hout
  · cases hout
  · cases hout
    exact h

theorem Raises.signed (width : Nat) (h : P .outOfBounds) : Raises (signed width) P :=
  .bind (.unsigned width h) fun _ => .pure _

theorem Raises.times {r : Reader α} (h : Raises r P) (count : Nat) : Raises (times r count) P := by
  induction count with
  | zero => exact .pure _
  | succ count ih => exact .bind h fun _ => .bind ih fun _ => .pure _

end Reader

end CliMeta
