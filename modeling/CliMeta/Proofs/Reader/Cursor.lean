import CliMeta.Proofs.Reader.Lead
import CliMeta.Proofs.Reader.Terminated

/-!
Single reads and the position. `Inside` says that a reader keeps the position in the buffer,
`Rewinds` that it does not move if it fails, and `ReadsAlone` that it takes its value from the bytes
that it moves over and from nothing else. All reads are inside and read alone; a compressed integer
does not rewind, since it may fail behind its lead byte.
-/

namespace CliMeta

namespace Reader

variable {α β : Type} {data : Bytes} {start next : Nat}

/-! ### Properties of single reads -/

/-- Whatever the outcome, the position stays in the buffer. -/
def Inside (r : Reader α) : Prop :=
  ∀ data position, position ≤ data.size → stop (r data position) ≤ data.size

/-- A failed run leaves the position where it was. -/
def Rewinds (r : Reader α) : Prop :=
  ∀ data position e next, r data position = .error e next → next = position

/-- The bytes that a value is taken from are enough to read it: by themselves they give the same
value, and all of them are used. -/
def ReadsAlone (r : Reader α) : Prop :=
  ∀ data position a next, position ≤ data.size → r data position = .ok a next →
    position ≤ next ∧ r (data.extract position next) 0 = .ok a (next - position)

theorem map_eq_ok {r : Reader α} {f : α → β} {b : β} :
    (r >>= fun a => pure (f a)) data start = .ok b next ↔
      ∃ a, r data start = .ok a next ∧ f a = b := by
  rw [bind_eq_ok]
  constructor
  · rintro ⟨a, _, hread, hpure⟩
    cases hpure
    exact ⟨a, hread, rfl⟩
  · rintro ⟨a, hread, rfl⟩
    exact ⟨a, next, hread, rfl⟩

theorem exists_map_eq_ok {r : Reader α} {f : α → β} :
    (∃ b, (r >>= fun a => pure (f a)) data start = .ok b next) ↔
      ∃ a, r data start = .ok a next := by
  simp only [map_eq_ok]
  constructor
  · rintro ⟨_, a, hread, -⟩
    exact ⟨a, hread⟩
  · rintro ⟨a, hread⟩
    exact ⟨f a, a, hread, rfl⟩

theorem map_eq_error {r : Reader α} {f : α → β} {e : Error} :
    (r >>= fun a => pure (f a)) data start = .error e next ↔ r data start = .error e next := by
  rw [bind_apply]
  cases r data start with
  | ok a stop => simp
  | error e stop => simp

theorem stop_map (r : Reader α) (f : α → β) (data : Bytes) (start : Nat) :
    stop ((r >>= fun a => pure (f a)) data start) = stop (r data start) := by
  rw [bind_apply]
  cases r data start <;> rfl

theorem Forward.inside {r : Reader α} (hr : r.Forward) : r.Inside :=
  fun data position h => (hr data position h).2

theorem Inside.map {r : Reader α} (hr : r.Inside) (f : α → β) :
    (r >>= fun a => pure (f a) : Reader β).Inside := by
  intro data position h
  rw [stop_map]
  exact hr data position h

theorem Rewinds.map {r : Reader α} (hr : r.Rewinds) (f : α → β) :
    (r >>= fun a => pure (f a) : Reader β).Rewinds :=
  fun data position e next h => hr data position e next (map_eq_error.1 h)

theorem ReadsAlone.map {r : Reader α} (hr : r.ReadsAlone) (f : α → β) :
    (r >>= fun a => pure (f a) : Reader β).ReadsAlone := by
  intro data position b next hposition h
  obtain ⟨a, hread, rfl⟩ := map_eq_ok.1 h
  obtain ⟨hmoved, halone⟩ := hr data position a next hposition hread
  exact ⟨hmoved, map_eq_ok.2 ⟨a, halone, rfl⟩⟩

/-- What stands in the form that the reader takes for its value is enough. -/
theorem ReadsAlone.of_spells {r : Reader α}
    (h : ∀ start, Spells r start fun a written => Reads r written a) : r.ReadsAlone := by
  intro data position a next hposition hread
  obtain ⟨written, hreads, rfl, hstands⟩ := h position data a next hposition hread
  have halone : StandsAt written.toArray 0 written [] := ⟨Nat.zero_le _, by simp⟩
  refine ⟨Nat.le_add_right .., ?_⟩
  rw [extract_of_standsAt hstands, hreads _ _ _ halone, Nat.zero_add, Nat.add_sub_cancel_left]

/-! ### Primitives -/

/-- A reader that checks whether it can move, and if not gives an error where it stands. -/
theorem Rewinds.checked {p : Bytes → Nat → Prop} [∀ data position, Decidable (p data position)]
    {value : Bytes → Nat → α} {target : Bytes → Nat → Nat} {e : Error} :
    Rewinds fun data position =>
      if p data position then .ok (value data position) (target data position)
      else .error e position := by
  intro data position e next h
  dsimp only at h
  split at h
  · cases h
  · cases h
    rfl

theorem Rewinds.unsigned (width : Nat) : (unsigned width).Rewinds := .checked

theorem Rewinds.seek (target : Nat) : (seek target).Rewinds := .checked

theorem Rewinds.skip (count : Nat) : (skip count).Rewinds := .checked

theorem Rewinds.bytes (count : Nat) : (bytes count).Rewinds := by
  intro data position e next h
  rw [Reader.bytes] at h
  split at h
  · cases h
  · cases h
    rfl

theorem Rewinds.align (alignment : Nat) : (align alignment).Rewinds :=
  fun data position e next h => Rewinds.skip _ data position e next h

theorem Rewinds.peek : peek.Rewinds := by
  intro data position e next h
  rw [Reader.peek] at h
  split at h
  · cases h
  · cases h
    rfl

theorem Rewinds.attempt (r : Reader α) : (attempt r).Rewinds := by
  intro data position e next h
  rw [Reader.attempt] at h
  split at h
  · cases h
  · cases h
    rfl

theorem Inside.seek (target : Nat) : (seek target).Inside := by
  intro data position h
  rw [Reader.seek]
  split
  · assumption
  · exact h

theorem Inside.attempt {r : Reader α} (hr : r.Inside) : (attempt r).Inside := by
  intro data position h
  have hinside := hr data position h
  rw [Reader.attempt]
  cases hout : r data position with
  | ok a next => rwa [hout] at hinside
  | error e next => exact h

theorem ReadsAlone.unsigned (width : Nat) : (unsigned width).ReadsAlone := by
  refine .of_spells fun start => (Spells.unsigned width).mono fun value written h => ?_
  obtain ⟨hvalue, rfl⟩ := h
  exact .unsigned hvalue

theorem ReadsAlone.bytes (count : Nat) : (bytes count).ReadsAlone := by
  refine .of_spells fun start => (Spells.bytes count).mono fun taken written h => ?_
  obtain ⟨rfl, rfl⟩ := h
  exact .bytes taken.toList

theorem ReadsAlone.compressed : compressed.ReadsAlone := by
  refine .of_spells fun start => Spells.compressed.mono fun value written h => ?_
  obtain ⟨width, hwidth, hvalue, rfl⟩ := h
  exact .compressedIn hwidth hvalue

theorem ReadsAlone.compressedSigned : compressedSigned.ReadsAlone := by
  refine .of_spells fun start => Spells.compressedSigned.mono fun value written h => ?_
  obtain ⟨width, hwidth, hvalue, rfl⟩ := h
  exact .compressedSignedIn hwidth hvalue

theorem announcedWidth?_pos {lead width : Nat} (h : announcedWidth? lead = some width) :
    0 < width := by
  rw [announcedWidth?] at h
  grind

/-- A compressed integer ends where its first byte announces it, if this is in the buffer. -/
theorem Announced.lands_iff {outcome : EStateM.Result Error Nat α}
    (h : Announced data start outcome) :
    (∃ a, outcome = .ok a next) ↔
      (∃ width, announcedWidth? (data.byteAt start) = some width ∧ next = start + width) ∧
        next ≤ data.size := by
  cases h with
  | ended hend =>
      refine iff_of_false (by simp) ?_
      rintro ⟨⟨width, hlead, rfl⟩, hinside⟩
      have hpos := announcedWidth?_pos hlead
      omega
  | unannounced hinside hlead => simp [hlead]
  | short hinside hlead hshort =>
      refine iff_of_false (by simp) ?_
      rintro ⟨⟨width, hwidth, rfl⟩, hfits⟩
      cases hlead.symm.trans hwidth
      omega
  | number hinside hlead hfits =>
      constructor
      · rintro ⟨a, hout⟩
        cases hout
        exact ⟨⟨_, hlead, rfl⟩, hfits⟩
      · rintro ⟨⟨width, hwidth, rfl⟩, -⟩
        cases hlead.symm.trans hwidth
        exact ⟨_, rfl⟩

/-- A compressed integer that fails has not moved, or only behind its lead byte. -/
theorem Announced.failed {outcome : EStateM.Result Error Nat α} {e : Error}
    (h : Announced data start outcome) (hout : outcome = .error e next) :
    next = start ∨ next = start + 1 := by
  cases h with
  | ended hend => cases hout; exact .inl rfl
  | unannounced hinside hlead => cases hout; exact .inr rfl
  | short hinside hlead hshort => cases hout; exact .inr rfl
  | number hinside hlead hfits => cases hout

theorem peek_lands_iff :
    (∃ lead, peek data start = .ok lead next) ↔ next = start ∧ start < data.size := by
  obtain hinside | hend := Nat.lt_or_ge start data.size
  · rw [peek_inside hinside]
    simp [hinside, eq_comm]
  · rw [peek_at_end hend]
    simp [Nat.not_lt.2 hend]

/-- Of the multiples in a row that is as long as the number itself there is only one. -/
theorem eq_of_dvd_of_lt {alignment first second : Nat}
    (hfirst : start ≤ first ∧ first < start + alignment ∧ alignment ∣ first)
    (hsecond : start ≤ second ∧ second < start + alignment ∧ alignment ∣ second) :
    first = second := by
  have hbelow := Nat.eq_zero_of_dvd_of_lt (Nat.dvd_sub hfirst.2.2 hsecond.2.2) (by omega)
  have habove := Nat.eq_zero_of_dvd_of_lt (Nat.dvd_sub hsecond.2.2 hfirst.2.2) (by omega)
  omega

theorem padding_lands {alignment : Nat} (hpos : 0 < alignment) (start : Nat) :
    start ≤ start + (alignment - start % alignment) % alignment ∧
      start + (alignment - start % alignment) % alignment < start + alignment ∧
      alignment ∣ start + (alignment - start % alignment) % alignment := by
  have hpadding := Nat.mod_lt (alignment - start % alignment) hpos
  refine ⟨Nat.le_add_right .., Nat.add_lt_add_left hpadding start, ?_⟩
  have hrest := Nat.mod_lt start hpos
  rw [Nat.dvd_iff_mod_eq_zero, Nat.add_mod_mod, ← Nat.mod_add_mod,
    Nat.add_sub_cancel' (Nat.le_of_lt hrest), Nat.mod_self]

/-- The position moves to the first multiple that it is not beyond, if this is in the buffer. -/
theorem align_lands_iff {alignment : Nat} (hpos : 0 < alignment) {u : Unit} :
    align alignment data start = .ok u next ↔
      (start ≤ next ∧ next < start + alignment ∧ alignment ∣ next) ∧ next ≤ data.size := by
  have hlands := padding_lands hpos start
  rw [align, skip_eq_ok]
  constructor
  · rintro ⟨hinside, rfl⟩
    exact ⟨hlands, hinside⟩
  · rintro ⟨hnext, hinside⟩
    obtain rfl := eq_of_dvd_of_lt hnext hlands
    exact ⟨hinside, rfl⟩

/-! ### Text -/

/-- The bytes of a text stand at a place: there is no zero byte among them, and one behind them or
the end of the buffer. -/
inductive TextAt (data : Bytes) (start : Nat) (name : List UInt8) : (next : Nat) → Prop
  | ended {rest : List UInt8} (hname : 0 ∉ name)
      (hstands : StandsAt data start (name ++ [0]) rest) :
      TextAt data start name (start + (name ++ [0]).length)
  | unended (hname : 0 ∉ name) (hstands : StandsAt data start name []) :
      TextAt data start name (start + name.length)

theorem toList_extract_size (data : Bytes) (start : Nat) :
    (data.extract start data.size).toList = data.toList.drop start := by
  rw [Array.toList_extract, List.extract_eq_take_drop]
  exact List.take_of_length_le (by simp)

theorem exists_textAt (hstart : start ≤ data.size) :
    ∃ name next, TextAt data start name next := by
  by_cases hzero : 0 ∈ data.toList.drop start
  · obtain ⟨name, rest, hlist, hname⟩ := List.eq_append_cons_of_mem hzero
    exact ⟨name, _, .ended hname ⟨hstart, by rw [hlist, List.append_assoc]; rfl⟩⟩
  · exact ⟨_, _, .unended hzero ⟨hstart, (List.append_nil _).symm⟩⟩

variable {name : List UInt8}

theorem TextAt.le_size (h : TextAt data start name next) : start ≤ next ∧ next ≤ data.size := by
  cases h with
  | ended hname hstands =>
      have hsize := hstands.size_eq
      omega
  | unended hname hstands =>
      have hsize := hstands.size_eq
      omega

/-- The bytes of a text are enough to find it. -/
theorem TextAt.extract (h : TextAt data start name next) :
    TextAt (data.extract start next) 0 name (next - start) := by
  cases h with
  | ended hname hstands =>
      have halone : StandsAt (name ++ [0]).toArray 0 (name ++ [0]) [] := ⟨Nat.zero_le _, by simp⟩
      have hfound := TextAt.ended hname halone
      rwa [extract_of_standsAt hstands, Nat.add_sub_cancel_left, ← Nat.zero_add (List.length _)]
  | unended hname hstands =>
      have halone : StandsAt name.toArray 0 name [] := ⟨Nat.zero_le _, by simp⟩
      have hfound := TextAt.unended hname halone
      rwa [extract_of_standsAt hstands, Nat.add_sub_cancel_left, ← Nat.zero_add name.length]

/-- A text is decoded from the line at the place, and what is moved over is the line with the zero
byte behind it, if there is one. -/
theorem text_eq_of_line {line : Bytes} {moved : Nat}
    (hline : (Bytes.untilNul (data.extract start data.size)).1 = line)
    (hmoved : min (line.size + 1) (data.extract start data.size).size = moved) :
    text data start =
      match Utf8.decode line with
      | .ok text => .ok text (start + moved)
      | .error fault => .error (.malformed (.illFormedText start fault)) start := by
  subst hline hmoved
  rfl

theorem TextAt.text_eq (h : TextAt data start name next) :
    text data start =
      match Utf8.decode name.toArray with
      | .ok text => .ok text next
      | .error fault => .error (.malformed (.illFormedText start fault)) start := by
  have hlist := toList_extract_size data start
  have hsize : (data.extract start data.size).size = (data.toList.drop start).length := by
    rw [← hlist, Array.length_toList]
  cases h with
  | @ended rest hname hstands =>
      rw [hstands.2] at hlist hsize
      have huntil : Bytes.untilNul (data.extract start data.size) = (name.toArray, true) :=
        Bytes.untilNul_eq_ended.2 ⟨hname, rest, by rw [hlist, List.append_assoc]; rfl⟩
      refine text_eq_of_line (congrArg Prod.fst huntil) ?_
      simp [hsize]
  | unended hname hstands =>
      rw [hstands.2, List.append_nil] at hlist hsize
      refine text_eq_of_line ?_ (by simp [hsize])
      rw [← @Array.toArray_toList _ (data.extract start data.size), hlist,
        ← List.append_nil name, Bytes.untilNul_fst hname (List.forall_mem_nil _), List.append_nil]

theorem text_eq_ok {value : String} (hstart : start ≤ data.size) :
    text data start = .ok value next ↔
      ∃ name, TextAt data start name next ∧ Utf8.decode name.toArray = .ok value := by
  constructor
  · intro h
    obtain ⟨name, stop, hname⟩ := exists_textAt hstart
    rw [hname.text_eq] at h
    split at h
    · rename_i found hdecode
      cases h
      exact ⟨name, hname, hdecode⟩
    · cases h
  · rintro ⟨name, hname, hdecode⟩
    rw [hname.text_eq, hdecode]

theorem Inside.text : text.Inside := by
  intro data position h
  obtain ⟨name, next, hname⟩ := exists_textAt h
  rw [hname.text_eq]
  split
  · exact hname.le_size.2
  · exact h

theorem Rewinds.text : text.Rewinds := by
  intro data position e next h
  rw [Reader.text] at h
  split at h
  · cases h
  · cases h
    rfl

theorem ReadsAlone.text : text.ReadsAlone := by
  intro data position value next hposition h
  obtain ⟨name, hname, hdecode⟩ := (text_eq_ok hposition).1 h
  refine ⟨hname.le_size.1, ?_⟩
  rw [hname.extract.text_eq, hdecode]

end Reader

end CliMeta
