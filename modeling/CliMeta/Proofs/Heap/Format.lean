import CliMeta.Heap.Store
import CliMeta.Proofs.Heap.Iteration
import CliMeta.Proofs.Reader.Compressed
import CliMeta.Proofs.Reader.Terminated
import CliMeta.Proofs.Text.Utf8

/-!
The formats of the heaps. A name is a text in UTF-8 with a zero byte behind it. A byte string stands
behind its length, and so does the payload of a literal, which is empty or holds the units and one
byte more. The lengths are compressed numbers of any width. Each heap finds the entries of its
format wherever they are written, and nothing else.
-/

namespace CliMeta

open Reader

/-! ### Names -/

namespace StringHeap

/-- A text without NUL is written with a zero byte behind it. -/
def format : HeapFormat String where
  Stored text written := '\x00' ∉ text.toList ∧ written = Utf8.encode text ++ [0]
  IsPadding rest := rest = []

def stream (h : StringHeap) : EntryStream String :=
  ⟨fun offset => (h.get offset).map fun text => (text, text.utf8ByteSize + 1),
    fun offset => h.size ≤ offset, h.size, 1⟩

theorem map_entry (h : StringHeap) (offset : Nat) :
    (h.stream.entry offset).map Prod.fst = h.get offset := by
  show ((h.get offset).map _).map Prod.fst = _
  cases h.get offset <;> rfl

variable {h : StringHeap} {place : Nat} {text : String}

/-- A text is found where it stands with a zero byte behind it. -/
theorem text?_eq_some :
    h.text? place = some text ↔ '\x00' ∉ text.toList ∧
      StandsAt h.data place (Utf8.encode text ++ [0])
        (h.data.toList.drop (place + (Utf8.encode text ++ [0]).length)) := by
  rw [text?, Option.bind_eq_some_iff, ← Utf8.zero_mem_encode, List.length_append,
    List.length_singleton, ← Nat.add_assoc]
  constructor
  · rintro ⟨stop, hstop, hdecode⟩
    obtain ⟨name, hname, rfl, hstands⟩ := Bytes.nulFrom?_eq_some_iff.1 hstop
    have htext := Utf8.decode?_eq_some.1 hdecode
    rw [extract_of_standsAt hstands.front] at htext
    obtain rfl : name = Utf8.encode text := htext
    exact ⟨hname, hstands⟩
  · rintro ⟨hnone, hstands⟩
    refine ⟨_, Bytes.nulFrom?_eq_some_iff.2 ⟨_, hnone, rfl, hstands⟩, ?_⟩
    rw [extract_of_standsAt hstands.front]
    exact Utf8.decode?_encode text

theorem get_eq_ok (hplace : 0 < place) : h.get place = .ok text ↔ h.text? place = some text := by
  rw [get, if_neg (Nat.ne_of_gt hplace)]
  cases h.text? place <;> simp

theorem stream_finds (h : StringHeap) : h.stream.Finds h.data format where
  size_eq := rfl
  isPadding_nil := rfl
  done_iff place := by
    show decide (h.data.size ≤ place) = true ↔ h.data.toList.drop place = []
    rw [decide_eq_true_iff, List.drop_eq_nil_iff, Array.length_toList]
  length_pos := by
    rintro text _ ⟨-, rfl⟩
    simp
  entry_eq_ok := by
    intro place text consumed hplace
    have hentry : h.stream.entry place = .ok (text, consumed) ↔
        h.get place = .ok text ∧ consumed = text.utf8ByteSize + 1 := by
      show (h.get place).map _ = _ ↔ _
      cases h.get place with
      | error e => simp [Except.map]
      | ok found =>
          simp only [Except.map, Except.ok.injEq, Prod.mk.injEq]
          constructor
          · rintro ⟨rfl, rfl⟩
            exact ⟨rfl, rfl⟩
          · rintro ⟨rfl, rfl⟩
            exact ⟨rfl, rfl⟩
    have hlength : (Utf8.encode text ++ [0]).length = text.utf8ByteSize + 1 := by simp
    rw [hentry, get_eq_ok hplace, text?_eq_some]
    constructor
    · rintro ⟨⟨hnone, hstands⟩, rfl⟩
      exact ⟨_, ⟨hnone, rfl⟩, hlength.symm, hstands⟩
    · rintro ⟨_, ⟨hnone, rfl⟩, rfl, hstands⟩
      exact ⟨⟨hnone, hstands⟩, hlength⟩

end StringHeap

/-! ### Byte strings -/

/-- A payload is written behind its length, which is compressed in one of the three widths. -/
def LengthPrefixed (payload : Bytes) (written : List UInt8) : Prop :=
  ∃ width, IsCompressedWidth width ∧ payload.size < 1 <<< payloadBits width ∧
    written = compressedIn width payload.size ++ payload.toList

theorem LengthPrefixed.length_pos {payload : Bytes} {written : List UInt8}
    (h : LengthPrefixed payload written) : 0 < written.length := by
  obtain ⟨width, hwidth, -, rfl⟩ := h
  have hpos : 0 < width := by
    rcases hwidth with rfl | rfl | rfl <;> decide
  rw [List.length_append, compressedIn_length hwidth]
  omega

theorem LengthPrefixed.reads {payload : Bytes} {written : List UInt8}
    (h : LengthPrefixed payload written) :
    Reads (Reader.compressed >>= Reader.bytes) written payload := by
  obtain ⟨width, hwidth, hfits, rfl⟩ := h
  refine (Reads.compressedIn hwidth hfits).bind ?_
  exact Reads.bytes payload.toList

theorem lengthPrefixed_spells {start : Nat} :
    Spells (Reader.compressed >>= Reader.bytes) start LengthPrefixed := by
  refine .bind .compressed fun length first ⟨width, hwidth, hfits, hfirst⟩ => ?_
  refine (Spells.bytes length).mono fun payload second ⟨hsize, hsecond⟩ => ?_
  subst hfirst hsecond hsize
  exact ⟨width, hwidth, hfits, rfl⟩

/-- A payload is found where it stands behind its length. -/
theorem lengthPrefixed?_eq_some {data payload : Bytes} {place consumed : Nat} :
    data.lengthPrefixed? place = some (payload, consumed) ↔
      ∃ written, LengthPrefixed payload written ∧ consumed = written.length ∧
        StandsAt data place written (data.toList.drop (place + written.length)) := by
  rw [Bytes.lengthPrefixed?]
  constructor
  · intro h
    split at h
    · rename_i taken next hout
      cases h
      have hplace : place ≤ data.size := by
        refine Nat.le_of_not_lt fun hpast => ?_
        have hlead := byte_at_end (Nat.le_of_lt hpast)
        have hnone : (Reader.compressed >>= Reader.bytes) data place = .error .outOfBounds place :=
          bind_of_error (bind_of_error hlead _) _
        cases hnone.symm.trans hout
      obtain ⟨written, hwritten, rfl, hstands⟩ := lengthPrefixed_spells _ _ _ hplace hout
      exact ⟨written, hwritten, Nat.add_sub_cancel_left .., hstands⟩
    · cases h
  · rintro ⟨written, hwritten, rfl, hstands⟩
    rw [hwritten.reads data place _ hstands]
    simp

namespace BlobHeap

def format : HeapFormat Bytes where
  Stored := LengthPrefixed
  IsPadding rest := rest = []

def stream (h : BlobHeap) : EntryStream Bytes :=
  ⟨h.entry, fun offset => h.size ≤ offset, h.size, 1⟩

theorem stream_finds (h : BlobHeap) : h.stream.Finds h.data format where
  size_eq := rfl
  isPadding_nil := rfl
  done_iff place := by
    show decide (h.data.size ≤ place) = true ↔ h.data.toList.drop place = []
    rw [decide_eq_true_iff, List.drop_eq_nil_iff, Array.length_toList]
  length_pos := LengthPrefixed.length_pos
  entry_eq_ok := by
    intro place payload consumed hplace
    show h.entry place = _ ↔ ∃ written, LengthPrefixed payload written ∧ _
    rw [entry, if_neg (Nat.ne_of_gt hplace), ← lengthPrefixed?_eq_some]
    cases h.data.lengthPrefixed? place <;> simp

end BlobHeap

/-! ### Literals -/

namespace UserStringHeap

/-- A payload without bytes holds no units. Any other holds them in two bytes each, and behind them
is one byte more. -/
def HoldsUnits (units : List Nat) (payload : List UInt8) : Prop :=
  units = [] ∧ payload = [] ∨
    (∀ u ∈ units, u < 0x10000) ∧
      ∃ flag, payload = units.flatMap (littleEndianBytes · 2) ++ [flag]

theorem length_flatMap_units (found : List Nat) :
    (found.flatMap (littleEndianBytes · 2)).length = 2 * found.length := by
  induction found with
  | nil => rfl
  | cons u found ih =>
      rw [List.flatMap_cons, List.length_append, littleEndianBytes_length, ih, List.length_cons]
      omega

/-- Units are read back from the bytes that they are written in. -/
theorem units_written {found : List Nat} (hfits : ∀ u ∈ found, u < 0x10000) (flag : UInt8) :
    units (found.flatMap (littleEndianBytes · 2) ++ [flag]).toArray = found := by
  have hstands : StandsAt (found.flatMap (littleEndianBytes · 2) ++ [flag]).toArray 0
      (found.flatMap (littleEndianBytes · 2)) [flag] := ⟨Nat.zero_le _, rfl⟩
  apply List.ext_getElem
  · simp only [units, List.length_map, List.length_range, List.size_toArray, List.length_append,
      length_flatMap_units, List.length_singleton]
    omega
  · intro place _ hplace
    obtain ⟨behind, hunit⟩ := standsAt_item (fun u _ => littleEndianBytes_length u 2) hstands
      (List.getElem?_eq_getElem hplace)
    rw [Nat.zero_add, Nat.mul_comm] at hunit
    have hword : found[place] < 1 <<< (8 * 2) := hfits _ (List.getElem_mem hplace)
    simpa only [units, List.getElem_map, List.getElem_range] using hunit.littleEndian hword

/-- The bytes from a place on are those of the units that are read in them. -/
theorem drop_eq_flatMap_units {data : Bytes} {start count : Nat}
    (h : start + 2 * count ≤ data.size) :
    data.toList.drop start =
      ((List.range count).map fun place => data.littleEndian (start + 2 * place) 2).flatMap
        (littleEndianBytes · 2) ++ data.toList.drop (start + 2 * count) := by
  induction count with
  | zero => rfl
  | succ count ih =>
      have hlast : start + 2 * count + 2 ≤ data.size := by omega
      have hunit := (StandsAt.of_littleEndian hlast).2.2
      rw [ih (by omega), hunit, List.range_succ, List.map_append, List.flatMap_append,
        List.append_assoc]
      simp only [List.map_singleton, List.flatMap_singleton]
      rfl

/-- A payload of the right length holds the units that are read from it, and no others. -/
theorem holdsUnits_iff {payload : Bytes} {found : List Nat} :
    HoldsUnits found payload.toList ↔
      isEntryLength payload.size = true ∧ units payload = found := by
  constructor
  · rintro (⟨rfl, hempty⟩ | ⟨hfits, flag, hlist⟩)
    · obtain rfl : payload = #[] := by rw [← @Array.toArray_toList _ payload, hempty]
      exact ⟨rfl, rfl⟩
    · obtain rfl : payload = (found.flatMap (littleEndianBytes · 2) ++ [flag]).toArray := by
        rw [← hlist, Array.toArray_toList]
      refine ⟨?_, units_written hfits flag⟩
      simp only [isEntryLength, List.size_toArray, List.length_append, length_flatMap_units,
        List.length_singleton, Bool.or_eq_true, beq_iff_eq]
      omega
  · rintro ⟨hlength, rfl⟩
    simp only [isEntryLength, Bool.or_eq_true, beq_iff_eq] at hlength
    rcases hlength with hempty | hodd
    · obtain rfl : payload = #[] := Array.eq_empty_of_size_eq_zero hempty
      exact .inl ⟨rfl, rfl⟩
    · refine .inr ⟨fun u hu => ?_, ?_⟩
      · obtain ⟨place, hplace, rfl⟩ := List.mem_map.1 hu
        have hinside : 2 * place + 2 ≤ payload.size := by
          have hbefore := List.mem_range.1 hplace
          omega
        exact (StandsAt.of_littleEndian hinside).1
      -- behind the units there is one byte left
      · have hcount : 0 + 2 * (payload.size / 2) ≤ payload.size := by omega
        have hlist := drop_eq_flatMap_units hcount
        have hlast : payload.size / 2 * 2 + 1 = payload.size := by omega
        obtain ⟨flag, hflag⟩ := List.length_eq_one_iff.1
          (by simp; omega : (payload.toList.drop (0 + 2 * (payload.size / 2))).length = 1)
        refine ⟨flag, ?_⟩
        simp only [Nat.zero_add, List.drop_zero] at hlist hflag
        rw [hflag] at hlist
        exact hlist

def format : HeapFormat (List Nat) where
  Stored found written := ∃ payload : Bytes, LengthPrefixed payload written ∧
    HoldsUnits found payload.toList
  IsPadding rest := ∀ x ∈ rest, x = 0

def stream (h : UserStringHeap) : EntryStream (List Nat) :=
  ⟨h.entry, h.isPadding, h.size, 1⟩

theorem isPadding_iff {h : UserStringHeap} {place : Nat} :
    h.isPadding place = true ↔ ∀ x ∈ h.data.toList.drop place, x = 0 := by
  rw [isPadding, Array.all_iff_forall]
  constructor
  · intro hall x hx
    obtain ⟨k, hk, rfl⟩ := List.mem_iff_getElem.1 hx
    rw [List.length_drop, Array.length_toList] at hk
    have hinside : place + k < h.data.size := by omega
    simpa using hall (place + k) hinside ⟨Nat.le_add_right .., hinside⟩
  · rintro hall k hk ⟨hplace, -⟩
    have hmem : h.data[k] ∈ h.data.toList.drop place := by
      refine List.mem_iff_getElem?.2 ⟨k - place, ?_⟩
      rw [List.getElem?_drop, Array.getElem?_toList, Nat.add_sub_cancel' hplace,
        Array.getElem?_eq_getElem hk]
    rw [hall _ hmem]
    rfl

theorem stream_finds (h : UserStringHeap) : h.stream.Finds h.data format where
  size_eq := rfl
  isPadding_nil := List.forall_mem_nil _
  done_iff place := isPadding_iff
  length_pos := by
    rintro found written ⟨payload, hprefixed, -⟩
    exact hprefixed.length_pos
  entry_eq_ok := by
    intro place found consumed hplace
    show h.entry place = _ ↔ ∃ written, (∃ payload : Bytes, _ ∧ HoldsUnits found _) ∧ _
    rw [entry, if_neg (Nat.ne_of_gt hplace)]
    constructor
    · intro hentry
      split at hentry
      · rename_i payload length hfound
        split at hentry
        · rename_i hlength
          cases hentry
          obtain ⟨written, hwritten, hstands⟩ := lengthPrefixed?_eq_some.1 hfound
          exact ⟨written, ⟨payload, hwritten, holdsUnits_iff.2 ⟨hlength, rfl⟩⟩, hstands⟩
        · cases hentry
      · cases hentry
    · rintro ⟨written, ⟨payload, hwritten, hholds⟩, hstands⟩
      obtain ⟨hlength, rfl⟩ := holdsUnits_iff.1 hholds
      rw [lengthPrefixed?_eq_some.2 ⟨written, hwritten, hstands⟩]
      simp only [hlength, if_true]

end UserStringHeap

end CliMeta
