import CliMeta.Heap.Store
import CliMeta.Proofs.Machine.Root
import CliMeta.Proofs.Text.Utf8

/-!
Heaps, read with words. An entry is read in a slice that begins at its offset, and there it is what
it is in the whole heap, since readers look at no byte in front of their position. An entry ends
inside its heap, so the place behind it can be counted.
-/

namespace CliMeta

/-! ### The rest of a buffer -/

namespace Reader

variable {α β : Type}

/-- An outcome with its position counted from an earlier place on. -/
def behind (start : Nat) : EStateM.Result Error Nat α → EStateM.Result Error Nat α
  | .ok a next => .ok a (start + next)
  | .error e next => .error e (start + next)

/-- Finds in the rest of a buffer what is found in the whole. -/
def Relocates (r : Reader α) : Prop :=
  ∀ (data : Bytes) start position, start ≤ data.size →
    r data (start + position) = behind start (r (data.extract start data.size) position)

theorem Relocates.pure (a : α) : (pure a : Reader α).Relocates :=
  fun _ _ _ _ => rfl

theorem Relocates.malformed (defect : Defect) : (malformed defect : Reader α).Relocates :=
  fun _ _ _ _ => rfl

theorem Relocates.bind {r : Reader α} {f : α → Reader β} (hr : r.Relocates)
    (hf : ∀ a, (f a).Relocates) : (r >>= f).Relocates := by
  intro data start position hstart
  rw [bind_apply, bind_apply, hr data start position hstart]
  cases r (data.extract start data.size) position with
  | ok a next => exact hf a data start next hstart
  | error e next => rfl

theorem Relocates.ite {p : Prop} [Decidable p] {r s : Reader α} (hr : r.Relocates)
    (hs : s.Relocates) : (if p then r else s).Relocates := by
  split
  · exact hr
  · exact hs

theorem Relocates.unsigned (width : Nat) : (unsigned width).Relocates := by
  intro data start position hstart
  have hsize : (data.extract start data.size).size = data.size - start := by
    rw [Array.size_extract, Nat.min_self]
  rw [Reader.unsigned, Reader.unsigned, hsize]
  by_cases hfits : start + position + width ≤ data.size
  · have hrest : position + width ≤ data.size - start := by omega
    rw [if_pos hfits, if_pos hrest, Bytes.littleEndian_extract (Nat.le_refl _) hfits,
      Nat.add_assoc]
    rfl
  · have hrest : ¬position + width ≤ data.size - start := by omega
    rw [if_neg hfits, if_neg hrest]
    rfl

theorem Relocates.bytes (count : Nat) : (bytes count).Relocates := by
  intro data start position hstart
  have hsize : (data.extract start data.size).size = data.size - start := by
    rw [Array.size_extract, Nat.min_self]
  rw [Reader.bytes, Reader.bytes, Bytes.slice?, Bytes.slice?, hsize]
  by_cases hfits : start + position + count ≤ data.size
  · have hwhole : start + position ≤ start + position + count ∧
        start + position + count ≤ data.size := by omega
    have hrest : position ≤ position + count ∧ position + count ≤ data.size - start := by omega
    have hcut : (data.extract start data.size).extract position (position + count) =
        data.extract (start + position) (start + position + count) := by
      rw [Array.extract_extract, Nat.min_eq_left (by omega), Nat.add_assoc]
    rw [if_pos hwhole, if_pos hrest, hcut, Nat.add_assoc]
    rfl
  · have hwhole : ¬(start + position ≤ start + position + count ∧
        start + position + count ≤ data.size) := by omega
    have hrest : ¬(position ≤ position + count ∧ position + count ≤ data.size - start) := by omega
    rw [if_neg hwhole, if_neg hrest]
    rfl

theorem Relocates.compressed : Reader.compressed.Relocates := by
  have hbyte : Reader.byte.Relocates := .unsigned 1
  refine hbyte.bind fun lead => .ite (.pure _) (.ite (hbyte.bind fun _ => .pure _) ?_)
  exact .ite ((Relocates.bytes 3).bind fun _ => .pure _) (.malformed _)

end Reader

/-- The first zero byte of the rest of a buffer. -/
theorem Bytes.nulFrom?_eq_map {b : Bytes} {position : Nat} (h : position ≤ b.size) :
    b.nulFrom? position =
      (nulFrom? (b.extract position b.size) 0).map fun length => position + length := by
  have hbyte (place : Nat) : (b.extract position b.size)[place]? = b[position + place]? := by
    rw [Array.getElem?_extract]
    split
    · rfl
    · rw [Array.getElem?_eq_none (by omega)]
  refine Option.ext fun stop => ?_
  rw [Option.map_eq_some_iff]
  constructor
  · intro hstop
    obtain ⟨hle, hzero, hnone⟩ := nulFrom?_eq_some.1 hstop
    refine ⟨stop - position, nulFrom?_eq_some.2 ⟨Nat.zero_le _, ?_, fun k _ hk => ?_⟩, by omega⟩
    · rw [hbyte, Nat.add_sub_cancel' hle, hzero]
    · rw [hbyte]
      exact hnone _ (by omega) (by omega)
  · rintro ⟨length, hlength, rfl⟩
    obtain ⟨-, hzero, hnone⟩ := nulFrom?_eq_some.1 hlength
    rw [hbyte] at hzero
    refine nulFrom?_eq_some.2 ⟨by omega, hzero, fun k hle hk => ?_⟩
    have hbefore := hnone (k - position) (Nat.zero_le _) (by omega)
    rwa [hbyte, Nat.add_sub_cancel' hle] at hbefore

/-- A text has as many bytes as it was decoded from. -/
theorem Utf8.size_of_decode? {bytes : Bytes} {text : String} (h : Utf8.decode? bytes = some text) :
    text.utf8ByteSize = bytes.size := by
  rw [← Utf8.encode_length, ← Utf8.decode?_eq_some.1 h, Array.length_toList]

namespace Machine

variable {data : Bytes}

/-! ### Names -/

def string (h : StringHeap) (offset : Nat) : Checked String :=
  if offset = 0 then .ok ""
  else
    match h.data.slice? offset h.data.size with
    | none => fail (.heapRead .string offset)
    | some rest =>
        match rest.nulFrom? 0 with
        | none => fail (.heapRead .string offset)
        | some length => do
            let name ← slice rest 0 length
            match Utf8.decode? name with
            | none => fail (.heapRead .string offset)
            | some text => return text

/-- The name at a position and the place behind its zero byte. -/
def stringEntry (h : StringHeap) (position : Nat) : Checked (String × Nat) := do
  let text ← string h position
  let length ← add 64 text.utf8ByteSize 1
  let next ← add 64 position length
  return (text, next)

def strings (h : StringHeap) : Checked (List (Except Error (Nat × String))) :=
  walk (stringEntry h) (fun position => .ok (h.size ≤ position)) h.size 1

theorem string_eq (h : StringHeap) (offset : Nat) : string h offset = lift (h.get offset) := by
  rw [string, StringHeap.get, StringHeap.text?]
  refine ite_agrees (fun _ => rfl) fun _ => ?_
  rw [Bytes.slice?]
  by_cases hinside : offset ≤ h.data.size
  · rw [if_pos ⟨hinside, Nat.le_refl _⟩, Bytes.nulFrom?_eq_map hinside]
    simp only
    cases hstop : Bytes.nulFrom? (h.data.extract offset h.data.size) 0 with
    | none => rfl
    | some length =>
        have hlength := Bytes.nulFrom?_lt hstop
        have hcut : (h.data.extract offset h.data.size).extract 0 length =
            h.data.extract offset (offset + length) := by
          rw [Array.size_extract] at hlength
          rw [Array.extract_extract, Nat.min_eq_left (by omega), Nat.add_zero]
        simp only [Option.map_some, Option.bind_some]
        rw [slice_eq ⟨Nat.zero_le _, Nat.le_of_lt hlength⟩, ok_bind, hcut]
        cases Utf8.decode? (h.data.extract offset (offset + length)) <;> rfl
  · have hnone : h.data.nulFrom? offset = none := by
      refine Option.eq_none_iff_forall_ne_some.2 fun stop hstop => ?_
      have hle := (Bytes.nulFrom?_eq_some.1 hstop).1
      have hlt := Bytes.nulFrom?_lt hstop
      omega
    rw [if_neg fun hcut => hinside hcut.1, hnone]
    rfl

/-- A name ends inside the heap. -/
theorem utf8ByteSize_get_le {h : StringHeap} {offset : Nat} {text : String}
    (hget : h.get offset = .ok text) : text.utf8ByteSize ≤ h.data.size := by
  rw [StringHeap.get] at hget
  split at hget
  · cases hget
    exact Nat.zero_le _
  · split at hget
    · rename_i found
      cases hget
      obtain ⟨stop, hstop, hdecode⟩ := Option.bind_eq_some_iff.1 found
      rw [Utf8.size_of_decode? hdecode, Array.size_extract]
      omega
    · cases hget

theorem strings_eq {h : StringHeap} (hsize : h.data.size < positions) :
    strings h = .ok h.entries := by
  refine walk_eq (fun _ => rfl) (fun position hbefore => ?_) h.size 1
  have hword : h.data.size < 2 ^ 32 := hsize
  have hinside : position < h.data.size := Nat.lt_of_not_le (of_decide_eq_false hbefore)
  rw [stringEntry, string_eq]
  cases hget : h.get position with
  | error e => rfl
  | ok text =>
      have htext := utf8ByteSize_get_le hget
      rw [lift_ok, ok_bind, add_eq (by omega), ok_bind, add_eq (by omega)]
      rfl

/-! ### Payloads behind their lengths -/

/-- A payload behind its length, at an offset of a buffer, and the number of bytes of the two. -/
def lengthPrefixed (data : Bytes) (offset : Nat) : Checked (Option (Bytes × Nat)) :=
  match data.slice? offset data.size with
  | none => .ok none
  | some rest =>
      match (compressed >>= fun length => liftReader (Reader.bytes length)) rest 0 with
      | .ok payload next => .ok (some (payload, next))
      | .error (.error _) _ => .ok none
      | .error (.trap t) _ => trap t

theorem lengthPrefixed_eq (hsize : data.size < positions) (offset : Nat) :
    lengthPrefixed data offset = .ok (data.lengthPrefixed? offset) := by
  rw [lengthPrefixed, Bytes.lengthPrefixed?, Bytes.slice?]
  by_cases hinside : offset ≤ data.size
  · have hrest : (data.extract offset data.size).size < positions := by
      rw [Array.size_extract]
      omega
    have hsame : Follows (data.extract offset data.size) 0
        (compressed >>= fun length => liftReader (Reader.bytes length))
        (Reader.compressed >>= Reader.bytes) :=
      follows_compressed.bind follows_bytes
    have hmoved := (Reader.Relocates.compressed.bind Reader.Relocates.bytes) data offset 0 hinside
    rw [Nat.add_zero] at hmoved
    rw [if_pos ⟨hinside, Nat.le_refl _⟩, hmoved]
    simp only
    rw [(hsame hrest 0 (Nat.le_refl _) (Nat.zero_le _)).1]
    cases (Reader.compressed >>= Reader.bytes) (data.extract offset data.size) 0 with
    | ok payload next =>
        simp only [liftOutcome, Reader.behind, Nat.add_sub_cancel_left]
    | error e next => rfl
  · have hlead : Reader.byte data offset = .error .outOfBounds offset :=
      Reader.byte_at_end (by omega)
    have hnone : (Reader.compressed >>= Reader.bytes) data offset = .error .outOfBounds offset :=
      Reader.bind_of_error (Reader.bind_of_error hlead _) _
    rw [if_neg fun hcut => hinside hcut.1, hnone]

/-- What is found behind its length ends inside the buffer. -/
theorem lengthPrefixed_inside {payload : Bytes} {offset consumed : Nat}
    (hoffset : offset ≤ data.size) (h : data.lengthPrefixed? offset = some (payload, consumed)) :
    offset + consumed ≤ data.size := by
  rw [Bytes.lengthPrefixed?] at h
  split at h
  · rename_i found
    cases h
    have hforward : (Reader.compressed >>= Reader.bytes).Forward :=
      Reader.Sequential.compressed.forward.bind fun count => (Reader.Sequential.bytes count).forward
    have hmoved := hforward.of_ok hoffset found
    omega
  · cases h

/-- An entry and the place behind it. -/
def entryAt {α : Type} (entry : Nat → Checked (α × Nat)) (position : Nat) :
    Checked (α × Nat) := do
  let (value, consumed) ← entry position
  let next ← add 64 position consumed
  return (value, next)

theorem entryAt_eq {α : Type} {entry : Nat → Checked (α × Nat)}
    {outcome : Nat → Except Error (α × Nat)} {position : Nat}
    (hentry : entry position = lift (outcome position))
    (hword : ∀ value consumed, outcome position = .ok (value, consumed) →
      position + consumed < 2 ^ 64) :
    entryAt entry position =
      lift ((outcome position).map fun found => (found.1, position + found.2)) := by
  rw [entryAt, hentry]
  cases hout : outcome position with
  | error e => rfl
  | ok found =>
      rw [lift_ok, ok_bind]
      simp only
      rw [add_eq (hword _ _ hout)]
      rfl

/-! ### Byte strings -/

def blobEntry (h : BlobHeap) (offset : Nat) : Checked (Bytes × Nat) :=
  if offset = 0 then .ok (#[], 1)
  else do
    match ← lengthPrefixed h.data offset with
    | some found => return found
    | none => fail (.heapRead .blob offset)

def blob (h : BlobHeap) (offset : Nat) : Checked Bytes :=
  (blobEntry h offset).map Prod.fst

def blobs (h : BlobHeap) : Checked (List (Except Error (Nat × Bytes))) :=
  walk (entryAt (blobEntry h)) (fun position => .ok (h.size ≤ position)) h.size 1

theorem blobEntry_eq {h : BlobHeap} (hsize : h.data.size < positions) (offset : Nat) :
    blobEntry h offset = lift (h.entry offset) := by
  rw [blobEntry, BlobHeap.entry]
  refine ite_agrees (fun _ => rfl) fun _ => ?_
  rw [lengthPrefixed_eq hsize, ok_bind]
  cases h.data.lengthPrefixed? offset <;> rfl

theorem blob_eq {h : BlobHeap} (hsize : h.data.size < positions) (offset : Nat) :
    blob h offset = lift (h.get offset) :=
  map_agrees (blobEntry_eq hsize offset) Prod.fst

theorem blobEntry_inside {h : BlobHeap} {offset consumed : Nat} {payload : Bytes}
    (hinside : offset < h.data.size) (hentry : h.entry offset = .ok (payload, consumed)) :
    offset + consumed ≤ h.data.size := by
  rw [BlobHeap.entry] at hentry
  split at hentry
  · cases hentry
    omega
  · split at hentry
    · rename_i found
      cases hentry
      exact lengthPrefixed_inside (Nat.le_of_lt hinside) found
    · cases hentry

theorem blobs_eq {h : BlobHeap} (hsize : h.data.size < positions) : blobs h = .ok h.entries := by
  refine walk_eq (fun _ => rfl) (fun position hbefore => ?_) h.size 1
  have hword : h.data.size < 2 ^ 32 := hsize
  have hinside : position < h.data.size := Nat.lt_of_not_le (of_decide_eq_false hbefore)
  refine entryAt_eq (blobEntry_eq hsize position) fun payload consumed hentry => ?_
  have hstop := blobEntry_inside hinside hentry
  omega

/-! ### Literals -/

/-- The units of a payload, each made of the two bytes of a slice. -/
def units (payload : Bytes) : Checked (List Nat) :=
  (List.range (payload.size / 2)).mapM fun place => do
    let pair ← slice payload (2 * place) (2 * place + 2)
    let low ← byteAt pair 0
    let high ← byteAt pair 1
    return low + 256 * high

def userStringEntry (h : UserStringHeap) (offset : Nat) : Checked (List Nat × Nat) :=
  if offset = 0 then .ok ([], 1)
  else do
    match ← lengthPrefixed h.data offset with
    | some (payload, consumed) =>
        if UserStringHeap.isEntryLength payload.size then
          let found ← units payload
          return (found, consumed)
        else fail (.heapRead .userString offset)
    | none => fail (.heapRead .userString offset)

def userString (h : UserStringHeap) (offset : Nat) : Checked (List Nat) :=
  (userStringEntry h offset).map Prod.fst

def literalText (h : UserStringHeap) (offset : Nat) : Checked String :=
  (userString h offset).map Utf16.decodeLossy

/-- Whether all that is left of a heap is padding. The slice begins at the end of the heap if the
position is behind it. -/
def isPadding (h : UserStringHeap) (position : Nat) : Checked Bool := do
  let rest ← slice h.data (min position h.data.size) h.data.size
  return rest.all (· == 0)

def userStrings (h : UserStringHeap) : Checked (List (Except Error (Nat × List Nat))) :=
  walk (entryAt (userStringEntry h)) (isPadding h) h.size 1

theorem units_eq (payload : Bytes) : units payload = .ok (UserStringHeap.units payload) := by
  refine mapM_eq fun place hplace => ?_
  have hinside : 2 * place + 2 ≤ payload.size := by
    have hbefore := List.mem_range.1 hplace
    omega
  have hpair : (payload.extract (2 * place) (2 * place + 2)).size = 2 := by
    rw [Array.size_extract]
    omega
  have hbyte (index : Nat) (hindex : index < 2) :
      byteAt (payload.extract (2 * place) (2 * place + 2)) index =
        .ok (payload.byteAt (2 * place + index)) := by
    rw [byteAt_eq (by omega)]
    exact congrArg Except.ok (Bytes.byteAt_extract hinside (by omega))
  rw [slice_eq ⟨by omega, hinside⟩, ok_bind, hbyte 0 (by decide), ok_bind, hbyte 1 (by decide),
    ok_bind, Bytes.littleEndian_succ, Bytes.littleEndian_succ]
  rfl

theorem userStringEntry_eq {h : UserStringHeap} (hsize : h.data.size < positions)
    (offset : Nat) : userStringEntry h offset = lift (h.entry offset) := by
  rw [userStringEntry, UserStringHeap.entry]
  refine ite_agrees (fun _ => rfl) fun _ => ?_
  rw [lengthPrefixed_eq hsize, ok_bind]
  cases h.data.lengthPrefixed? offset with
  | none => rfl
  | some found =>
      simp only
      split
      · rw [units_eq]
        rfl
      · rfl

theorem userString_eq {h : UserStringHeap} (hsize : h.data.size < positions) (offset : Nat) :
    userString h offset = lift (h.get offset) :=
  map_agrees (userStringEntry_eq hsize offset) Prod.fst

theorem literalText_eq {h : UserStringHeap} (hsize : h.data.size < positions) (offset : Nat) :
    literalText h offset = lift (h.text offset) :=
  map_agrees (userString_eq hsize offset) Utf16.decodeLossy

theorem isPadding_eq (h : UserStringHeap) (position : Nat) :
    isPadding h position = .ok (h.isPadding position) := by
  rw [isPadding, slice_eq ⟨Nat.min_le_right .., Nat.le_refl _⟩, ok_bind,
    UserStringHeap.isPadding]
  refine congrArg Except.ok (Bool.eq_iff_iff.2 ?_)
  rw [Array.all_eq_true, Array.all_iff_forall]
  constructor
  · intro hrest place hplace hbehind
    have hinside : place - min position h.data.size <
        (h.data.extract (min position h.data.size) h.data.size).size := by
      rw [Array.size_extract, Nat.min_self]
      omega
    have hsame : min position h.data.size + (place - min position h.data.size) = place := by omega
    have hzero := hrest _ hinside
    simpa only [Array.getElem_extract, hsame] using hzero
  · intro hall place hplace
    rw [Array.getElem_extract]
    rw [Array.size_extract, Nat.min_self] at hplace
    have hend : min position h.data.size + place < h.size := by
      rw [UserStringHeap.size]
      omega
    exact hall _ _ ⟨by omega, hend⟩

/-- Behind the heap there is nothing but padding. -/
theorem lt_size_of_isPadding {h : UserStringHeap} {position : Nat}
    (hbefore : h.isPadding position = false) : position < h.data.size := by
  refine Nat.lt_of_not_le fun hend => ?_
  have hall : h.isPadding position = true :=
    Array.all_iff_forall.2 fun place hplace hbehind => absurd hplace (by omega)
  rw [hall] at hbefore
  cases hbefore

theorem userStringEntry_inside {h : UserStringHeap} {offset consumed : Nat} {found : List Nat}
    (hinside : offset < h.data.size) (hentry : h.entry offset = .ok (found, consumed)) :
    offset + consumed ≤ h.data.size := by
  rw [UserStringHeap.entry] at hentry
  split at hentry
  · cases hentry
    omega
  · split at hentry
    · rename_i hprefixed
      split at hentry
      · cases hentry
        exact lengthPrefixed_inside (Nat.le_of_lt hinside) hprefixed
      · cases hentry
    · cases hentry

theorem userStrings_eq {h : UserStringHeap} (hsize : h.data.size < positions) :
    userStrings h = .ok h.entries := by
  refine walk_eq (isPadding_eq h) (fun position hbefore => ?_) h.size 1
  have hword : h.data.size < 2 ^ 32 := hsize
  have hinside := lt_size_of_isPadding hbefore
  refine entryAt_eq (userStringEntry_eq hsize position) fun found consumed hentry => ?_
  have hstop := userStringEntry_inside hinside hentry
  omega

/-! ### Identifiers -/

/-- The identifier of 16 bytes that were cut out for it. -/
def newGuid (taken : Bytes) : Checked Guid :=
  if h : taken.size = 16 then .ok ⟨taken, h⟩ else trap .outOfRange

def guid (h : GuidHeap) (index : Nat) : Checked Guid :=
  if index = 0 then .ok .zero
  else do
    let place ← sub index 1
    let start ← mul 64 place 16
    let stop ← add 64 start 16
    match h.data.slice? start stop with
    | some taken => newGuid taken
    | none => fail (.heapRead .guid index)

/-- Every identifier with its number, each cut out of the heap. -/
def guids (h : GuidHeap) : Checked (List (Nat × Guid)) := do
  let count ← quotient h.data.size 16
  (List.range count).mapM fun place => do
    let taken ← slice h.data (place * 16) (place * 16 + 16)
    let found ← newGuid taken
    let number ← add 64 place 1
    return (number, found)

def guidHeap (data : Bytes) : Checked GuidHeap := do
  let excess ← remainder data.size 16
  if excess ≠ 0 then fail (.malformed (.guidHeapSize data.size)) else lift (GuidHeap.ofBytes data)

/-- The four heaps from the bytes of their streams. -/
def heaps (strings blobs guids userStrings : Bytes) : Checked Heaps := do
  return {
    strings := ← lift (StringHeap.ofBytes strings)
    blobs := ← lift (BlobHeap.ofBytes blobs)
    guids := ← guidHeap guids
    userStrings := ← lift (UserStringHeap.ofBytes userStrings) }

theorem newGuid_eq {h : GuidHeap} {start : Nat} (hfits : start + 16 ≤ h.data.size) :
    ∃ found, newGuid (h.data.extract start (start + 16)) = .ok found ∧
      h.guidAt? start = some found := by
  have htaken : (h.data.extract start (start + 16)).size = 16 := by
    rw [Array.size_extract]
    omega
  exact ⟨⟨_, htaken⟩, dif_pos htaken, dif_pos hfits⟩

/-- The bytes of every heap can be counted in 32 bits. -/
structure HeapsFit (h : Heaps) : Prop where
  strings : h.strings.data.size < positions
  blobs : h.blobs.data.size < positions
  guids : h.guids.data.size < positions
  userStrings : h.userStrings.data.size < positions

/-- The numbers of identifiers are words. -/
theorem guid_eq (h : GuidHeap) {index : Nat} (hindex : index < positions) :
    guid h index = lift (h.get index) := by
  have hword : index < 2 ^ 32 := hindex
  rw [guid, GuidHeap.get]
  refine ite_agrees (fun _ => rfl) fun hpos => ?_
  have hstart : (index - 1) * 16 < 2 ^ 64 := by omega
  have hstop : (index - 1) * 16 + 16 < 2 ^ 64 := by omega
  rw [sub_eq (Nat.one_le_iff_ne_zero.2 hpos), ok_bind, mul_eq hstart, ok_bind, add_eq hstop,
    ok_bind, wordOf_eq_ok hstart, Bytes.slice?]
  show _ = lift (discard (wordOf 64 ((index - 1) * 16 + 16)) >>= _)
  rw [wordOf_eq_ok hstop]
  generalize (index - 1) * 16 = start
  by_cases hfits : start + 16 ≤ h.data.size
  · obtain ⟨found, hnew, hfound⟩ := newGuid_eq hfits
    rw [if_pos ⟨Nat.le_add_right .., hfits⟩, hfound]
    exact hnew
  · rw [if_neg fun hcut => hfits hcut.2, GuidHeap.guidAt?, dif_neg hfits]
    rfl

theorem guids_eq {h : GuidHeap} (hsize : h.data.size < positions) : guids h = .ok h.entries := by
  have hword : h.data.size < 2 ^ 32 := hsize
  rw [guids, quotient_eq (by decide), ok_bind]
  refine mapM_filterMap fun place hplace => ?_
  have hbefore := List.mem_range.1 hplace
  have hfits : place * 16 + 16 ≤ h.data.size := by omega
  obtain ⟨found, hnew, hfound⟩ := newGuid_eq hfits
  refine ⟨(place + 1, found), ?_, by rw [hfound, Option.map_some]⟩
  rw [slice_eq ⟨Nat.le_add_right .., hfits⟩, ok_bind, hnew, ok_bind, add_eq (by omega)]
  rfl

theorem guidHeap_eq (data : Bytes) : guidHeap data = lift (GuidHeap.ofBytes data) := by
  rw [guidHeap, remainder_eq (by decide), ok_bind]
  split
  · rename_i hover
    rw [GuidHeap.ofBytes, dif_neg hover]
    rfl
  · rfl

theorem heaps_eq (strings blobs guids userStrings : Bytes) :
    heaps strings blobs guids userStrings =
      lift (Heaps.ofBytes strings blobs guids userStrings) :=
  bind_agrees rfl fun _ _ => bind_agrees rfl fun _ _ => bind_agrees (guidHeap_eq guids) fun _ _ =>
    bind_agrees rfl fun _ _ => rfl

end Machine

end CliMeta
