import CliMeta.Proofs.Image.Directory
import CliMeta.Proofs.Machine.Reader

/-!
The metadata root and the stream directory, read with words. A header is looked for in all that is
left of the metadata, its name in a slice of at most as many bytes as a name may take up. The slices
are inside since the lengths are looked at first, and the sums fit since names are short and places
and sizes are 32-bit words.
-/

namespace CliMeta

theorem Bytes.extract_min (b : Bytes) (start stop : Nat) :
    b.extract start (min b.size stop) = b.extract start stop := by
  have h := @Array.extract_extract _ b 0 b.size start stop
  rw [Array.extract_size, Nat.zero_add, Nat.zero_add, Nat.min_comm] at h
  exact h.symm

theorem Bytes.nulFrom?_lt {b : Bytes} {position stop : Nat} (h : b.nulFrom? position = some stop) :
    stop < b.size := by
  obtain ⟨-, hzero, -⟩ := nulFrom?_eq_some.1 h
  exact (Array.getElem?_eq_some_iff.1 hzero).1

theorem utf8ByteSize_latin1_le (name : List UInt8) :
    (latin1 name.toArray).utf8ByteSize ≤ 4 * name.length := by
  have hwide : name.countP (0x80 ≤ ·) ≤ name.length := List.countP_le_length
  rw [utf8ByteSize_latin1]
  omega

namespace Machine

/-! ### Stream headers -/

/-- The header at the front of the bytes. -/
def streamHeader (data : Bytes) : Checked StreamHeader :=
  if data.size < 9 then fail .outOfBounds
  else do
    let nameArea ← slice data 8 (min data.size (8 + StreamHeader.nameLimit))
    match nameArea.nulFrom? 0 with
    | none => fail (.malformed .unterminatedStreamName)
    | some length =>
        let offset ← valueAt (unsigned 4) data 0
        let size ← unsignedFrom 4 data 4
        let name ← slice nameArea 0 length
        return ⟨offset, size, latin1 name⟩

/-- The bytes that are skipped for a header. -/
def headerSize (h : StreamHeader) : Checked Nat := do
  let ended ← add 64 h.name.utf8ByteSize 1
  let padded ← add 64 ended 3
  add 64 8 (padded / 4 * 4)

def streamHeaderReader : CheckedReader StreamHeader := do
  let data ← liftReader Reader.buffer
  let start ← liftReader Reader.position
  let rest ← compute (slice data start data.size)
  let header ← compute (streamHeader rest)
  let length ← compute (headerSize header)
  liftReader (Reader.skip length)
  let stop ← compute (add 64 header.offset header.size)
  if data.size < stop then
    liftReader (Reader.malformed (.streamOutside header.name header.offset header.size data.size))
  return header

/-- Only as many bytes as a header can take up are looked at. -/
theorem streamHeader_eq (data : Bytes) :
    streamHeader data =
      lift (StreamHeader.ofBytes (data.extract 0 (8 + StreamHeader.nameLimit))) := by
  have hlimit : 8 + StreamHeader.nameLimit = 40 := rfl
  rw [streamHeader, StreamHeader.ofBytes, hlimit]
  have hsize : (data.extract 0 40).size = min 40 data.size := by simp
  by_cases hshort : data.size < 9
  · have hshort' : (data.extract 0 40).size < 9 := by omega
    rw [if_pos hshort, if_pos hshort']
    rfl
  have hlong : ¬(data.extract 0 40).size < 9 := by omega
  have harea : 8 ≤ min data.size 40 ∧ min data.size 40 ≤ data.size := by omega
  have hsame : (data.extract 0 40).extract 8 40 = data.extract 8 40 := by
    rw [Array.extract_extract]
    rfl
  rw [if_neg hshort, if_neg hlong, slice_eq harea, ok_bind, Bytes.extract_min, hsame,
    Bytes.untilNul]
  cases hstop : Bytes.nulFrom? (data.extract 8 40) 0 with
  | none => rfl
  | some length =>
      have hlength := Bytes.nulFrom?_lt hstop
      have hname : 0 ≤ length ∧ length ≤ (data.extract 8 40).size := by omega
      have hfront (position : Nat) (hposition : position + 4 ≤ 8) :
          Bytes.littleEndian (data.extract 0 40) position 4 = data.littleEndian position 4 := by
        have hinside : Bytes.littleEndian (data.extract 0 (min data.size 40)) position 4 =
            data.littleEndian (0 + position) 4 :=
          Bytes.littleEndian_extract (Nat.min_le_left data.size 40) (by omega)
        rwa [Bytes.extract_min, Nat.zero_add] at hinside
      have hhead : 0 + 4 ≤ data.size := by omega
      simp only
      rw [unsigned_valueAt hhead, ok_bind, unsignedFrom_eq (by omega), ok_bind, slice_eq hname,
        ok_bind, hfront 0 (by decide), hfront 4 (by decide)]
      rfl

/-- A name that is found is short. -/
theorem headerSize_eq {data : Bytes} {header : StreamHeader}
    (h : StreamHeader.ofBytes data = .ok header) :
    headerSize header = .ok header.headerSize := by
  obtain ⟨name, rest, -, -, -, hshort, hname, -⟩ := StreamHeader.ofBytes_eq_ok.1 h
  have hsize := utf8ByteSize_latin1_le name
  rw [← hname] at hsize
  unfold StreamHeader.nameLimit at hshort
  rw [headerSize, add_eq (by omega), ok_bind, add_eq (by omega), ok_bind, add_eq (by omega),
    StreamHeader.headerSize]

theorem follows_streamHeaderReader {data : Bytes} {start : Nat} :
    Follows data start streamHeaderReader StreamHeader.reader := by
  refine .buffer (.position fun place _ hplace _ => ?_)
  refine .compute (slice_eq ⟨hplace, Nat.le_refl _⟩) ?_
  have hcut : (data.extract place data.size).extract 0 (8 + StreamHeader.nameLimit) =
      data.extract place (place + 8 + StreamHeader.nameLimit) := by
    rw [Array.extract_extract, Nat.min_comm, Bytes.extract_min]
    rfl
  have hheader := streamHeader_eq (data.extract place data.size)
  rw [hcut] at hheader
  refine (Follows.computed hheader).bind_where
    (.ofExcept fun header (h : StreamHeader.ofBytes _ = .ok header) => h) fun header hfound => ?_
  refine .compute (headerSize_eq hfound) ?_
  refine (follows_skip _).bind fun _ => ?_
  obtain ⟨name, rest, hoffset, hsize, -⟩ := StreamHeader.ofBytes_eq_ok.1 hfound
  refine .compute (add_eq (by omega)) (.ite (fun _ => ?_) fun _ => .pure _)
  exact .malformed_bind _

/-! ### The root -/

/-- Reads what follows the signature. -/
def rootFields (signature : Nat) : CheckedReader Root := do
  let majorVersion ← unsigned 2
  let minorVersion ← unsigned 2
  let reserved ← unsigned 4
  let versionLength ← unsigned 4
  let versionArea ← liftReader (Reader.bytes versionLength)
  let versionText ← compute
    (slice versionArea 0 ((versionArea.nulFrom? 0).getD versionArea.size))
  align 4
  let flags ← unsigned 2
  let streamCount ← unsigned 2
  if streamCount = 0 then
    liftReader (Reader.malformed .noStreams)
  let streams ← times streamHeaderReader streamCount
  return {
    signature, majorVersion, minorVersion, reserved, versionLength
    version := Utf8.decodeLossy versionText
    flags, streams }

def root (data : Bytes) : Checked Root :=
  if data.size < 20 then fail .outOfBounds
  else do
    let signature ← valueAt (unsigned 4) data 0
    if signature ≠ Root.magic then fail (.malformed (.rootSignature signature))
    else valueAt (rootFields signature) data 4

/-- The text of an area is cut off at its first zero byte, or it is all of the area. -/
theorem slice_untilNul (area : Bytes) :
    slice area 0 ((area.nulFrom? 0).getD area.size) = .ok area.untilNul.1 := by
  rw [Bytes.untilNul]
  cases hstop : area.nulFrom? 0 with
  | none =>
      rw [Option.getD_none, slice_eq ⟨Nat.zero_le _, Nat.le_refl _⟩, Array.extract_size]
  | some length =>
      have hlength := Nat.le_of_lt (Bytes.nulFrom?_lt hstop)
      rw [Option.getD_some, slice_eq ⟨Nat.zero_le _, hlength⟩]

theorem follows_rootFields {data : Bytes} {start : Nat} (signature : Nat) :
    Follows data start (rootFields signature) (Root.fieldsReader signature) := by
  refine (follows_unsigned 2).bind fun majorVersion => ?_
  refine (follows_unsigned 2).bind fun minorVersion => ?_
  refine (follows_unsigned 4).bind fun reserved => ?_
  refine (follows_unsigned 4).bind fun versionLength => ?_
  refine (follows_bytes versionLength).bind fun versionArea => ?_
  refine .compute (slice_untilNul versionArea) ?_
  refine (follows_align (by decide)).bind fun _ => ?_
  refine (follows_unsigned 2).bind fun flags => (follows_unsigned 2).bind fun streamCount => ?_
  refine .ite (fun _ => .malformed_bind _) fun _ => ?_
  exact (follows_times follows_streamHeaderReader streamCount).bind fun _ => .pure _

theorem root_eq {data : Bytes} (hsize : data.size < positions) :
    root data = lift (Root.parse data) := by
  rw [root, Root.parse]
  refine ite_agrees (fun _ => rfl) fun hlong => ?_
  rw [unsigned_valueAt (by omega), ok_bind]
  refine ite_agrees (fun _ => rfl) fun _ => ?_
  exact (follows_rootFields _).valueAt_eq hsize (by omega)

end Machine

end CliMeta
