import CliMeta.Proofs.Image.Directory
import CliMeta.Proofs.Reader.Terminated
import CliMeta.Proofs.Text.Utf8
import Mathlib.Data.List.Basic

/-!
Metadata roots that were written. The names of the streams are in ASCII, and each is filled up with
its zero byte to whole words; the area of the version text has any length that the text fits in, and
is filled up to whole words too. Such a root is read back wherever the streams are inside the data.
-/

namespace CliMeta

open Reader

/-! ### Streams that are not inside the data -/

namespace StreamHeader

/-- What comes of an entry of the directory in data of a size. -/
def within (h : StreamHeader) (size : Nat) : Except Error StreamHeader :=
  if size < h.offset + h.size then .error (.malformed (.streamOutside h.name h.offset h.size size))
  else .ok h

theorem within_eq_ok {h : StreamHeader} {size : Nat} (hinside : h.offset + h.size ≤ size) :
    h.within size = .ok h :=
  if_neg (Nat.not_lt.2 hinside)

theorem within_eq_error {h : StreamHeader} {size : Nat} (houtside : size < h.offset + h.size) :
    h.within size = .error (.malformed (.streamOutside h.name h.offset h.size size)) :=
  if_pos houtside

theorem mapM_within_of_inside {headers : List StreamHeader} {size : Nat}
    (h : ∀ header ∈ headers, header.offset + header.size ≤ size) :
    headers.mapM (within · size) = .ok headers := by
  induction headers with
  | nil => rfl
  | cons header headers ih =>
      obtain ⟨hfirst, hothers⟩ := List.forall_mem_cons.1 h
      rw [List.mapM_cons, within_eq_ok hfirst, ih hothers]
      rfl

theorem mapM_within_of_outside {headers : List StreamHeader} {size : Nat}
    (h : ∃ header ∈ headers, size < header.offset + header.size) :
    ∃ header ∈ headers, size < header.offset + header.size ∧
      headers.mapM (within · size) =
        .error (.malformed (.streamOutside header.name header.offset header.size size)) := by
  induction headers with
  | nil => simp at h
  | cons first headers ih =>
      rw [List.exists_mem_cons_iff] at h ⊢
      by_cases hfirst : size < first.offset + first.size
      · refine .inl ⟨hfirst, ?_⟩
        rw [List.mapM_cons, within_eq_error hfirst]
        rfl
      · obtain ⟨header, hmem, houtside, hothers⟩ := ih (h.resolve_left hfirst)
        refine .inr ⟨header, hmem, houtside, ?_⟩
        rw [List.mapM_cons, within_eq_ok (Nat.not_lt.1 hfirst), hothers]
        rfl

end StreamHeader

namespace StoredHeader

variable {data : Bytes} {start : Nat} {rest : List UInt8}

theorem reader_yields {e : StoredHeader} (h : StandsAt data start e.bytes rest) :
    StreamHeader.reader.Yields data start (e.header.within data.size) (start + e.bytes.length) := by
  have hsize := h.size_eq
  have hbuffer : Reader.buffer data start = .ok data start := rfl
  have hposition : Reader.position data start = .ok start start := rfl
  have hskip : skip e.header.headerSize data start = .ok () (start + e.bytes.length) := by
    rw [← length_bytes]
    exact skip_eq_ok.2 ⟨by omega, rfl⟩
  have hfound : Reader.ofExcept (StreamHeader.ofBytes
      (data.extract start (start + 8 + StreamHeader.nameLimit))) data start =
        .ok e.header start := by
    rw [ofBytes_stored h]
    rfl
  refine .after (.after (.after (.after ?_ hskip) hfound) hposition) hbuffer
  by_cases houtside : data.size < e.header.offset + e.header.size
  · rw [StreamHeader.within_eq_error houtside, if_pos houtside]
    exact ⟨_, rfl⟩
  · rw [StreamHeader.within_eq_ok (Nat.not_lt.1 houtside), if_neg houtside]
    rfl

theorem times_yields {entries : List StoredHeader}
    (h : StandsAt data start (entries.flatMap bytes) rest) :
    (times StreamHeader.reader entries.length).Yields data start
      ((entries.map header).mapM (StreamHeader.within · data.size))
      (start + (entries.flatMap bytes).length) := by
  induction entries generalizing start with
  | nil => exact .pure _
  | cons e entries ih =>
      rw [List.flatMap_cons] at h
      rw [List.length_cons, times_succ, List.map_cons, List.mapM_cons, List.flatMap_cons,
        List.length_append, ← Nat.add_assoc]
      exact (reader_yields h.front).bind fun _ => (ih h.behind).bind fun _ => .pure _

end StoredHeader

/-! ### Roots as they are written -/

/-- An entry of the directory as the format has it, with a name in ASCII. -/
structure NamedStream extends StreamHeader where
  /-- What stands behind the name and its zero byte up to a whole word. -/
  filler : List UInt8
  offset_lt : offset < 0x100000000
  size_lt : size < 0x100000000
  name_ascii : Utf8.IsAscii name
  name_without_nul : '\x00' ∉ name.toList
  name_lt : name.length < StreamHeader.nameLimit
  filled : name.length + 1 + filler.length = alignedFrom (name.length + 1)
  deriving DecidableEq

namespace NamedStream

theorem encode_lt (e : NamedStream) : (Utf8.encode e.name).length < StreamHeader.nameLimit := by
  rw [Utf8.encode_length_of_ascii e.name_ascii]
  exact e.name_lt

theorem filled_headerSize (e : NamedStream) :
    9 + (Utf8.encode e.name).length + e.filler.length =
      StreamHeader.headerSize ⟨e.offset, e.size, latin1 (Utf8.encode e.name).toArray⟩ := by
  have hfilled := e.filled
  have hlength := Utf8.encode_length_of_ascii e.name_ascii
  rw [alignedFrom] at hfilled
  rw [Utf8.encode_length] at hlength
  rw [Utf8.latin1_encode e.name_ascii, Utf8.encode_length]
  simp only [StreamHeader.headerSize]
  omega

def stored (e : NamedStream) : StoredHeader where
  offset := e.offset
  size := e.size
  name := Utf8.encode e.name
  filler := e.filler
  offset_lt := e.offset_lt
  size_lt := e.size_lt
  not_mem_name := mt Utf8.zero_mem_encode.1 e.name_without_nul
  length_lt := e.encode_lt
  filled := e.filled_headerSize

def bytes (e : NamedStream) : List UInt8 :=
  StreamHeader.writtenBytes e.offset e.size (Utf8.encode e.name) ++ e.filler

theorem stored_header (e : NamedStream) : e.stored.header = e.toStreamHeader := by
  rw [StoredHeader.header, stored, Utf8.latin1_encode e.name_ascii]

end NamedStream

/-- What a metadata root is written from. -/
structure RootContent where
  majorVersion : UInt16
  minorVersion : UInt16
  reserved : UInt32
  /-- The bytes set aside for the version text. -/
  versionLength : UInt32
  version : String
  /-- What stands behind the version area up to a whole word. -/
  filler : List UInt8
  flags : UInt16
  streams : List NamedStream
  version_without_nul : '\x00' ∉ version.toList
  version_le : version.utf8ByteSize ≤ versionLength.toNat
  filled : versionLength.toNat + filler.length = alignedFrom versionLength.toNat
  streams_ne_nil : streams ≠ []
  streams_lt : streams.length < 0x10000
  deriving DecidableEq

namespace RootContent

/-- The version text and zero bytes behind it. -/
def versionArea (c : RootContent) : List UInt8 :=
  Utf8.encode c.version ++
    List.replicate (c.versionLength.toNat - c.version.utf8ByteSize) 0

def encode (c : RootContent) : List UInt8 :=
  littleEndianBytes Root.magic 4 ++
    (littleEndianBytes c.majorVersion.toNat 2 ++
      (littleEndianBytes c.minorVersion.toNat 2 ++
        (littleEndianBytes c.reserved.toNat 4 ++
          (littleEndianBytes c.versionLength.toNat 4 ++
            (c.versionArea ++
              (c.filler ++
                (littleEndianBytes c.flags.toNat 2 ++
                  (littleEndianBytes c.streams.length 2 ++
                    c.streams.flatMap NamedStream.bytes))))))))

def data (c : RootContent) (rest : List UInt8) : Bytes :=
  (c.encode ++ rest).toArray

def root (c : RootContent) : Root where
  signature := Root.magic
  majorVersion := c.majorVersion.toNat
  minorVersion := c.minorVersion.toNat
  reserved := c.reserved.toNat
  versionLength := c.versionLength.toNat
  version := c.version
  flags := c.flags.toNat
  streams := c.streams.map NamedStream.toStreamHeader

variable (c : RootContent) (rest : List UInt8)

theorem length_versionArea : c.versionArea.length = c.versionLength.toNat := by
  have hle := c.version_le
  rw [versionArea, List.length_append, Utf8.encode_length, List.length_replicate]
  omega

theorem decodeLossy_versionArea :
    Utf8.decodeLossy (Bytes.untilNul c.versionArea.toArray).1 = c.version := by
  rw [versionArea, Bytes.untilNul_fst (mt Utf8.zero_mem_encode.1 c.version_without_nul)
    fun _ => List.eq_of_mem_replicate, Utf8.decodeLossy_encode]

theorem standsAt_encode : StandsAt (c.data rest) 0 c.encode rest :=
  ⟨Nat.zero_le _, rfl⟩

theorem littleEndian_signature : (c.data rest).littleEndian 0 4 = Root.magic :=
  StandsAt.littleEndian (by decide) (c.standsAt_encode rest).front

theorem twenty_le_size : 20 ≤ (c.data rest).size := by
  rw [(c.standsAt_encode rest).size_eq]
  simp only [encode, List.length_append, littleEndianBytes_length]
  omega

/-- What comes of the entries of the directory, in the order in which they are written. -/
def found (size : Nat) : Except Error (List StreamHeader) :=
  (c.streams.map NamedStream.toStreamHeader).mapM (StreamHeader.within · size)

theorem directory_yields {start : Nat}
    (h : StandsAt (c.data rest) start (c.streams.flatMap NamedStream.bytes) rest) :
    (times StreamHeader.reader c.streams.length).Yields (c.data rest) start
      (c.found (c.data rest).size) (start + (c.streams.flatMap NamedStream.bytes).length) := by
  have hbytes : (c.streams.map NamedStream.stored).flatMap StoredHeader.bytes =
      c.streams.flatMap NamedStream.bytes := List.flatMap_map ..
  have hheaders : (c.streams.map NamedStream.stored).map StoredHeader.header =
      c.streams.map NamedStream.toStreamHeader := by
    rw [List.map_map]
    exact List.map_congr_left fun e _ => e.stored_header
  have hcount : (c.streams.map NamedStream.stored).length = c.streams.length := List.length_map ..
  rw [← hbytes] at h ⊢
  have htimes := StoredHeader.times_yields h
  rwa [hheaders, hcount] at htimes

theorem fieldsReader_yields :
    (Root.fieldsReader Root.magic).Yields (c.data rest) 4
      ((c.found (c.data rest).size).map fun streams => { c.root with streams })
      (alignedFrom (16 + c.versionLength.toNat) + 4 +
        (c.streams.flatMap NamedStream.bytes).length) := by
  have hmajor := (c.standsAt_encode rest).behind
  have hminor := hmajor.behind
  have hreserved := hminor.behind
  have hlength := hreserved.behind
  have harea := hlength.behind
  have hfiller := harea.behind
  have hflags := hfiller.behind
  have hcount := hflags.behind
  have hstreams := hcount.behind
  have hword : 16 + c.versionLength.toNat + c.filler.length =
      alignedFrom (16 + c.versionLength.toNat) := by
    have hfilled := c.filled
    rw [alignedFrom] at hfilled ⊢
    omega
  simp only [littleEndianBytes_length, length_versionArea, Nat.reduceAdd, hword] at *
  have hversion : bytes c.versionLength.toNat (c.data rest) 16 =
      .ok c.versionArea.toArray (16 + c.versionLength.toNat) := by
    rw [← c.length_versionArea]
    exact Reads.bytes _ _ _ _ harea.front
  have halign : align 4 (c.data rest) (16 + c.versionLength.toNat) =
      .ok () (alignedFrom (16 + c.versionLength.toNat)) := align_eq_ok.2 ⟨rfl, hflags.1⟩
  have hsome : c.streams.length ≠ 0 := mt List.length_eq_zero_iff.1 c.streams_ne_nil
  refine .after ?_ (hmajor.front.unsigned c.majorVersion.toNat_lt)
  refine .after ?_ (hminor.front.unsigned c.minorVersion.toNat_lt)
  refine .after ?_ (hreserved.front.unsigned c.reserved.toNat_lt)
  refine .after ?_ (hlength.front.unsigned c.versionLength.toNat_lt)
  refine .after ?_ hversion
  refine .after ?_ halign
  refine .after ?_ (hflags.front.unsigned c.flags.toNat_lt)
  refine .after ?_ (hcount.front.unsigned c.streams_lt)
  rw [if_neg hsome, c.decodeLossy_versionArea]
  exact (c.directory_yields rest hstreams).map _

theorem parse_data :
    Root.parse (c.data rest) =
      (c.found (c.data rest).size).map fun streams => { c.root with streams } := by
  have hlong : ¬(c.data rest).size < 20 := Nat.not_lt.2 (c.twenty_le_size rest)
  rw [Root.parse, if_neg hlong, c.littleEndian_signature rest, if_neg (not_not_intro rfl)]
  exact (c.fieldsReader_yields rest).valueAt_eq

theorem stream?_root {name : String} {header : StreamHeader} :
    c.root.stream? name = some header ↔
      ∃ front e back, c.streams = front ++ e :: back ∧ e.toStreamHeader = header ∧
        e.name = name ∧ ∀ earlier ∈ front, earlier.name ≠ name := by
  have hfind : c.root.stream? name =
      (c.streams.find? fun e => e.name = name).map NamedStream.toStreamHeader :=
    List.find?_map ..
  rw [hfind, Option.map_eq_some_iff]
  simp only [List.find?_eq_some_iff_append, decide_eq_true_eq, Bool.not_eq_true',
    decide_eq_false_iff_not]
  constructor
  · rintro ⟨e, ⟨hname, front, back, hstreams, hearlier⟩, hheader⟩
    exact ⟨front, e, back, hstreams, hheader, hname, hearlier⟩
  · rintro ⟨front, e, back, hstreams, hheader, hname, hearlier⟩
    exact ⟨e, ⟨hname, front, back, hstreams, hearlier⟩, hheader⟩

end RootContent

/-- A root that was written is read back, whatever stands behind it, if all its streams are inside
the data; otherwise one that is not is reported. In the root that is read, a name leads to the first
stream that was written with it. -/
theorem Root.parse_encode (c : RootContent) (rest : List UInt8) :
    ((∀ e ∈ c.streams, e.offset + e.size ≤ (c.data rest).size) →
      parse (c.data rest) = .ok c.root) ∧
    ((∃ e ∈ c.streams, (c.data rest).size < e.offset + e.size) →
      ∃ e ∈ c.streams, (c.data rest).size < e.offset + e.size ∧
        parse (c.data rest) =
          .error (.malformed (.streamOutside e.name e.offset e.size (c.data rest).size))) ∧
    ∀ name header, c.root.stream? name = some header ↔
      ∃ front e back, c.streams = front ++ e :: back ∧ e.toStreamHeader = header ∧
        e.name = name ∧ ∀ earlier ∈ front, earlier.name ≠ name := by
  refine ⟨fun hinside => ?_, fun houtside => ?_, fun _ _ => c.stream?_root⟩
  · have hall : ∀ header ∈ c.streams.map NamedStream.toStreamHeader,
        header.offset + header.size ≤ (c.data rest).size := by
      rw [List.forall_mem_map]
      exact hinside
    rw [c.parse_data, RootContent.found, StreamHeader.mapM_within_of_inside hall]
    rfl
  · have hsome : ∃ header ∈ c.streams.map NamedStream.toStreamHeader,
        (c.data rest).size < header.offset + header.size := by
      obtain ⟨e, he, hout⟩ := houtside
      exact ⟨e.toStreamHeader, List.mem_map_of_mem he, hout⟩
    obtain ⟨header, hmem, hout, hfound⟩ := StreamHeader.mapM_within_of_outside hsome
    obtain ⟨e, he, rfl⟩ := List.mem_map.1 hmem
    rw [c.parse_data, RootContent.found, hfound]
    exact ⟨e, he, hout, rfl⟩

/-- A root with two streams of one name. -/
def twoStreamsOfAName : RootContent where
  majorVersion := 1
  minorVersion := 1
  reserved := 0
  versionLength := 12
  version := "v4.0.30319"
  filler := []
  flags := 0
  streams := [
    { offset := 56, size := 8, name := "#~", filler := [0], offset_lt := by decide,
      size_lt := by decide, name_ascii := by decide, name_without_nul := by decide,
      name_lt := by decide, filled := by decide },
    { offset := 56, size := 4, name := "#~", filler := [0], offset_lt := by decide,
      size_lt := by decide, name_ascii := by decide, name_without_nul := by decide,
      name_lt := by decide, filled := by decide }]
  version_without_nul := by decide
  version_le := by decide
  filled := by decide
  streams_ne_nil := by decide
  streams_lt := by decide

theorem Root.parse_encode_twoStreamsOfAName :
    (∀ e ∈ twoStreamsOfAName.streams,
      e.offset + e.size ≤ (twoStreamsOfAName.data (List.replicate 8 0)).size) ∧
    parse (twoStreamsOfAName.data (List.replicate 8 0)) = .ok twoStreamsOfAName.root ∧
    (∃ e ∈ twoStreamsOfAName.streams, (twoStreamsOfAName.data []).size < e.offset + e.size) ∧
    ∃ e ∈ twoStreamsOfAName.streams, (twoStreamsOfAName.data []).size < e.offset + e.size ∧
      parse (twoStreamsOfAName.data []) =
        .error (.malformed (.streamOutside e.name e.offset e.size
          (twoStreamsOfAName.data []).size)) := by
  have hinside : ∀ e ∈ twoStreamsOfAName.streams,
      e.offset + e.size ≤ (twoStreamsOfAName.data (List.replicate 8 0)).size := by decide
  have houtside : ∃ e ∈ twoStreamsOfAName.streams,
      (twoStreamsOfAName.data []).size < e.offset + e.size := by decide
  exact ⟨hinside, (parse_encode _ _).1 hinside, houtside, (parse_encode _ _).2.1 houtside⟩

end CliMeta
