import CliMeta.Proofs.Image.Loaded
import CliMeta.Proofs.Reader.Terminated
import Mathlib.Tactic.Common

/-!
The written form of the stream directory. An entry is the place and the size of a stream and its
name, which a zero byte ends and which is filled up to whole words. The entries stand one behind the
other between the root in front of them and the streams behind them.
-/

namespace CliMeta

open Reader

/-! ### Entries -/

/-- The bytes of an entry that are looked at, up to the zero byte behind the name. -/
def StreamHeader.writtenBytes (offset size : Nat) (name : List UInt8) : List UInt8 :=
  littleEndianBytes offset 4 ++ (littleEndianBytes size 4 ++ (name ++ [0]))

theorem StreamHeader.length_writtenBytes (offset size : Nat) (name : List UInt8) :
    (writtenBytes offset size name).length = 9 + name.length := by
  simp only [writtenBytes, List.length_append, littleEndianBytes_length, List.length_singleton]
  omega

/-- An entry of the directory as it is written. Its length is the one that the header asks for. -/
structure StoredHeader where
  offset : Nat
  size : Nat
  name : List UInt8
  /-- What stands between the zero byte behind the name and the next entry. -/
  filler : List UInt8
  offset_lt : offset < 0x100000000
  size_lt : size < 0x100000000
  not_mem_name : 0 ∉ name
  length_lt : name.length < StreamHeader.nameLimit
  filled : 9 + name.length + filler.length =
    StreamHeader.headerSize ⟨offset, size, latin1 name.toArray⟩
  deriving DecidableEq

namespace StoredHeader

def header (e : StoredHeader) : StreamHeader :=
  ⟨e.offset, e.size, latin1 e.name.toArray⟩

def bytes (e : StoredHeader) : List UInt8 :=
  StreamHeader.writtenBytes e.offset e.size e.name ++ e.filler

theorem length_bytes (e : StoredHeader) : e.bytes.length = e.header.headerSize := by
  rw [header, ← e.filled, bytes, List.length_append, StreamHeader.length_writtenBytes]

end StoredHeader

theorem utf8Size_ofNat {b : UInt8} :
    (Char.ofNat b.toNat).utf8Size = if 0x80 ≤ b then 2 else 1 := by
  have hlt := b.toNat_lt
  have hvalid : b.toNat.isValidChar := .inl (by omega)
  have hchar : (Char.ofNat b.toNat).val.toNat = b.toNat := by
    rw [Char.ofNat, dif_pos hvalid]
    exact UInt32.toNat_ofNatLT ..
  split
  · rename_i hwide
    have hle : 0x80 ≤ b.toNat := hwide
    rw [Char.utf8Size_eq_two_iff, UInt32.lt_iff_toNat_lt, UInt32.le_iff_toNat_le, hchar]
    exact ⟨hle, by simp; omega⟩
  · rename_i hascii
    have hle : b.toNat ≤ 127 := Nat.le_of_lt_succ (UInt8.not_le.1 hascii)
    rw [Char.utf8Size_eq_one_iff, UInt32.le_iff_toNat_le, hchar]
    exact hle

theorem latin1_cons (b : UInt8) (name : List UInt8) :
    (latin1 (b :: name).toArray).utf8ByteSize =
      (Char.ofNat b.toNat).utf8Size + (latin1 name.toArray).utf8ByteSize := by
  simp only [latin1, List.map_cons, String.ofList_cons, String.utf8ByteSize_append]
  simp

theorem utf8ByteSize_latin1 (name : List UInt8) :
    (latin1 name.toArray).utf8ByteSize = name.length + name.countP (0x80 ≤ ·) := by
  induction name with
  | nil => rfl
  | cons b name ih =>
      rw [latin1_cons, ih, utf8Size_ofNat, List.length_cons, List.countP_cons]
      by_cases hwide : 0x80 ≤ b
      · simp only [hwide, decide_true, if_true]
        omega
      · simp only [hwide, decide_false, Bool.false_eq_true, if_false]
        omega

/-- A header has room for the zero byte behind its name. -/
theorem StreamHeader.lt_headerSize (offset size : Nat) (name : List UInt8) :
    9 + name.length ≤ headerSize ⟨offset, size, latin1 name.toArray⟩ := by
  simp only [headerSize, utf8ByteSize_latin1]
  omega

/-! ### Reading entries -/

section

variable {data : Bytes} {start next : Nat} {rest : List UInt8} {header : StreamHeader}

namespace StreamHeader

theorem exists_written (h : ofBytes data = .ok header) :
    ∃ (name rest : List UInt8), header.offset < 0x100000000 ∧ header.size < 0x100000000 ∧
      0 ∉ name ∧ name.length < nameLimit ∧ header.name = latin1 name.toArray ∧
      StandsAt data 0 (writtenBytes header.offset header.size name) rest := by
  rw [ofBytes] at h
  split at h
  · cases h
  rename_i hsize
  split at h
  next area hended =>
    cases h
    rw [← @Array.toArray_toList _ area] at hended
    obtain ⟨hname, behind, hlist⟩ := Bytes.untilNul_eq_ended.1 hended
    have hlength := congrArg List.length hlist
    simp only [Array.length_toList, Array.size_extract, List.length_append,
      List.length_cons] at hlength
    have hwords : 0 + 4 ≤ data.size ∧ 4 + 4 ≤ data.size := by omega
    obtain ⟨hoffset, hfirst⟩ := StandsAt.of_littleEndian hwords.1
    obtain ⟨hcount, hsecond⟩ := StandsAt.of_littleEndian hwords.2
    have htext : StandsAt data 8 (area.toList ++ [0])
        (data.toList.drop (8 + (area.toList ++ [0]).length)) := by
      have hbegins : (data.extract 8 (8 + nameLimit)).toList =
          (area.toList ++ [0]) ++ behind := by
        rw [hlist, List.append_assoc, List.singleton_append]
      exact .of_extract (by omega) hbegins
    refine ⟨area.toList, data.toList.drop (8 + (area.toList ++ [0]).length), hoffset, hcount,
      hname, by rw [Array.length_toList]; omega, rfl, ?_⟩
    refine .append (by simpa using hfirst) (.append ?_ ?_)
    · simpa using hsecond
    · simpa using htext
  next => cases h

theorem ofBytes_written {name : List UInt8} (hoffset : header.offset < 0x100000000)
    (hcount : header.size < 0x100000000) (hname : 0 ∉ name) (hlength : name.length < nameLimit)
    (htext : header.name = latin1 name.toArray)
    (hstands : StandsAt data 0 (writtenBytes header.offset header.size name) rest) :
    ofBytes data = .ok header := by
  have hsize := hstands.size_eq
  rw [length_writtenBytes] at hsize
  have hfirst : Bytes.littleEndian data 0 4 = header.offset :=
    StandsAt.littleEndian (by simpa using hoffset) hstands.front
  have hbehind := hstands.behind
  simp only [littleEndianBytes_length, Nat.zero_add] at hbehind
  have hsecond : Bytes.littleEndian data 4 4 = header.size :=
    StandsAt.littleEndian (by simpa using hcount) hbehind.front
  have harea := hbehind.behind
  simp only [littleEndianBytes_length, Nat.reduceAdd] at harea
  have hshort : 8 + (name ++ [0]).length ≤ 8 + nameLimit := by
    rw [List.length_append, List.length_singleton]
    omega
  obtain ⟨behind, hslice⟩ := harea.extract hshort
  have hended : Bytes.untilNul (data.extract 8 (8 + nameLimit)) = (name.toArray, true) := by
    refine Bytes.untilNul_eq_ended.2 ⟨hname, behind, ?_⟩
    simpa using hslice.2
  rw [ofBytes, if_neg (by omega), hended]
  simp only [hfirst, hsecond, ← htext]

/-- A header is found exactly where the bytes begin with what is written for it. -/
theorem ofBytes_eq_ok :
    ofBytes data = .ok header ↔
      ∃ (name rest : List UInt8), header.offset < 0x100000000 ∧ header.size < 0x100000000 ∧
        0 ∉ name ∧ name.length < nameLimit ∧ header.name = latin1 name.toArray ∧
        StandsAt data 0 (writtenBytes header.offset header.size name) rest :=
  ⟨exists_written, fun ⟨_, _, hoffset, hcount, hname, hlength, htext, hstands⟩ =>
    ofBytes_written hoffset hcount hname hlength htext hstands⟩

theorem reader_eq_ok :
    StreamHeader.reader data start = .ok header next ↔
      ofBytes (data.extract start (start + 8 + nameLimit)) = .ok header ∧
        start + header.headerSize ≤ data.size ∧ next = start + header.headerSize ∧
        header.offset + header.size ≤ data.size := by
  have hbuffer : Reader.buffer data start = .ok data start := rfl
  have hposition : Reader.position data start = .ok start start := rfl
  rw [StreamHeader.reader, bind_of_ok hbuffer, bind_of_ok hposition]
  cases hfound : ofBytes (data.extract start (start + 8 + nameLimit)) with
  | error e => simp [bind_of_error (Reader.ofExcept_error ..)]
  | ok found =>
      rw [bind_of_ok (Reader.ofExcept_ok ..), bind_eq_ok]
      simp only [skip_eq_ok, Except.ok.injEq]
      constructor
      · rintro ⟨-, middle, ⟨hspace, rfl⟩, hout⟩
        split at hout
        · cases hout
        · rename_i hinside
          cases hout
          exact ⟨rfl, hspace, rfl, Nat.not_lt.1 hinside⟩
      · rintro ⟨rfl, hspace, rfl, hinside⟩
        refine ⟨(), _, ⟨hspace, rfl⟩, ?_⟩
        rw [if_neg (Nat.not_lt.2 hinside)]
        rfl

/-- What is read as a header stands there as an entry. -/
theorem spells_reader : Spells StreamHeader.reader start fun header written =>
    ∃ e : StoredHeader, e.header = header ∧ e.bytes = written := by
  intro data header next hstart hout
  obtain ⟨hfound, hspace, rfl, -⟩ := reader_eq_ok.1 hout
  obtain ⟨name, rest, hoffset, hsize, hname, hlength, htext, hslice⟩ := ofBytes_eq_ok.1 hfound
  have hknown : StandsAt data start (writtenBytes header.offset header.size name)
      (data.toList.drop (start + (writtenBytes header.offset header.size name).length)) :=
    .of_extract hstart (by simpa using hslice.2)
  have hheader : (⟨header.offset, header.size, latin1 name.toArray⟩ : StreamHeader) = header := by
    rw [← htext]
  have hroom := lt_headerSize header.offset header.size name
  rw [hheader] at hroom
  rw [length_writtenBytes] at hknown
  -- between the zero byte and the place where the next header begins stands the filler
  have hstop : start + (9 + name.length) + (header.headerSize - (9 + name.length)) =
      start + header.headerSize := by omega
  obtain ⟨filler, hfiller⟩ : ∃ filler, StandsAt data (start + (9 + name.length)) filler
      (data.toList.drop (start + header.headerSize)) := by
    rw [← hstop]
    exact ⟨_, StandsAt.of_drop (by omega)⟩
  have hcount := hfiller.size_eq
  simp only [List.length_drop, Array.length_toList] at hcount
  let e : StoredHeader := ⟨header.offset, header.size, name, filler, hoffset, hsize, hname,
    hlength, by rw [hheader]; omega⟩
  refine ⟨e.bytes, ⟨e, hheader, rfl⟩, ?_, ?_⟩
  · rw [StoredHeader.length_bytes, StoredHeader.header, hheader]
  · refine .append ?_ ?_
    · rwa [length_writtenBytes]
    · rwa [length_writtenBytes]

end StreamHeader

namespace StoredHeader

theorem ofBytes_stored {e : StoredHeader} (h : StandsAt data start e.bytes rest) :
    StreamHeader.ofBytes (data.extract start (start + 8 + StreamHeader.nameLimit)) =
      .ok e.header := by
  have hshort := e.length_lt
  -- the slice need not hold the filler, but it holds the name and the zero byte behind it
  have hwhole : start + (StreamHeader.writtenBytes e.offset e.size e.name).length ≤
      start + 8 + StreamHeader.nameLimit := by
    rw [StreamHeader.length_writtenBytes]
    omega
  obtain ⟨behind, hslice⟩ := h.front.extract hwhole
  exact StreamHeader.ofBytes_eq_ok.2
    ⟨e.name, behind, e.offset_lt, e.size_lt, e.not_mem_name, e.length_lt, rfl, hslice⟩

theorem reader_stored {e : StoredHeader} (h : StandsAt data start e.bytes rest) :
    StreamHeader.reader data start = .ok header next ↔
      header = e.header ∧ next = start + e.bytes.length ∧ e.offset + e.size ≤ data.size := by
  have hsize := h.size_eq
  rw [StreamHeader.reader_eq_ok, ofBytes_stored h]
  constructor
  · rintro ⟨⟨⟩, -, rfl, hinside⟩
    exact ⟨rfl, by rw [length_bytes], hinside⟩
  · rintro ⟨rfl, rfl, hinside⟩
    exact ⟨rfl, by rw [← length_bytes]; omega, by rw [length_bytes], hinside⟩

end StoredHeader

/-- Entries are read one behind the other, and then what is left of the count. -/
theorem StoredHeader.times_stored {entries : List StoredHeader} {more : Nat}
    {streams : List StreamHeader}
    (h : StandsAt data start (entries.flatMap StoredHeader.bytes) rest) :
    times StreamHeader.reader (entries.length + more) data start = .ok streams next ↔
      (∀ e ∈ entries, e.offset + e.size ≤ data.size) ∧
        ∃ others, times StreamHeader.reader more data
          (start + (entries.flatMap StoredHeader.bytes).length) = .ok others next ∧
            streams = entries.map StoredHeader.header ++ others := by
  induction entries generalizing start streams with
  | nil => simp
  | cons e entries ih =>
      rw [List.flatMap_cons] at h
      have hcount : (e :: entries).length + more = entries.length + more + 1 := by
        rw [List.length_cons]
        omega
      have hplace : start + ((e :: entries).flatMap StoredHeader.bytes).length =
          start + e.bytes.length + (entries.flatMap StoredHeader.bytes).length := by
        rw [List.flatMap_cons, List.length_append, Nat.add_assoc]
      have hothers := fun streams => @ih _ streams h.behind
      rw [hcount, hplace, times_succ, bind_eq_ok, List.forall_mem_cons]
      simp only [reader_stored h.front, bind_eq_ok]
      constructor
      · rintro ⟨_, _, ⟨rfl, rfl, hfirst⟩, _, _, hstreams, ⟨⟩⟩
        obtain ⟨hinside, others, hrest, rfl⟩ := (hothers _).1 hstreams
        exact ⟨⟨hfirst, hinside⟩, others, hrest, rfl⟩
      · rintro ⟨⟨hfirst, hinside⟩, others, hrest, rfl⟩
        exact ⟨_, _, ⟨rfl, rfl, hfirst⟩, _, _, (hothers _).2 ⟨hinside, others, hrest, rfl⟩, rfl⟩

end

/-! ### The root in front -/

namespace Root

variable {data : Bytes} {root : Root}

/-- The place of the directory. In front of it stand the version text, filled up to whole words, and
four more bytes. -/
def directoryStart (data : Bytes) : Nat :=
  alignedFrom (16 + data.littleEndian 12 4) + 4

theorem twenty_le_directoryStart (data : Bytes) : 20 ≤ directoryStart data := by
  have hversion := le_alignedFrom (16 + data.littleEndian 12 4)
  rw [directoryStart]
  omega

/-- The number of entries that the directory should have. -/
def streamCount (data : Bytes) : Nat :=
  data.littleEndian (directoryStart data - 2) 2

/-- The root at the front of the data, with the streams given. -/
def withStreams (data : Bytes) (streams : List StreamHeader) : Root where
  signature := data.littleEndian 0 4
  majorVersion := data.littleEndian 4 2
  minorVersion := data.littleEndian 6 2
  reserved := data.littleEndian 8 4
  versionLength := data.littleEndian 12 4
  version := Utf8.decodeLossy (Bytes.untilNul (data.extract 16 (16 + data.littleEndian 12 4))).1
  flags := data.littleEndian (directoryStart data - 4) 2
  streams := streams

theorem fieldsReader_eq_ok {next : Nat} :
    fieldsReader (data.littleEndian 0 4) data 4 = .ok root next ↔
      directoryStart data ≤ data.size ∧ streamCount data ≠ 0 ∧
        ∃ streams, times StreamHeader.reader (streamCount data) data (directoryStart data) =
          .ok streams next ∧ root = withStreams data streams := by
  simp only [fieldsReader, bind_eq_ok, unsigned_eq_ok, bytes_eq_ok, align_eq_ok]
  constructor
  · rintro ⟨_, _, ⟨-, rfl, rfl⟩, _, _, ⟨-, rfl, rfl⟩, _, _, ⟨-, rfl, rfl⟩, _, _, ⟨-, rfl, rfl⟩, _,
      _, ⟨-, rfl, rfl⟩, -, _, ⟨rfl, -⟩, _, _, ⟨-, rfl, rfl⟩, _, _, ⟨hsize, rfl, rfl⟩, hout⟩
    split at hout
    · cases hout
    · rename_i hsome
      obtain ⟨streams, stop, hstreams, hend⟩ := bind_eq_ok.1 hout
      cases hend
      exact ⟨hsize, hsome, streams, hstreams, rfl⟩
  · rintro ⟨hsize, hsome, streams, hstreams, rfl⟩
    have hword : alignedFrom (16 + data.littleEndian 12 4) + 4 ≤ data.size := hsize
    have hfront := le_alignedFrom (16 + data.littleEndian 12 4)
    have hversion : 16 + data.littleEndian 12 4 ≤ data.size := by omega
    have haligned : alignedFrom (16 + data.littleEndian 12 4) ≤ data.size := by omega
    have hflags : alignedFrom (16 + data.littleEndian 12 4) + 2 ≤ data.size := by omega
    refine ⟨_, _, ⟨by omega, rfl, rfl⟩, _, _, ⟨by omega, rfl, rfl⟩, _, _, ⟨by omega, rfl, rfl⟩, _,
      _, ⟨by omega, rfl, rfl⟩, _, _, ⟨hversion, rfl, rfl⟩, (), _, ⟨rfl, haligned⟩, _, _,
      ⟨hflags, rfl, rfl⟩, _, _, ⟨hword, rfl, rfl⟩, ?_⟩
    have hpresent : data.littleEndian (alignedFrom (16 + data.littleEndian 12 4) + 2) 2 ≠ 0 := hsome
    rw [if_neg hpresent]
    exact bind_eq_ok.2 ⟨streams, next, hstreams, rfl⟩

theorem parse_eq_ok :
    parse data = .ok root ↔
      data.littleEndian 0 4 = magic ∧ directoryStart data ≤ data.size ∧
        streamCount data ≠ 0 ∧
        ∃ streams next, times StreamHeader.reader (streamCount data) data (directoryStart data) =
          .ok streams next ∧ root = withStreams data streams := by
  have hstart := twenty_le_directoryStart data
  rw [parse]
  by_cases hsize : data.size < 20
  · rw [if_pos hsize]
    constructor
    · intro h
      cases h
    · rintro ⟨-, hinside, -⟩
      omega
  by_cases hsignature : data.littleEndian 0 4 = magic
  · rw [if_neg hsize, if_neg (not_not_intro hsignature), valueAt_eq_ok]
    simp only [fieldsReader_eq_ok]
    simp only [hsignature, true_and]
    constructor
    · rintro ⟨next, hinside, hsome, streams, hstreams, rfl⟩
      exact ⟨hinside, hsome, streams, next, hstreams, rfl⟩
    · rintro ⟨hinside, hsome, streams, next, hstreams, rfl⟩
      exact ⟨next, hinside, hsome, streams, hstreams, rfl⟩
  · rw [if_neg hsize, if_pos hsignature]
    simp [hsignature]

end Root

/-! ### Directories -/

/-- A directory as it is written, in its place between what is in front of it and what is behind it.
It has at most as many entries as the root counts; what is left of the count is behind it. -/
structure StoredDirectory where
  front : List UInt8
  entries : List StoredHeader
  back : List UInt8
  length_front : front.length = Root.directoryStart front.toArray
  length_entries_le : entries.length ≤ Root.streamCount front.toArray
  deriving DecidableEq

namespace StoredDirectory

def bytes (d : StoredDirectory) : Bytes :=
  (d.front ++ (d.entries.flatMap StoredHeader.bytes ++ d.back)).toArray

def start (d : StoredDirectory) : Nat :=
  d.front.length

def stop (d : StoredDirectory) : Nat :=
  d.start + (d.entries.flatMap StoredHeader.bytes).length

/-- The directory has all the entries that the root counts. -/
def Whole (d : StoredDirectory) : Prop :=
  d.entries.length = Root.streamCount d.front.toArray

theorem standsAt_entries (d : StoredDirectory) :
    StandsAt d.bytes d.start (d.entries.flatMap StoredHeader.bytes) d.back :=
  ⟨by simp [bytes, start], by simp [bytes, start]⟩

theorem bytes_eq_append (d : StoredDirectory) :
    d.bytes = d.front.toArray ++ (d.entries.flatMap StoredHeader.bytes ++ d.back).toArray := by
  simp [bytes]

theorem littleEndian_front (d : StoredDirectory) {position width : Nat}
    (h : position + width ≤ d.start) :
    d.bytes.littleEndian position width = Bytes.littleEndian d.front.toArray position width := by
  rw [bytes_eq_append]
  exact littleEndian_append_left _ _ width h

theorem twenty_le_start (d : StoredDirectory) : 20 ≤ d.start := by
  rw [start, d.length_front]
  exact Root.twenty_le_directoryStart _

theorem directoryStart_bytes (d : StoredDirectory) : Root.directoryStart d.bytes = d.start := by
  have hstart := d.twenty_le_start
  rw [Root.directoryStart, d.littleEndian_front (by omega)]
  exact d.length_front.symm

theorem streamCount_bytes (d : StoredDirectory) :
    Root.streamCount d.bytes = Root.streamCount d.front.toArray := by
  have hstart := d.twenty_le_start
  rw [Root.streamCount, directoryStart_bytes, d.littleEndian_front (by omega), Root.streamCount,
    ← d.length_front, start]

/-- How many entries the root counts that are not among those of the directory. -/
def missing (d : StoredDirectory) : Nat :=
  Root.streamCount d.front.toArray - d.entries.length

theorem times_bytes_eq_ok (d : StoredDirectory) {streams : List StreamHeader} {next : Nat} :
    times StreamHeader.reader (Root.streamCount d.front.toArray) d.bytes d.start =
        .ok streams next ↔
      (∀ e ∈ d.entries, e.offset + e.size ≤ d.bytes.size) ∧
        ∃ others, times StreamHeader.reader d.missing d.bytes d.stop = .ok others next ∧
          streams = d.entries.map StoredHeader.header ++ others := by
  have hcount : Root.streamCount d.front.toArray = d.entries.length + d.missing := by
    have hle := d.length_entries_le
    rw [missing]
    omega
  rw [hcount]
  exact StoredHeader.times_stored d.standsAt_entries

/-- The root of a directory lists its entries and then what is read of the rest. -/
theorem parse_bytes_eq_ok (d : StoredDirectory) {root : Root} :
    Root.parse d.bytes = .ok root ↔
      (Bytes.littleEndian d.front.toArray 0 4 = Root.magic ∧
        Root.streamCount d.front.toArray ≠ 0) ∧
        (∀ e ∈ d.entries, e.offset + e.size ≤ d.bytes.size) ∧
          ∃ others next, times StreamHeader.reader d.missing d.bytes d.stop = .ok others next ∧
            root = Root.withStreams d.bytes (d.entries.map StoredHeader.header ++ others) := by
  have hstart := d.twenty_le_start
  have hsize := d.standsAt_entries.1
  rw [Root.parse_eq_ok, d.littleEndian_front (by omega), d.directoryStart_bytes,
    d.streamCount_bytes]
  simp only [times_bytes_eq_ok]
  constructor
  · rintro ⟨hsignature, -, hsome, streams, next, ⟨hinside, others, hothers, rfl⟩, rfl⟩
    exact ⟨⟨hsignature, hsome⟩, hinside, others, next, hothers, rfl⟩
  · rintro ⟨⟨hsignature, hsome⟩, hinside, others, next, hothers, rfl⟩
    exact ⟨hsignature, hsize, hsome, _, next, ⟨hinside, others, hothers, rfl⟩, rfl⟩

theorem Whole.streams_eq {d : StoredDirectory} (h : d.Whole) {root : Root}
    (hroot : Root.parse d.bytes = .ok root) : root.streams = d.entries.map StoredHeader.header := by
  obtain ⟨-, -, others, next, hothers, rfl⟩ := d.parse_bytes_eq_ok.1 hroot
  have hnone : d.missing = 0 := by
    rw [missing, ← h, Nat.sub_self]
  rw [hnone, times_zero] at hothers
  cases hothers
  exact List.append_nil _

/-- Data that begin with a root have a whole directory. -/
theorem exists_whole {data : Bytes} {root : Root} (h : Root.parse data = .ok root) :
    ∃ d : StoredDirectory, d.Whole ∧ d.bytes = data := by
  obtain ⟨-, hsize, -, streams, next, hstreams, -⟩ := Root.parse_eq_ok.1 h
  obtain ⟨-, ⟨entries, hcount, -, rfl⟩, -, hstands⟩ :=
    Spells.times (fun _ => StreamHeader.spells_reader) _ _ data streams next hsize hstreams
  have hstart := Root.twenty_le_directoryStart data
  let front := data.toList.take (Root.directoryStart data)
  have hlength : front.length = Root.directoryStart data := by
    rw [List.length_take, Array.length_toList]
    exact Nat.min_eq_left hsize
  have hdata : data = front.toArray ++ (data.toList.drop (Root.directoryStart data)).toArray := by
    rw [List.append_toArray, List.take_append_drop, Array.toArray_toList]
  have hnumber : ∀ position width, position + width ≤ Root.directoryStart data →
      Bytes.littleEndian front.toArray position width = data.littleEndian position width := by
    intro position width hfits
    conv_rhs => rw [hdata]
    refine (littleEndian_append_left _ _ width ?_).symm
    rwa [List.size_toArray, hlength]
  have hplace : Root.directoryStart front.toArray = Root.directoryStart data := by
    rw [Root.directoryStart, hnumber 12 4 (by omega), Root.directoryStart]
  have hentries : Root.streamCount front.toArray = entries.length := by
    rw [Root.streamCount, hplace, hnumber _ 2 (by omega), hcount, Root.streamCount]
  refine ⟨⟨front, entries, data.toList.drop next, hlength.trans hplace.symm,
    Nat.le_of_eq hentries.symm⟩, hentries.symm, ?_⟩
  rw [bytes, ← hstands.2, List.take_append_drop, Array.toArray_toList]

end StoredDirectory

end CliMeta
