import CliMeta.Proofs.Image.Directory

/-!
Which streams an image is built from. For each purpose that is the first entry of the directory, so
an image does not change if the entries of the directory change places, as long as those with the
same purpose keep their order. The place of the directory itself is no place for streams here: a
stream in it would change together with the entries.
-/

namespace CliMeta

open Reader

/-! ### Names and roles -/

namespace StreamRole

theorem ofName?_eq_tables {name : String} :
    ofName? name = some .tables ↔ name = "#~" ∨ name = uncompressedName := by
  rw [ofName?]
  by_cases h : name = "#~" ∨ name = uncompressedName
  · simp [h]
  · simp [h]

theorem ofName?_eq_heap {name : String} {kind : HeapKind} :
    ofName? name = some (.heap kind) ↔ name = kind.streamName := by
  constructor
  · intro h
    rw [ofName?] at h
    split at h
    · cases h
    · obtain ⟨found, hfound, hkind⟩ := Option.map_eq_some_iff.1 h
      cases hkind
      have hname : kind.streamName = name := by simpa using List.find?_some hfound
      exact hname.symm
  · rintro rfl
    exact ofName?_streamName kind

end StreamRole

namespace StoredHeader

def role? (e : StoredHeader) : Option StreamRole :=
  StreamRole.ofName? e.header.name

end StoredHeader

/-! ### Built from the first entries -/

namespace StoredDirectory

variable {d d' : StoredDirectory}

/-- The first entry with the name of a heap. -/
def firstOfHeap? (d : StoredDirectory) (kind : HeapKind) : Option StoredHeader :=
  d.entries.find? fun e => e.header.name = kind.streamName

/-- The first entry with one of the two names of a tables stream. -/
def firstOfTables? (d : StoredDirectory) : Option StoredHeader :=
  d.entries.find? fun e => e.header.name = "#~" ∨ e.header.name = "#-"

def contents (d : StoredDirectory) (e : StoredHeader) : Bytes :=
  d.bytes.extract e.offset (e.offset + e.size)

theorem Whole.roleStream?_eq (h : d.Whole) {root : Root} (hroot : Root.parse d.bytes = .ok root)
    (role : StreamRole) :
    root.roleStream? role = (d.entries.find? fun e => e.role? = some role).map
      StoredHeader.header := by
  rw [Root.roleStream?, h.streams_eq hroot, List.find?_map]
  rfl

theorem firstOfHeap?_eq (d : StoredDirectory) (kind : HeapKind) :
    d.firstOfHeap? kind = d.entries.find? fun e => e.role? = some (.heap kind) := by
  simp only [firstOfHeap?, StoredHeader.role?, StreamRole.ofName?_eq_heap]

theorem firstOfTables?_eq (d : StoredDirectory) :
    d.firstOfTables? = d.entries.find? fun e => e.role? = some .tables := by
  simp only [firstOfTables?, StoredHeader.role?, StreamRole.ofName?_eq_tables]
  rfl

end StoredDirectory

theorem StreamHeader.contents_eq_ok {header : StreamHeader} {metadata contents : Bytes} :
    header.contents metadata = .ok contents ↔
      header.offset + header.size ≤ metadata.size ∧
        contents = metadata.extract header.offset (header.offset + header.size) := by
  rw [StreamHeader.contents, Bytes.slice?]
  by_cases h : header.offset + header.size ≤ metadata.size
  · simp [h, eq_comm]
  · simp [h]

namespace Image

/-- The image is built from the first entries of the directory, all of which point inside the
metadata. -/
structure BuiltFrom (image : Image) (d : StoredDirectory) : Prop where
  inside : ∀ e ∈ d.entries, e.offset + e.size ≤ d.bytes.size
  heaps : ∀ kind, image.heaps.contents kind =
    match d.firstOfHeap? kind with
    | some e => d.contents e
    | none => #[]
  tables : ∃ e, d.firstOfTables? = some e ∧
    TablesStream.parse (d.contents e) = .ok image.tables ∧
    (image.uncompressed = true ↔ e.header.name = "#-")

theorem Holds.builtFrom {image : Image} {d : StoredDirectory} (himage : image.Holds d.bytes)
    (hwhole : d.Whole) : image.BuiltFrom d where
  inside := (d.parse_bytes_eq_ok.1 himage.root).2.1
  heaps kind := by
    have hcontents := himage.heaps kind
    rw [Root.heapContents, hwhole.roleStream?_eq himage.root, ← d.firstOfHeap?_eq] at hcontents
    cases hentry : d.firstOfHeap? kind with
    | none =>
        rw [hentry] at hcontents
        exact (Except.ok.inj hcontents).symm
    | some e =>
        rw [hentry] at hcontents
        exact (StreamHeader.contents_eq_ok.1 hcontents).2
  tables := by
    obtain ⟨header, contents, hheader, hcontents, htables, huncompressed⟩ := himage.tables
    obtain ⟨hfirst, -⟩ := tablesStream_eq_ok.1 hheader
    rw [hwhole.roleStream?_eq himage.root, ← d.firstOfTables?_eq] at hfirst
    obtain ⟨e, hentry, rfl⟩ := Option.map_eq_some_iff.1 hfirst
    obtain ⟨-, rfl⟩ := StreamHeader.contents_eq_ok.1 hcontents
    refine ⟨e, hentry, htables, ?_⟩
    rw [huncompressed, decide_eq_true_iff]
    rfl

end Image

/-! ### Entries that change places -/

namespace StoredDirectory

variable {d d' : StoredDirectory}

/-- The entries have changed places, and nothing else is different. Those with the same purpose have
kept their order. -/
structure Rearranges (d d' : StoredDirectory) : Prop where
  front : d'.front = d.front
  back : d'.back = d.back
  perm : d'.entries.Perm d.entries
  order : ∀ role, (d'.entries.filter fun e => e.role? = some role) =
    d.entries.filter fun e => e.role? = some role

/-- No stream with a purpose has bytes in the place of the entries. -/
def Clear (d : StoredDirectory) : Prop :=
  ∀ root, Root.parse d.bytes = .ok root → ∀ header ∈ root.streams,
    (StreamRole.ofName? header.name).isSome = true → ∀ position, header.offset ≤ position →
      position < header.offset + header.size → ¬(d.start ≤ position ∧ position < d.stop)

/-- Streams in front of the entries or behind them are out of their way. -/
theorem Whole.clear (h : d.Whole) (haway : ∀ e ∈ d.entries, e.role?.isSome = true →
    e.offset + e.size ≤ d.start ∨ d.stop ≤ e.offset) : d.Clear := by
  intro root hroot header hheader hrole position hstart hstop
  rw [h.streams_eq hroot] at hheader
  obtain ⟨e, he, rfl⟩ := List.mem_map.1 hheader
  have hplace : e.offset ≤ position ∧ position < e.offset + e.size := ⟨hstart, hstop⟩
  rcases haway e he hrole with hfront | hbehind
  · omega
  · omega

namespace Rearranges

theorem symm (h : d.Rearranges d') : d'.Rearranges d where
  front := h.front.symm
  back := h.back.symm
  perm := h.perm.symm
  order role := (h.order role).symm

theorem start_eq (h : d.Rearranges d') : d'.start = d.start := by
  rw [start, start, h.front]

theorem length_entries_eq (h : d.Rearranges d') :
    (d'.entries.flatMap StoredHeader.bytes).length =
      (d.entries.flatMap StoredHeader.bytes).length :=
  (h.perm.flatMap_right _).length_eq

theorem stop_eq (h : d.Rearranges d') : d'.stop = d.stop := by
  rw [stop, stop, h.start_eq, h.length_entries_eq]

theorem size_eq (h : d.Rearranges d') : d'.bytes.size = d.bytes.size := by
  have hlength := h.length_entries_eq
  simp only [bytes, List.size_toArray, List.length_append, h.front, h.back, hlength]

theorem getElem?_eq (h : d.Rearranges d') {position : Nat}
    (hclear : ¬(d.start ≤ position ∧ position < d.stop)) :
    d'.bytes[position]? = d.bytes[position]? := by
  have hlength := h.length_entries_eq
  rw [stop, start] at hclear
  simp only [bytes, List.getElem?_toArray, h.front, h.back]
  by_cases hfront : position < d.front.length
  · rw [List.getElem?_append_left hfront, List.getElem?_append_left hfront]
  · have hbehind : (d.entries.flatMap StoredHeader.bytes).length ≤ position - d.front.length := by
      omega
    rw [List.getElem?_append_right (by omega), List.getElem?_append_right (by omega),
      List.getElem?_append_right (by omega), List.getElem?_append_right hbehind, hlength]

theorem extract_eq (h : d.Rearranges d') {first last : Nat}
    (hclear : ∀ position, first ≤ position → position < last →
      ¬(d.start ≤ position ∧ position < d.stop)) :
    d'.bytes.extract first last = d.bytes.extract first last := by
  apply Array.ext_getElem?
  intro i
  rw [Array.getElem?_extract, Array.getElem?_extract, h.size_eq]
  split
  · rename_i hinside
    exact h.getElem?_eq (hclear (first + i) (by omega) (by omega))
  · rfl

theorem times_eq_ok (h : d.Rearranges d') {count position next : Nat} {streams : List StreamHeader}
    (hbehind : d.stop ≤ position)
    (hread : times StreamHeader.reader count d.bytes position = .ok streams next) :
    times StreamHeader.reader count d'.bytes position = .ok streams next := by
  induction count generalizing position streams next with
  | zero => exact hread
  | succ count ih =>
      rw [times_succ, bind_eq_ok] at hread
      obtain ⟨header, middle, hheader, hread⟩ := hread
      obtain ⟨others, last, hothers, hend⟩ := bind_eq_ok.1 hread
      obtain ⟨hbytes, hspace, rfl, hinside⟩ := StreamHeader.reader_eq_ok.1 hheader
      have hheader' : StreamHeader.reader d'.bytes position =
          .ok header (position + header.headerSize) := by
        rw [StreamHeader.reader_eq_ok, h.size_eq,
          h.extract_eq (fun place hplace _ => by omega)]
        exact ⟨hbytes, hspace, rfl, hinside⟩
      rw [times_succ, bind_of_ok hheader', bind_of_ok (ih (by omega) hothers)]
      exact hend

/-- The roots list the same streams, and the first one of each purpose is the same. -/
theorem exists_root (h : d.Rearranges d') {root : Root} (hroot : Root.parse d.bytes = .ok root) :
    ∃ root', Root.parse d'.bytes = .ok root' ∧ root'.streams.Perm root.streams ∧
      ∀ role, root'.roleStream? role = root.roleStream? role := by
  obtain ⟨hfront, hinside, others, next, hothers, rfl⟩ := d.parse_bytes_eq_ok.1 hroot
  refine ⟨Root.withStreams d'.bytes (d'.entries.map StoredHeader.header ++ others),
    d'.parse_bytes_eq_ok.2 ⟨by rwa [h.front], ?_, others, next, ?_, rfl⟩, ?_, fun role => ?_⟩
  · intro e he
    rw [h.size_eq]
    exact hinside e (h.perm.subset he)
  · rw [missing, h.front, h.perm.length_eq, h.stop_eq]
    exact h.times_eq_ok (Nat.le_refl _) hothers
  · exact (h.perm.map _).append_right others
  · have hfirst : (d'.entries.find? fun e => e.role? = some role) =
        d.entries.find? fun e => e.role? = some role := by
      rw [← List.head?_filter, h.order role, List.head?_filter]
    rw [Root.roleStream?, Root.roleStream?]
    simp only [Root.withStreams, List.find?_append, List.find?_map]
    exact congrArg (fun first => (Option.map StoredHeader.header first).or _) hfirst

theorem clear (h : d.Rearranges d') (hclear : d.Clear) : d'.Clear := by
  intro root' hroot' header hheader hrole position hstart hstop
  obtain ⟨root, hroot, hperm, -⟩ := h.symm.exists_root hroot'
  rw [h.start_eq, h.stop_eq]
  exact hclear root hroot header (hperm.symm.subset hheader) hrole position hstart hstop

theorem contents_eq (h : d.Rearranges d') (hclear : d.Clear) {root : Root}
    (hroot : Root.parse d.bytes = .ok root) {role : StreamRole} {header : StreamHeader}
    (hfirst : root.roleStream? role = some header) :
    header.contents d'.bytes = header.contents d.bytes := by
  have hrole := List.find?_some hfirst
  simp only [decide_eq_true_eq] at hrole
  have hslice := h.extract_eq (hclear root hroot header (List.mem_of_find?_eq_some hfirst)
    (by rw [hrole]; rfl))
  rw [StreamHeader.contents, StreamHeader.contents, Bytes.slice?, Bytes.slice?, h.size_eq, hslice]

theorem holds (h : d.Rearranges d') (hclear : d.Clear) {image : Image}
    (himage : image.Holds d.bytes) : ∃ root', { image with root := root' }.Holds d'.bytes := by
  obtain ⟨root', hroot', hperm, hroles⟩ := h.exists_root himage.root
  refine ⟨root', hroot', ?_, fun kind => ?_, ?_⟩
  · have hnames := Root.checkNames_eq_ok.1 himage.names
    exact Root.checkNames_eq_ok.2 fun hstrict header hheader =>
      hnames hstrict header (hperm.subset hheader)
  · have hcontents := himage.heaps kind
    rw [Root.heapContents] at hcontents ⊢
    rw [hroles]
    cases hfirst : image.root.roleStream? (.heap kind) with
    | none =>
        rw [hfirst] at hcontents
        exact hcontents
    | some header =>
        rw [hfirst] at hcontents
        exact (h.contents_eq hclear himage.root hfirst).trans hcontents
  · obtain ⟨header, contents, hheader, hcontents, htables, huncompressed⟩ := himage.tables
    obtain ⟨hfirst, hallowed⟩ := Image.tablesStream_eq_ok.1 hheader
    refine ⟨header, contents, Image.tablesStream_eq_ok.2 ⟨?_, hallowed⟩, ?_, htables,
      huncompressed⟩
    · exact (hroles _).trans hfirst
    · rw [h.contents_eq hclear himage.root hfirst]
      exact hcontents

end Rearranges

end StoredDirectory

/-! ### Loading -/

namespace Image

/-- The images have the same heaps and the same tables in the same form. -/
structure SameContent (image image' : Image) : Prop where
  heaps : image'.heaps = image.heaps
  tables : image'.tables = image.tables
  uncompressed : image'.uncompressed = image.uncompressed

variable {d d' : StoredDirectory} {space space' : AddressSpace}
  {clrHeader : Option ClrHeader} {rva rva' size size' : Nat} {options : LoadOptions}
  {image : Image}

theorem load_rearranged (clrHeader' : Option ClrHeader) (h : d.Rearranges d') (hclear : d.Clear)
    (hread : space.read rva size = .ok d.bytes) (hread' : space'.read rva' size' = .ok d'.bytes)
    (hload : load space clrHeader rva size options = .ok image) :
    ∃ image', load space' clrHeader' rva' size' options = .ok image' ∧
      image.SameContent image' := by
  obtain ⟨-, -, rfl, metadata, hmetadata, himage⟩ := load_eq_ok.1 hload
  obtain rfl : d.bytes = metadata := Except.ok.inj (hread.symm.trans hmetadata)
  obtain ⟨root', hroot', hnames, hheaps, htables⟩ := h.holds hclear himage
  exact ⟨{ image with root := root', space := space', clrHeader := clrHeader' },
    load_eq_ok.2 ⟨rfl, rfl, rfl, d'.bytes, hread', hroot', hnames, hheaps, htables⟩, rfl, rfl, rfl⟩

/-- An image is built from the first entry for each purpose. Metadata whose entries have changed
places both load or both do not, and what they load is the same. -/
theorem load_selects :
    (∀ (space : AddressSpace) (clrHeader : Option ClrHeader) (rva size : Nat)
      (options : LoadOptions) (image : Image) (metadata : Bytes),
      space.read rva size = .ok metadata →
      load space clrHeader rva size options = .ok image →
        (∃ d : StoredDirectory, d.Whole ∧ d.bytes = metadata) ∧
          ∀ d : StoredDirectory, d.Whole → d.bytes = metadata → image.BuiltFrom d) ∧
    (∀ (d d' : StoredDirectory), d.Rearranges d' → d.Clear →
      ∀ (space space' : AddressSpace) (clrHeader clrHeader' : Option ClrHeader)
        (rva rva' size size' : Nat) (options : LoadOptions),
        space.read rva size = .ok d.bytes → space'.read rva' size' = .ok d'.bytes →
          (∃ image image', load space clrHeader rva size options = .ok image ∧
              load space' clrHeader' rva' size' options = .ok image' ∧
                image.SameContent image') ∨
            ∃ e e', load space clrHeader rva size options = .error e ∧
              load space' clrHeader' rva' size' options = .error e') := by
  constructor
  · intro space clrHeader rva size options image metadata hread hload
    obtain ⟨-, -, -, metadata', hmetadata, himage⟩ := load_eq_ok.1 hload
    obtain rfl : metadata = metadata' := Except.ok.inj (hread.symm.trans hmetadata)
    refine ⟨StoredDirectory.exists_whole himage.root, ?_⟩
    rintro d hwhole rfl
    exact himage.builtFrom hwhole
  · intro d d' h hclear space space' clrHeader clrHeader' rva rva' size size' options hread hread'
    cases hload : load space clrHeader rva size options with
    | ok image =>
        obtain ⟨image', hload', hsame⟩ := load_rearranged clrHeader' h hclear hread hread' hload
        exact .inl ⟨image, image', rfl, hload', hsame⟩
    | error e =>
        cases hload' : load space' clrHeader' rva' size' options with
        | error e' => exact .inr ⟨e, e', rfl, rfl⟩
        | ok image' =>
            -- what loads after the change would have loaded before it
            obtain ⟨image, hloaded, -⟩ :=
              load_rearranged clrHeader h.symm (h.clear hclear) hread' hread hload'
            rw [hload] at hloaded
            cases hloaded

/-- Metadata with two streams for the tables, of which the second one leads to no tables, and with a
stream that has no purpose and lies in the directory itself. -/
def twoTablesStreams : StoredDirectory where
  front := [0x42, 0x53, 0x4A, 0x42, 1, 0, 1, 0, 0, 0, 0, 0] ++
    [4, 0, 0, 0, 0x76, 0x34, 0, 0, 0, 0, 4, 0]
  entries := [
    ⟨24, 12, [0x23, 0x58], [0], by decide, by decide, by decide, by decide, by decide⟩,
    ⟨72, 24, [0x23, 0x2D], [0], by decide, by decide, by decide, by decide, by decide⟩,
    ⟨96, 3, [0x23, 0x55, 0x53], [], by decide, by decide, by decide, by decide, by decide⟩,
    ⟨96, 3, [0x23, 0x7E], [0], by decide, by decide, by decide, by decide, by decide⟩]
  back := [0, 0, 0, 0, 2, 0, 0, 1, 0, 0, 0, 0, 0, 0, 0, 0, 0, 0, 0, 0, 0, 0, 0, 0] ++ [0, 1, 0]
  length_front := by decide +kernel
  length_entries_le := by decide +kernel

/-- The same metadata with the user strings in front of everything else. -/
def twoTablesStreams' : StoredDirectory where
  front := twoTablesStreams.front
  entries := (twoTablesStreams.entries.take 3).rotate 2 ++ twoTablesStreams.entries.drop 3
  back := twoTablesStreams.back
  length_front := twoTablesStreams.length_front
  length_entries_le := twoTablesStreams.length_entries_le

theorem load_selects_twoTablesStreams :
    ∃ image image', ofBuffer twoTablesStreams.bytes 0 99 .lenient = .ok image ∧
      image.BuiltFrom twoTablesStreams ∧ image.uncompressed = true ∧
      ofBuffer twoTablesStreams'.bytes 0 99 .lenient = .ok image' ∧ image.SameContent image' := by
  have hloads : (ofBuffer twoTablesStreams.bytes 0 99 .lenient).map (·.uncompressed) =
      .ok true := by
    decide +kernel
  obtain ⟨image, himage, huncompressed⟩ := exists_of_map_ok hloads
  have hwhole : twoTablesStreams.Whole := by
    show _ = _
    decide +kernel
  have haway : ∀ e ∈ twoTablesStreams.entries, e.role?.isSome = true →
      e.offset + e.size ≤ twoTablesStreams.start ∨ twoTablesStreams.stop ≤ e.offset := by
    decide +kernel
  have hswapped : twoTablesStreams.Rearranges twoTablesStreams' := by
    refine ⟨rfl, rfl, by decide +kernel, fun role => ?_⟩
    cases role with
    | tables => decide +kernel
    | heap kind => cases kind <;> decide +kernel
  have hread : (AddressSpace.ofBuffer twoTablesStreams.bytes).read 0 99 =
      .ok twoTablesStreams.bytes := by
    decide +kernel
  have hread' : (AddressSpace.ofBuffer twoTablesStreams'.bytes).read 0 99 =
      .ok twoTablesStreams'.bytes := by
    decide +kernel
  obtain ⟨-, hbuilt⟩ := load_selects.1 _ none 0 99 .lenient image _ hread himage
  rcases load_selects.2 _ _ hswapped (hwhole.clear haway) _ _ none none 0 0 99 99 .lenient hread
    hread' with ⟨loaded, image', hloaded, hloaded', hsame⟩ | ⟨e, e', hfails, -⟩
  · obtain rfl : image = loaded := Except.ok.inj (himage.symm.trans hloaded)
    exact ⟨image, image', himage, hbuilt _ hwhole rfl, huncompressed, hloaded', hsame⟩
  · cases himage.symm.trans hfails

end Image

end CliMeta
