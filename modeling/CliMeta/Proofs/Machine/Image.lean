import CliMeta.Proofs.Image.Loaded
import CliMeta.Proofs.Image.Tolerance
import CliMeta.Proofs.Machine.Method
import CliMeta.Proofs.Machine.Signature
import CliMeta.Proofs.Machine.Tables

/-!
Images, loaded and read with words. Whatever is in a buffer of fewer than 2^32 bytes, loading it
goes through no trap, and if an image comes of it, neither does any of the operations on that image.
What makes them safe is settled when the image is loaded: every part of it is a slice of the buffer,
and a table with rows takes up two bytes or more for each of them, so one row more can be counted.
-/

namespace CliMeta.Machine

variable {data metadata : Bytes} {rva size : Nat} {options : LoadOptions} {image : Image}

/-! ### Loading -/

/-- Loads the metadata at a position of a buffer. What is compared or guarded is not computed with
words. -/
def ofBuffer (data : Bytes) (rva size : Nat) (options : LoadOptions) : Checked Image := do
  let metadata ← lift ((AddressSpace.ofBuffer data).read rva size)
  let root ← root metadata
  lift (root.checkNames options)
  let tablesHeader ← lift (Image.tablesStream options root)
  let strings ← lift (root.heapContents metadata .string)
  let blobs ← lift (root.heapContents metadata .blob)
  let guids ← lift (root.heapContents metadata .guid)
  let userStrings ← lift (root.heapContents metadata .userString)
  let heaps ← heaps strings blobs guids userStrings
  let contents ← lift (tablesHeader.contents metadata)
  let tables ← tablesStream contents
  return {
    space := .ofBuffer data
    options
    clrHeader := none
    root, heaps, tables
    uncompressed := tablesHeader.name = StreamRole.uncompressedName }

theorem spaceFits_ofBuffer (hsize : data.size < positions) : SpaceFits (.ofBuffer data) := by
  intro rva length bytes hread
  obtain ⟨-, rfl⟩ := AddressSpace.ofBuffer_read_eq_ok.1 hread
  rw [Array.size_extract]
  omega

theorem ofBuffer_eq (hsize : data.size < positions) (rva size : Nat) (options : LoadOptions) :
    ofBuffer data rva size options = lift (Image.ofBuffer data rva size options) := by
  refine bind_agrees rfl fun metadata hmetadata => ?_
  have hwords := spaceFits_ofBuffer hsize _ _ _ hmetadata
  refine bind_agrees (root_eq hwords) fun root _ => bind_agrees rfl fun _ _ => ?_
  refine bind_agrees rfl fun tablesHeader _ => bind_agrees rfl fun strings _ => ?_
  refine bind_agrees rfl fun blobs _ => bind_agrees rfl fun guids _ => ?_
  refine bind_agrees rfl fun userStrings _ => bind_agrees (heaps_eq ..) fun heaps _ => ?_
  refine bind_agrees rfl fun contents _ => bind_agrees (tablesStream_eq contents) fun tables _ => ?_
  rfl

/-! ### What is loaded -/

theorem size_contents_le {header : StreamHeader} {contents : Bytes}
    (h : header.contents metadata = .ok contents) : contents.size ≤ metadata.size := by
  rw [StreamHeader.contents] at h
  split at h
  · rename_i found
    cases h
    obtain ⟨-, -, rfl⟩ := Bytes.slice?_eq_some found
    rw [Array.size_extract]
    omega
  · cases h

theorem size_heapContents_le {root : Root} {kind : HeapKind} {contents : Bytes}
    (h : root.heapContents metadata kind = .ok contents) : contents.size ≤ metadata.size := by
  rw [Root.heapContents] at h
  split at h
  · exact size_contents_le h
  · cases h
    exact Nat.zero_le _

theorem tablesFit_of_parse {contents : Bytes} {s : TablesStream}
    (hsize : contents.size < positions) (h : TablesStream.parse contents = .ok s) :
    TablesFit s := by
  have hparses := TablesStream.parse_eq_ok_iff.1 h
  intro t ht
  obtain ⟨hsizing, hinside⟩ := (TablesStream.readTables_ok hparses.tables).2 t ht
  refine ⟨Nat.lt_of_le_of_lt hinside hsize, fun table => ?_⟩
  rw [hsizing]
  exact hparses.rowCount_succ_lt hsize table

theorem imageFits_of_ofBuffer (hsize : data.size < positions)
    (h : Image.ofBuffer data rva size options = .ok image) : ImageFits image := by
  obtain ⟨hspace, -, -, metadata, hread, hholds⟩ := Image.load_eq_ok.1 h
  have hwords := spaceFits_ofBuffer hsize _ _ _ hread
  obtain ⟨header, contents, -, hcontents, htables, -⟩ := hholds.tables
  have hheap (kind : HeapKind) : (image.heaps.contents kind).size < positions :=
    Nat.lt_of_le_of_lt (size_heapContents_le (hholds.heaps kind)) hwords
  refine ⟨hspace ▸ spaceFits_ofBuffer hsize, ?_, ?_⟩
  · exact ⟨hheap .string, hheap .blob, hheap .guid, hheap .userString⟩
  · exact tablesFit_of_parse (Nat.lt_of_le_of_lt (size_contents_le hcontents) hwords) htables

/-! ### Operations on an image

Each of the following says that operations with words come to what they come to without, so to a
value or an error and to no trap. -/

/-- The operations on a row. -/
structure RowAgrees (r : Row) : Prop where
  token : token r = .ok r.token
  cell : ∀ column, cell r column = lift (r.cell column)
  cellNamed : ∀ name, cellNamed r name = lift (r.cellNamed name)
  word : ∀ column, word r column = lift (r.word column)
  long : ∀ column, long r column = lift (r.long column)
  heapOffset : ∀ column, heapOffset r column = lift (r.heapOffset column)
  tableIndex : ∀ column, tableIndex r column = lift (r.tableIndex column)
  coded : ∀ column, Machine.coded r column = lift (r.coded column)
  /-- The token of what a column refers to. -/
  codedToken : ∀ column, (Machine.coded r column >>= referenceToken) =
    lift ((r.coded column).map RowReference.token)
  range : ∀ column, Machine.range r column = lift (r.range column)
  /-- The number of rows in the list of a column. -/
  rangeSize : ∀ column, (Machine.range r column >>= Machine.rangeSize) =
    lift ((r.range column).map RowRange.size)

/-- The operations on the tables of a stream. -/
structure TablesAgree (s : TablesStream) : Prop where
  row : ∀ table index, rowOf s table index = lift (s.row table index)
  rows : ∀ t ∈ s.present, rows t = .ok t.rows
  ofRow : ∀ r : Row, r.table ∈ s.present → RowAgrees r
  rowsIn : ∀ range, rowsIn s range = .ok (s.rowsIn range)
  /-- The row that a stored reference points to. -/
  resolve : ∀ category raw, raw < positions →
    (decodeReference category raw >>= resolve s) = lift (category.decode raw >>= s.resolve)
  /-- The row that a column refers to. -/
  follow : ∀ (r : Row) column, r.table ∈ s.present →
    (coded r column >>= Machine.resolve s) = lift (r.coded column >>= s.resolve)

/-- The lookups in heaps, and the walks through them. -/
structure HeapsAgree (h : Heaps) : Prop where
  string : ∀ offset, string h.strings offset = lift (h.strings.get offset)
  blob : ∀ offset, blob h.blobs offset = lift (h.blobs.get offset)
  /-- Identifiers have 32-bit numbers. -/
  guid : ∀ index, index < positions → guid h.guids index = lift (h.guids.get index)
  userString : ∀ offset, userString h.userStrings offset = lift (h.userStrings.get offset)
  /-- The text of a user string. -/
  text : ∀ offset, literalText h.userStrings offset = lift (h.userStrings.text offset)
  strings : strings h.strings = .ok h.strings.entries
  blobs : blobs h.blobs = .ok h.blobs.entries
  guids : guids h.guids = .ok h.guids.entries
  userStrings : userStrings h.userStrings = .ok h.userStrings.entries

/-- The readings of a signature, with types nested up to a limit. -/
structure SignatureAgrees (limit : Nat) (blob : Bytes) : Prop where
  member : decodeMember limit blob = lift (Signature.decodeMember limit blob)
  locals : decodeLocals limit blob = lift (Signature.decodeLocals limit blob)
  type : decodeType limit blob = lift (Signature.decodeType limit blob)
  instantiation : decodeInstantiation limit blob = lift (Signature.decodeInstantiation limit blob)
  standalone : decodeStandalone limit blob = lift (Signature.decodeStandalone limit blob)

/-- The operations on an image. -/
structure ImageAgrees (image : Image) : Prop where
  tables : TablesAgree image.tables
  heaps : HeapsAgree image.heaps
  record : ∀ table index, record image table index = lift (image.record table index)
  signature : ∀ limit blob, blob.size < positions → SignatureAgrees limit blob
  disassemble : ∀ index, disassemble image index = lift (image.disassemble index)
  listing : ∀ index m, image.disassemble index = .ok m → listing image m = .ok (image.listing m)
  /-- The place behind an instruction of a method. -/
  nextPlace : ∀ index m, image.disassemble index = .ok m →
    ∀ i, .ok i ∈ image.listing m → nextPlace i = .ok i.next

theorem RowAgrees.of_fits {r : Row} (ht : FitsWords r.table) : RowAgrees r where
  token := token_eq ht
  cell := cell_eq r
  cellNamed := cellNamed_eq r
  word := word_eq r
  long := long_eq r
  heapOffset := heapOffset_eq r
  tableIndex := tableIndex_eq r
  coded := coded_eq r
  codedToken column :=
    bind_agrees (coded_eq r column) fun _ h => referenceToken_eq (coded_counted h)
  range := range_eq ht
  rangeSize column := bind_agrees (range_eq ht column) fun _ h => rangeSize_eq ht h

theorem TablesAgree.of_fits {s : TablesStream} (hs : TablesFit s) : TablesAgree s where
  row := rowOf_eq hs
  rows t ht := rows_eq (hs t ht)
  ofRow r hr := .of_fits (hs r.table hr)
  rowsIn := rowsIn_eq hs
  resolve category raw hraw :=
    bind_agrees (decodeReference_eq category raw) fun _ h => resolve_eq hs (decode_counted hraw h)
  follow r column _ := bind_agrees (coded_eq r column) fun _ h => resolve_eq hs (coded_counted h)

theorem HeapsAgree.of_fits {h : Heaps} (hh : HeapsFit h) : HeapsAgree h where
  string := string_eq h.strings
  blob := blob_eq hh.blobs
  guid _ hindex := guid_eq h.guids hindex
  userString := userString_eq hh.userStrings
  text := literalText_eq hh.userStrings
  strings := strings_eq hh.strings
  blobs := blobs_eq hh.blobs
  guids := guids_eq hh.guids
  userStrings := userStrings_eq hh.userStrings

theorem SignatureAgrees.of_size {limit : Nat} {blob : Bytes} (hsize : blob.size < positions) :
    SignatureAgrees limit blob where
  member := decodeMember_eq hsize
  locals := decodeLocals_eq hsize
  type := decodeType_eq hsize
  instantiation := decodeInstantiation_eq hsize
  standalone := decodeStandalone_eq hsize

theorem ImageAgrees.of_fits (hi : ImageFits image) : ImageAgrees image where
  tables := .of_fits hi.tables
  heaps := .of_fits hi.heaps
  record := record_eq hi.heaps hi.tables
  signature _ _ hsize := .of_size hsize
  disassemble := disassemble_eq hi
  listing _ _ hm := listing_eq hi.heaps (bodyFits_of_disassemble hi hm)
  nextPlace _ _ hm _ hinstruction :=
    nextPlace_eq (size_code_lt (bodyFits_of_disassemble hi hm)) hinstruction

/-- Damaged input sets off no trap. Loading any buffer of fewer than 2^32 bytes, at any position and
with any options, comes to an image or an error, and so to no trap by `lift_ne_trap`; and every
operation on the image that comes of it comes to a value or an error as well. -/
theorem ofBuffer_agrees (hsize : data.size < positions) (rva size : Nat) (options : LoadOptions) :
    ofBuffer data rva size options = lift (Image.ofBuffer data rva size options) ∧
      ∀ image, Image.ofBuffer data rva size options = .ok image → ImageAgrees image :=
  ⟨ofBuffer_eq hsize rva size options,
    fun _ himage => .of_fits (imageFits_of_ofBuffer hsize himage)⟩

/-- An image of which the only method has locals that are not declared is among those that are
loaded and read so. -/
theorem ofBuffer_agrees_undeclaredLocals : Image.undeclaredLocals.size < positions ∧
    ∃ image, ofBuffer Image.undeclaredLocals 0 93 .strict = .ok image ∧ ImageAgrees image ∧
      disassemble image 0 = fail (.malformed (.invalidLocals ⟨0x06000001⟩ ⟨0x11000001⟩)) := by
  have hsize : Image.undeclaredLocals.size < positions := by decide +kernel
  obtain ⟨hload, hoperations⟩ := ofBuffer_agrees hsize 0 93 .strict
  have hrefused : (Image.ofBuffer Image.undeclaredLocals 0 93 .strict).map (fun image =>
      (image.disassemble 0).map (·.code)) =
        .ok (.error (.malformed (.invalidLocals ⟨0x06000001⟩ ⟨0x11000001⟩))) := by
    decide +kernel
  obtain ⟨image, himage, hmethod⟩ := Reader.exists_of_map_ok hrefused
  have hagrees := hoperations image himage
  refine ⟨hsize, image, by rw [hload, himage, lift_ok], hagrees, ?_⟩
  rw [hagrees.disassemble]
  cases hfails : image.disassemble 0 with
  | ok m => simp [hfails, Except.map] at hmethod
  | error e =>
      have he : e = .malformed (.invalidLocals ⟨0x06000001⟩ ⟨0x11000001⟩) := by
        simpa [hfails, Except.map] using hmethod
      rw [he, lift_error]

end CliMeta.Machine
