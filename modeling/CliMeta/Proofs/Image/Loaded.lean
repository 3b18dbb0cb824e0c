import CliMeta.Image.Basic
import CliMeta.Proofs.Reader.Contained

/-!
What an image owes to the metadata that it is loaded from. Loading goes through many steps, each of
which may fail; `Holds` says in one place what all of them have come to. An image is what loading
gives exactly if it holds the metadata, so what is proved of loaded images starts from here and not
from the steps.
-/

namespace CliMeta

open Reader

/-! ### Heaps and their bytes -/

def Heaps.contents (h : Heaps) : HeapKind → Bytes
  | .string => h.strings.data
  | .blob => h.blobs.data
  | .guid => h.guids.data
  | .userString => h.userStrings.data

theorem bind_eq_ok_iff {α β : Type} {outcome : Except Error α} {f : α → Except Error β} {b : β} :
    outcome >>= f = .ok b ↔ ∃ a, outcome = .ok a ∧ f a = .ok b := by
  constructor
  · exact exists_of_bind_ok
  · rintro ⟨a, rfl, h⟩
    exact h

theorem StringHeap.ofBytes_eq_ok {data : Bytes} {heap : StringHeap} :
    StringHeap.ofBytes data = .ok heap ↔ heap.data = data := by
  rw [StringHeap.ofBytes]
  constructor
  · intro h
    split at h
    · cases h
      rfl
    · cases h
  · rintro rfl
    rw [dif_pos heap.startsWithNul]

theorem BlobHeap.ofBytes_eq_ok {data : Bytes} {heap : BlobHeap} :
    BlobHeap.ofBytes data = .ok heap ↔ heap.data = data := by
  rw [BlobHeap.ofBytes]
  constructor
  · intro h
    split at h
    · cases h
      rfl
    · cases h
  · rintro rfl
    rw [dif_pos heap.startsWithNul]

theorem GuidHeap.ofBytes_eq_ok {data : Bytes} {heap : GuidHeap} :
    GuidHeap.ofBytes data = .ok heap ↔ heap.data = data := by
  rw [GuidHeap.ofBytes]
  constructor
  · intro h
    split at h
    · cases h
      rfl
    · cases h
  · rintro rfl
    rw [dif_pos heap.whole]

theorem UserStringHeap.ofBytes_eq_ok {data : Bytes} {heap : UserStringHeap} :
    UserStringHeap.ofBytes data = .ok heap ↔ heap.data = data := by
  rw [UserStringHeap.ofBytes]
  constructor
  · intro h
    split at h
    · cases h
      rfl
    · cases h
  · rintro rfl
    rw [dif_pos heap.startsWithNul]

theorem Heaps.ofBytes_eq_ok {strings blobs guids userStrings : Bytes} {h : Heaps} :
    Heaps.ofBytes strings blobs guids userStrings = .ok h ↔
      h.strings.data = strings ∧ h.blobs.data = blobs ∧ h.guids.data = guids ∧
        h.userStrings.data = userStrings := by
  simp only [Heaps.ofBytes, bind_eq_ok_iff, StringHeap.ofBytes_eq_ok, BlobHeap.ofBytes_eq_ok,
    GuidHeap.ofBytes_eq_ok, UserStringHeap.ofBytes_eq_ok, pure, Except.pure, Except.ok.injEq]
  constructor
  · rintro ⟨strings', rfl, blobs', rfl, guids', rfl, userStrings', rfl, rfl⟩
    exact ⟨rfl, rfl, rfl, rfl⟩
  · rintro ⟨rfl, rfl, rfl, rfl⟩
    exact ⟨h.strings, rfl, h.blobs, rfl, h.guids, rfl, h.userStrings, rfl, rfl⟩

/-! ### The checks by options -/

/-- Names pass if they are all known or nobody looks. -/
theorem Root.checkNames_eq_ok {root : Root} {options : LoadOptions} :
    root.checkNames options = .ok () ↔
      (options.strictStreamNames = true →
        ∀ header ∈ root.streams, (StreamRole.ofName? header.name).isSome = true) := by
  rw [checkNames]
  cases hunknown : root.streams.find? fun header => (StreamRole.ofName? header.name).isNone with
  | none =>
      have hknown := List.find?_eq_none.1 hunknown
      simp only [true_iff]
      intro _ header hheader
      have hrole := hknown header hheader
      cases hname : StreamRole.ofName? header.name with
      | none => simp [hname] at hrole
      | some role => rfl
  | some header =>
      have hmem := List.mem_of_find?_eq_some hunknown
      have hnone := List.find?_some hunknown
      cases hstrict : options.strictStreamNames with
      | false => simp
      | true =>
          simp only [if_true, forall_const]
          constructor
          · intro h
            cases h
          · intro h
            have hsome := h header hmem
            rw [Option.isNone_iff_eq_none] at hnone
            simp [hnone] at hsome

namespace Image

theorem tablesStream_eq_ok {root : Root} {options : LoadOptions} {header : StreamHeader} :
    tablesStream options root = .ok header ↔
      root.roleStream? .tables = some header ∧
        (header.name = StreamRole.uncompressedName → options.allowUncompressedTables = true) := by
  rw [tablesStream]
  cases hfirst : root.roleStream? .tables with
  | none => simp
  | some first =>
      by_cases hrefused : first.name = StreamRole.uncompressedName ∧
          options.allowUncompressedTables = false
      · simp only [if_pos hrefused, Option.some.injEq]
        constructor
        · intro h
          cases h
        · rintro ⟨rfl, h⟩
          simp [h hrefused.1] at hrefused
      · simp only [if_neg hrefused, Except.ok.injEq, Option.some.injEq]
        constructor
        · rintro rfl
          refine ⟨rfl, fun hname => ?_⟩
          simpa [hname] using hrefused
        · exact fun h => h.1

/-! ### Loading -/

variable {space : AddressSpace} {clrHeader : Option ClrHeader} {rva size : Nat}
  {options : LoadOptions} {image : Image} {metadata : Bytes}

/-- The image is what the metadata hold, by its own options. -/
structure Holds (image : Image) (metadata : Bytes) : Prop where
  root : Root.parse metadata = .ok image.root
  names : image.root.checkNames image.options = .ok ()
  heaps : ∀ kind, image.root.heapContents metadata kind = .ok (image.heaps.contents kind)
  tables : ∃ header contents, tablesStream image.options image.root = .ok header ∧
    header.contents metadata = .ok contents ∧ TablesStream.parse contents = .ok image.tables ∧
    image.uncompressed = decide (header.name = StreamRole.uncompressedName)

theorem load_eq_ok :
    load space clrHeader rva size options = .ok image ↔
      image.space = space ∧ image.clrHeader = clrHeader ∧ image.options = options ∧
        ∃ metadata, space.read rva size = .ok metadata ∧ image.Holds metadata := by
  simp only [load, bind_eq_ok_iff, pure, Except.pure, Except.ok.injEq]
  constructor
  · rintro ⟨metadata, hread, root, hroot, ⟨⟩, hnames, header, hform, strings, hstrings, blobs,
      hblobs, guids, hguids, userStrings, huserStrings, heaps, hheaps, contents, hcontents, tables,
      htables, rfl⟩
    obtain ⟨rfl, rfl, rfl, rfl⟩ := Heaps.ofBytes_eq_ok.1 hheaps
    refine ⟨rfl, rfl, rfl, metadata, hread, hroot, hnames, fun kind => ?_, ?_⟩
    · cases kind with
      | string => exact hstrings
      | blob => exact hblobs
      | guid => exact hguids
      | userString => exact huserStrings
    · exact ⟨header, contents, hform, hcontents, htables, rfl⟩
  · rintro ⟨rfl, rfl, rfl, metadata, hread, h⟩
    obtain ⟨header, contents, hform, hcontents, htables, huncompressed⟩ := h.tables
    refine ⟨metadata, hread, image.root, h.root, (), h.names, header, hform, _, h.heaps .string, _,
      h.heaps .blob, _, h.heaps .guid, _, h.heaps .userString, image.heaps,
      Heaps.ofBytes_eq_ok.2 ⟨rfl, rfl, rfl, rfl⟩, contents, hcontents, image.tables, htables, ?_⟩
    rw [← huncompressed]

end Image

end CliMeta
