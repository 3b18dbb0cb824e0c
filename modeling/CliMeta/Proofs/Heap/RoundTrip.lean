import CliMeta.Proofs.Heap.Format
import CliMeta.Proofs.Image.Loaded

/-!
Heaps that were written. A heap begins with a zero byte and then has its entries one behind the
other; the lengths in front of byte strings and literals are as short as they can be, and behind the
literals there may be padding. Each entry is found at the place where it was written, and a walk
through a heap comes across all of them in order.
-/

namespace CliMeta

open Reader WrittenEntry

variable {α : Type}

/-- A heap of entries, with zero bytes behind them. -/
def heapBytes (written : List (WrittenEntry α)) (padding : Nat) : Bytes :=
  (0 :: (written.flatMap WrittenEntry.bytes ++ List.replicate padding 0)).toArray

theorem startsWithNul_heapBytes (written : List (WrittenEntry α)) (padding : Nat) :
    (heapBytes written padding).startsWithNul = true := rfl

namespace EntryStream

/-- The entries are found at their places; a heap lists them with these places, and a stream hands
them out and then ends. -/
structure ReadsBack (s : EntryStream α) (get : Nat → Except Error α)
    (listed : List (Except Error (Nat × α))) (written : List (WrittenEntry α)) : Prop where
  found : ∀ item ∈ placed 1 written, get item.1 = .ok item.2
  listed_eq : listed = (placed 1 written).map .ok
  handsOut : s.HandsOut ((placed 1 written).map .ok)

theorem Finds.readsBack {s : EntryStream α} {f : HeapFormat α} {written : List (WrittenEntry α)}
    {padding : Nat} (hs : s.Finds (heapBytes written padding) f) (hposition : s.position = 1)
    (hstored : ∀ e ∈ written, f.Stored e.value e.bytes)
    (hbegun : ∀ e ∈ written, ∀ rest, ¬f.IsPadding (e.bytes ++ rest))
    (hpadding : f.IsPadding (List.replicate padding 0)) :
    s.ReadsBack s.lookup (walkEntries s.entry s.done (heapBytes written padding).size 1)
      written := by
  have hfuel := Nat.sub_le (heapBytes written padding).size 1
  have hstands : StandsAt (heapBytes written padding) 1 (written.flatMap WrittenEntry.bytes)
      (List.replicate padding 0) := ⟨by simp [heapBytes], rfl⟩
  obtain ⟨hlist, hfound⟩ :=
    hs.walkEntries_written Nat.one_pos hfuel hstored hbegun hpadding hstands
  have hall := hs.handsOut_walkEntries Nat.one_pos hfuel
  have hmoved : s.moved 1 = s := by rw [moved, ← hposition]
  rw [hlist, hmoved] at hall
  exact ⟨hfound, hlist, hall⟩

end EntryStream

/-! ### Entries as they are written -/

/-- A name and a zero byte. -/
def StringHeap.write (name : String) : WrittenEntry String :=
  ⟨name, Utf8.encode name ++ [0]⟩

/-- The bytes in front of a payload are the least that hold its length. -/
def writePrefixed (payload : List UInt8) : List UInt8 :=
  compressedBytes payload.length ++ payload

def BlobHeap.write (payload : Bytes) : WrittenEntry Bytes :=
  ⟨payload, writePrefixed payload.toList⟩

theorem lengthPrefixed_writePrefixed {payload : Bytes} (h : payload.size ≤ maxCompressed) :
    LengthPrefixed payload (writePrefixed payload.toList) :=
  ⟨compressedWidth payload.size, isCompressedWidth_compressedWidth _, lt_compressedWidth h, rfl⟩

/-- A literal: its UTF-16 units and the byte behind them. -/
structure Literal where
  units : List UInt16
  flag : UInt8
  deriving DecidableEq, Repr

namespace Literal

/-- What is read of the literal. -/
def value (l : Literal) : List Nat :=
  l.units.map UInt16.toNat

def payload (l : Literal) : List UInt8 :=
  l.value.flatMap (littleEndianBytes · 2) ++ [l.flag]

def write (l : Literal) : WrittenEntry (List Nat) :=
  ⟨l.value, writePrefixed l.payload⟩

theorem length_payload (l : Literal) : l.payload.length = 2 * l.units.length + 1 := by
  rw [payload, List.length_append, UserStringHeap.length_flatMap_units, value, List.length_map,
    List.length_singleton]

theorem stored {l : Literal} (h : 2 * l.units.length + 1 ≤ maxCompressed) :
    UserStringHeap.format.Stored l.value l.write.bytes := by
  have hunits : ∀ u ∈ l.value, u < 0x10000 := by
    intro u hu
    obtain ⟨unit, -, rfl⟩ := List.mem_map.1 hu
    exact unit.toNat_lt
  have hfits : l.payload.toArray.size ≤ maxCompressed := by
    rwa [List.size_toArray, length_payload]
  exact ⟨l.payload.toArray, lengthPrefixed_writePrefixed hfits, .inr ⟨hunits, l.flag, rfl⟩⟩

/-- A literal is no padding, since its length is not zero. -/
theorem not_isPadding {l : Literal} (h : 2 * l.units.length + 1 ≤ maxCompressed)
    (rest : List UInt8) : ¬UserStringHeap.format.IsPadding (l.write.bytes ++ rest) := by
  intro hpadding
  rw [← length_payload] at h
  obtain ⟨lead, others, hlead, hne⟩ :=
    exists_lead_compressedBytes (by rw [length_payload]; omega) h
  refine hne (hpadding lead ?_)
  rw [write, writePrefixed, hlead]
  simp

end Literal

/-! ### Heaps -/

/-- What the heaps of names, byte strings and literals are written from. -/
structure HeapsContent where
  names : List String
  blobs : List Bytes
  literals : List Literal
  /-- The number of zero bytes behind the literals. -/
  padding : Nat
  names_without_nul : ∀ name ∈ names, '\x00' ∉ name.toList
  blobs_short : ∀ blob ∈ blobs, blob.size < 0x20000000
  literals_short : ∀ l ∈ literals, 2 * l.units.length + 1 < 0x20000000

namespace HeapsContent

def nameBytes (c : HeapsContent) : Bytes :=
  heapBytes (c.names.map StringHeap.write) 0

def blobBytes (c : HeapsContent) : Bytes :=
  heapBytes (c.blobs.map BlobHeap.write) 0

def literalBytes (c : HeapsContent) : Bytes :=
  heapBytes (c.literals.map Literal.write) c.padding

/-- The heaps that hold the content and identifiers beside it. -/
def heaps (c : HeapsContent) (guids : GuidHeap) : Heaps where
  strings := ⟨c.nameBytes, startsWithNul_heapBytes _ 0⟩
  blobs := ⟨c.blobBytes, startsWithNul_heapBytes _ 0⟩
  guids := guids
  userStrings := ⟨c.literalBytes, startsWithNul_heapBytes _ c.padding⟩

variable (c : HeapsContent) (guids : GuidHeap)

theorem names_readBack :
    (c.heaps guids).strings.stream.ReadsBack (c.heaps guids).strings.get
      (c.heaps guids).strings.entries (c.names.map StringHeap.write) := by
  have hlookup : (c.heaps guids).strings.stream.lookup = (c.heaps guids).strings.get :=
    funext (c.heaps guids).strings.map_entry
  rw [← hlookup]
  refine (c.heaps guids).strings.stream_finds.readsBack rfl ?_ ?_ rfl
  · rintro _ he
    obtain ⟨name, hname, rfl⟩ := List.mem_map.1 he
    exact ⟨c.names_without_nul name hname, rfl⟩
  · rintro _ he rest hpadding
    obtain ⟨name, -, rfl⟩ := List.mem_map.1 he
    have hempty : (Utf8.encode name ++ [0]) ++ rest = [] := hpadding
    simp at hempty

theorem blobs_readBack :
    (c.heaps guids).blobs.stream.ReadsBack (c.heaps guids).blobs.get
      (c.heaps guids).blobs.entries (c.blobs.map BlobHeap.write) := by
  have hstored : ∀ e ∈ c.blobs.map BlobHeap.write, LengthPrefixed e.value e.bytes := by
    intro _ he
    obtain ⟨blob, hblob, rfl⟩ := List.mem_map.1 he
    exact lengthPrefixed_writePrefixed (Nat.le_of_lt_succ (c.blobs_short blob hblob))
  refine (c.heaps guids).blobs.stream_finds.readsBack rfl hstored ?_ rfl
  intro e he rest hpadding
  have hpos := (hstored e he).length_pos
  have hempty : e.bytes ++ rest = [] := hpadding
  rw [(List.append_eq_nil_iff.1 hempty).1] at hpos
  exact Nat.lt_irrefl 0 hpos

theorem literals_readBack :
    (c.heaps guids).userStrings.stream.ReadsBack (c.heaps guids).userStrings.get
      (c.heaps guids).userStrings.entries (c.literals.map Literal.write) := by
  refine (c.heaps guids).userStrings.stream_finds.readsBack rfl ?_ ?_ ?_
  · rintro _ he
    obtain ⟨l, hl, rfl⟩ := List.mem_map.1 he
    exact Literal.stored (Nat.le_of_lt_succ (c.literals_short l hl))
  · rintro _ he
    obtain ⟨l, hl, rfl⟩ := List.mem_map.1 he
    exact Literal.not_isPadding (Nat.le_of_lt_succ (c.literals_short l hl))
  · exact fun x hx => List.eq_of_mem_replicate hx

end HeapsContent

/-- Heaps that were written are accepted, whatever the heap of identifiers beside them, and each
entry is read back at the place where it was written. -/
theorem heaps_readBack (c : HeapsContent) (guids : GuidHeap) :
    ∃ heaps, Heaps.ofBytes c.nameBytes c.blobBytes guids.data c.literalBytes = .ok heaps ∧
      heaps.strings.stream.ReadsBack heaps.strings.get heaps.strings.entries
        (c.names.map StringHeap.write) ∧
      heaps.blobs.stream.ReadsBack heaps.blobs.get heaps.blobs.entries
        (c.blobs.map BlobHeap.write) ∧
      heaps.userStrings.stream.ReadsBack heaps.userStrings.get heaps.userStrings.entries
        (c.literals.map Literal.write) :=
  ⟨c.heaps guids, Heaps.ofBytes_eq_ok.2 ⟨rfl, rfl, rfl, rfl⟩, c.names_readBack guids,
    c.blobs_readBack guids, c.literals_readBack guids⟩

/-- Entries of which some are empty, with padding behind the literals. -/
def emptyAmongOthers : HeapsContent where
  names := ["", "é"]
  blobs := [#[], #[0, 0]]
  literals := [⟨[], 0⟩, ⟨[0x41, 0], 1⟩]
  padding := 2
  names_without_nul := by decide
  blobs_short := by decide
  literals_short := by decide

example :
    (StringHeap.ofBytes emptyAmongOthers.nameBytes).map StringHeap.entries =
      .ok [.ok (1, ""), .ok (2, "é")] ∧
    (BlobHeap.ofBytes emptyAmongOthers.blobBytes).map BlobHeap.entries =
      .ok [.ok (1, #[]), .ok (2, #[0, 0])] ∧
    (UserStringHeap.ofBytes emptyAmongOthers.literalBytes).map UserStringHeap.entries =
      .ok [.ok (1, []), .ok (3, [0x41, 0])] := by
  decide +kernel

end CliMeta
