import CliMeta.Proofs.Heap.Format
import CliMeta.Proofs.Image.Loaded

/-!
Heaps of any bytes. The entries that a heap lists are those that lookups find at their places. They
stand one behind the other from the second byte on, each in the form that the heap has for it, and
they end with the data, with the padding of a heap of literals or with one error.
-/

namespace CliMeta

open Reader WrittenEntry

variable {α : Type}

namespace EntryStream

/-- A heap lists entries and an error, a stream hands them out, and they tile the data behind the
first byte. -/
structure Covers (s : EntryStream α) (get : Nat → Except Error α)
    (listed : List (Except Error (Nat × α))) (data : Bytes) (f : HeapFormat α)
    (written : List (WrittenEntry α)) (last : Option Error) : Prop where
  listed_eq : listed = outcomes 1 written last
  handsOut : s.HandsOut (outcomes 1 written last)
  tiles : HeapTiling get data f 1 written last

theorem Finds.exists_covers {s : EntryStream α} {data : Bytes} {f : HeapFormat α}
    (hs : s.Finds data f) (hposition : s.position = 1) :
    ∃ written last,
      s.Covers s.lookup (walkEntries s.entry s.done data.size 1) data f written last := by
  have hfuel : data.size - 1 ≤ data.size := Nat.sub_le ..
  obtain ⟨written, last, hlist, htiling⟩ := hs.exists_tiling Nat.one_pos hfuel
  refine ⟨written, last, hlist, ?_, htiling⟩
  have hall := hs.handsOut_walkEntries Nat.one_pos hfuel
  rw [hlist] at hall
  have hmoved : s.moved 1 = s := by rw [moved, ← hposition]
  rwa [hmoved] at hall

end EntryStream

/-! ### Names inside names -/

namespace StringHeap

variable {h : StringHeap} {offset : Nat} {front back : String}

/-- A lookup inside a text gives what is left of it. -/
theorem get_suffix (hget : h.get offset = .ok (front ++ back)) :
    h.get (offset + front.utf8ByteSize) = .ok back := by
  rcases Nat.eq_zero_or_pos offset with rfl | hoffset
  -- the first text of a heap is empty
  · have hempty : front ++ back = "" := (Except.ok.inj hget).symm
    obtain ⟨rfl, rfl⟩ := String.append_eq_empty_iff.1 hempty
    rfl
  · obtain ⟨hnone, hstands⟩ := text?_eq_some.1 ((get_eq_ok hoffset).1 hget)
    rw [Utf8.encode_append, List.append_assoc] at hstands
    refine (get_eq_ok (Nat.add_pos_left hoffset _)).2 (text?_eq_some.2 ⟨?_, ?_⟩)
    · intro hmem
      exact hnone (by simp [hmem])
    · have hbehind := hstands.behind
      rwa [List.length_append, ← Nat.add_assoc] at hbehind

end StringHeap

/-! ### Every heap -/

/-- Whatever the bytes of a heap, its entries tile them, and names can be looked up from any of
their characters on. -/
theorem entries_tile (data : Bytes) :
    (∀ h, StringHeap.ofBytes data = .ok h →
      (∃ written last, h.stream.Covers h.get h.entries data StringHeap.format written last) ∧
        ∀ offset front back, h.get offset = .ok (front ++ back) →
          h.get (offset + front.utf8ByteSize) = .ok back) ∧
    (∀ h, BlobHeap.ofBytes data = .ok h →
      ∃ written last, h.stream.Covers h.get h.entries data BlobHeap.format written last) ∧
    (∀ h, UserStringHeap.ofBytes data = .ok h →
      ∃ written last, h.stream.Covers h.get h.entries data UserStringHeap.format written last) := by
  refine ⟨fun h hdata => ⟨?_, fun _ _ _ => StringHeap.get_suffix⟩, fun h hdata => ?_,
    fun h hdata => ?_⟩
  · obtain rfl := StringHeap.ofBytes_eq_ok.1 hdata
    have hlookup : h.stream.lookup = h.get := funext h.map_entry
    rw [← hlookup]
    exact h.stream_finds.exists_covers rfl
  · obtain rfl := BlobHeap.ofBytes_eq_ok.1 hdata
    exact h.stream_finds.exists_covers rfl
  · obtain rfl := UserStringHeap.ofBytes_eq_ok.1 hdata
    exact h.stream_finds.exists_covers rfl

/-- Behind the first byte stand two names, or three byte strings of which two are empty, or one
literal with padding behind it. -/
def threeReadings : Bytes :=
  #[0, 0x03, 0x41, 0x42, 0x43, 0, 0]

theorem entries_tile_threeReadings :
    ∃ names blobs literals, StringHeap.ofBytes threeReadings = .ok names ∧
      BlobHeap.ofBytes threeReadings = .ok blobs ∧
      UserStringHeap.ofBytes threeReadings = .ok literals ∧
      names.get 1 = .ok ("\x03A" ++ "BC") ∧ names.get (1 + "\x03A".utf8ByteSize) = .ok "BC" ∧
      (∃ written last, names.stream.Covers names.get [.ok (1, "\x03ABC"), .ok (6, "")]
        threeReadings StringHeap.format written last) ∧
      (∃ written last, blobs.stream.Covers blobs.get
        [.ok (1, #[0x41, 0x42, 0x43]), .ok (5, #[]), .ok (6, #[])] threeReadings BlobHeap.format
          written last) ∧
      ∃ written last, literals.stream.Covers literals.get [.ok (1, [0x4241])] threeReadings
        UserStringHeap.format written last := by
  let names : StringHeap := ⟨threeReadings, rfl⟩
  let blobs : BlobHeap := ⟨threeReadings, rfl⟩
  let literals : UserStringHeap := ⟨threeReadings, rfl⟩
  have hnames : StringHeap.ofBytes threeReadings = .ok names := rfl
  have hblobs : BlobHeap.ofBytes threeReadings = .ok blobs := rfl
  have hliterals : UserStringHeap.ofBytes threeReadings = .ok literals := rfl
  have hget : names.get 1 = .ok ("\x03A" ++ "BC") := by decide +kernel
  obtain ⟨hall, hsuffix⟩ := (entries_tile threeReadings).1 names hnames
  have hnameList : names.entries = [.ok (1, "\x03ABC"), .ok (6, "")] := by decide +kernel
  have hblobList : blobs.entries = [.ok (1, #[0x41, 0x42, 0x43]), .ok (5, #[]), .ok (6, #[])] := by
    decide +kernel
  have hliteralList : literals.entries = [.ok (1, [0x4241])] := by decide +kernel
  refine ⟨names, blobs, literals, hnames, hblobs, hliterals, hget, hsuffix _ _ _ hget, ?_, ?_, ?_⟩
  · rwa [← hnameList]
  · rw [← hblobList]
    exact (entries_tile threeReadings).2.1 blobs hblobs
  · rw [← hliteralList]
    exact (entries_tile threeReadings).2.2 literals hliterals

end CliMeta
