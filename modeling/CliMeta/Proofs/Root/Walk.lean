import CliMeta.Proofs.Image.Directory
import Mathlib.Data.List.Basic
import Mathlib.Logic.Function.Iterate

/-!
The walk through the directory of the streams. An entry takes up eight bytes and its name, which is
filled up with its zero byte to whole words. What is skipped for an entry is found from the name as
text, in which each byte that is not ASCII counts twice. The two agree exactly if the filler behind
the name has room for these bytes once more; as long as it has, the walk goes from entry to entry.
-/

namespace CliMeta

open Reader

/-! ### The bytes of an entry -/

namespace StreamHeader

/-- The bytes in which the name of the entry at a place has to end. -/
def nameArea (data : Bytes) (place : Nat) : List UInt8 :=
  (data.toList.drop (place + 8)).take nameLimit

/-- The place in the area of the first zero byte. -/
def nameLength (data : Bytes) (place : Nat) : Nat :=
  (nameArea data place).idxOf 0

/-- The bytes of the entry at a place. -/
def occupied (data : Bytes) (place : Nat) : Nat :=
  8 + alignedFrom (nameLength data place + 1)

/-- The bytes of the name that are not ASCII. -/
def wideCount (data : Bytes) (place : Nat) : Nat :=
  ((nameArea data place).take (nameLength data place)).countP (0x80 ≤ ·)

/-- The filler behind the name has room for the bytes of the name that are not ASCII. -/
def FillerCovers (data : Bytes) (place : Nat) : Prop :=
  nameLength data place + 1 + wideCount data place ≤ alignedFrom (nameLength data place + 1)

instance (data : Bytes) (place : Nat) : Decidable (FillerCovers data place) :=
  inferInstanceAs (Decidable (_ ≤ _))

variable {data : Bytes} {place : Nat} {header : StreamHeader}

/-- Where an entry stands, the area begins with its name and the zero byte behind it. -/
theorem nameArea_of_standsAt {offset size : Nat} {name rest : List UInt8}
    (hlength : name.length < nameLimit)
    (h : StandsAt data place (writtenBytes offset size name) rest) :
    ∃ behind, nameArea data place = name ++ 0 :: behind := by
  have harea := h.behind.behind
  simp only [littleEndianBytes_length] at harea
  have hdrop : data.toList.drop (place + 8) = (name ++ [0]) ++ rest := harea.2
  have hfits : (name ++ [0]).length ≤ nameLimit := by
    rw [List.length_append]
    exact hlength
  refine ⟨rest.take (nameLimit - (name.length + 1)), ?_⟩
  rw [nameArea, hdrop, List.take_append, List.take_of_length_le hfits, List.append_assoc,
    List.length_append]
  rfl

theorem nameLength_eq {name behind : List UInt8} (hname : 0 ∉ name)
    (harea : nameArea data place = name ++ 0 :: behind) : nameLength data place = name.length := by
  rw [nameLength, harea, List.idxOf_append_of_notMem hname, List.idxOf_cons_self, Nat.add_zero]

theorem headerSize_eq {name behind : List UInt8} (hname : 0 ∉ name)
    (htext : header.name = latin1 name.toArray)
    (harea : nameArea data place = name ++ 0 :: behind) :
    header.headerSize = 8 + alignedFrom (nameLength data place + 1 + wideCount data place) := by
  have hlength := nameLength_eq hname harea
  have hwide : wideCount data place = name.countP (0x80 ≤ ·) := by
    rw [wideCount, hlength, harea, List.take_left]
  rw [headerSize, htext, utf8ByteSize_latin1, hlength, hwide, alignedFrom]
  omega

/-- A header is skipped in the length of its entry exactly if the filler makes up for the bytes that
are not ASCII. -/
theorem headerSize_eq_occupied {name rest : List UInt8} (hname : 0 ∉ name)
    (hlength : name.length < nameLimit) (htext : header.name = latin1 name.toArray)
    (h : StandsAt data place (writtenBytes header.offset header.size name) rest) :
    header.headerSize = occupied data place ↔ FillerCovers data place := by
  obtain ⟨behind, harea⟩ := nameArea_of_standsAt hlength h
  rw [headerSize_eq hname htext harea, occupied, FillerCovers, alignedFrom, alignedFrom]
  omega

/-- A header is found if the name ends in its area, whatever the bytes of the name are. -/
theorem exists_ofBytes : (∃ header, ofBytes data = .ok header) ↔ 0 ∈ nameArea data 0 := by
  constructor
  · rintro ⟨header, h⟩
    obtain ⟨name, rest, -, -, -, hlength, -, hstands⟩ := ofBytes_eq_ok.1 h
    obtain ⟨behind, harea⟩ := nameArea_of_standsAt hlength hstands
    rw [harea]
    exact List.mem_append_right name List.mem_cons_self
  · intro h
    obtain ⟨name, behind, harea, hname⟩ := List.eq_append_cons_of_mem h
    have hslice : (data.extract 8 (8 + nameLimit)).toList = nameArea data 0 := by
      rw [Array.toList_extract, List.extract_eq_take_drop, Nat.add_sub_cancel_left, nameArea,
        Nat.zero_add]
    have hended := Bytes.untilNul_eq_ended.2 ⟨hname, behind, hslice.trans harea⟩
    have hsize : ¬data.size < 9 := by
      intro hshort
      have hlengths := congrArg List.length harea
      simp only [nameArea, List.length_take, List.length_drop, Array.length_toList,
        List.length_append, List.length_cons] at hlengths
      omega
    rw [ofBytes, if_neg hsize, hended]
    exact ⟨_, rfl⟩

end StreamHeader

/-! ### The entries of a directory -/

namespace Root

open StreamHeader

/-- Where the padded name of the entry at a place ends. -/
def nextEntry (data : Bytes) (place : Nat) : Nat :=
  place + occupied data place

/-- The place of an entry of the directory, from the places where the ones in front of it end. -/
def entryPlace (data : Bytes) (index : Nat) : Nat :=
  (nextEntry data)^[index] (directoryStart data)

variable {data : Bytes} {start next : Nat} {header : StreamHeader}

/-- A header that is read is the one that stands at the place; the next place is the end of its
entry if the filler covers what is skipped. -/
theorem reader_at (hstart : start ≤ data.size)
    (h : StreamHeader.reader data start = .ok header next) :
    ofBytes (data.extract start data.size) = .ok header ∧ next ≤ data.size ∧
      (FillerCovers data start → next = nextEntry data start) := by
  obtain ⟨hfound, hspace, rfl, -⟩ := reader_eq_ok.1 h
  obtain ⟨name, rest, hoffset, hsize, hname, hlength, htext, hslice⟩ := ofBytes_eq_ok.1 hfound
  have hstands := StandsAt.of_extract hstart hslice.2
  have hinside : start + (writtenBytes header.offset header.size name).length ≤ data.size := by
    have hcount := hstands.size_eq
    omega
  obtain ⟨behind, hbehind⟩ := hstands.extract hinside
  refine ⟨ofBytes_eq_ok.2 ⟨name, behind, hoffset, hsize, hname, hlength, htext, hbehind⟩, hspace,
    fun hcovers => ?_⟩
  rw [nextEntry, (headerSize_eq_occupied hname hlength htext hstands).2 hcovers]

theorem times_at {count index : Nat} {streams : List StreamHeader} (hstart : start ≤ data.size)
    (h : times StreamHeader.reader count data start = .ok streams next)
    (hheader : streams[index]? = some header)
    (hcovers : ∀ earlier < index, FillerCovers data ((nextEntry data)^[earlier] start)) :
    ofBytes (data.extract ((nextEntry data)^[index] start) data.size) = .ok header := by
  induction count generalizing start streams index with
  | zero =>
      cases h
      cases hheader
  | succ count ih =>
      rw [times_succ] at h
      obtain ⟨first, middle, hfirst, hothers⟩ := bind_eq_ok.1 h
      obtain ⟨others, stop, hothers, hend⟩ := bind_eq_ok.1 hothers
      cases hend
      obtain ⟨hfound, hmiddle, hplace⟩ := reader_at hstart hfirst
      cases index with
      | zero =>
          cases hheader
          exact hfound
      | succ index =>
          obtain rfl := hplace (hcovers 0 (Nat.succ_pos index))
          rw [Function.iterate_succ_apply]
          refine ih hmiddle hothers hheader fun earlier hearlier => ?_
          rw [← Function.iterate_succ_apply]
          exact hcovers (earlier + 1) (Nat.succ_lt_succ hearlier)

/-- Whatever the bytes of a name are, its header is found, and what is skipped for it is what its
entry takes up exactly if the filler covers the bytes that are not ASCII. So in a root that is read
every header is found where the padded name in front of it ends, as long as the fillers in front of
it cover these bytes. -/
theorem directory_walk (data : Bytes) :
    ((∃ header, ofBytes data = .ok header) ↔ 0 ∈ nameArea data 0) ∧
    (∀ header, ofBytes data = .ok header →
      (header.headerSize = occupied data 0 ↔ FillerCovers data 0)) ∧
    ∀ root, parse data = .ok root → ∀ index header, root.streams[index]? = some header →
      (∀ earlier < index, FillerCovers data (entryPlace data earlier)) →
        ofBytes (data.extract (entryPlace data index) data.size) = .ok header := by
  refine ⟨exists_ofBytes, fun header h => ?_, fun root h index header hheader hcovers => ?_⟩
  · obtain ⟨name, rest, -, -, hname, hlength, htext, hstands⟩ := ofBytes_eq_ok.1 h
    exact headerSize_eq_occupied hname hlength htext hstands
  · obtain ⟨-, hstart, -, streams, next, hstreams, rfl⟩ := parse_eq_ok.1 h
    exact times_at hstart hstreams hheader hcovers

/-- A root with two streams. The name of the first is a letter that is not ASCII, with two bytes of
filler behind it. -/
def letterStream : Bytes :=
  #[0x42, 0x53, 0x4A, 0x42, 1, 0, 1, 0, 0, 0, 0, 0, 4, 0, 0, 0, 0x76, 0x34, 0, 0, 0, 0, 2, 0,
    0, 0, 0, 0, 0, 0, 0, 0, 0xE9, 0, 0, 0,
    0, 0, 0, 0, 4, 0, 0, 0, 0x23, 0x7E, 0, 0]

theorem directory_walk_letterStream :
    ∃ root, parse letterStream = .ok root ∧ root.streams[1]? = some ⟨0, 4, "#~"⟩ ∧
      entryPlace letterStream 1 = 36 ∧
      ofBytes (letterStream.extract (entryPlace letterStream 1) letterStream.size) =
        .ok ⟨0, 4, "#~"⟩ := by
  let root : Root := ⟨Root.magic, 1, 1, 0, 4, "v4", 0, [⟨0, 0, "é"⟩, ⟨0, 4, "#~"⟩]⟩
  have hroot : parse letterStream = .ok root := by decide +kernel
  have hcovers : ∀ earlier < 1, FillerCovers letterStream (entryPlace letterStream earlier) := by
    decide +kernel
  exact ⟨root, hroot, rfl, by decide +kernel,
    (directory_walk letterStream).2.2 root hroot 1 _ rfl hcovers⟩

/-- An entry for a name of three letters that are not ASCII, with no filler behind it. -/
def letters : Bytes :=
  #[0, 0, 0, 0, 0, 0, 0, 0, 0xE9, 0xE9, 0xE9, 0]

/-- More is skipped for the entry than it takes up. -/
theorem letters_skipped :
    ¬∀ (data : Bytes) (header : StreamHeader), ofBytes data = .ok header →
      header.headerSize = occupied data 0 := by
  intro hskipped
  have hheader : ofBytes letters = .ok ⟨0, 0, "ééé"⟩ := by decide +kernel
  have hsize := hskipped letters _ hheader
  revert hsize
  decide +kernel

end Root

end CliMeta
