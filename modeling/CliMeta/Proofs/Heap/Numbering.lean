import CliMeta.Proofs.Image.Loaded
import Mathlib.Algebra.Group.Nat.Defs
import Mathlib.Data.List.Basic

/-!
GUIDs by number. Entries are counted from 1, and an entry ends at sixteen times its number, which
has to be a 64-bit word. As long as it is one, the numbers of the entries find them and all others
find nothing; beyond, nothing is looked up at all.
-/

namespace CliMeta

namespace GuidHeap

variable {data : Bytes} {h : GuidHeap} {place index : Nat}

/-! ### Places -/

theorem guidAt?_inside (hplace : place < h.size) :
    ∃ guid, h.guidAt? (place * 16) = some guid ∧
      h.data.slice? (16 * place) (16 * (place + 1)) = some guid.bytes := by
  rw [size] at hplace
  have hfits : place * 16 + 16 ≤ h.data.size := by omega
  have hstart : 16 * place = place * 16 := Nat.mul_comm ..
  have hstop : 16 * (place + 1) = place * 16 + 16 := by omega
  refine ⟨_, dif_pos hfits, ?_⟩
  rw [hstart, hstop]
  exact if_pos ⟨Nat.le_add_right .., hfits⟩

theorem guidAt?_outside (hplace : h.size ≤ place) : h.guidAt? (place * 16) = none := by
  rw [size] at hplace
  have hwhole := h.whole
  exact dif_neg (by omega)

/-! ### Lookups -/

/-- Both ends of an entry are words exactly if its number is below 2⁶⁰. -/
theorem get_eq (hindex : 0 < index) :
    h.get index =
      if index < 2 ^ 60 then
        match h.guidAt? ((index - 1) * 16) with
        | some guid => .ok guid
        | none => .error (.heapRead .guid index)
      else .error .overflow := by
  rw [get, if_neg (Nat.ne_of_gt hindex)]
  by_cases hword : index < 2 ^ 60
  · have hstart : (index - 1) * 16 < 1 <<< 64 := by omega
    have hstop : (index - 1) * 16 + 16 < 1 <<< 64 := by omega
    rw [wordOf_eq_ok hstart, if_pos hword]
    show (discard (wordOf 64 ((index - 1) * 16 + 16)) >>= _) = _
    rw [wordOf_eq_ok hstop]
    rfl
  · rw [if_neg hword]
    by_cases hstart : (index - 1) * 16 < 1 <<< 64
    · have hstop : 1 <<< 64 ≤ (index - 1) * 16 + 16 := by omega
      rw [wordOf_eq_ok hstart]
      show (discard (wordOf 64 ((index - 1) * 16 + 16)) >>= _) = _
      rw [wordOf_eq_overflow hstop]
      rfl
    · rw [wordOf_eq_overflow (Nat.not_lt.1 hstart)]
      rfl

theorem get_inside (hindex : 0 < index) (hinside : index ≤ h.size) (hword : index < 2 ^ 60) :
    ∃ guid, h.get index = .ok guid ∧ h.guidAt? ((index - 1) * 16) = some guid ∧
      h.data.slice? (16 * (index - 1)) (16 * index) = some guid.bytes := by
  obtain ⟨guid, hfound, hbytes⟩ := guidAt?_inside (Nat.sub_one_lt_of_le hindex hinside)
  rw [Nat.sub_add_cancel hindex] at hbytes
  refine ⟨guid, ?_, hfound, hbytes⟩
  rw [get_eq hindex, if_pos hword, hfound]

theorem get_outside (houtside : h.size < index) (hword : index < 2 ^ 60) :
    h.get index = .error (.heapRead .guid index) := by
  rw [get_eq (Nat.zero_lt_of_lt houtside), if_pos hword,
    guidAt?_outside (Nat.le_sub_one_of_lt houtside)]

theorem get_eq_overflow_iff : h.get index = .error .overflow ↔ 2 ^ 60 ≤ index := by
  cases index with
  | zero => exact ⟨fun hzero => (nomatch hzero), fun hzero => absurd hzero (by decide)⟩
  | succ place =>
      rw [get_eq (Nat.succ_pos place), ← Nat.not_lt]
      by_cases hword : place + 1 < 2 ^ 60
      · rw [if_pos hword]
        refine ⟨fun hoverflow => ?_, fun hbeyond => absurd hword hbeyond⟩
        split at hoverflow <;> cases hoverflow
      · rw [if_neg hword]
        exact ⟨fun _ => hword, fun _ => rfl⟩

/-! ### All entries -/

theorem entries_eq (h : GuidHeap) :
    h.entries =
      (List.range h.size).map fun place => (place + 1, (h.guidAt? (place * 16)).getD .zero) := by
  refine List.filterMap_eq_map_iff_forall_eq_some.2 fun place hplace => ?_
  obtain ⟨guid, hfound, -⟩ := guidAt?_inside (List.mem_range.1 hplace)
  rw [hfound]
  rfl

theorem map_fst_entries (h : GuidHeap) : h.entries.map Prod.fst = List.range' 1 h.size := by
  rw [entries_eq, List.map_map, List.range'_eq_map_range]
  exact List.map_congr_left fun place _ => Nat.add_comm ..

theorem getElem?_entries {guid : Guid} (hplace : place < h.size)
    (hfound : h.guidAt? (place * 16) = some guid) : h.entries[place]? = some (place + 1, guid) := by
  rw [entries_eq, List.getElem?_map, List.getElem?_range hplace, Option.map_some, hfound]
  rfl

/-- The numbers of the entries are those from 1 to their count, and each finds the entry that a walk
comes across as the one of this number. Other numbers find nothing as long as sixteen times the
number is a 64-bit word; for those beyond, and only for them, the lookup is given up. -/
theorem numbers_findEntries (hdata : ofBytes data = .ok h) (hsize : data.size < 2 ^ 64) :
    16 * h.size = data.size ∧ h.get 0 = .ok .zero ∧
    h.entries.map Prod.fst = List.range' 1 h.size ∧
    (∀ index, 1 ≤ index → index ≤ h.size →
      ∃ guid, h.get index = .ok guid ∧
        data.slice? (16 * (index - 1)) (16 * index) = some guid.bytes ∧
        h.entries[index - 1]? = some (index, guid)) ∧
    (∀ index, h.size < index → index < 2 ^ 60 → h.get index = .error (.heapRead .guid index)) ∧
    ∀ index, h.get index = .error .overflow ↔ 2 ^ 60 ≤ index := by
  obtain rfl := ofBytes_eq_ok.1 hdata
  have hwhole := h.whole
  have hcount : h.size = h.data.size / 16 := rfl
  refine ⟨by omega, rfl, h.map_fst_entries, fun index hpos hindex => ?_,
    fun index hindex hword => get_outside hindex hword, fun index => get_eq_overflow_iff⟩
  have hword : index < 2 ^ 60 := by omega
  obtain ⟨guid, hget, hfound, hbytes⟩ := get_inside hpos hindex hword
  have hlisted := getElem?_entries (Nat.sub_one_lt_of_le hpos hindex) hfound
  rw [Nat.sub_add_cancel hpos] at hlisted
  exact ⟨guid, hget, hbytes, hlisted⟩

def twoGuids : Bytes :=
  Array.replicate 16 0x11 ++ Array.replicate 16 0x22

theorem numbers_findEntries_twoGuids :
    ∃ h first second, ofBytes twoGuids = .ok h ∧ twoGuids.size < 2 ^ 64 ∧ first ≠ second ∧
      h.entries = [(1, first), (2, second)] ∧ h.get 1 = .ok first ∧ h.get 2 = .ok second ∧
      h.get 3 = .error (.heapRead .guid 3) ∧
      h.get (2 ^ 60 - 1) = .error (.heapRead .guid (2 ^ 60 - 1)) ∧
      h.get (2 ^ 60) = .error .overflow := by
  let h : GuidHeap := ⟨twoGuids, rfl⟩
  have hdata : ofBytes twoGuids = .ok h := rfl
  have hsize : twoGuids.size < 2 ^ 64 := by decide
  have hlisted : h.entries =
      [(1, ⟨Array.replicate 16 0x11, rfl⟩), (2, ⟨Array.replicate 16 0x22, rfl⟩)] := by
    decide +kernel
  obtain ⟨-, -, -, hfound, hmissing, hgivenUp⟩ := numbers_findEntries hdata hsize
  obtain ⟨first, hfirst, -, hfirstListed⟩ := hfound 1 (by decide) (by decide)
  obtain ⟨second, hsecond, -, hsecondListed⟩ := hfound 2 (by decide) (by decide)
  rw [hlisted] at hfirstListed hsecondListed
  cases hfirstListed
  cases hsecondListed
  exact ⟨h, _, _, hdata, hsize, by decide, hlisted, hfirst, hsecond,
    hmissing 3 (by decide) (by decide), hmissing (2 ^ 60 - 1) (by decide) (by decide),
    (hgivenUp (2 ^ 60)).2 (Nat.le_refl _)⟩

/-- The number 2⁶⁰ + 1 is a word and none of the numbers of two entries, but it is not reported as
one that finds nothing. -/
theorem get_entryBeyondWords :
    ∃ h, ofBytes twoGuids = .ok h ∧ h.size < 2 ^ 60 + 1 ∧ 2 ^ 60 + 1 < 2 ^ 64 ∧
      h.get (2 ^ 60 + 1) = .error .overflow ∧
      h.get (2 ^ 60 + 1) ≠ .error (.heapRead .guid (2 ^ 60 + 1)) :=
  ⟨⟨twoGuids, rfl⟩, rfl, by decide, by decide, by decide +kernel, by decide +kernel⟩

end GuidHeap

end CliMeta
