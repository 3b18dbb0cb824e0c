import CliMeta.Body.Extent
import CliMeta.Proofs.Reader.Contained

/-!
Chains of data sections. A section stands at a multiple of four, says how long it is and whether
another one follows; a chain ends with the first section that says no. What is read as sections is
such a chain, and it is read without a look at what is behind.
-/

namespace CliMeta

open Reader

variable {data : Bytes} {position start stop next : Nat}

/-- A section stands in the bytes, with room for all that its header declares. -/
structure SectionAt (data : Bytes) (start : Nat) (header : SectionHeader) : Prop where
  header_eq : header = .ofWord (data.extract start (start + SectionHeader.length))
  covers : SectionHeader.length ≤ header.size
  inside : start + header.size ≤ data.size

/-- Sections from a place on, each behind the other, up to the end of the last. -/
inductive SectionChain (data : Bytes) : (start stop : Nat) → Prop
  | last {start : Nat} {header : SectionHeader} (hat : SectionAt data (alignedFrom start) header)
      (hlast : header.hasMore = false) : SectionChain data start (alignedFrom start + header.size)
  | more {start stop : Nat} {header : SectionHeader}
      (hat : SectionAt data (alignedFrom start) header) (hmore : header.hasMore = true)
      (others : SectionChain data (alignedFrom start + header.size) stop) :
      SectionChain data start stop

theorem SectionChain.bounds (h : SectionChain data start stop) :
    start + SectionHeader.length ≤ stop ∧ stop ≤ data.size := by
  induction h with
  | @last start header hat _ =>
      have haligned := le_alignedFrom start
      have hcovers := hat.covers
      exact ⟨by omega, hat.inside⟩
  | @more start stop header hat _ _ ih =>
      have haligned := le_alignedFrom start
      exact ⟨by omega, ih.2⟩

/-! ### The readers of a section -/

namespace ClauseForm

theorem regionReader_contained (f : ClauseForm) : f.regionReader.Contained :=
  .bind (.unsigned _) fun _ => .bind (.unsigned _) fun _ => .pure _

theorem reader_contained (f : ClauseForm) : f.reader.Contained := by
  refine .bind (.unsigned _) fun _ => .bind f.regionReader_contained fun _ => ?_
  exact .bind f.regionReader_contained fun _ => .bind (.unsigned _) fun _ => .pure _

theorem regionReader_takes (f : ClauseForm) : Takes f.regionReader (f.offset + f.length) :=
  .bind (.unsigned _) fun _ => .bind_pure (.unsigned _) _

theorem reader_takes (f : ClauseForm) : Takes f.reader f.size := by
  have hsize : f.size = f.flags + ((f.offset + f.length) + ((f.offset + f.length) + 4)) := by
    rw [size]
    omega
  rw [hsize]
  refine .bind (.unsigned _) fun _ => .bind f.regionReader_takes fun _ => ?_
  exact .bind f.regionReader_takes fun _ => .bind_pure (.unsigned _) _

end ClauseForm

namespace SectionHeader

theorem reader_contained : reader.Contained := by
  refine .bind .byte fun byte => .ite ?_ ?_
  · exact .bind (.unsigned _) fun _ => .bind (.unsigned _) fun _ => .pure _
  · exact .bind (.unsigned _) fun _ => .bind (.skip _) fun _ => .pure _

theorem reader_takes : Takes reader length := by
  show Takes reader (1 + 3)
  refine .bind .byte fun byte => .ite ?_ ?_
  · exact .bind (.unsigned 2) fun _ => .bind_pure (.unsigned 1) _
  · exact .bind (.unsigned 1) fun _ => .bind_pure (.skip 2) _

theorem reader_ok {header : SectionHeader} (hposition : position ≤ data.size)
    (h : reader data position = .ok header next) :
    header = .ofWord (data.extract position (position + length)) := by
  obtain ⟨rfl, hinside⟩ := reader_takes.consumes data position header next hposition h
  have hflags : Bytes.byteAt (data.extract position (position + length)) 0 =
      data.byteAt position := Bytes.byteAt_extract hinside (by simp [length])
  have hsmall : Bytes.byteAt (data.extract position (position + length)) 1 =
      data.byteAt (position + 1) := Bytes.byteAt_extract hinside (by simp [length])
  have hfat : Bytes.littleEndian (data.extract position (position + length)) 1 3 =
      data.littleEndian (position + 1) 3 := Bytes.littleEndian_extract hinside (Nat.le_refl _)
  obtain ⟨first, _, hfirst, h⟩ := bind_eq_ok.1 h
  obtain ⟨-, rfl, rfl⟩ := unsigned_eq_ok.1 hfirst
  have hone : data.littleEndian position 1 = data.byteAt position := by
    simp [Bytes.littleEndian_succ]
  rw [hone] at h
  rw [ofWord, hflags, hsmall, hfat]
  by_cases hform : isFatFlag (flagsOf (data.byteAt position)) = true
  · simp only [hform, if_true] at h ⊢
    obtain ⟨low, _, hlow, h⟩ := bind_eq_ok.1 h
    obtain ⟨-, rfl, rfl⟩ := unsigned_eq_ok.1 hlow
    obtain ⟨high, _, hhigh, h⟩ := bind_eq_ok.1 h
    obtain ⟨-, rfl, rfl⟩ := unsigned_eq_ok.1 hhigh
    cases h
    simp only [Bytes.littleEndian_succ, Bytes.littleEndian_zero, Nat.add_assoc, Nat.reduceAdd]
    congr 1
    omega
  · simp only [hform] at h ⊢
    obtain ⟨size, _, hsize, h⟩ := bind_eq_ok.1 h
    obtain ⟨-, rfl, rfl⟩ := unsigned_eq_ok.1 hsize
    obtain ⟨_, _, -, h⟩ := bind_eq_ok.1 h
    cases h
    simp [Bytes.littleEndian_succ]

theorem clausesReader_contained (h : SectionHeader) : h.clausesReader.Contained := by
  refine .ite ?_ ?_
  · exact .bind (.times h.form.reader_contained _) fun _ => .bind (.skip _) fun _ => .pure _
  · exact .bind (.skip _) fun _ => .pure _

theorem clausesReader_takes (h : SectionHeader) :
    Takes h.clausesReader (h.size - length) := by
  refine .ite ?_ ?_
  · have hsplit := Nat.div_add_mod' (h.size - length) h.form.size
    have hclauses := Takes.bind (h.form.reader_takes.times ((h.size - length) / h.form.size))
      fun clauses => (Takes.skip ((h.size - length) % h.form.size)).bind_pure fun _ => clauses
    rwa [hsplit] at hclauses
  · exact .bind_pure (.skip _) _

end SectionHeader

/-! ### The reader of a chain -/

namespace MethodBody

/-- Reads one section, from the next multiple of four on. -/
def sectionReader : Reader (SectionHeader × List ExceptionClause) := do
  Reader.align 4
  let header ← SectionHeader.reader
  if header.size < SectionHeader.length then
    Reader.malformed (.sectionSize header.size)
  let clauses ← header.clausesReader
  return (header, clauses)

/-- The sections are read one by one, as long as there are more. -/
theorem sectionsReader_succ (fuel : Nat) :
    sectionsReader (fuel + 1) = sectionReader >>= fun first =>
      if first.1.hasMore then
        sectionsReader fuel >>= fun others => pure (first.2 ++ others)
      else pure first.2 := by
  rw [sectionsReader, sectionReader, bind_assoc]
  refine bind_congr fun _ => ?_
  rw [bind_assoc]
  refine bind_congr fun header => ?_
  by_cases hsmall : header.size < SectionHeader.length
  · rw [if_pos hsmall, if_pos hsmall, bind_assoc]
    rfl
  · rw [if_neg hsmall, if_neg hsmall, bind_assoc]
    refine bind_congr fun clauses => ?_
    rw [pure_bind]

/-- A section is read where it stands, whatever is left of it behind its last clause. -/
theorem sectionReader_eq_ok {header : SectionHeader} :
    (∃ clauses, sectionReader data position = .ok (header, clauses) next) ↔
      SectionAt data (alignedFrom position) header ∧ next = alignedFrom position + header.size := by
  constructor
  · rintro ⟨clauses, h⟩
    obtain ⟨_, place, halign, h⟩ := bind_eq_ok.1 h
    obtain ⟨rfl, hplace⟩ := align_eq_ok.1 halign
    obtain ⟨header', _, hheader, h⟩ := bind_eq_ok.1 h
    have hword := SectionHeader.reader_ok hplace hheader
    obtain ⟨rfl, hbehind⟩ := SectionHeader.reader_takes.consumes _ _ _ _ hplace hheader
    by_cases hsize : header'.size < SectionHeader.length
    · rw [if_pos hsize] at h
      cases h
    rw [if_neg hsize] at h
    obtain ⟨clauses', _, hclauses, h⟩ := bind_eq_ok.1 h
    obtain ⟨rfl, hinside⟩ := header'.clausesReader_takes.consumes _ _ _ _ hbehind hclauses
    cases h
    have hcovers : SectionHeader.length ≤ header.size := Nat.le_of_not_lt hsize
    have hstop : alignedFrom position + SectionHeader.length +
        (header.size - SectionHeader.length) = alignedFrom position + header.size := by omega
    rw [hstop] at hinside ⊢
    exact ⟨⟨hword, hcovers, hinside⟩, rfl⟩
  · rintro ⟨⟨hword, hcovers, hinside⟩, rfl⟩
    have hplace : alignedFrom position + SectionHeader.length ≤ data.size :=
      Nat.le_trans (Nat.add_le_add_left hcovers _) hinside
    have halign : align 4 data position = .ok () (alignedFrom position) :=
      align_eq_ok.2 ⟨rfl, Nat.le_trans (Nat.le_add_right ..) hplace⟩
    obtain ⟨header', hheader⟩ := SectionHeader.reader_takes.enough data _ hplace
    obtain rfl : header' = header :=
      (SectionHeader.reader_ok (Nat.le_trans (Nat.le_add_right ..) hplace) hheader).trans hword.symm
    have hstop : alignedFrom position + SectionHeader.length +
        (header'.size - SectionHeader.length) = alignedFrom position + header'.size := by omega
    obtain ⟨clauses, hclauses⟩ :=
      header'.clausesReader_takes.enough data _ (Nat.le_trans (Nat.le_of_eq hstop) hinside)
    refine ⟨clauses, ?_⟩
    rw [sectionReader, bind_of_ok halign, bind_of_ok hheader, if_neg (Nat.not_lt.2 hcovers)]
    rw [hstop] at hclauses
    exact bind_of_ok hclauses _

theorem sectionReader_contained : sectionReader.Contained := by
  refine .bind (.align 4) fun _ => .bind SectionHeader.reader_contained fun header => ?_
  have hbehind : (header.clausesReader >>= fun clauses => pure (header, clauses)).Contained :=
    .bind header.clausesReader_contained fun _ => .pure _
  exact .ite (.bind (.malformed _) fun _ => hbehind) hbehind

theorem sectionsReader_contained (fuel : Nat) : (sectionsReader fuel).Contained := by
  induction fuel with
  | zero => exact .throw _
  | succ fuel ih =>
      rw [sectionsReader_succ]
      exact .bind sectionReader_contained fun _ => .ite (.bind ih fun _ => .pure _) (.pure _)

/-- What is read as sections is a chain of them. -/
theorem sectionsReader_chain {fuel : Nat} {clauses : List ExceptionClause}
    (h : sectionsReader fuel data position = .ok clauses stop) :
    SectionChain data position stop := by
  induction fuel generalizing position clauses with
  | zero => cases h
  | succ fuel ih =>
      rw [sectionsReader_succ] at h
      obtain ⟨⟨header, front⟩, _, hfirst, h⟩ := bind_eq_ok.1 h
      obtain ⟨hat, rfl⟩ := sectionReader_eq_ok.1 ⟨front, hfirst⟩
      by_cases hmore : header.hasMore = true
      · rw [if_pos hmore] at h
        obtain ⟨others, _, hothers, h⟩ := bind_eq_ok.1 h
        cases h
        exact .more hat hmore (ih hothers)
      · rw [if_neg hmore] at h
        cases h
        exact .last hat (by simpa using hmore)

/-- Every section takes up bytes, so what is left is fuel enough. -/
theorem sectionsReader_fuelFree : FuelFree fun fuel => sectionsReader (fuel + 1) := by
  intro data position h fuel
  induction fuel using Nat.strongRecOn generalizing position with
  | ind fuel ih =>
      intro fuel' hfuel hfuel'
      show sectionsReader (fuel + 1) data position = sectionsReader (fuel' + 1) data position
      rw [sectionsReader_succ, sectionsReader_succ]
      refine bind_congr fun first next hfirst => ?_
      obtain ⟨hat, rfl⟩ := sectionReader_eq_ok.1 ⟨first.2, hfirst⟩
      have haligned := le_alignedFrom position
      have hcovers := hat.covers
      have hinside := hat.inside
      rw [SectionHeader.length] at hcovers
      obtain ⟨fuel, rfl⟩ : ∃ n, fuel = n + 1 := ⟨fuel - 1, by omega⟩
      obtain ⟨fuel', rfl⟩ : ∃ n, fuel' = n + 1 := ⟨fuel' - 1, by omega⟩
      split
      · have hothers : sectionsReader (fuel + 1) data _ = sectionsReader (fuel' + 1) data _ :=
          ih fuel (Nat.lt_succ_self fuel) _ hinside fuel' (by omega) (by omega)
        rw [bind_apply, bind_apply, hothers]
      · rfl

end MethodBody

end CliMeta
