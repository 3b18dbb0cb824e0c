import CliMeta.Image.Basic
import CliMeta.Body.Extent
import CliMeta.Proofs.Body.Extent
import CliMeta.Proofs.Machine.Reader

/-!
Method bodies, read with words. What a header says about sizes is compared with the header itself
before it is counted down, and lengths that may leave their width are looked at before they are
used, so what is left to show is that the bytes that were asked for are there and that a clause has
a size. The regions of clauses are made of 32-bit words, so they end at places that can be counted
in 64 bits.
-/

namespace CliMeta

/-! ### Regions -/

/-- The places behind the regions of a clause can be counted. -/
def ExceptionClause.Counted (c : ExceptionClause) : Prop :=
  c.tryRegion.offset + c.tryRegion.length < 2 ^ 64 ∧
    c.handler.offset + c.handler.length < 2 ^ 64

namespace ClauseForm

variable {f : ClauseForm}

/-- The fields of a clause are at most 32 bits wide. -/
structure Narrow (f : ClauseForm) : Prop where
  offset : f.offset ≤ 4
  length : f.length ≤ 4

theorem size_pos (f : ClauseForm) : 0 < f.size := by
  rw [size]
  omega

theorem regionReader_counted (h : f.Narrow) :
    Reader.Ensures f.regionReader fun r => r.offset + r.length < 2 ^ 64 := by
  have hword {width value : Nat} (hwidth : width ≤ 4) (hvalue : value < 1 <<< (8 * width)) :
      value < 2 ^ 32 := by
    rw [Nat.one_shiftLeft] at hvalue
    exact Nat.lt_of_lt_of_le hvalue (Nat.pow_le_pow_right (by decide) (by omega))
  refine .bind (.unsigned _) fun offset hoffset => .bind (.unsigned _) fun length hlength => ?_
  have hfirst := hword h.offset hoffset
  have hsecond := hword h.length hlength
  exact .pure (by simp only; omega)

theorem reader_counted (h : f.Narrow) :
    Reader.Ensures f.reader ExceptionClause.Counted := by
  refine .bind (.trivial _) fun flags _ => .bind (regionReader_counted h) fun guarded hguarded => ?_
  refine .bind (regionReader_counted h) fun handler hhandler => ?_
  exact .bind (.trivial _) fun subject _ => .pure ⟨hguarded, hhandler⟩

end ClauseForm

theorem SectionHeader.form_narrow (h : SectionHeader) : h.form.Narrow := by
  rw [form]
  split
  · exact ⟨by decide, by decide⟩
  · exact ⟨by decide, by decide⟩

theorem SectionHeader.clausesReader_counted (h : SectionHeader) :
    Reader.Ensures h.clausesReader fun clauses => ∀ c ∈ clauses, c.Counted := by
  refine .ite (fun _ => ?_) fun _ => ?_
  · refine .bind (.times (ClauseForm.reader_counted h.form_narrow) _) fun clauses hclauses => ?_
    exact .bind (.trivial _) fun _ _ => .pure hclauses.2
  · exact .bind (.trivial _) fun _ _ => .pure fun c hc => absurd hc List.not_mem_nil

namespace MethodBody

theorem sectionsReader_counted (fuel : Nat) :
    Reader.Ensures (sectionsReader fuel) fun clauses => ∀ c ∈ clauses, c.Counted := by
  induction fuel with
  | zero => exact .throw _
  | succ fuel ih =>
      refine .bind (.trivial _) fun _ _ => .bind (.trivial _) fun header _ => ?_
      refine .ite (fun _ => .malformed_bind _ _) fun _ => ?_
      refine .bind header.clausesReader_counted fun clauses hclauses => ?_
      refine .ite (fun _ => ?_) fun _ => .pure hclauses
      refine .bind ih fun others hothers => .pure fun c hc => ?_
      obtain hfirst | hlater := List.mem_append.1 hc
      · exact hclauses c hfirst
      · exact hothers c hlater

theorem openReader_counted :
    Reader.Ensures openReader fun b => ∀ c ∈ b.clauses, c.Counted := by
  have hnone : ∀ c ∈ ([] : List ExceptionClause), c.Counted :=
    fun c hc => absurd hc List.not_mem_nil
  have htiny : Reader.Ensures tinyReader fun b => ∀ c ∈ b.clauses, c.Counted :=
    .bind (.trivial _) fun _ _ => .bind (.trivial _) fun _ _ => .pure hnone
  have hfat : Reader.Ensures fatReader fun b => ∀ c ∈ b.clauses, c.Counted := by
    refine .bind (.trivial _) fun word _ => .bind (.trivial _) fun maxStack _ => ?_
    refine .bind (.trivial _) fun codeSize _ => .bind (.trivial _) fun locals _ => ?_
    refine .ite (fun _ => .malformed_bind _ _) fun _ => ?_
    refine .bind (.trivial _) fun _ _ => .bind (.trivial _) fun _ _ => ?_
    refine .ite (fun _ => .bind (.trivial _) fun left _ => ?_) fun _ => ?_
    · exact .bind (sectionsReader_counted _) fun clauses hclauses => .pure hclauses
    · exact .bind (.pure hnone) fun clauses hclauses => .pure hclauses
  refine .bind (.trivial _) fun first _ => ?_
  split
  · exact htiny
  · exact hfat
  · exact .malformed _

end MethodBody

namespace Machine

variable {α : Type} {data : Bytes} {start : Nat}

/-! ### Clauses and sections -/

def region (f : ClauseForm) : CheckedReader CodeRegion := do
  let offset ← unsigned f.offset
  let length ← unsigned f.length
  return ⟨offset, length⟩

def clause (f : ClauseForm) : CheckedReader ExceptionClause := do
  let flags ← unsigned f.flags
  let guarded ← region f
  let handler ← region f
  let subject ← unsigned 4
  return ⟨(⟨flags⟩ : Flags .exceptionHandlerFlags).truncate, guarded, handler, subject⟩

def sectionHeader : CheckedReader SectionHeader := do
  let flags := SectionHeader.flagsOf (← byte)
  if SectionHeader.isFatFlag flags then
    let low ← unsigned 2
    let high ← unsigned 1
    return ⟨flags, high * 0x10000 + low⟩
  else
    let size ← unsigned 1
    liftReader (Reader.skip 2)
    return ⟨flags, size⟩

/-- Reads what is behind the header of a section, of which the size has been looked at. -/
def sectionClauses (h : SectionHeader) : CheckedReader (List ExceptionClause) := do
  let payload ← compute (sub h.size SectionHeader.length)
  if h.holdsClauses then
    let count ← compute (quotient payload h.form.size)
    let clauses ← times (clause h.form) count
    let padding ← compute (remainder payload h.form.size)
    liftReader (Reader.skip padding)
    return clauses
  else
    liftReader (Reader.skip payload)
    return []

def sections : (fuel : Nat) → CheckedReader (List ExceptionClause)
  | 0 => throw (.error .outOfBounds)
  | fuel + 1 => do
      align 4
      let header ← sectionHeader
      if header.size < SectionHeader.length then
        liftReader (Reader.malformed (.sectionSize header.size))
      let clauses ← sectionClauses header
      if header.hasMore then return clauses ++ (← sections fuel)
      else return clauses

theorem follows_region (f : ClauseForm) : Follows data start (region f) f.regionReader :=
  (follows_unsigned _).bind fun _ => (follows_unsigned _).bind fun _ => .pure _

theorem follows_clause (f : ClauseForm) : Follows data start (clause f) f.reader := by
  refine (follows_unsigned _).bind fun flags => (follows_region f).bind fun guarded => ?_
  exact (follows_region f).bind fun _ => (follows_unsigned 4).bind fun _ => .pure _

theorem follows_sectionHeader : Follows data start sectionHeader SectionHeader.reader := by
  refine follows_byte.bind fun first => .ite (fun _ => ?_) fun _ => ?_
  · exact (follows_unsigned 2).bind fun _ => (follows_unsigned 1).bind fun _ => .pure _
  · refine (follows_unsigned 1).bind fun _ => ?_
    exact (follows_skip 2).bind fun _ => .pure _

theorem follows_sectionClauses {h : SectionHeader} (hsize : SectionHeader.length ≤ h.size) :
    Follows data start (sectionClauses h) h.clausesReader := by
  refine .compute (sub_eq hsize) (.ite (fun _ => ?_) fun _ => ?_)
  case refine_2 => exact (follows_skip _).bind fun _ => .pure _
  have hform := h.form.size_pos
  refine .compute (quotient_eq hform) ?_
  refine (follows_times (follows_clause h.form) _).bind fun clauses => ?_
  exact .compute (remainder_eq hform) ((follows_skip _).bind fun _ => .pure _)

theorem follows_sections (fuel : Nat) :
    Follows data start (sections fuel) (MethodBody.sectionsReader fuel) := by
  induction fuel with
  | zero => exact .throw _
  | succ fuel ih =>
      refine (follows_align (by decide)).bind fun _ => follows_sectionHeader.bind fun header => ?_
      refine .ite (fun _ => .malformed_bind _) fun hsize => ?_
      refine (follows_sectionClauses (Nat.not_lt.1 hsize)).bind fun clauses => ?_
      exact .ite (fun _ => ih.bind fun _ => .pure _) fun _ => .pure _

/-! ### Bodies -/

/-- Runs a reader. Where the data gives out inside it, the place decides on the error. -/
def orTruncated (truncated : Nat → Error) (m : CheckedReader α) : CheckedReader α :=
  fun data position =>
    match m data position with
    | .ok a next => .ok a next
    | .error (.error .outOfBounds) next => .error (.error (truncated next)) next
    | .error s next => .error s next

def tinyBody : CheckedReader MethodBody := do
  let codeSize := (← byte) / 4
  liftReader (Reader.skip codeSize)
  return ⟨.tiny, ⟨2⟩, 1, codeSize, MethodBody.tinyMaxStack, ⟨0⟩, []⟩

def fatBody : CheckedReader MethodBody := do
  let word ← unsigned 2
  let maxStack ← unsigned 2
  let codeSize ← unsigned 4
  let locals ← unsigned 4
  let headerSize ← compute (mul 64 (word / 0x1000) 4)
  if headerSize < MethodBody.fatHeaderSize then
    liftReader (Reader.malformed (.fatHeaderSize headerSize))
  liftReader (Reader.seek headerSize)
  liftReader (Reader.skip codeSize)
  let flags := MethodBody.fatFlags word
  let clauses ← if MethodBody.hasSections flags then
      sections ((← liftReader Reader.remaining) + 1) else pure []
  return ⟨.fat, flags, headerSize, codeSize, maxStack, ⟨locals⟩, clauses⟩

def body : CheckedReader MethodBody := do
  let first ← liftReader Reader.peek
  match first % 4 with
  | 2 => tinyBody
  | 3 => fatBody
  | _ => liftReader (Reader.malformed (.bodyFormat first))

def bodyOf (data : Bytes) : Checked MethodBody :=
  valueAt (orTruncated .bodyTruncated body) data 0

/-- The size of header and code. -/
def bodySize (b : MethodBody) : Checked Nat :=
  add 64 b.headerSize b.codeSize

theorem follows_orTruncated (truncated : Nat → Error) {m : CheckedReader α} {r : Reader α}
    (h : Follows data start m r) :
    Follows data start (orTruncated truncated m) (r.orTruncated truncated) := by
  intro hsize position hstart hposition
  obtain ⟨hsame, hmoved⟩ := h hsize position hstart hposition
  rw [orTruncated, Reader.orTruncated, hsame]
  cases hout : r data position with
  | ok a next =>
      refine ⟨rfl, fun b stop hstop => ?_⟩
      cases hstop
      exact hmoved a next hout
  | error e next =>
      refine ⟨?_, fun b stop hstop => ?_⟩
      · cases e <;> rfl
      · cases e <;> cases hstop

theorem follows_fatBody : Follows data 0 fatBody MethodBody.fatReader := by
  refine (follows_unsigned 2).bind_where (.unsigned 2) fun word hword => ?_
  have hless : word < 0x10000 := hword
  refine (follows_unsigned 2).bind fun maxStack => (follows_unsigned 4).bind fun codeSize => ?_
  refine (follows_unsigned 4).bind fun locals => .compute (mul_eq (by omega)) ?_
  refine .ite (fun _ => .malformed_bind _) fun _ => ?_
  refine (Follows.seek _).bind fun _ => ?_
  refine (follows_skip codeSize).bind fun _ => .ite (fun _ => ?_) fun _ => ?_
  · exact .remaining fun left _ => (follows_sections _).bind fun _ => .pure _
  · exact Follows.bind (.pure []) fun _ => .pure _

theorem follows_body : Follows data 0 body MethodBody.openReader := by
  refine follows_peek.bind fun first => ?_
  generalize first % 4 = format
  match format with
  | 2 =>
      refine follows_byte.bind fun lead => ?_
      exact (follows_skip _).bind fun _ => .pure _
  | 3 => exact follows_fatBody
  | 0 | 1 | _ + 4 => exact .malformed _

theorem bodyOf_eq (hsize : data.size < positions) :
    bodyOf data = lift (MethodBody.ofBytes data) :=
  (follows_orTruncated _ follows_body).valueAt_eq hsize (Nat.zero_le _)

/-! ### The extent of a body -/

/-- The header in four bytes, of which each is looked at by its index. -/
def sectionWord (bytes : Bytes) : Checked SectionHeader := do
  let flags := SectionHeader.flagsOf (← byteAt bytes 0)
  if SectionHeader.isFatFlag flags then
    let low ← byteAt bytes 1
    let middle ← byteAt bytes 2
    let high ← byteAt bytes 3
    return ⟨flags, low + 256 * (middle + 256 * high)⟩
  else return ⟨flags, ← byteAt bytes 1⟩

/-- The length of a body up to the end of its last section. Each section adds to the length, which
is a 32-bit word, so the search comes to an end. -/
def sectionsExtent (a : AddressSpace) (rva : Nat) : (fuel length : Nat) → Checked Nat
  | 0, _ => trap .overflow
  | fuel + 1, length => do
      if 0x100000000 ≤ length + 3 then fail (.malformed (.bodyTooLarge rva))
      else
        let place := (length + 3) / 4 * 4
        let bytes ← lift (MethodBody.readBehind a rva place SectionHeader.length)
        let header ← sectionWord bytes
        if header.size < SectionHeader.length then
          lift (MethodBody.checkLength rva (place + SectionHeader.length))
        else if 0x100000000 ≤ place + header.size then fail (.malformed (.bodyTooLarge rva))
        else if header.hasMore then sectionsExtent a rva fuel (place + header.size)
        else return place + header.size

/-- The length of a body with a fat header. -/
def fatExtent (a : AddressSpace) (rva : Nat) : Checked Nat := do
  let header ← lift (MethodBody.readBehind a rva 0 MethodBody.fatHeaderSize)
  let word ← valueAt (unsigned 2) header 0
  let codeSize ← unsignedFrom 4 header 4
  let headerSize ← mul 32 (word / 0x1000) 4
  let length ← lift (MethodBody.checkLength rva (headerSize + codeSize))
  if MethodBody.hasSections (MethodBody.fatFlags word) then
    sectionsExtent a rva 0x100000000 length
  else return length

/-- The length of the body at an address. -/
def extent (a : AddressSpace) (rva : Nat) : Checked Nat := do
  let bytes ← lift (MethodBody.readBehind a rva 0 1)
  match bytes[0]? with
  | none => fail (.imageRead rva 1)
  | some lead =>
      let first := lead.toNat
      match first % 4 with
      | 2 => add 32 1 (first / 4)
      | 3 => fatExtent a rva
      | _ => fail (.malformed (.bodyFormatAt rva first))

def readBody (a : AddressSpace) (rva : Nat) : Checked (MethodBody × Bytes) :=
  if rva = 0 then .ok (.empty, #[])
  else do
    let length ← extent a rva
    let data ← lift (a.read rva length)
    let found ← bodyOf data
    return (found, data)

theorem size_of_readBehind {a : AddressSpace} {rva offset length : Nat} {bytes : Bytes}
    (h : MethodBody.readBehind a rva offset length = .ok bytes) : bytes.size = length := by
  rw [MethodBody.readBehind] at h
  split at h
  · exact a.size_of_read h
  · cases h

theorem sectionWord_eq {bytes : Bytes} (h : bytes.size = SectionHeader.length) :
    sectionWord bytes = .ok (SectionHeader.ofWord bytes) := by
  have hindex (index : Nat) (hless : index < SectionHeader.length) :
      byteAt bytes index = .ok (bytes.byteAt index) :=
    byteAt_eq (h ▸ hless)
  rw [sectionWord, SectionHeader.ofWord, hindex 0 (by decide), ok_bind, hindex 1 (by decide),
    hindex 2 (by decide), hindex 3 (by decide)]
  simp only [ok_bind, Bytes.littleEndian_succ, Bytes.littleEndian_zero, Nat.mul_zero,
    Nat.add_zero]
  split <;> rfl

theorem sectionsExtent_eq (a : AddressSpace) (rva : Nat) {fuel length : Nat}
    (hfuel : 0x100000000 ≤ fuel + length) (hlength : length < 0x100000000) :
    sectionsExtent a rva fuel length = lift (MethodBody.sectionsExtent a rva length) := by
  induction fuel generalizing length with
  | zero => omega
  | succ fuel ih =>
      rw [sectionsExtent, MethodBody.sectionsExtent]
      refine ite_agrees (fun _ => rfl) fun _ => ?_
      simp only
      cases hread : MethodBody.readBehind a rva ((length + 3) / 4 * 4) SectionHeader.length with
      | error e => rfl
      | ok bytes =>
          rw [lift_ok, ok_bind, sectionWord_eq (size_of_readBehind hread), ok_bind]
          simp only [Except.map]
          generalize SectionHeader.ofWord bytes = header
          refine ite_agrees (fun _ => rfl) fun hlong => ite_agrees (fun _ => rfl) fun hcounted => ?_
          have hsize : 4 ≤ header.size := Nat.not_lt.1 hlong
          exact ite_agrees (fun _ => ih (by omega) (by omega)) fun _ => rfl

theorem fatExtent_eq (a : AddressSpace) (rva : Nat) :
    fatExtent a rva = lift (do
      let header ← MethodBody.readBehind a rva 0 MethodBody.fatHeaderSize
      let word := header.littleEndian 0 2
      let length ← MethodBody.checkLength rva
        (MethodBody.declaredHeaderSize word + header.littleEndian 4 4)
      if MethodBody.hasSections (MethodBody.fatFlags word) then
        MethodBody.sectionsExtent a rva length
      else return length) := by
  refine bind_agrees rfl fun header hheader => ?_
  have hsize : header.size = 12 := size_of_readBehind hheader
  have hword := (Reader.StandsAt.of_littleEndian (show 0 + 2 ≤ header.size by omega)).1
  have hless : header.littleEndian 0 2 < 0x10000 := hword
  rw [unsigned_valueAt (by omega), ok_bind, unsignedFrom_eq (by omega), ok_bind,
    mul_eq (by omega), ok_bind]
  refine bind_agrees rfl fun length hlength => ?_
  split
  · obtain ⟨hchecked, rfl⟩ := MethodBody.checkLength_eq_ok.1 hlength
    exact sectionsExtent_eq a rva (by omega) hchecked
  · rfl

theorem extent_eq (a : AddressSpace) (rva : Nat) :
    extent a rva = lift (MethodBody.extent a rva) := by
  refine bind_agrees rfl fun bytes hbytes => ?_
  have hinside : 0 < bytes.size := size_of_readBehind hbytes ▸ Nat.one_pos
  have hfirst : bytes.byteAt 0 = bytes[0].toNat := by
    rw [Bytes.byteAt, Array.getElem?_eq_getElem hinside]
  have hless := UInt8.toNat_lt bytes[0]
  rw [Array.getElem?_eq_getElem hinside, hfirst]
  simp only
  generalize bytes[0].toNat = first at hless
  generalize hformat : first % 4 = format
  match format with
  | 2 => exact add_eq (by omega)
  | 3 => exact fatExtent_eq a rva
  | 0 | 1 | _ + 4 => rfl

/-- What is read from an address space can be counted in 32 bits. -/
def SpaceFits (a : AddressSpace) : Prop :=
  ∀ rva length bytes, a.read rva length = .ok bytes → bytes.size < positions

theorem readBody_eq {a : AddressSpace} (ha : SpaceFits a) (rva : Nat) :
    readBody a rva = lift (MethodBody.read a rva) := by
  rw [readBody, MethodBody.read]
  refine ite_agrees (fun _ => rfl) fun _ => ?_
  refine bind_agrees (extent_eq a rva) fun length _ => bind_agrees rfl fun data hdata => ?_
  exact bind_agrees (bodyOf_eq (ha rva length data hdata)) fun found _ => rfl

/-- A body that is read lies in the bytes that it is read from. -/
theorem bodySize_eq {b : MethodBody} (hsize : data.size < positions)
    (h : MethodBody.ofBytes data = .ok b) : bodySize b = .ok b.size := by
  obtain ⟨stop, hopen⟩ := MethodBody.ofBytes_eq_ok.1 h
  have hspans := MethodBody.openReader_ok hopen
  have hstop := hspans.ends.size_le
  have hinside := hspans.inside
  have hword : data.size < 2 ^ 32 := hsize
  rw [MethodBody.size] at hstop
  rw [bodySize, add_eq (by omega), MethodBody.size]

theorem counted_of_ofBytes {b : MethodBody} (h : MethodBody.ofBytes data = .ok b) :
    ∀ c ∈ b.clauses, c.Counted := by
  obtain ⟨stop, hopen⟩ := MethodBody.ofBytes_eq_ok.1 h
  exact MethodBody.openReader_counted data 0 b stop hopen

end Machine

end CliMeta
