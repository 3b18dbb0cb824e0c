import CliMeta.Proofs.Body.Sections
import Mathlib.Tactic.Common

/-!
Measuring and reading a body. The extent of a body is found by one walk over its headers, and the
body itself is read by another one; over a buffer of bytes the two take the same steps. So a body
can be taken from its address exactly where it can be read from the bytes there, and what is taken
are the bytes up to the end of the code or of the last section.
-/

namespace CliMeta

open Reader

theorem AddressSpace.ofBuffer_read_eq_ok {m bytes : Bytes} {rva length : Nat} :
    (ofBuffer m).read rva length = .ok bytes ↔
      rva + length ≤ m.size ∧ bytes = m.extract rva (rva + length) := by
  unfold ofBuffer Bytes.slice?
  by_cases h : rva + length ≤ m.size
  · simp [h, eq_comm]
  · simp [h]

namespace MethodBody

variable {data : Bytes} {b : MethodBody} {stop : Nat}

/-- The place where a body ends: behind the code, or behind the last of its sections. -/
def EndsAt (b : MethodBody) (data : Bytes) (stop : Nat) : Prop :=
  if hasSections b.flags then SectionChain data b.size stop else stop = b.size

/-- The bytes begin with the header of a body. -/
inductive HeaderAt (data : Bytes) (b : MethodBody) : Prop
  | tiny (hinside : 1 ≤ data.size) (hfirst : data.byteAt 0 % 4 = 2) (hheader : b.headerSize = 1)
      (hcode : b.codeSize = data.byteAt 0 / 4) (hflags : hasSections b.flags = false)
  | fat (hinside : fatHeaderSize ≤ data.size) (hfirst : data.byteAt 0 % 4 = 3)
      (hheader : b.headerSize = declaredHeaderSize (data.littleEndian 0 2))
      (hlarge : fatHeaderSize ≤ b.headerSize) (hcode : b.codeSize = data.littleEndian 4 4)
      (hflags : b.flags = fatFlags (data.littleEndian 0 2))

/-- The body stands at the front of the bytes, up to a place inside of them. -/
structure Spans (b : MethodBody) (data : Bytes) (stop : Nat) : Prop where
  header : HeaderAt data b
  ends : b.EndsAt data stop
  inside : stop ≤ data.size

theorem HeaderAt.headerSize_pos (h : HeaderAt data b) : 0 < b.headerSize := by
  cases h with
  | tiny _ _ hheader => omega
  | fat _ _ _ hlarge => exact Nat.lt_of_lt_of_le (by decide) hlarge

theorem EndsAt.size_le (h : b.EndsAt data stop) : b.size ≤ stop := by
  rw [EndsAt] at h
  split at h
  · exact Nat.le_trans (Nat.le_add_right _ _) h.bounds.1
  · exact Nat.le_of_eq h.symm

theorem Spans.pos (h : b.Spans data stop) : 0 < stop := by
  have hheader := h.header.headerSize_pos
  have hsize := h.ends.size_le
  rw [size] at hsize
  omega

/-! ### Reading a body -/

/-- Reads a body with a fat header, given a way to get to the end of the header. -/
def fatReaderWith (seek : Nat → Reader Unit) : Reader MethodBody := do
  let word ← Reader.unsigned 2
  let maxStack ← Reader.unsigned 2
  let codeSize ← Reader.unsigned 4
  let locals ← Reader.unsigned 4
  let headerSize := declaredHeaderSize word
  if headerSize < fatHeaderSize then
    Reader.malformed (.fatHeaderSize headerSize)
  seek headerSize
  Reader.skip codeSize
  let flags := fatFlags word
  let clauses ← if hasSections flags then sectionsReader ((← Reader.remaining) + 1) else pure []
  return ⟨.fat, flags, headerSize, codeSize, maxStack, ⟨locals⟩, clauses⟩

/-- At the front of a buffer the rest of the header can be skipped, which never leads back. -/
theorem fatReader_eq (data : Bytes) :
    fatReader data 0 =
      fatReaderWith (fun headerSize => skip (headerSize - fatHeaderSize)) data 0 := by
  refine bind_congr fun word _ hword => bind_congr fun maxStack _ hstack => ?_
  refine bind_congr fun codeSize _ hcode => bind_congr fun locals place hlocals => ?_
  obtain ⟨-, -, rfl⟩ := unsigned_eq_ok.1 hword
  obtain ⟨-, -, rfl⟩ := unsigned_eq_ok.1 hstack
  obtain ⟨-, -, rfl⟩ := unsigned_eq_ok.1 hcode
  obtain ⟨-, -, rfl⟩ := unsigned_eq_ok.1 hlocals
  by_cases hsmall : declaredHeaderSize word < fatHeaderSize
  · rw [if_pos hsmall, if_pos hsmall]
    rfl
  · rw [if_neg hsmall, if_neg hsmall]
    have hplace : fatHeaderSize + (declaredHeaderSize word - fatHeaderSize) =
        declaredHeaderSize word := by omega
    have hmove : seek (declaredHeaderSize word) data fatHeaderSize =
        skip (declaredHeaderSize word - fatHeaderSize) data fatHeaderSize := by
      rw [seek, skip, hplace]
    change (seek (declaredHeaderSize word) >>= _) data fatHeaderSize =
      (skip (declaredHeaderSize word - fatHeaderSize) >>= _) data fatHeaderSize
    rw [bind_apply, bind_apply, hmove]

theorem fatReaderWith_contained {seek : Nat → Reader Unit}
    (hseek : ∀ target, (seek target).Contained) : (fatReaderWith seek).Contained := by
  refine .bind (.unsigned 2) fun word => .bind (.unsigned 2) fun maxStack => ?_
  refine .bind (.unsigned 4) fun codeSize => .bind (.unsigned 4) fun locals => ?_
  have hbehind (body : List ExceptionClause → MethodBody) :
      ((if hasSections (fatFlags word) then
          Reader.remaining >>= fun left => sectionsReader (left + 1) >>= fun clauses =>
            pure (body clauses)
        else pure [] >>= fun clauses => pure (body clauses)) : Reader MethodBody).Contained := by
    refine .ite ?_ (.bind (.pure _) fun _ => .pure _)
    exact .remaining_bind (fun fuel => .bind (sectionsReader_contained _) fun _ => .pure _)
      (sectionsReader_fuelFree.bind _)
  have htail (body : List ExceptionClause → MethodBody) :=
    Contained.bind (hseek (declaredHeaderSize word)) fun _ =>
      .bind (.skip codeSize) fun _ => hbehind body
  exact .ite (.bind (.malformed _) fun _ => htail _) (htail _)

theorem tinyReader_contained : tinyReader.Contained :=
  .bind .byte fun _ => .bind (.skip _) fun _ => .pure _

theorem openReader_eq_ok :
    openReader data 0 = .ok b stop ↔ 0 < data.size ∧
      (data.byteAt 0 % 4 = 2 ∧ tinyReader data 0 = .ok b stop ∨
        data.byteAt 0 % 4 = 3 ∧ fatReader data 0 = .ok b stop) := by
  obtain hempty | hpos := Nat.eq_zero_or_pos data.size
  · rw [openReader, bind_of_error (peek_at_end (Nat.le_of_eq hempty))]
    simp [hempty]
  rw [openReader, bind_of_ok (peek_inside hpos)]
  generalize data.byteAt 0 % 4 = kind
  match kind with
  | 2 => simp [hpos]
  | 3 => simp [hpos]
  | 0 | 1 | _ + 4 => simp [malformed]

theorem tinyReader_ok (hfirst : data.byteAt 0 % 4 = 2) (h : tinyReader data 0 = .ok b stop) :
    b.Spans data stop := by
  obtain ⟨first, _, hbyte, h⟩ := bind_eq_ok.1 h
  obtain ⟨hinside, rfl, rfl⟩ := unsigned_eq_ok.1 hbyte
  obtain ⟨_, _, hskip, h⟩ := bind_eq_ok.1 h
  obtain ⟨hcode, rfl⟩ := skip_eq_ok.1 hskip
  cases h
  have hone : data.littleEndian 0 1 = data.byteAt 0 := by simp [Bytes.littleEndian_succ]
  have hnone : hasSections ⟨2⟩ = false := by decide
  rw [hone] at hcode ⊢
  refine ⟨.tiny hinside hfirst rfl rfl hnone, ?_, hcode⟩
  rw [EndsAt, hnone]
  exact congrArg (· + _) (Nat.zero_add 1)

theorem fatReader_ok (hfirst : data.byteAt 0 % 4 = 3) (h : fatReader data 0 = .ok b stop) :
    b.Spans data stop := by
  obtain ⟨word, _, hword, h⟩ := bind_eq_ok.1 h
  obtain ⟨maxStack, _, hstack, h⟩ := bind_eq_ok.1 h
  obtain ⟨codeSize, _, hcode, h⟩ := bind_eq_ok.1 h
  obtain ⟨locals, _, hlocals, h⟩ := bind_eq_ok.1 h
  obtain ⟨-, rfl, rfl⟩ := unsigned_eq_ok.1 hword
  obtain ⟨-, -, rfl⟩ := unsigned_eq_ok.1 hstack
  obtain ⟨-, rfl, rfl⟩ := unsigned_eq_ok.1 hcode
  obtain ⟨hinside, -, rfl⟩ := unsigned_eq_ok.1 hlocals
  by_cases hsmall : declaredHeaderSize (data.littleEndian 0 2) < fatHeaderSize
  · rw [if_pos hsmall] at h
    cases h
  rw [if_neg hsmall] at h
  obtain ⟨_, _, hseek, h⟩ := bind_eq_ok.1 h
  obtain ⟨-, rfl⟩ := seek_eq_ok.1 hseek
  obtain ⟨_, _, hskip, h⟩ := bind_eq_ok.1 h
  obtain ⟨hsize, rfl⟩ := skip_eq_ok.1 hskip
  have hlarge := Nat.le_of_not_lt hsmall
  by_cases hsections : hasSections (fatFlags (data.littleEndian 0 2)) = true
  · rw [if_pos hsections] at h
    obtain ⟨left, _, hleft, h⟩ := bind_eq_ok.1 h
    cases hleft
    obtain ⟨clauses, _, hclauses, h⟩ := bind_eq_ok.1 h
    cases h
    have hchain := sectionsReader_chain hclauses
    refine ⟨.fat hinside hfirst rfl hlarge rfl rfl, ?_, hchain.bounds.2⟩
    rw [EndsAt, if_pos hsections]
    exact hchain
  · rw [if_neg hsections] at h
    cases h
    refine ⟨.fat hinside hfirst rfl hlarge rfl rfl, ?_, hsize⟩
    rw [EndsAt, if_neg hsections]
    rfl

/-- A body that is read begins with its header and ends where it says. -/
theorem openReader_ok (h : openReader data 0 = .ok b stop) : b.Spans data stop := by
  obtain ⟨-, ⟨hfirst, htiny⟩ | ⟨hfirst, hfat⟩⟩ := openReader_eq_ok.1 h
  · exact tinyReader_ok hfirst htiny
  · exact fatReader_ok hfirst hfat

/-- What is behind a body has no effect on how it is read. -/
theorem openReader_agrees (front rest : Bytes) (hstop : stop ≤ front.size) :
    openReader front 0 = .ok b stop ↔ openReader (front ++ rest) 0 = .ok b stop := by
  obtain hempty | hpos := Nat.eq_zero_or_pos front.size
  · have hnone (data : Bytes) : ¬openReader data 0 = .ok b stop := by
      intro h
      have hpos := (openReader_ok h).pos
      omega
    exact iff_of_false (hnone _) (hnone _)
  have htiny := tinyReader_contained.agrees front rest 0 b stop (Nat.zero_le _) hstop
  have hfat := (fatReaderWith_contained fun target => .skip (target - fatHeaderSize)).agrees
    front rest 0 b stop (Nat.zero_le _) hstop
  have hmore : 0 < (front ++ rest).size := by
    rw [Array.size_append]
    omega
  rw [← fatReader_eq, ← fatReader_eq] at hfat
  rw [openReader_eq_ok, openReader_eq_ok, byteAt_append_left front rest hpos, htiny, hfat]
  simp only [hpos, hmore]

theorem openReader_front (h : openReader data 0 = .ok b stop) :
    openReader (data.extract 0 stop) 0 = .ok b stop := by
  have hstop := (openReader_ok h).inside
  have hfront : stop ≤ (data.extract 0 stop).size := by simp [hstop]
  rw [openReader_agrees _ (data.extract stop data.size) hfront, Bytes.extract_append_rest hstop]
  exact h

theorem code_front (hcode : b.size ≤ stop) (hstop : stop ≤ data.size) :
    b.code (data.extract 0 stop) = .ok (data.extract b.headerSize b.size) := by
  have hinside : b.headerSize ≤ b.size ∧ b.size ≤ (data.extract 0 stop).size :=
    ⟨Nat.le_add_right .., by simp [hcode, hstop]⟩
  have hextract : (data.extract 0 stop).extract b.headerSize b.size =
      data.extract b.headerSize b.size := by
    rw [Array.extract_extract, Nat.zero_add, Nat.zero_add, Nat.min_eq_left hcode]
  rw [code, Bytes.slice?, if_pos hinside, hextract]

theorem ofBytes_eq_ok : ofBytes data = .ok b ↔ ∃ stop, openReader data 0 = .ok b stop := by
  rw [ofBytes, valueAt, orTruncated]
  cases openReader data 0 with
  | ok b stop => simp
  | error e stop => cases e <;> simp

/-! ### Measuring a body -/

theorem checkLength_eq_ok {rva length checked : Nat} :
    checkLength rva length = .ok checked ↔ length < 0x100000000 ∧ checked = length := by
  rw [checkLength]
  by_cases h : length < 0x100000000
  · simp [h, eq_comm]
  · simp [h]

section Buffer

variable {m : Bytes} {rva : Nat}

/-- What is taken from an address is read from the bytes taken, and these stand at the address. -/
theorem ofBytes_of_read (hrva : 0 < rva) (hdata : m.extract rva m.size = data) {taken : Bytes}
    (h : read (.ofBuffer m) rva = .ok (b, taken)) :
    ofBytes taken = .ok b ∧ ∃ behind, data = taken ++ behind := by
  rw [read, if_neg (Nat.ne_of_gt hrva)] at h
  obtain ⟨length, -, h⟩ := exists_of_bind_ok h
  obtain ⟨bytes, hread, h⟩ := exists_of_bind_ok h
  obtain ⟨b', hbytes, h⟩ := exists_of_bind_ok h
  cases h
  obtain ⟨hinside, rfl⟩ := AddressSpace.ofBuffer_read_eq_ok.1 hread
  refine ⟨hbytes, m.extract (rva + length) m.size, ?_⟩
  rw [← hdata, Array.extract_append_extract]
  simp [hinside]

section Short

-- no place in the buffer is beyond the 32-bit words
variable (hsize : m.size < 0x100000000)
include hsize

theorem readBehind_ofBuffer {offset length : Nat} (h : rva + offset + length ≤ m.size) :
    readBehind (.ofBuffer m) rva offset length =
      .ok ((m.extract rva m.size).extract offset (offset + length)) := by
  have hextract : (m.extract rva m.size).extract offset (offset + length) =
      m.extract (rva + offset) (rva + offset + length) := by
    rw [Array.extract_extract, ← Nat.add_assoc, Nat.min_eq_left h]
  have hword : rva + offset < 0x100000000 := by omega
  rw [readBehind, if_pos hword, hextract]
  exact AddressSpace.ofBuffer_read_eq_ok.2 ⟨h, rfl⟩

/-- Where a section stands, the search for the end of the sections goes on behind it or ends
there. -/
theorem sectionsExtent_step {length : Nat} {header : SectionHeader}
    (hat : SectionAt (m.extract rva m.size) (alignedFrom length) header) :
    sectionsExtent (.ofBuffer m) rva length =
      if header.hasMore then sectionsExtent (.ofBuffer m) rva (alignedFrom length + header.size)
      else .ok (alignedFrom length + header.size) := by
  have hrest : (m.extract rva m.size).size = m.size - rva := by simp
  have haligned : (length + 3) / 4 * 4 = alignedFrom length := rfl
  have hlength := le_alignedFrom length
  have hcovers := hat.covers
  have hinside := hat.inside
  have hroom : rva + alignedFrom length + SectionHeader.length ≤ m.size := by
    have hpos : 0 < SectionHeader.length := by decide
    omega
  have hheader : (readBehind (.ofBuffer m) rva (alignedFrom length) SectionHeader.length).map
      SectionHeader.ofWord = .ok header := by
    rw [readBehind_ofBuffer hsize hroom, hat.header_eq]
    rfl
  have hword : ¬0x100000000 ≤ length + 3 := by
    rw [SectionHeader.length] at hroom
    omega
  have hlarge : ¬0x100000000 ≤ alignedFrom length + header.size := by omega
  rw [sectionsExtent]
  simp only [haligned, hheader, hword, hlarge, Nat.not_lt.2 hcovers, if_false]

/-- The search for the end of the sections follows the chain. -/
theorem sectionsExtent_of_chain {length : Nat}
    (h : SectionChain (m.extract rva m.size) length stop) :
    sectionsExtent (.ofBuffer m) rva length = .ok stop := by
  induction h with
  | last hat hlast => rw [sectionsExtent_step hsize hat, hlast, if_neg Bool.false_ne_true]
  | more hat hmore _ ih => rw [sectionsExtent_step hsize hat, if_pos hmore, ih]

/-- The extent of a body is measured up to the place where it ends. -/
theorem extent_of_spans (hdata : m.extract rva m.size = data) (h : b.Spans data stop) :
    extent (.ofBuffer m) rva = .ok stop := by
  obtain ⟨hheader, hends, hstop⟩ := h
  have hrest : data.size = m.size - rva := by simp [← hdata]
  have hread {length : Nat} (hpos : 0 < length) (hlength : length ≤ data.size) :
      readBehind (.ofBuffer m) rva 0 length = .ok (data.extract 0 length) := by
    rw [readBehind_ofBuffer hsize (by omega), hdata, Nat.zero_add]
  have hfirstByte (hpos : 1 ≤ data.size) :
      Bytes.byteAt (data.extract 0 1) 0 = data.byteAt 0 := by
    rw [Bytes.byteAt_extract hpos (by omega), Nat.zero_add]
  cases hheader with
  | tiny hinside hfirst hheaderSize hcode hflags =>
      rw [EndsAt, hflags, if_neg Bool.false_ne_true] at hends
      simp only [extent, hread Nat.one_pos hinside, hfirstByte hinside, hfirst, bind, Except.bind]
      rw [hends, size, hheaderSize, hcode]
      rfl
  | fat hinside hfirst hheaderSize hlarge hcode hflags =>
      have hone : 1 ≤ data.size := Nat.le_trans (by decide) hinside
      have hword : Bytes.littleEndian (data.extract 0 fatHeaderSize) 0 2 = data.littleEndian 0 2 :=
        Bytes.littleEndian_extract hinside (by decide)
      have hcodeSize : Bytes.littleEndian (data.extract 0 fatHeaderSize) 4 4 =
          data.littleEndian 4 4 := Bytes.littleEndian_extract hinside (by decide)
      have hbound : b.size < 0x100000000 := by
        have hsizeLe := hends.size_le
        omega
      have hlength : checkLength rva (declaredHeaderSize (data.littleEndian 0 2) +
          data.littleEndian 4 4) = .ok b.size := by
        rw [← hheaderSize, ← hcode]
        exact checkLength_eq_ok.2 ⟨hbound, rfl⟩
      simp only [extent, hread Nat.one_pos hone, hfirstByte hone, hfirst,
        hread (show 0 < fatHeaderSize by decide) hinside, hword, hcodeSize, hlength, ← hflags,
        bind, Except.bind]
      rw [EndsAt] at hends
      split at hends
      · rename_i hsections
        rw [if_pos hsections]
        exact sectionsExtent_of_chain hsize (hdata ▸ hends)
      · rename_i hnone
        rw [if_neg hnone, hends]
        rfl

theorem read_of_openReader (hrva : 0 < rva) (hdata : m.extract rva m.size = data)
    (h : openReader data 0 = .ok b stop) :
    read (.ofBuffer m) rva = .ok (b, data.extract 0 stop) := by
  have hspans := openReader_ok h
  have hextent := extent_of_spans hsize hdata hspans
  have hpos := hspans.pos
  have hstop := hspans.inside
  have hrest : data.size = m.size - rva := by simp [← hdata]
  have hroom : rva + stop ≤ m.size := by omega
  have hread : (AddressSpace.ofBuffer m).read rva stop = .ok (data.extract 0 stop) := by
    refine AddressSpace.ofBuffer_read_eq_ok.2 ⟨hroom, ?_⟩
    rw [← hdata, Array.extract_extract, Nat.add_zero, Nat.min_eq_left hroom]
  have hbytes : ofBytes (data.extract 0 stop) = .ok b := ofBytes_eq_ok.2 ⟨stop, openReader_front h⟩
  rw [read, if_neg (Nat.ne_of_gt hrva), hextent]
  change ((AddressSpace.ofBuffer m).read rva stop >>= _) = _
  rw [hread]
  change (ofBytes (data.extract 0 stop) >>= _) = _
  rw [hbytes]
  rfl

theorem read_eq_ok (hrva : 0 < rva) (hdata : m.extract rva m.size = data) {taken : Bytes} :
    read (.ofBuffer m) rva = .ok (b, taken) ↔
      ∃ stop, openReader data 0 = .ok b stop ∧ taken = data.extract 0 stop := by
  constructor
  · intro h
    obtain ⟨hbytes, behind, hsplit⟩ := ofBytes_of_read hrva hdata h
    obtain ⟨stop, hopen⟩ := ofBytes_eq_ok.1 hbytes
    have hstop := (openReader_ok hopen).inside
    rw [openReader_agrees taken behind hstop, ← hsplit] at hopen
    have hread := read_of_openReader hsize hrva hdata hopen
    rw [h] at hread
    exact ⟨stop, hopen, (Prod.mk.inj (Except.ok.inj hread)).2⟩
  · rintro ⟨stop, hopen, rfl⟩
    exact read_of_openReader hsize hrva hdata hopen

end Short

/-- A body can be taken from an address exactly where it can be read from the bytes there. What is
taken are these bytes up to the end of the body, which read as the same body by themselves. -/
theorem read_iff_ofBytes (hsize : m.size < 0x100000000) (hrva : 0 < rva)
    (hinside : rva < m.size) :
    ((∃ b taken, read (.ofBuffer m) rva = .ok (b, taken)) ↔
      ∃ b, ofBytes (m.extract rva m.size) = .ok b) ∧
    ∀ b taken, read (.ofBuffer m) rva = .ok (b, taken) →
      ofBytes (m.extract rva m.size) = .ok b ∧ ofBytes taken = .ok b ∧
      (∃ behind, m.extract rva m.size = taken ++ behind) ∧ b.EndsAt taken taken.size ∧
      rva + b.size ≤ m.size ∧
      b.code taken = .ok (m.extract (rva + b.headerSize) (rva + b.headerSize + b.codeSize)) := by
  constructor
  · simp only [read_eq_ok hsize hrva rfl, ofBytes_eq_ok]
    constructor
    · rintro ⟨b, taken, stop, hopen, -⟩
      exact ⟨b, stop, hopen⟩
    · rintro ⟨b, stop, hopen⟩
      exact ⟨b, _, stop, hopen, rfl⟩
  · intro b taken hread
    generalize hdata : (m.extract rva m.size : Bytes) = data at hread ⊢
    obtain ⟨stop, hopen, rfl⟩ := (read_eq_ok hsize hrva hdata).1 hread
    have hfront := openReader_front hopen
    have hends := (openReader_ok hfront).ends
    have hstop := (openReader_ok hopen).inside
    have hrest : data.size = m.size - rva := by simp [← hdata]
    have htaken : (data.extract 0 stop).size = stop := by simp [hstop]
    have hcode := hends.size_le
    have hroom : rva + b.size ≤ m.size := by omega
    refine ⟨ofBytes_eq_ok.2 ⟨stop, hopen⟩, ofBytes_eq_ok.2 ⟨stop, hfront⟩,
      ⟨data.extract stop data.size, (Bytes.extract_append_rest hstop).symm⟩, by rwa [htaken],
      hroom, ?_⟩
    rw [code_front hcode hstop, ← hdata, Array.extract_extract, Nat.min_eq_left hroom, size,
      Nat.add_assoc]

end Buffer

/-- A body at an address that is no multiple of four, with a clause in its first section and a
second section of another kind. -/
def imageWithSections : Bytes :=
  #[0xCC, 0xCC] ++ #[0x0B, 0x30, 0x08, 0x00, 0x02, 0x00, 0x00, 0x00, 0x00, 0x00, 0x00, 0x00] ++
    #[0x00, 0x2A] ++ #[0x00, 0x00] ++ #[0x81, 0x10, 0x00, 0x00] ++
    #[0x00, 0x00, 0x00, 0x00, 0x01, 0x01, 0x00, 0x01, 0x01, 0x00, 0x00, 0x01] ++
    #[0x02, 0x06, 0x00, 0x00] ++ #[0x55, 0x55] ++ #[0xFF]

theorem read_imageWithSections :
    ∃ b taken, read (.ofBuffer imageWithSections) 2 = .ok (b, taken) ∧ b.EndsAt taken taken.size ∧
      ofBytes taken = .ok b ∧ b.clauses.length = 1 ∧ b.code taken = .ok #[0x00, 0x2A] := by
  have hrun : (ofBytes (imageWithSections.extract 2 imageWithSections.size)).map (fun b =>
      (b.headerSize, b.codeSize, b.clauses.length)) = .ok (12, 2, 1) := by
    decide +kernel
  obtain ⟨b, hbytes, hfacts⟩ := exists_of_map_ok hrun
  simp only [Prod.mk.injEq] at hfacts
  obtain ⟨hheader, hcode, hclauses⟩ := hfacts
  have hagree := read_iff_ofBytes (show imageWithSections.size < 0x100000000 by decide)
    (show 0 < 2 by decide) (show 2 < imageWithSections.size by decide)
  obtain ⟨b', taken, hread⟩ := hagree.1.2 ⟨b, hbytes⟩
  obtain ⟨hwhole, htaken, -, hends, -, hcodeAt⟩ := hagree.2 b' taken hread
  obtain rfl : b = b' := Except.ok.inj (hbytes.symm.trans hwhole)
  have hslice : imageWithSections.extract (2 + 12) (2 + 12 + 2) = #[0x00, 0x2A] := by decide
  refine ⟨b, taken, hread, hends, htaken, hclauses, ?_⟩
  rw [hcodeAt, hheader, hcode, hslice]

end MethodBody

end CliMeta
