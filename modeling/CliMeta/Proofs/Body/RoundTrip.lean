import CliMeta.Proofs.Body.Extent
import CliMeta.Proofs.Body.Writer
import CliMeta.Proofs.Reader.Written

/-!
Every stored body is read back, whatever stands behind it: its header, how much code there is, and
the clauses of all its sections in order.
-/

namespace CliMeta

open Reader

/-! ### Clauses -/

namespace ClauseForm

variable {f : ClauseForm}

theorem regionReader_reads {r : CodeRegion} (h : r.Fits f) :
    Reads f.regionReader (r.encode f) r :=
  (Reads.unsigned h.offset).bind ((Reads.unsigned h.length).bind_pure (.pure _))

/-- Flags that all have a meaning are kept. -/
theorem reader_reads (hwidth : 0 < f.flags) {c : ExceptionClause} (h : c.Fits f) :
    Reads f.reader (c.encode f) c := by
  have hkept : (⟨c.flags.bits⟩ : Flags .exceptionHandlerFlags).truncate = c.flags := by
    have hbits := Nat.and_two_pow_sub_one_of_lt_two_pow (n := 4) h.flags
    show (⟨c.flags.bits &&& (2 ^ 4 - 1)⟩ : Flags .exceptionHandlerFlags) = c.flags
    rw [hbits]
  have hflags : c.flags.bits < 1 <<< (8 * f.flags) := by
    have hle : 2 ^ 4 ≤ 2 ^ (8 * f.flags) := Nat.pow_le_pow_right (by decide) (by omega)
    have hlt := h.flags
    rw [Nat.one_shiftLeft]
    omega
  refine (Reads.unsigned hflags).bind ((regionReader_reads h.tryRegion).bind ?_)
  refine (regionReader_reads h.handler).bind ((Reads.unsigned h.subject).bind_pure ?_)
  rw [hkept]
  exact .pure c

end ClauseForm

/-! ### Sections -/

namespace SectionHeader

/-- The flags of a section say what they were written for. -/
theorem flagByte_flags (holdsClauses isFat hasMore : Bool) (unused : Fin 32) :
    flagByte holdsClauses isFat hasMore unused < 256 ∧
      (flagsOf (flagByte holdsClauses isFat hasMore unused)).has 0x01 = holdsClauses ∧
      isFatFlag (flagsOf (flagByte holdsClauses isFat hasMore unused)) = isFat ∧
      (flagsOf (flagByte holdsClauses isFat hasMore unused)).has 0x80 = hasMore := by
  revert holdsClauses isFat hasMore unused
  decide

end SectionHeader

namespace DataSection

variable (s : DataSection) (hasMore : Bool)

/-- The header that is read of a section. -/
def header : SectionHeader :=
  ⟨SectionHeader.flagsOf (s.flagByte hasMore), s.size⟩

theorem header_holdsClauses : (s.header hasMore).holdsClauses = s.content.holdsClauses :=
  (SectionHeader.flagByte_flags ..).2.1

theorem header_isFat : SectionHeader.isFatFlag (s.header hasMore).flags = s.form.isFat :=
  (SectionHeader.flagByte_flags ..).2.2.1

theorem header_hasMore : (s.header hasMore).hasMore = hasMore :=
  (SectionHeader.flagByte_flags ..).2.2.2

theorem header_form : (s.header hasMore).form = s.form.clauses := by
  rw [SectionHeader.form, header_isFat]
  cases s.form <;> rfl

theorem littleEndianBytes_three (value : Nat) :
    littleEndianBytes value 3 =
      littleEndianBytes (value % 0x10000) 2 ++ littleEndianBytes (value / 0x10000) 1 := by
  have hlow : value % 0x10000 % 256 = value % 256 := by omega
  have hmiddle : value % 0x10000 / 256 % 256 = value / 256 % 256 := by omega
  have hhigh : value / 0x10000 % 256 = value / 256 / 256 % 256 := by omega
  simp only [littleEndianBytes, hlow, hmiddle, hhigh, List.cons_append, List.nil_append]

theorem header_reads : Reads SectionHeader.reader (s.headerBytes hasMore) (s.header hasMore) := by
  have hbyte : s.flagByte hasMore < 256 := (SectionHeader.flagByte_flags ..).1
  have hfat : SectionHeader.isFatFlag (SectionHeader.flagsOf (s.flagByte hasMore)) =
      s.form.isFat := s.header_isFat hasMore
  have hsize : s.size < 1 <<< (8 * s.form.sizeWidth) := s.size_lt
  rw [headerBytes, ← List.singleton_append]
  refine (Reads.byteOfNat hbyte).bind ?_
  simp only [hfat, sizeBytes]
  cases hform : s.form with
  | small unused unused' =>
      rw [hform] at hsize
      exact (Reads.unsigned hsize).bind ((Reads.skipAll [unused, unused']).bind_pure (.pure _))
  | fat =>
      rw [hform] at hsize
      have hlow : s.size % 0x10000 < 1 <<< (8 * 2) := Nat.mod_lt _ (by decide)
      have hhigh : s.size / 0x10000 < 1 <<< (8 * 1) := by
        simp only [SectionForm.sizeWidth, Nat.one_shiftLeft] at hsize ⊢
        omega
      rw [littleEndianBytes_three]
      refine (Reads.unsigned hlow).bind ((Reads.unsigned hhigh).bind_pure ?_)
      rw [Nat.div_add_mod']
      exact .pure _

/-- The clauses of a section are found in front of what is left over, and none in a section of
another kind. -/
theorem payload_reads :
    Reads (s.header hasMore).clausesReader s.payload s.content.listed := by
  have hpayload : (s.header hasMore).size - SectionHeader.length = s.payload.length :=
    Nat.add_sub_cancel_left ..
  have hfits := s.fits
  rw [SectionHeader.clausesReader]
  simp only [hpayload, header_holdsClauses, header_form]
  rw [payload]
  cases hcontent : s.content with
  | other payload => exact (Reads.skipAll payload).bind_pure (.pure _)
  | clauses all leftover =>
      rw [hcontent] at hfits
      obtain ⟨hall, hleftover⟩ := hfits
      have hpos : 0 < s.form.clauses.size := Nat.lt_of_le_of_lt (Nat.zero_le _) hleftover
      have hwidth : 0 < s.form.clauses.flags := by
        cases s.form <;> exact Nat.succ_pos _
      have hlength := ExceptionClause.encodeAll_length s.form.clauses all
      have hcount : (all.length * s.form.clauses.size + leftover.length) / s.form.clauses.size =
          all.length := by
        rw [Nat.add_comm, Nat.add_mul_div_right _ _ hpos, Nat.div_eq_of_lt hleftover, Nat.zero_add]
      have hrest : (all.length * s.form.clauses.size + leftover.length) % s.form.clauses.size =
          leftover.length := by
        rw [Nat.add_comm, Nat.add_mul_mod_self_right, Nat.mod_eq_of_lt hleftover]
      simp only [SectionContent.encode, SectionContent.holdsClauses, List.length_append, hlength,
        hcount, hrest]
      refine Reads.bind (.times fun c hmem => ?_) ((Reads.skipAll leftover).bind_pure (.pure _))
      exact ClauseForm.reader_reads hwidth (hall c hmem)

variable {fill : Nat → UInt8} {data : Bytes} {position : Nat} {behind rest : List UInt8}

/-- One section, which stands at the next multiple of four with its header in front of its
payload. -/
theorem encode_read (fuel : Nat)
    (hstands : StandsAt data position
      (fillBytes fill position ++ (s.headerBytes hasMore ++ (s.payload ++ behind))) rest) :
    StandsAt data (alignedFrom position + s.size) behind rest ∧
      MethodBody.sectionsReader (fuel + 1) data position =
        (if hasMore then MethodBody.sectionsReader fuel >>= fun others =>
            pure (s.content.listed ++ others)
          else pure s.content.listed : Reader _) data (alignedFrom position + s.size) := by
  have hplace := fillBytes_length fill position
  have hlength := s.headerBytes_length hasMore
  have hsection := hstands.behind
  rw [hplace] at hsection
  have hpayload := hsection.behind
  rw [hlength] at hpayload
  have hbehind := hpayload.behind
  rw [Nat.add_assoc] at hbehind
  refine ⟨hbehind, ?_⟩
  have halign : align 4 data position = .ok () (alignedFrom position) :=
    align_eq_ok.2 ⟨rfl, hsection.1⟩
  have hheader := s.header_reads hasMore data _ _ hsection.front
  rw [hlength] at hheader
  have hclauses := s.payload_reads hasMore data _ _ hpayload.front
  rw [Nat.add_assoc] at hclauses
  have hsize : ¬(s.header hasMore).size < SectionHeader.length :=
    Nat.not_lt.2 (Nat.le_add_right ..)
  refine (bind_of_ok halign _).trans ((bind_of_ok hheader _).trans ?_)
  simp only [if_neg hsize, header_hasMore]
  exact bind_of_ok hclauses _

/-- Sections are read one behind the other from the position that they were written for. -/
theorem encodeFrom_read {sections : List DataSection} (hsome : sections ≠ [])
    (hstands : StandsAt data position (encodeFrom fill position sections) rest) {fuel : Nat}
    (hfuel : sections.length ≤ fuel) :
    ∃ stop, MethodBody.sectionsReader fuel data position =
      .ok (sections.flatMap (·.content.listed)) stop := by
  induction sections generalizing position fuel with
  | nil => exact absurd rfl hsome
  | cons s others ih =>
      obtain ⟨fuel, rfl⟩ : ∃ n, fuel = n + 1 := ⟨fuel - 1, by simp at hfuel; omega⟩
      obtain ⟨hbehind, hread⟩ := s.encode_read (!others.isEmpty) fuel hstands
      rw [hread, List.flatMap_cons]
      cases others with
      | nil => exact ⟨_, by simp; rfl⟩
      | cons next others =>
          obtain ⟨stop, hothers⟩ := ih (by simp) hbehind (Nat.le_of_succ_le_succ hfuel)
          exact ⟨stop, bind_of_ok hothers _⟩

end DataSection

/-! ### Bodies -/

namespace FatBody

variable (b : FatBody)

theorem low_lt : b.flags.bits ||| b.unused < 0x1000 := by
  have hflags : b.flags.bits < 2 ^ 12 := by
    have hnamed := congrArg Flags.bits b.flags_named
    have hle : b.flags.bits &&& FlagKind.methodBodyFlags.mask ≤ 0x1B := Nat.and_le_right
    rw [← hnamed]
    exact Nat.lt_of_le_of_lt hle (by decide)
  exact Nat.or_lt_two_pow hflags b.unused_lt

theorem headerSize_div_mul : b.headerSize / 4 * 4 = b.headerSize := by
  have hwords := b.extra_words
  rw [headerSize, MethodBody.fatHeaderSize]
  omega

theorem word_lt : b.word < 1 <<< (8 * 2) := by
  have hlow := b.low_lt
  have hextra := b.extra_le
  show b.word < 0x10000
  rw [word, headerSize, MethodBody.fatHeaderSize]
  omega

theorem declaredHeaderSize_word : MethodBody.declaredHeaderSize b.word = b.headerSize := by
  have hlow := b.low_lt
  rw [MethodBody.declaredHeaderSize, word, Nat.add_mul_div_right _ _ (by decide),
    Nat.div_eq_of_lt hlow, Nat.zero_add, headerSize_div_mul]

theorem fatFlags_word : MethodBody.fatFlags b.word = b.flags := by
  have hmask : FlagKind.methodBodyFlags.mask = (2 ^ 12 - 1) &&& FlagKind.methodBodyFlags.mask := by
    decide
  have hlow : b.word &&& (2 ^ 12 - 1) = b.flags.bits ||| b.unused := by
    rw [Nat.and_two_pow_sub_one_eq_mod, word, Nat.add_mul_mod_self_right]
    exact Nat.mod_eq_of_lt b.low_lt
  have hnamed := congrArg Flags.bits b.flags_named
  have happart := congrArg Flags.bits b.unused_apart
  simp only [Flags.truncate] at hnamed happart
  rw [MethodBody.fatFlags, Flags.truncate, hmask, ← Nat.and_assoc, hlow, Nat.and_or_distrib_right,
    hnamed, happart, Nat.or_zero]

theorem word_mod : b.word % 4 = 3 := by
  have hunused : b.unused % 4 = 0 := by
    have happart := congrArg Flags.bits b.unused_apart
    simp only [Flags.truncate] at happart
    have hlow : FlagKind.methodBodyFlags.mask &&& (2 ^ 2 - 1) = 2 ^ 2 - 1 := by decide
    rw [show b.unused % 4 = b.unused % 2 ^ 2 from rfl, ← Nat.and_two_pow_sub_one_eq_mod, ← hlow,
      ← Nat.and_assoc, happart, Nat.zero_and]
  have hor : (b.flags.bits ||| b.unused) % 2 ^ 2 = b.flags.bits % 2 ^ 2 ||| b.unused % 2 ^ 2 :=
    Nat.or_mod_two_pow
  simp only [show 2 ^ 2 = 4 from rfl, hunused, b.flags_fat, Nat.or_zero] at hor
  rw [word]
  omega

variable {b} {data : Bytes} {rest : List UInt8}

theorem byteAt_mod (h : StandsAt data 0 b.encode rest) : data.byteAt 0 % 4 = 3 := by
  have hword := b.word_mod
  rw [encode, headerBytes, littleEndianBytes, List.cons_append, List.cons_append] at h
  rw [h.byteAt_ofNat (Nat.mod_lt _ (by decide))]
  omega

theorem code_stands (h : StandsAt data 0 b.encode rest) :
    StandsAt data b.headerSize (b.code ++ b.sectionBytes) rest := by
  have hbehind := h.behind
  rwa [headerBytes_length, Nat.zero_add] at hbehind

theorem sections_read (h : StandsAt data (b.headerSize + b.code.length) b.sectionBytes rest)
    (body : List ExceptionClause → MethodBody) :
    ∃ stop, (if MethodBody.hasSections b.flags then
        Reader.remaining >>= fun left => MethodBody.sectionsReader (left + 1) >>= fun clauses =>
          pure (body clauses)
      else pure [] >>= fun clauses => pure (body clauses) : Reader MethodBody)
        data (b.headerSize + b.code.length) = .ok (body b.clauses) stop := by
  rw [b.flags_sections, clauses]
  cases hsections : b.sections with
  | nil => exact ⟨_, rfl⟩
  | cons s others =>
      rw [sectionBytes, hsections] at h
      have hcount := DataSection.length_le_encodeFrom b.fill (b.headerSize + b.code.length)
        (s :: others)
      have hsize := h.size_eq
      have hfuel : (s :: others).length ≤ data.size - (b.headerSize + b.code.length) + 1 := by
        omega
      obtain ⟨stop, hread⟩ := DataSection.encodeFrom_read (List.cons_ne_nil s others) h hfuel
      exact ⟨stop, bind_of_ok hread _⟩

theorem fatReader_encode (h : StandsAt data 0 b.encode rest) :
    ∃ stop, MethodBody.fatReader data 0 = .ok (StoredBody.fat b).body stop := by
  obtain ⟨stop, hsections⟩ := sections_read (code_stands h).behind fun clauses =>
    ⟨.fat, b.flags, b.headerSize, b.code.length, b.maxStack.toNat, ⟨b.locals.toNat⟩, clauses⟩
  have hcode : b.code.length < 1 <<< (8 * 4) := b.code_lt
  have hlarge : ¬b.headerSize < MethodBody.fatHeaderSize := Nat.not_lt.2 (Nat.le_add_right ..)
  have hextra : b.headerSize - MethodBody.fatHeaderSize = b.extra.length :=
    Nat.add_sub_cancel_left ..
  simp only [encode, headerBytes, List.append_assoc] at h
  refine ⟨stop, ?_⟩
  rw [MethodBody.fatReader_eq]
  -- the known fields, then the rest of the header, then the code
  refine (Reads.unsigned b.word_lt).step h fun h => ?_
  refine (Reads.unsigned b.maxStack.toNat_lt).step h fun h => ?_
  refine (Reads.unsigned hcode).step h fun h => ?_
  refine (Reads.unsigned b.locals.toNat_lt).step h fun h => ?_
  simp only [declaredHeaderSize_word, if_neg hlarge, hextra]
  refine (Reads.skipAll b.extra).step h fun h => ?_
  refine (Reads.skipAll b.code).step h fun h => ?_
  simp only [littleEndianBytes_length, fatFlags_word]
  exact hsections

end FatBody

namespace StoredBody

variable {data : Bytes} {rest : List UInt8}

theorem tinyReader_reads {code : List UInt8} (hlt : code.length < 64) :
    Reads MethodBody.tinyReader (tiny code hlt).encode (tiny code hlt).body := by
  have hfirst : 4 * code.length + 2 < 256 := by omega
  have hsize : (4 * code.length + 2) / 4 = code.length := by omega
  rw [encode, ← List.singleton_append]
  refine (Reads.byteOfNat hfirst).bind ?_
  rw [hsize]
  exact (Reads.skipAll code).bind_pure (.pure _)

theorem openReader_encode {s : StoredBody} (h : StandsAt data 0 s.encode rest) :
    ∃ stop, MethodBody.openReader data 0 = .ok s.body stop := by
  cases s with
  | tiny code hlt =>
      have hread := tinyReader_reads hlt data 0 rest h
      have hfirst : data.byteAt 0 = 4 * code.length + 2 := h.byteAt_ofNat (by omega)
      have hmod : data.byteAt 0 % 4 = 2 := by omega
      exact ⟨_, MethodBody.openReader_eq_ok.2 ⟨h.inside, .inl ⟨hmod, hread⟩⟩⟩
  | fat b =>
      obtain ⟨stop, hread⟩ := FatBody.fatReader_encode h
      have hinside : 0 < data.size := by
        have hsize := h.size_eq
        have hlength := b.headerBytes_length
        have hlarge : 0 < b.headerSize := Nat.lt_of_lt_of_le (by decide) (Nat.le_add_right ..)
        rw [encode, FatBody.encode, List.length_append] at hsize
        omega
      exact ⟨stop, MethodBody.openReader_eq_ok.2 ⟨hinside, .inr ⟨FatBody.byteAt_mod h, hread⟩⟩⟩

theorem code_stands {s : StoredBody} (h : StandsAt data 0 s.encode rest) :
    ∃ behind, StandsAt data s.body.headerSize s.code behind := by
  cases s with
  | tiny code hlt => exact ⟨rest, h.tail⟩
  | fat b => exact ⟨_, (FatBody.code_stands h).front⟩

/-- Every stored body is read back from its bytes, whatever stands behind them, and its code is
found where the header says. -/
theorem ofBytes_encode (s : StoredBody) (rest : List UInt8) :
    MethodBody.ofBytes (s.encode ++ rest).toArray = .ok s.body ∧
      s.body.code (s.encode ++ rest).toArray = .ok s.code.toArray := by
  have hstands : StandsAt (s.encode ++ rest).toArray 0 s.encode rest := ⟨Nat.zero_le _, by simp⟩
  constructor
  · exact MethodBody.ofBytes_eq_ok.2 (openReader_encode hstands)
  · obtain ⟨behind, hcode⟩ := code_stands hstands
    have hsize : s.body.size = s.body.headerSize + s.code.length := by
      cases s <;> rfl
    rw [MethodBody.code, hsize, hcode.slice?]

end StoredBody

end CliMeta
