import CliMeta.Proofs.Signature.Sequential
import CliMeta.Proofs.Signature.Writer

/-!
Canonical forms are read back. The readers are followed part by part along the bytes that were
written; the recursion is that of the readers, over the number of levels that remain, so all that is
needed of the types inside a type is that they have fewer.
-/

namespace CliMeta

open Reader

/-! ### Whole signatures -/

namespace Reader

variable {α : Type} {r : Reader α}

theorem Reads.complete {written : List UInt8} {a : α} (h : Reads r written a) :
    r.complete written.toArray = .ok a := by
  have hread := h written.toArray 0 [] ⟨Nat.zero_le _, by simp⟩
  simp [Reader.complete, hread]

theorem complete_of_malformed {blob : Bytes} {defect : Defect} {stop : Nat}
    (h : r blob 0 = .error (.malformed defect) stop) :
    r.complete blob = .error (.malformed defect) := by
  simp [Reader.complete, h]

end Reader

/-! ### References and modifiers -/

theorem RowReference.IsType.exists_raw {r : RowReference} (h : r.IsType) :
    ∃ raw, raw ≤ maxCompressed ∧ r.encode = compressedBytes raw ∧
      CodedCategory.typeDefOrRef.decode raw = .ok r := by
  obtain ⟨hcategory, raw, hraw, hle⟩ := h
  refine ⟨raw, hle, by rw [RowReference.encode, hraw, Option.getD_some], ?_⟩
  rw [← hcategory]
  exact CodedCategory.decode_raw hraw

/-- A reference in front of what is read next. -/
theorem RowReference.IsType.reads {α : Type} {r : RowReference} (h : r.IsType)
    {f : RowReference → Reader α} {written : List UInt8} {a : α} (hf : Reads (f r) written a) :
    Reads (do
      let raw ← Reader.compressed
      let type ← Reader.ofExcept (CodedCategory.typeDefOrRef.decode raw)
      f type) (r.encode ++ written) a := by
  obtain ⟨raw, hle, hencode, hdecode⟩ := h.exists_raw
  rw [hencode]
  exact (Reads.compressed hle).bind ((Reads.ofExcept hdecode).bind_nil hf)

namespace CustomModifier

theorem tag_lt (m : CustomModifier) : m.tag < 256 := by
  unfold tag
  split <;> decide

@[simp] theorem isTag_tag (m : CustomModifier) : isTag m.tag = true := by
  unfold tag
  split <;> decide

/-- The tag tells whether the modifier is required. -/
theorem tag_eq_required (m : CustomModifier) :
    (m.tag == ElementTag.requiredModifier) = m.required := by
  obtain ⟨required, type⟩ := m
  cases required <;> rfl

theorem reader_reads {m : CustomModifier} (h : m.type.IsType) :
    Reads (reader m.tag) m.type.encode m := by
  have hread : Reads (reader m.tag) (m.type.encode ++ [])
      ⟨m.tag == ElementTag.requiredModifier, m.type⟩ := h.reads (.pure _)
  rw [m.tag_eq_required, List.append_nil] at hread
  exact hread

end CustomModifier

/-! ### Prefixes -/

/-- A byte that ends the prefixes of a type, and is none of the two that stand between types. -/
structure IsBaseTag (tag : Nat) : Prop where
  lt : tag < 256
  not_modifier : CustomModifier.isTag tag = false
  not_prefix : TypePrefixes.isTag tag = false
  not_sentinel : tag ≠ ElementTag.sentinel
  not_pinned : tag ≠ ElementTag.pinned

theorem TypeBase.isBaseTag_leadTag (base : TypeBase) : IsBaseTag base.leadTag := by
  cases base with
  | primitive p => cases p <;> constructor <;> decide
  | named kind type => cases kind <;> constructor <;> exact of_decide_eq_true rfl
  | _ => constructor <;> exact of_decide_eq_true rfl

namespace TypePrefixes

variable {p : TypePrefixes} {written : List UInt8} {found : TypePrefixes × Nat}

/-- A modifier moves the reader on behind any form of it. -/
theorem reader_at_modifier {m : CustomModifier} {form rest : List UInt8}
    (hform : Reads (CustomModifier.reader m.tag) form m) {data : Bytes} {position fuel : Nat}
    (hstands : StandsAt data position (UInt8.ofNat m.tag :: form) rest)
    (hfuel : data.size - position ≤ fuel) :
    ∃ less, data.size - (position + 1 + form.length) ≤ less ∧
      p.reader fuel data position =
        reader { p with modifiers := p.modifiers ++ [m] } less data
          (position + 1 + form.length) := by
  obtain ⟨less, rfl, hless⟩ := hstands.exists_fuel hfuel
  refine ⟨less, by omega, ?_⟩
  rw [reader_inside p less hstands.inside, hstands.byteAt_ofNat m.tag_lt, if_pos m.isTag_tag,
    bind_of_ok (hform data _ _ hstands.tail)]

/-- A mark moves the reader on if it can be added, and is the last that is read if not. -/
theorem reader_at_mark {tag : Nat} (htag : tag < 256)
    (hmodifier : CustomModifier.isTag tag = false) (hmark : isTag tag = true) {rest : List UInt8}
    {data : Bytes} {position fuel : Nat}
    (hstands : StandsAt data position (UInt8.ofNat tag :: written) rest)
    (hfuel : data.size - position ≤ fuel) :
    ∃ less, data.size - (position + 1) ≤ less ∧
      p.reader fuel data position =
        (p.add? tag).elim (Reader.malformed (.typePrefixOrder tag position)) (reader · less)
          data (position + 1) := by
  obtain ⟨less, rfl, hless⟩ := hstands.exists_fuel hfuel
  refine ⟨less, hless, ?_⟩
  rw [reader_inside p less hstands.inside, hstands.byteAt_ofNat htag, hmodifier, hmark]
  rw [if_neg Bool.false_ne_true, if_pos rfl]
  cases p.add? tag <;> rfl

theorem reads_modifier {m : CustomModifier} (hm : m.type.IsType)
    (h : ReadsFueled (reader { p with modifiers := p.modifiers ++ [m] }) written found) :
    ReadsFueled p.reader (m.encode ++ written) found := by
  intro data position rest fuel hstands hfuel
  obtain ⟨less, hless, hread⟩ :=
    reader_at_modifier (p := p) (CustomModifier.reader_reads hm) hstands.front hfuel
  have hbehind : StandsAt data (position + 1 + m.type.encode.length) written rest :=
    StandsAt.behind (StandsAt.tail hstands)
  rw [hread, h data _ rest less hbehind hless]
  simp [CustomModifier.encode]
  omega

theorem reads_mark {p' : TypePrefixes} {tag : Nat} (htag : tag < 256)
    (hmodifier : CustomModifier.isTag tag = false) (hmark : isTag tag = true)
    (hadd : p.add? tag = some p') (h : ReadsFueled p'.reader written found) :
    ReadsFueled p.reader (UInt8.ofNat tag :: written) found := by
  intro data position rest fuel hstands hfuel
  obtain ⟨less, hless, hread⟩ := reader_at_mark (p := p) htag hmodifier hmark hstands hfuel
  rw [hread, hadd]
  have hbehind := h data (position + 1) rest less hstands.tail hless
  rw [List.length_cons, Nat.add_comm written.length, ← Nat.add_assoc]
  exact hbehind

theorem reads_tag {tag : Nat} (htag : IsBaseTag tag) :
    ReadsFueled p.reader [UInt8.ofNat tag] (p, tag) := by
  intro data position rest fuel hstands hfuel
  obtain ⟨less, rfl, hless⟩ := hstands.exists_fuel hfuel
  rw [reader_inside p less hstands.inside, hstands.byteAt_ofNat htag.lt, htag.not_modifier,
    htag.not_prefix]
  rfl

theorem reads_modifiers {modifiers : List CustomModifier} (hm : ∀ m ∈ modifiers, m.type.IsType)
    (h : ReadsFueled (reader { p with modifiers := p.modifiers ++ modifiers }) written found) :
    ReadsFueled p.reader (CustomModifier.encodeAll modifiers ++ written) found := by
  induction modifiers generalizing p with
  | nil => simpa [CustomModifier.encodeAll] using h
  | cons m others ih =>
      have hothers := ih (p := { p with modifiers := p.modifiers ++ [m] })
        (fun other hmem => hm other (List.mem_cons_of_mem m hmem)) (by simpa using h)
      have hfirst := reads_modifier (hm m (List.mem_cons_self ..)) hothers
      simpa [CustomModifier.encodeAll] using hfirst

theorem reads_byRef (hfresh : p.byRef = false ∧ p.arrayRank = 0 ∧ p.pointerDepth = 0)
    {byRef : Bool} (h : ReadsFueled (reader { p with byRef := byRef }) written found) :
    ReadsFueled p.reader
      ((if byRef then [UInt8.ofNat ElementTag.byRef] else []) ++ written) found := by
  cases byRef with
  | false =>
      rw [← hfresh.1] at h
      exact h
  | true =>
      have hadd : p.add? ElementTag.byRef = some { p with byRef := true } := if_pos hfresh
      exact reads_mark (by decide) rfl rfl hadd h

theorem reads_arrays (hfresh : p.pointerDepth = 0) {rank : Nat}
    (h : ReadsFueled (reader { p with arrayRank := p.arrayRank + rank }) written found) :
    ReadsFueled p.reader
      (List.replicate rank (UInt8.ofNat ElementTag.szArray) ++ written) found := by
  induction rank generalizing p with
  | zero => exact h
  | succ rank ih =>
      have hadd : p.add? ElementTag.szArray = some { p with arrayRank := p.arrayRank + 1 } :=
        if_pos hfresh
      refine reads_mark (by decide) rfl rfl hadd (ih hfresh ?_)
      rwa [Nat.add_assoc, Nat.add_comm 1]

theorem reads_pointers {depth : Nat}
    (h : ReadsFueled (reader { p with pointerDepth := p.pointerDepth + depth }) written found) :
    ReadsFueled p.reader
      (List.replicate depth (UInt8.ofNat ElementTag.ptr) ++ written) found := by
  induction depth generalizing p with
  | zero => exact h
  | succ depth ih =>
      have hadd : p.add? ElementTag.ptr = some { p with pointerDepth := p.pointerDepth + 1 } :=
        if_pos rfl
      refine reads_mark (by decide) rfl rfl hadd (ih ?_)
      rwa [Nat.add_assoc, Nat.add_comm 1]

/-- Prefixes and the first tag of a base are told apart. -/
theorem reader_reads {tag : Nat} (hm : ∀ m ∈ p.modifiers, m.type.IsType) (htag : IsBaseTag tag) :
    ReadsFueled none.reader (p.encode ++ [UInt8.ofNat tag]) (p, tag) := by
  obtain ⟨modifiers, byRef, arrayRank, pointerDepth⟩ := p
  simp only [encode, List.append_assoc]
  refine reads_modifiers hm (reads_byRef ⟨rfl, rfl, rfl⟩ (reads_arrays rfl (reads_pointers ?_)))
  simp only [none, List.nil_append, Nat.zero_add]
  exact reads_tag htag

end TypePrefixes

/-! ### Parts of types -/

theorem NamedKind.tag_lt (k : NamedKind) : k.tag < 256 := by
  cases k <;> decide

theorem NamedKind.reader_reads (k : NamedKind) (pointers : Nat) :
    ReadsFueled (NamedKind.reader pointers) [UInt8.ofNat k.tag] (k, pointers) := by
  intro data position rest fuel hstands hfuel
  obtain ⟨less, rfl, -⟩ := hstands.exists_fuel hfuel
  rw [NamedKind.reader, bind_of_ok (byte_inside hstands.inside), hstands.byteAt_ofNat k.tag_lt]
  cases k <;> rfl

/-- A counted list: its length, then its elements. -/
theorem reads_counted {α β : Type} {r : Reader α} {write : α → List UInt8} {all : List α}
    {f : List α → Reader β} {written : List UInt8} {b : β} (hlength : all.length ≤ maxCompressed)
    (hr : ∀ a ∈ all, Reads r (write a) a) (hf : Reads (f all) written b) :
    Reads (do
      let count ← Reader.compressed
      let all ← Reader.times r count
      f all) (compressedBytes all.length ++ (all.flatMap write ++ written)) b :=
  (Reads.compressed hlength).bind ((Reads.times hr).bind hf)

theorem ArrayShape.reader_reads {s : ArrayShape} (h : s.WellFormed) :
    Reads ArrayShape.reader s.encode s := by
  have hsizes (size : Nat) (hmem : size ∈ s.sizes) := Reads.compressed (h.sizes size hmem)
  have hbounds (bound : Int) (hmem : bound ∈ s.lowerBounds) :=
    Reads.compressedSigned (h.lowerBounds bound hmem)
  have hread : Reads ArrayShape.reader
      (compressedBytes s.rank ++ (compressedBytes s.sizes.length ++
        (s.sizes.flatMap compressedBytes ++ (compressedBytes s.lowerBounds.length ++
          (s.lowerBounds.flatMap compressedSignedBytes ++ []))))) s :=
    (Reads.compressed h.rank).bind (reads_counted h.sizes_length hsizes
      (reads_counted h.lowerBounds_length hbounds (.pure _)))
  simpa [encode] using hread

/-! ### Calling conventions -/

theorem CallingConvention.WellFormed.ofByte_toByte {c : CallingConvention} (h : c.WellFormed) :
    c.toByte < 256 ∧ c.toByte % 16 = c.kind.number ∧ ofByte c.toByte = .ok c := by
  obtain ⟨kind, ⟨bits⟩⟩ := c
  have hmask : bits &&& FlagKind.callingConventionFlags.mask = bits :=
    congrArg Flags.bits h.flags
  have hle : bits ≤ 0x70 := by
    rw [← hmask]
    exact Nat.and_le_right
  -- kind and flags share no bit
  have hall : ∀ bits ≤ 0x70, bits &&& FlagKind.callingConventionFlags.mask = bits →
      kind.number ||| bits < 256 ∧ (kind.number ||| bits) % 16 = kind.number ∧
        (kind.number ||| bits) &&& FlagKind.callingConventionFlags.mask = bits := by
    cases kind <;> decide +kernel
  obtain ⟨hlt, hkind, hflags⟩ := hall bits hle hmask
  refine ⟨hlt, hkind, ?_⟩
  simp only [ofByte, toByte, hkind, SignatureKind.ofNumber?_number, Flags.truncate, hflags]

/-! ### Members -/

/-- The byte that a type begins with is not taken for a sentinel or for the mark of a pinned
variable, nor, where the type has no modifiers, for one of these. -/
theorem TypeSig.exists_lead (t : TypeSig) : ∃ lead written, t.encode = lead :: written ∧
    lead.toNat ≠ ElementTag.sentinel ∧ lead.toNat ≠ ElementTag.pinned ∧
      (t.modifiers = [] → CustomModifier.isTag lead.toNat = false) := by
  obtain ⟨modifiers, byRef, arrayRank, pointerDepth, base⟩ := t
  rw [TypeSig.encode_eq]
  simp only [TypePrefixes.encode, List.append_assoc]
  cases modifiers with
  | cons m others =>
      have htag := UInt8.toNat_ofNat_of_lt' m.tag_lt
      refine ⟨UInt8.ofNat m.tag, _, rfl, ?_, ?_, fun h => nomatch h⟩
      · rw [htag]
        unfold CustomModifier.tag
        split <;> decide
      · rw [htag]
        unfold CustomModifier.tag
        split <;> decide
  | nil =>
      cases byRef with
      | true => exact ⟨_, _, rfl, by decide, by decide, fun _ => rfl⟩
      | false =>
          cases arrayRank with
          | succ rank => exact ⟨_, _, rfl, by decide, by decide, fun _ => rfl⟩
          | zero =>
              cases pointerDepth with
              | succ depth => exact ⟨_, _, rfl, by decide, by decide, fun _ => rfl⟩
              | zero =>
                  have hbase := base.isBaseTag_leadTag
                  have htag := UInt8.toNat_ofNat_of_lt' hbase.lt
                  refine ⟨_, _, rfl, ?_, ?_, fun _ => ?_⟩
                  · rw [htag]
                    exact hbase.not_sentinel
                  · rw [htag]
                    exact hbase.not_pinned
                  · rw [htag]
                    exact hbase.not_modifier

namespace MemberSig

variable {type : Reader TypeSig}

/-- One parameter without a sentinel in front of it. -/
theorem paramsReader_reads_param {t : TypeSig} (ht : Reads type t.encode t) {count : Nat}
    {behind : Bool} {written : List UInt8} {others : List TypeSig × List TypeSig}
    (hothers : Reads (paramsReader type count behind) written others) :
    Reads (paramsReader type (count + 1) behind) (t.encode ++ written)
      (if behind then (others.1, t :: others.2) else (t :: others.1, others.2)) := by
  obtain ⟨lead, tail, hencode, hsentinel, -, -⟩ := t.exists_lead
  have hnot : (lead.toNat == ElementTag.sentinel) = false := by simpa using hsentinel
  rw [paramsReader_succ, hencode, List.cons_append]
  refine Reads.peek_bind ?_
  rw [← List.cons_append, ← hencode]
  simp only [hnot, Bool.or_false]
  exact ht.bind (hothers.bind_pure (.pure _))

/-- One parameter behind a sentinel. -/
theorem paramsReader_reads_sentinel {t : TypeSig} (ht : Reads type t.encode t) {count : Nat}
    {written : List UInt8} {others : List TypeSig × List TypeSig}
    (hothers : Reads (paramsReader type count true) written others) :
    Reads (paramsReader type (count + 1) false)
      (UInt8.ofNat ElementTag.sentinel :: (t.encode ++ written)) (others.1, t :: others.2) := by
  rw [paramsReader_succ]
  refine Reads.peek_bind ?_
  have hsentinel : ((UInt8.ofNat ElementTag.sentinel).toNat == ElementTag.sentinel) = true := rfl
  simp only [hsentinel, Bool.or_true, if_true]
  exact (Reads.skip _).bind (ht.bind (hothers.bind_pure (.pure _)))

theorem paramsReader_reads_varargs {all : List TypeSig} (h : ∀ t ∈ all, Reads type t.encode t) :
    Reads (paramsReader type all.length true) (TypeSig.encodeAll all) ([], all) := by
  induction all with
  | nil => exact .pure _
  | cons t others ih =>
      exact paramsReader_reads_param (h t (List.mem_cons_self ..))
        (ih fun other hmem => h other (List.mem_cons_of_mem t hmem))

theorem paramsReader_reads {params varargs : List TypeSig}
    (hparams : ∀ t ∈ params, Reads type t.encode t)
    (hvarargs : ∀ t ∈ varargs, Reads type t.encode t) :
    Reads (paramsReader type (params.length + varargs.length) false)
      (TypeSig.encodeAll params ++ TypeSig.encodeVarargs varargs) (params, varargs) := by
  induction params with
  | nil =>
      cases varargs with
      | nil => exact .pure _
      | cons t others =>
          rw [List.length_nil, Nat.zero_add]
          exact paramsReader_reads_sentinel (hvarargs t (List.mem_cons_self ..))
            (paramsReader_reads_varargs fun other hmem =>
              hvarargs other (List.mem_cons_of_mem t hmem))
  | cons t others ih =>
      have hothers := ih fun other hmem => hparams other (List.mem_cons_of_mem t hmem)
      have hread := paramsReader_reads_param (hparams t (List.mem_cons_self ..)) hothers
      rw [List.length_cons, Nat.add_right_comm, TypeSig.encodeAll, List.append_assoc]
      exact hread

/-- A member is read back with a reader that reads its types back. -/
theorem reader_reads {m : MemberSig} (h : m.WellFormed)
    (htypes : ∀ t, t.WellFormed → t.nesting ≤ m.nesting → Reads type t.encode t) :
    Reads (reader type) m.encode m := by
  obtain ⟨convention, genericParamCount, argumentCount, returnType, params, varargs⟩ := m
  obtain ⟨hconvention, rfl, hfield, hnone, hgeneric, hcount, hreturn, hparams, hvarargs⟩ := h
  obtain ⟨hlt, -, hofByte⟩ := hconvention.ofByte_toByte
  rw [TypeSig.allWellFormed_iff] at hparams hvarargs
  simp only [nesting] at htypes
  obtain ⟨hmost, hparamsMost, hvarargsMost⟩ : returnType.nesting ≤ _ ∧
      TypeSig.nestingAll params ≤ _ ∧ TypeSig.nestingAll varargs ≤ _ :=
    ⟨Nat.le_max_left .., Nat.le_trans (Nat.le_max_left ..) (Nat.le_max_right ..),
      Nat.le_trans (Nat.le_max_right ..) (Nat.le_max_right ..)⟩
  rw [TypeSig.nestingAll_le_iff] at hparamsMost hvarargsMost
  have hresult := htypes returnType hreturn hmost
  have hbehind := paramsReader_reads
    (fun t hmem => htypes t (hparams t hmem) (hparamsMost t hmem))
    (fun t hmem => htypes t (hvarargs t hmem) (hvarargsMost t hmem))
  rw [MemberSig.encode_eq, ← List.singleton_append]
  refine (Reads.byteOfNat hlt).bind ((Reads.ofExcept hofByte).bind_nil ?_)
  dsimp only
  by_cases hkind : convention.kind = .field
  -- a field is its type alone, with no counts
  · obtain ⟨hnoParams, hnoVarargs⟩ := Nat.add_eq_zero_iff.1 (hfield hkind)
    obtain rfl := List.eq_nil_of_length_eq_zero hnoParams
    obtain rfl := List.eq_nil_of_length_eq_zero hnoVarargs
    obtain rfl := hnone (.inl hkind)
    rw [if_pos hkind]
    simp only [hkind]
    exact hresult.bind_pure (.pure _)
  · have hcounted : Reads (countedReader type convention genericParamCount)
        (compressedBytes (params.length + varargs.length) ++ (returnType.encode ++
          (TypeSig.encodeAll params ++ TypeSig.encodeVarargs varargs)))
        ⟨convention, genericParamCount, _, returnType, params, varargs⟩ :=
      (Reads.compressed hcount).bind (hresult.bind (hbehind.bind_pure (.pure _)))
    rw [if_neg hkind]
    split
    · exact absurd ‹_› hkind
    · exact absurd ‹_› hconvention.not_locals
    · exact absurd ‹_› hconvention.not_instantiation
    · by_cases hisGeneric : convention.isGeneric = true
      · simp only [hisGeneric, if_true]
        exact (Reads.compressed hgeneric).bind hcounted
      · obtain rfl := hnone (.inr (Bool.eq_false_iff.2 hisGeneric))
        simp only [hisGeneric]
        exact (Reads.pure 0).bind_nil hcounted

end MemberSig

/-! ### Types -/

/-- Nothing follows the tag of a primitive base. -/
theorem TypeBase.reads_primitive (inner pointed : Reader TypeSig) (p : Primitive) :
    Reads (reader inner pointed p.tag) [] (.primitive p, 0) := by
  cases p <;> exact .pure _

/-- What follows the first tag of a base is read back with readers of the types inside it. -/
theorem TypeBase.reader_reads {inner pointed : Reader TypeSig} {base : TypeBase}
    (h : base.WellFormed)
    (hinner : ∀ t, t.WellFormed → t.nesting ≤ base.nesting → Reads inner t.encode t)
    (hpointed : ∀ t, t.WellFormed → t.nesting < base.nesting → Reads pointed t.encode t) :
    Reads (reader inner pointed base.leadTag) base.payload (base, 0) := by
  cases base with
  | primitive p => exact reads_primitive inner pointed p
  | named kind type =>
      have hread : Reads (reader inner pointed kind.tag) (type.encode ++ [])
          (.named kind type, 0) := by
        cases kind <;> exact RowReference.IsType.reads h (.pure _)
      rw [List.append_nil] at hread
      exact hread
  | genericInstance kind type arguments =>
      obtain ⟨htype, hlength, harguments⟩ := h
      rw [TypeSig.allWellFormed_iff] at harguments
      have hmost := (TypeSig.nestingAll_le_iff arguments _).1 (Nat.le_refl _)
      have hread : Reads (reader inner pointed ElementTag.genericInstance)
          ([UInt8.ofNat kind.tag] ++ (type.encode ++ (compressedBytes arguments.length ++
            (arguments.flatMap TypeSig.encode ++ []))))
          (.genericInstance kind type arguments, 0) :=
        (kind.reader_reads 0).bind (htype.reads (reads_counted hlength
          (fun t hmem => hinner t (harguments t hmem) (hmost t hmem)) (.pure _)))
      rw [payload, leadTag, TypeSig.encodeAll_eq]
      simpa using hread
  | typeParameter number => exact (Reads.compressed h).bind_pure (.pure _)
  | methodParameter number => exact (Reads.compressed h).bind_pure (.pure _)
  | array element shape =>
      obtain ⟨helement, hshape⟩ := h
      exact (hinner element helement (Nat.le_refl _)).bind
        ((ArrayShape.reader_reads hshape).bind_pure (.pure _))
  | functionPointer signature =>
      refine (MemberSig.reader_reads h fun t ht hmost => hpointed t ht ?_).bind_pure (.pure _)
      rw [nesting]
      omega

theorem TypeSig.readerWith_reads {inner pointed : Reader TypeSig} {t : TypeSig} (h : t.WellFormed)
    (hinner : ∀ t', t'.WellFormed → t'.nesting < t.nesting → Reads inner t'.encode t')
    (hpointed : ∀ t', t'.WellFormed → t'.nesting + 1 < t.nesting → Reads pointed t'.encode t') :
    Reads (readerWith inner pointed) t.encode t := by
  obtain ⟨modifiers, byRef, arrayRank, pointerDepth, base⟩ := t
  obtain ⟨hmodifiers, hbase⟩ := h
  rw [TypeSig.nesting_eq] at hinner hpointed
  have hprefixes := TypePrefixes.reader_reads
    (p := ⟨modifiers, byRef, arrayRank, pointerDepth⟩) hmodifiers base.isBaseTag_leadTag
  have hread : Reads (TypeBase.reader inner pointed base.leadTag) base.payload (base, 0) :=
    TypeBase.reader_reads hbase (fun t' ht' hmost => hinner t' ht' (by dsimp only; omega))
      (fun t' ht' hmost => hpointed t' ht' (by dsimp only; omega))
  rw [TypeSig.encode_eq, List.append_cons]
  exact hprefixes.bind (hread.bind_pure (.pure _))

/-- A type whose nesting the levels cover is read back. -/
theorem TypeSig.reader_reads (limit levels : Nat) {t : TypeSig} (h : t.WellFormed)
    (hnesting : t.nesting ≤ levels) : Reads (reader limit levels) t.encode t := by
  induction levels using reader.induct generalizing t with
  | case1 =>
      rw [TypeSig.nesting_eq] at hnesting
      omega
  | case2 =>
      refine readerWith_reads h (fun t' _ hless => ?_) (fun t' _ hless => ?_)
      all_goals
        rw [TypeSig.nesting_eq t'] at hless
        omega
  | case3 levels ihinner ihpointed =>
      exact readerWith_reads h (fun t' ht' hless => ihinner ht' (by omega))
        (fun t' ht' hless => ihpointed ht' (by omega))

/-! ### Local variables and instantiations -/

/-- Modifiers are read up to the first byte that is not the tag of one. -/
theorem CustomModifier.listReader_reads {modifiers : List CustomModifier}
    (hm : ∀ m ∈ modifiers, m.type.IsType) {lead : UInt8} {tail rest : List UInt8}
    (hlead : isTag lead.toNat = false) {data : Bytes} {position fuel : Nat}
    (hstands : StandsAt data position (encodeAll modifiers ++ lead :: tail) rest)
    (hfuel : data.size - position ≤ fuel) :
    listReader fuel data position = .ok modifiers (position + (encodeAll modifiers).length) := by
  induction modifiers generalizing position fuel with
  -- the byte behind the modifiers is looked at and left where it is
  | nil =>
      obtain ⟨less, rfl, -⟩ := StandsAt.exists_fuel hstands hfuel
      have hinside := StandsAt.inside hstands
      have hbyte := StandsAt.byteAt hstands
      rw [listReader_inside less hinside, hbyte, hlead]
      rfl
  | cons m others ih =>
      have hencode : encodeAll (m :: others) =
          UInt8.ofNat m.tag :: (m.type.encode ++ encodeAll others) := by
        rw [encodeAll, List.flatMap_cons]
        rfl
      rw [hencode, List.cons_append, List.append_assoc] at hstands
      obtain ⟨less, rfl, hless⟩ := hstands.exists_fuel hfuel
      have hless' : data.size - (position + 1 + m.type.encode.length) ≤ less := by omega
      have hfirst := reader_reads (hm m (List.mem_cons_self ..)) data _ _ hstands.tail.front
      have hothers := ih (fun other hmem => hm other (List.mem_cons_of_mem m hmem))
        hstands.tail.behind hless'
      rw [listReader_inside less hstands.inside, hstands.byteAt_ofNat m.tag_lt,
        if_pos m.isTag_tag, bind_of_ok hfirst, bind_of_ok hothers, hencode, List.length_cons,
        List.length_append]
      rw [pure_apply]
      congr 1
      omega

namespace Signature

variable {type : Reader TypeSig}

/-- Behind the modifiers of a variable stands the mark of a pinned one or its bare type. -/
theorem exists_lead_behind (pinned : Bool) {t : TypeSig} (h : t.modifiers = []) :
    ∃ lead tail, (if pinned then [UInt8.ofNat ElementTag.pinned] else []) ++ t.encode =
      lead :: tail ∧ CustomModifier.isTag lead.toNat = false ∧
        (lead.toNat == ElementTag.pinned) = pinned := by
  cases pinned with
  | true => exact ⟨_, _, rfl, rfl, rfl⟩
  | false =>
      obtain ⟨lead, tail, hencode, -, hpinned, hmodifier⟩ := t.exists_lead
      exact ⟨lead, tail, hencode, hmodifier h, by simpa using hpinned⟩

theorem localReader_reads {v : LocalVariable} (hm : ∀ m ∈ v.type.modifiers, m.type.IsType)
    (htype : Reads type (TypeSig.encode { v.type with modifiers := [] })
      { v.type with modifiers := [] }) : Reads (localReader type) (encodeLocal v) v := by
  obtain ⟨pinned, modifiers, byRef, arrayRank, pointerDepth, base⟩ := v
  obtain ⟨lead, tail, hlead, hmodifier, hmark⟩ :=
    exists_lead_behind pinned (t := ⟨[], byRef, arrayRank, pointerDepth, base⟩) rfl
  have hbehind : Reads (do
      let pinned := (← Reader.peek) == ElementTag.pinned
      if pinned then Reader.skip 1
      let type ← type
      return LocalVariable.mk pinned { type with modifiers := modifiers ++ type.modifiers })
      ((if pinned then [UInt8.ofNat ElementTag.pinned] else []) ++
        TypeSig.encode ⟨[], byRef, arrayRank, pointerDepth, base⟩)
      ⟨pinned, modifiers ++ [], byRef, arrayRank, pointerDepth, base⟩ := by
    rw [hlead]
    refine Reads.peek_bind ?_
    rw [← hlead]
    simp only [hmark]
    cases pinned with
    | true => exact (Reads.skip _).bind (htype.bind_pure (.pure _))
    | false => exact htype.bind_pure (.pure _)
  rw [List.append_nil] at hbehind
  intro data position rest hstands
  rw [encodeLocal, List.append_assoc] at hstands ⊢
  have hfront := hstands
  rw [hlead] at hfront
  rw [localReader, remaining_bind, bind_of_ok
    (CustomModifier.listReader_reads hm hmodifier hfront (Nat.le_refl _)), List.length_append,
    ← Nat.add_assoc]
  exact hbehind data _ rest hstands.behind

theorem localsReader_reads {entries : List LocalVariable}
    (hlength : entries.length ≤ maxCompressed)
    (hentries : ∀ v ∈ entries, Reads (localReader type) (encodeLocal v) v) :
    Reads (localsReader type) (encodeLocals entries) entries := by
  rw [encodeLocals, ← List.singleton_append]
  exact (Reads.byte 0x07).bind ((Reads.compressed hlength).bind (Reads.times hentries))

theorem instantiationReader_reads {arguments : List TypeSig}
    (hlength : arguments.length ≤ maxCompressed)
    (harguments : ∀ t ∈ arguments, Reads type t.encode t) :
    Reads (instantiationReader type) (encodeInstantiation arguments) arguments := by
  rw [encodeInstantiation, ← List.singleton_append]
  exact (Reads.byte 0x0A).bind ((Reads.compressed hlength).bind (Reads.times harguments))

end Signature

end CliMeta
