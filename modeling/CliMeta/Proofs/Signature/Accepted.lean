import CliMeta.Proofs.Signature.Sequential
import CliMeta.Proofs.Signature.Writer

/-!
Whatever bytes are accepted as a signature, the signature is well formed and nested no deeper than
the levels that the reader was given. Bytes that are no canonical form, such as numbers in more
bytes than they need or sentinels between variable arguments, leave no trace in it.
-/

namespace CliMeta

open Reader

/-! ### Marks and counts -/

section

variable {α : Type} {r : Reader α} {P : α → Prop}

/-- A first byte that has to be a certain one, in front of what is read next. -/
theorem ensures_marked (h : Ensures r P) (mark : Nat) (defect : Nat → Defect) :
    Ensures (do
      let first ← Reader.byte
      if first ≠ mark then Reader.malformed (defect first)
      r) P := by
  refine .bind (.trivial _) fun first _ => .ite (fun _ => ?_) fun _ => h
  exact .bind (P := fun _ => True) (.malformed _) fun _ _ => h

theorem ensures_counted (h : Ensures r P) :
    Ensures (do
      let count ← Reader.compressed
      Reader.times r count) fun all => all.length ≤ maxCompressed ∧ ∀ a ∈ all, P a := by
  refine .bind .compressed fun count hcount => ?_
  exact (h.times count).mono fun all hall => ⟨hall.1 ▸ hcount, hall.2⟩

end

/-! ### Parts of types -/

theorem RowReference.ensures_isType {raw : Nat} (h : raw ≤ maxCompressed) :
    Ensures (Reader.ofExcept (CodedCategory.typeDefOrRef.decode raw)) RowReference.IsType := by
  refine .ofExcept fun r hdecode => ?_
  obtain ⟨hcategory, exact, hexact, hle⟩ := CodedCategory.raw?_of_decode hdecode
  exact ⟨hcategory, exact, hexact, Nat.le_trans hle h⟩

/-- A reference in front of what is read next. -/
theorem RowReference.ensures_bind {α : Type} {f : RowReference → Reader α} {P : α → Prop}
    (hf : ∀ r : RowReference, r.IsType → Ensures (f r) P) :
    Ensures (do
      let raw ← Reader.compressed
      let type ← Reader.ofExcept (CodedCategory.typeDefOrRef.decode raw)
      f type) P :=
  .bind .compressed fun _ hraw => .bind (ensures_isType hraw) hf

theorem CustomModifier.reader_ensures (tag : Nat) :
    Ensures (CustomModifier.reader tag) fun m => m.type.IsType :=
  RowReference.ensures_bind fun _ hr => .pure hr

theorem CustomModifier.listReader_ensures (fuel : Nat) :
    Ensures (CustomModifier.listReader fuel) fun all => ∀ m ∈ all, m.type.IsType := by
  have hnil : ∀ m ∈ ([] : List CustomModifier), m.type.IsType := List.forall_mem_nil _
  induction fuel with
  | zero => exact .pure hnil
  | succ fuel ih =>
      refine .bind (.trivial _) fun ended _ => .ite (fun _ => .pure hnil) fun _ => ?_
      refine .bind (.trivial _) fun tag _ => .ite (fun _ => ?_) fun _ => .pure hnil
      refine .bind (.trivial _) fun _ _ => .bind (reader_ensures tag) fun first hfirst => ?_
      exact .bind ih fun others hothers => .pure (List.forall_mem_cons.2 ⟨hfirst, hothers⟩)

theorem TypePrefixes.add?_modifiers {p p' : TypePrefixes} {tag : Nat}
    (h : p.add? tag = some p') : p'.modifiers = p.modifiers := by
  unfold add? at h
  split at h
  · exact Option.some.inj h ▸ rfl
  · split at h
    · split at h
      · exact Option.some.inj h ▸ rfl
      · cases h
    · split at h
      · exact Option.some.inj h ▸ rfl
      · cases h

theorem TypePrefixes.reader_ensures (p : TypePrefixes) (fuel : Nat)
    (h : ∀ m ∈ p.modifiers, m.type.IsType) :
    Ensures (p.reader fuel) fun found => ∀ m ∈ found.1.modifiers, m.type.IsType := by
  induction fuel generalizing p with
  | zero => exact .throw _
  | succ fuel ih =>
      refine .bind (.trivial _) fun offset _ => .bind (.trivial _) fun tag _ => ?_
      refine .ite (fun _ => ?_) fun _ => .ite (fun _ => ?_) fun _ => .pure h
      · refine .bind (CustomModifier.reader_ensures tag) fun m hm => ih _ ?_
        exact List.forall_mem_append.2 ⟨h, List.forall_mem_singleton.2 hm⟩
      · split
        · rename_i p' hadd
          exact ih p' (add?_modifiers hadd ▸ h)
        · exact .malformed _

theorem ArrayShape.reader_ensures : Ensures ArrayShape.reader ArrayShape.WellFormed := by
  refine .bind .compressed fun rank hrank => ?_
  refine .bind .compressed fun sizeCount hsizeCount => ?_
  refine .bind (Ensures.compressed.times sizeCount) fun sizes hsizes => ?_
  refine .bind .compressed fun boundCount hboundCount => ?_
  refine .bind (Ensures.compressedSigned.times boundCount) fun bounds hbounds => .pure ?_
  exact ⟨hrank, hsizes.1 ▸ hsizeCount, hsizes.2, hbounds.1 ▸ hboundCount, hbounds.2⟩

/-! ### Members -/

theorem CallingConvention.wellFormed_of_ofByte {byte : Nat} {c : CallingConvention}
    (h : ofByte byte = .ok c) (hlocals : c.kind ≠ .localSig)
    (hinstantiation : c.kind ≠ .genericInst) : c.WellFormed := by
  refine ⟨?_, hlocals, hinstantiation⟩
  unfold ofByte at h
  split at h
  · cases h
    simp only [Flags.truncate, Nat.and_assoc, Nat.and_self]
  · cases h

namespace MemberSig

variable {type : Reader TypeSig} {n : Nat}

theorem paramsReader_ensures {P : TypeSig → Prop} (h : Ensures type P) (count : Nat)
    (behind : Bool) :
    Ensures (paramsReader type count behind) fun found =>
      found.1.length + found.2.length = count ∧ (∀ t ∈ found.1, P t) ∧ ∀ t ∈ found.2, P t := by
  induction count generalizing behind with
  | zero => exact .pure ⟨rfl, List.forall_mem_nil _, List.forall_mem_nil _⟩
  | succ count ih =>
      have hparam (behind' : Bool) : Ensures (paramReader type count behind') fun found =>
          found.1.length + found.2.length = count + 1 ∧
            (∀ t ∈ found.1, P t) ∧ ∀ t ∈ found.2, P t := by
        refine .bind h fun param hparam => .bind (ih behind') fun others hothers => .pure ?_
        obtain ⟨params, varargs⟩ := others
        obtain ⟨hlength, hparams, hvarargs⟩ := hothers
        cases behind' with
        | true =>
            exact ⟨by rw [← hlength]; rfl, hparams, List.forall_mem_cons.2 ⟨hparam, hvarargs⟩⟩
        | false =>
            refine ⟨?_, List.forall_mem_cons.2 ⟨hparam, hparams⟩, hvarargs⟩
            rw [← hlength]
            exact Nat.add_right_comm ..
      rw [paramsReader_succ]
      refine .bind (.trivial _) fun lead _ => .ite (fun _ => ?_) fun _ => hparam _
      exact .bind (.trivial _) fun _ _ => hparam _

theorem reader_ensures (h : Ensures type fun t => t.WellFormed ∧ t.nesting < n) :
    Ensures (reader type) fun m => m.WellFormed ∧ m.nesting < n := by
  refine .bind (.trivial _) fun byte _ => ?_
  refine .bind (P := fun c => CallingConvention.ofByte byte = .ok c)
    (.ofExcept fun _ hout => hout) fun convention hconvention => ?_
  have hnil : TypeSig.AllWellFormed [] := True.intro
  -- whatever comes first, its count, its result and its parameters follow
  have hcounted (genericParamCount : Nat) (hgeneric : genericParamCount ≤ maxCompressed)
      (hnone : convention.isGeneric = false → genericParamCount = 0)
      (hfield : convention.kind ≠ .field) (hwell : convention.WellFormed) :
      Ensures (countedReader type convention genericParamCount) fun m =>
        m.WellFormed ∧ m.nesting < n := by
    refine .bind .compressed fun count hcount => .bind h fun returnType hreturn => ?_
    refine .bind (paramsReader_ensures h count false) fun all hothers => .pure ?_
    obtain ⟨params, varargs⟩ := all
    obtain ⟨hlength, hparams, hvarargs⟩ := hothers
    obtain ⟨most, rfl⟩ : ∃ most, n = most + 1 := ⟨n - 1, by omega⟩
    simp only [Nat.lt_succ_iff] at hreturn hparams hvarargs ⊢
    refine ⟨⟨hwell, hlength.symm, fun hkind => absurd hkind hfield, ?_, hgeneric, hcount,
      hreturn.1, ?_, ?_⟩, ?_⟩
    · exact fun hor => hor.elim (fun hkind => absurd hkind hfield) hnone
    · exact (TypeSig.allWellFormed_iff _).2 fun t hmem => (hparams t hmem).1
    · exact (TypeSig.allWellFormed_iff _).2 fun t hmem => (hvarargs t hmem).1
    · rw [nesting, Nat.max_le, Nat.max_le, TypeSig.nestingAll_le_iff, TypeSig.nestingAll_le_iff]
      exact ⟨hreturn.2, fun t hmem => (hparams t hmem).2, fun t hmem => (hvarargs t hmem).2⟩
  split
  · rename_i hkind
    have hwell := CallingConvention.wellFormed_of_ofByte hconvention (by simp [hkind])
      (by simp [hkind])
    refine .bind h fun returnType hreturn => .pure ⟨?_, ?_⟩
    · exact ⟨hwell, rfl, fun _ => rfl, fun _ => rfl, Nat.zero_le _, Nat.zero_le _, hreturn.1,
        hnil, hnil⟩
    · simpa [nesting, TypeSig.nestingAll] using hreturn.2
  · exact .malformed _
  · exact .malformed _
  · rename_i hfield hlocals hinstantiation
    have hwell := CallingConvention.wellFormed_of_ofByte hconvention hlocals hinstantiation
    refine .ite (fun hgeneric => ?_) fun hgeneric => ?_
    · refine .bind .compressed fun genericParamCount hle => ?_
      exact hcounted _ hle (fun hnot => absurd hgeneric (by simp [hnot])) hfield hwell
    · refine .bind (.pure (P := (· = 0)) rfl) fun genericParamCount hzero => ?_
      exact hcounted _ (hzero ▸ Nat.zero_le _) (fun _ => hzero) hfield hwell

end MemberSig

/-! ### Types -/

theorem TypeBase.reader_ensures {inner pointed : Reader TypeSig} {n : Nat}
    (hinner : Ensures inner fun t => t.WellFormed ∧ t.nesting ≤ n)
    (hpointed : Ensures pointed fun t => t.WellFormed ∧ t.nesting < n) (tag : Nat) :
    Ensures (reader inner pointed tag) fun found =>
      found.1.WellFormed ∧ found.1.nesting ≤ n := by
  unfold reader
  refine .ite (fun _ => ?_) fun _ => ?_
  · refine .bind (.trivial _) fun fuel _ => .bind (.trivial _) fun kind _ => ?_
    refine RowReference.ensures_bind fun type htype => ?_
    refine .bind .compressed fun count hcount => ?_
    refine .bind (hinner.times count) fun arguments harguments => .pure ?_
    obtain ⟨hlength, hall⟩ := harguments
    refine ⟨⟨htype, hlength ▸ hcount, ?_⟩, (TypeSig.nestingAll_le_iff _ _).2 ?_⟩
    · exact (TypeSig.allWellFormed_iff _).2 fun t hmem => (hall t hmem).1
    · exact fun t hmem => (hall t hmem).2
  split
  · exact .pure ⟨True.intro, Nat.zero_le _⟩
  split
  · exact RowReference.ensures_bind fun type htype => .pure ⟨htype, Nat.zero_le _⟩
  refine .ite (fun _ => ?_) fun _ => .ite (fun _ => ?_) fun _ => .ite (fun _ => ?_) fun _ =>
    .ite (fun _ => ?_) fun _ => ?_
  · exact .bind .compressed fun number hle => .pure ⟨hle, Nat.zero_le _⟩
  · exact .bind .compressed fun number hle => .pure ⟨hle, Nat.zero_le _⟩
  · refine .bind hinner fun element helement => ?_
    exact .bind ArrayShape.reader_ensures fun shape hshape =>
      .pure ⟨⟨helement.1, hshape⟩, helement.2⟩
  · refine .bind (MemberSig.reader_ensures hpointed) fun signature hsignature => .pure ?_
    refine ⟨hsignature.1, ?_⟩
    rw [nesting, Nat.add_comm]
    exact hsignature.2
  · exact .bind (.trivial _) fun offset _ => .malformed _

theorem TypeSig.readerWith_ensures {inner pointed : Reader TypeSig} {n : Nat}
    (hinner : Ensures inner fun t => t.WellFormed ∧ t.nesting ≤ n)
    (hpointed : Ensures pointed fun t => t.WellFormed ∧ t.nesting < n) :
    Ensures (readerWith inner pointed) fun t => t.WellFormed ∧ t.nesting ≤ n + 1 := by
  refine .bind (.trivial _) fun fuel _ => ?_
  refine .bind (TypePrefixes.reader_ensures .none fuel (List.forall_mem_nil _))
    fun prefixes hprefixes => ?_
  refine .bind (TypeBase.reader_ensures hinner hpointed prefixes.2) fun base hbase => ?_
  refine .pure ⟨⟨hprefixes, hbase.1⟩, ?_⟩
  rw [TypeSig.nesting, Nat.add_comm]
  exact Nat.succ_le_succ hbase.2

/-- Types that are accepted are well formed, and the levels cover their nesting. -/
theorem TypeSig.reader_ensures (limit levels : Nat) :
    Ensures (reader limit levels) fun t => t.WellFormed ∧ t.nesting ≤ levels := by
  induction levels using reader.induct with
  | case1 => exact .throw _
  | case2 => exact readerWith_ensures (.throw _) (.throw _)
  | case3 levels ihinner ihpointed =>
      refine readerWith_ensures ihinner ?_
      exact ihpointed.mono fun t ht => ⟨ht.1, Nat.lt_succ_of_le ht.2⟩

/-! ### Whole signatures -/

namespace Signature

variable {type : Reader TypeSig} {limit : Nat}

theorem localReader_ensures (h : Ensures type (TypeWithin limit)) :
    Ensures (localReader type) fun v => TypeWithin limit v.type := by
  have hthen (modifiers : List CustomModifier) (hm : ∀ m ∈ modifiers, m.type.IsType)
      (pinned : Bool) : Ensures (do
        let type ← type
        return LocalVariable.mk pinned { type with modifiers := modifiers ++ type.modifiers })
        fun v => TypeWithin limit v.type := by
    refine .bind h fun t ht => .pure ?_
    -- modifiers do not count for the nesting
    obtain ⟨own, byRef, arrayRank, pointerDepth, base⟩ := t
    obtain ⟨⟨hown, hbase⟩, hnesting⟩ := ht
    exact ⟨⟨List.forall_mem_append.2 ⟨hm, hown⟩, hbase⟩, hnesting⟩
  refine .bind (.trivial _) fun fuel _ => ?_
  refine .bind (CustomModifier.listReader_ensures fuel) fun modifiers hm => ?_
  refine .bind (.trivial _) fun lead _ => .ite (fun _ => ?_) fun _ => hthen modifiers hm _
  exact .bind (.trivial _) fun _ _ => hthen modifiers hm _

theorem localsReader_ensures (h : Ensures type (TypeWithin limit)) :
    Ensures (localsReader type) (LocalsWithin limit) :=
  ensures_marked (ensures_counted (localReader_ensures h)) _ _

theorem instantiationReader_ensures (h : Ensures type (TypeWithin limit)) :
    Ensures (instantiationReader type) (InstantiationWithin limit) :=
  ensures_marked (ensures_counted h) _ _

end Signature

end CliMeta
