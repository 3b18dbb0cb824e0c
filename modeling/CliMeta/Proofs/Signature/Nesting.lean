import CliMeta.Proofs.Signature.Accepted
import CliMeta.Proofs.Signature.SelfDelimiting

/-!
The limit on the nesting of types is an exact threshold. Two readers that differ only in their
levels go through a blob in step; the one with fewer levels parts from the other at the first type
that is nested deeper than its levels reach, and there it meets its limit.
-/

namespace CliMeta

open Reader

/-! ### Readers that differ in a limit -/

namespace Reader

variable {α β : Type} {limit : Nat} {P : α → Prop} {Q : β → Prop}

/-- Where the first reader takes a value, the second takes the same one from the same bytes if the
value has the property, and meets the limit if it has not. -/
def MeetsLimit (limit : Nat) (r s : Reader α) (P : α → Prop) : Prop :=
  ∀ data position a next, r data position = .ok a next →
    (P a → s data position = .ok a next) ∧
      (¬P a → ∃ stop, s data position = .error (.nestingLimit limit) stop)

theorem MeetsLimit.same {r : Reader α} (h : Ensures r P) : MeetsLimit limit r r P := by
  intro data position a next hout
  exact ⟨fun _ => hout, fun hnot => absurd (h data position a next hout) hnot⟩

/-- What has met the limit cannot be made up for by what follows. -/
theorem MeetsLimit.bind {r s : Reader α} {f g : α → Reader β} (hr : MeetsLimit limit r s P)
    (hwithin : ∀ a, P a → MeetsLimit limit (f a) (g a) Q)
    (hbeyond : ∀ a, ¬P a → Ensures (f a) (¬Q ·)) : MeetsLimit limit (r >>= f) (s >>= g) Q := by
  intro data position b next hout
  obtain ⟨a, middle, hfirst, hthen⟩ := bind_eq_ok.1 hout
  obtain ⟨hsame, hlimit⟩ := hr data position a middle hfirst
  by_cases ha : P a
  · rw [bind_of_ok (hsame ha)]
    exact hwithin a ha data middle b next hthen
  · obtain ⟨stop, hstop⟩ := hlimit ha
    have hb : ¬Q b := hbeyond a ha data middle b next hthen
    exact ⟨fun hnot => absurd hnot hb, fun _ => ⟨stop, bind_of_error hstop g⟩⟩

/-- What both readers take alike does not count. -/
theorem MeetsLimit.behind (r : Reader α) {f g : α → Reader β}
    (h : ∀ a, MeetsLimit limit (f a) (g a) Q) : MeetsLimit limit (r >>= f) (r >>= g) Q :=
  .bind (.same (.trivial r)) (fun a _ => h a) fun _ hnot => absurd True.intro hnot

/-- What both take alike behind a value does not change whether it is within the limit. -/
theorem MeetsLimit.followed {r s : Reader α} {f : α → Reader β} (hr : MeetsLimit limit r s P)
    (hf : ∀ a, Ensures (f a) fun b => Q b ↔ P a) : MeetsLimit limit (r >>= f) (s >>= f) Q := by
  refine .bind hr (fun a ha => .same ?_) fun a ha => ?_
  · exact (hf a).mono fun b hb => hb.2 ha
  · exact (hf a).mono fun b hb => mt hb.1 ha

theorem MeetsLimit.ite {p : Prop} [Decidable p] {r s r' s' : Reader α}
    (hr : MeetsLimit limit r r' P) (hs : MeetsLimit limit s s' P) :
    MeetsLimit limit (if p then r else s) (if p then r' else s') P := by
  split
  · exact hr
  · exact hs

theorem MeetsLimit.times {r s : Reader α} (h : MeetsLimit limit r s P) (count : Nat) :
    MeetsLimit limit (times r count) (times s count) fun all => ∀ a ∈ all, P a := by
  induction count with
  | zero => exact .same (.pure (List.forall_mem_nil _))
  | succ count ih =>
      refine .bind h (fun first hfirst => .followed ih fun others => .pure ?_)
        fun first hfirst => .bind (.trivial _) fun others _ => .pure ?_
      · simp [hfirst]
      · simp [hfirst]

end Reader

/-! ### Types and members -/

theorem TypeSig.nesting_pos (t : TypeSig) : 0 < t.nesting := by
  rw [nesting_eq]
  omega

theorem MemberSig.nesting_pos (m : MemberSig) : 0 < m.nesting := by
  cases m
  exact Nat.lt_of_lt_of_le (TypeSig.nesting_pos _) (Nat.le_max_left ..)

theorem TypeSig.nestingAll_cons_le {t : TypeSig} {others : List TypeSig} {n : Nat} :
    nestingAll (t :: others) ≤ n ↔ t.nesting ≤ n ∧ nestingAll others ≤ n := by
  rw [nestingAll, Nat.max_le]

theorem MemberSig.nesting_le_iff {m : MemberSig} {n : Nat} :
    m.nesting ≤ n ↔ m.returnType.nesting ≤ n ∧ TypeSig.nestingAll m.params ≤ n ∧
      TypeSig.nestingAll m.varargs ≤ n := by
  cases m
  rw [nesting, Nat.max_le, Nat.max_le]

namespace MemberSig

variable {type type' : Reader TypeSig} {limit n : Nat}

theorem paramsReader_meetsLimit (h : MeetsLimit limit type type' (·.nesting ≤ n)) (count : Nat)
    (behind : Bool) :
    MeetsLimit limit (paramsReader type count behind) (paramsReader type' count behind)
      fun found => TypeSig.nestingAll found.1 ≤ n ∧ TypeSig.nestingAll found.2 ≤ n := by
  induction count generalizing behind with
  | zero => exact .same (.pure ⟨Nat.zero_le _, Nat.zero_le _⟩)
  | succ count ih =>
      -- the parameter counts alike on either side of the sentinel
      have hparam (behind' : Bool) :
          MeetsLimit limit (paramReader type count behind') (paramReader type' count behind')
            fun found => TypeSig.nestingAll found.1 ≤ n ∧ TypeSig.nestingAll found.2 ≤ n := by
        refine .bind h (fun param hparam => .followed (ih behind') fun others => .pure ?_)
          fun param hparam => .bind (.trivial _) fun others _ => .pure ?_
        · cases behind' <;> simp [TypeSig.nestingAll_cons_le, hparam]
        · cases behind' <;> simp [TypeSig.nestingAll_cons_le, hparam]
      rw [paramsReader_succ, paramsReader_succ]
      exact .behind _ fun lead => .ite (.behind _ fun _ => hparam _) (hparam _)

theorem reader_meetsLimit (h : MeetsLimit limit type type' (·.nesting ≤ n)) :
    MeetsLimit limit (reader type) (reader type') (·.nesting ≤ n) := by
  have hcounted (convention : CallingConvention) (genericParamCount : Nat) :
      MeetsLimit limit (countedReader type convention genericParamCount)
        (countedReader type' convention genericParamCount) (·.nesting ≤ n) := by
    refine .behind _ fun count =>
      .bind h (fun returnType hreturn => ?_) fun returnType hreturn => ?_
    · refine .followed (paramsReader_meetsLimit h count false) fun all => .pure ?_
      simp [nesting_le_iff, hreturn]
    · refine .bind (.trivial _) fun all _ => .pure ?_
      simp [nesting_le_iff, hreturn]
  refine .behind _ fun byte => .behind _ fun convention => ?_
  cases convention.kind with
  | field =>
    exact .followed h fun returnType => .pure (by simp [nesting_le_iff, TypeSig.nestingAll])
  | localSig => exact .same (.malformed _)
  | genericInst => exact .same (.malformed _)
  | _ => exact .ite (.behind _ (hcounted convention)) (.behind _ (hcounted convention))

end MemberSig

section

variable {inner inner' pointed pointed' : Reader TypeSig} {limit n : Nat}

theorem TypeBase.reader_meetsLimit (hinner : MeetsLimit limit inner inner' (·.nesting ≤ n))
    (hpointed : MeetsLimit limit pointed pointed' (·.nesting ≤ n - 1)) (tag : Nat) :
    MeetsLimit limit (reader inner pointed tag) (reader inner' pointed' tag)
      (·.1.nesting ≤ n) := by
  -- a base without types inside it is within every limit
  have hflat {r : Reader (TypeBase × Nat)} (h : Ensures r (·.1.nesting = 0)) :
      MeetsLimit limit r r (·.1.nesting ≤ n) :=
    .same (h.mono fun found hfound => hfound ▸ Nat.zero_le n)
  unfold reader
  refine .ite ?_ ?_
  · refine .behind _ fun fuel => .behind _ fun kind => .behind _ fun raw => .behind _ fun type => ?_
    refine .behind _ fun count => .followed (hinner.times count) fun arguments => .pure ?_
    exact TypeSig.nestingAll_le_iff arguments n
  cases Primitive.ofTag? tag with
  | some p => exact hflat (.pure rfl)
  | none =>
  cases NamedKind.ofTag? tag with
  | some kind =>
      exact hflat (.bind (.trivial _) fun raw _ => .bind (.trivial _) fun type _ => .pure rfl)
  | none =>
  refine .ite ?_ (.ite ?_ (.ite ?_ (.ite ?_ ?_)))
  · exact hflat (.bind (.trivial _) fun number _ => .pure rfl)
  · exact hflat (.bind (.trivial _) fun number _ => .pure rfl)
  · exact .followed hinner fun element => .bind (.trivial _) fun shape _ => .pure Iff.rfl
  · refine .followed (MemberSig.reader_meetsLimit hpointed) fun signature => .pure ?_
    have hpos := signature.nesting_pos
    show 1 + signature.nesting ≤ n ↔ signature.nesting ≤ n - 1
    omega
  · exact hflat (.bind (.trivial _) fun offset _ => .malformed _)

theorem TypeSig.readerWith_meetsLimit (hinner : MeetsLimit limit inner inner' (·.nesting ≤ n))
    (hpointed : MeetsLimit limit pointed pointed' (·.nesting ≤ n - 1)) :
    MeetsLimit limit (readerWith inner pointed) (readerWith inner' pointed')
      (·.nesting ≤ n + 1) := by
  refine .behind _ fun fuel => .behind _ fun found => ?_
  refine .followed (TypeBase.reader_meetsLimit hinner hpointed found.2) fun base => .pure ?_
  show 1 + base.1.nesting ≤ n + 1 ↔ base.1.nesting ≤ n
  omega

end

namespace TypeSig

/-- A level down there is one level less, and inside a function pointer two, if there are two. -/
theorem reader_succ (limit levels : Nat) :
    reader limit (levels + 1) = readerWith (reader limit levels) (reader limit (levels - 1)) := by
  cases levels <;> rfl

/-- Whatever accepts a type, a reader with other levels takes the same type from the same bytes if
its levels cover the nesting of the type, and otherwise meets its limit. -/
theorem reader_meetsLimit (given limit levels levels' : Nat) :
    MeetsLimit limit (reader given levels) (reader limit levels') (·.nesting ≤ levels') := by
  induction levels using Nat.strongRecOn generalizing levels' with
  | ind levels ih =>
      cases levels with
      | zero =>
          intro data position t next hout
          cases hout
      | succ levels =>
          cases levels' with
          | zero =>
              intro data position t next hout
              have hpos := t.nesting_pos
              exact ⟨fun hzero => by omega, fun _ => ⟨position, rfl⟩⟩
          | succ levels' =>
              rw [reader_succ, reader_succ]
              apply readerWith_meetsLimit
              · exact ih levels (by omega) levels'
              · exact ih (levels - 1) (by omega) (levels' - 1)

end TypeSig

/-! ### Whole signatures -/

/-- How what a decoder makes of one blob depends on the limit. What some limit accepts, those that
cover its nesting accept alike; each of the others fails, and with nothing but the limit. -/
structure ExactThreshold {α : Type} (decode : Nat → Except Error α) (nesting : α → Nat) :
    Prop where
  covered : ∀ given a, decode given = .ok a → ∀ limit, nesting a ≤ limit → decode limit = .ok a
  exceeded : ∀ given a, decode given = .ok a →
    ∀ limit, limit < nesting a → decode limit = .error (.nestingLimit limit)
  raised : ∀ given a, decode given = .ok a → ∀ limit, given ≤ limit → decode limit = .ok a

namespace ExactThreshold

variable {α β : Type} {decode : Nat → Except Error α} {nesting : α → Nat}

/-- A limit that accepts covers the nesting, and so does a higher one. -/
theorem of_covered
    (hcovered : ∀ given a, decode given = .ok a → ∀ limit, nesting a ≤ limit → decode limit = .ok a)
    (hexceeded : ∀ given a, decode given = .ok a →
      ∀ limit, limit < nesting a → decode limit = .error (.nestingLimit limit)) :
    ExactThreshold decode nesting where
  covered := hcovered
  exceeded := hexceeded
  raised given a ha limit hle := by
    obtain hshort | hwithin : given < nesting a ∨ nesting a ≤ given := by omega
    · rw [hexceeded given a ha given hshort] at ha
      cases ha
    · exact hcovered given a ha limit (Nat.le_trans hwithin hle)

theorem of_reader {r : Nat → Reader α} (hforward : ∀ limit, (r limit).Forward)
    (h : ∀ given limit, MeetsLimit limit (r given) (r limit) (nesting · ≤ limit)) (blob : Bytes) :
    ExactThreshold (fun limit => (r limit).complete blob) nesting := by
  refine .of_covered (fun given a ha limit hle => ?_) fun given a ha limit hlt => ?_
  · have hout := (complete_eq_ok_iff (hforward given)).1 ha
    exact (complete_eq_ok_iff (hforward limit)).2 ((h given limit blob 0 a _ hout).1 hle)
  · have hout := (complete_eq_ok_iff (hforward given)).1 ha
    obtain ⟨stop, hstop⟩ := (h given limit blob 0 a _ hout).2 (Nat.not_le.2 hlt)
    simp only [complete, hstop]

theorem map {nesting' : β → Nat} (f : α → β) (hnesting : ∀ a, nesting' (f a) = nesting a)
    (h : ExactThreshold decode nesting) :
    ExactThreshold (fun limit => (decode limit).map f) nesting' := by
  refine .of_covered (fun given b hb limit hle => ?_) fun given b hb limit hlt => ?_
  · obtain ⟨a, ha, rfl⟩ := exists_of_map_ok hb
    rw [h.covered given a ha limit (hnesting a ▸ hle)]
    rfl
  · obtain ⟨a, ha, rfl⟩ := exists_of_map_ok hb
    rw [h.exceeded given a ha limit (hnesting a ▸ hlt)]
    rfl

end ExactThreshold

namespace Signature

variable {type type' : Reader TypeSig} {limit n : Nat}

/-- The largest nesting of the type of a variable. -/
def localsNesting (entries : List LocalVariable) : Nat :=
  TypeSig.nestingAll (entries.map (·.type))

def standaloneNesting : StandaloneSig → Nat
  | .locals entries => localsNesting entries
  | .method signature => signature.nesting

theorem localReader_meetsLimit (h : MeetsLimit limit type type' (·.nesting ≤ n)) :
    MeetsLimit limit (localReader type) (localReader type') (·.type.nesting ≤ n) := by
  refine .behind _ fun fuel => .behind _ fun modifiers => .behind _ fun lead => ?_
  -- the modifiers of the variable do not count
  have hvariable (pinned : Bool) (t : TypeSig) :
      Ensures (pure (LocalVariable.mk pinned { t with modifiers := modifiers ++ t.modifiers }))
        fun v => v.type.nesting ≤ n ↔ t.nesting ≤ n := by
    refine .pure ?_
    simp [TypeSig.nesting_eq]
  exact .ite (.behind _ fun _ => .followed h (hvariable _)) (.followed h (hvariable _))

/-- A mark and a count in front, alike for both. -/
theorem times_meetsLimit {α : Type} {r s : Reader α} {P : α → Prop} (h : MeetsLimit limit r s P)
    (mark : Nat) (defect : Nat → Defect) :
    MeetsLimit limit
      (do
        let first ← Reader.byte
        if first ≠ mark then Reader.malformed (defect first)
        Reader.times r (← Reader.compressed))
      (do
        let first ← Reader.byte
        if first ≠ mark then Reader.malformed (defect first)
        Reader.times s (← Reader.compressed))
      fun all => ∀ a ∈ all, P a :=
  .behind _ fun _ => .ite
    (.behind _ fun _ => .behind _ fun count => h.times count)
    (.behind _ fun count => h.times count)

theorem decodeMember_exactThreshold (blob : Bytes) :
    ExactThreshold (decodeMember · blob) MemberSig.nesting := by
  refine .of_reader (fun limit => ?_) (fun given limit => ?_) blob
  · exact (MemberSig.reader_sequential (TypeSig.reader_sequential limit limit)).forward
  · exact MemberSig.reader_meetsLimit (TypeSig.reader_meetsLimit given limit given limit)

theorem decodeLocals_exactThreshold (blob : Bytes) :
    ExactThreshold (decodeLocals · blob) localsNesting := by
  refine .of_reader (fun limit => ?_) (fun given limit => ?_) blob
  · exact (localsReader_sequential (TypeSig.reader_sequential limit limit)).forward
  · have hlocal := localReader_meetsLimit (TypeSig.reader_meetsLimit given limit given limit)
    simp only [localsNesting, TypeSig.nestingAll_le_iff, List.forall_mem_map]
    exact times_meetsLimit hlocal _ _

theorem decodeType_exactThreshold (blob : Bytes) :
    ExactThreshold (decodeType · blob) TypeSig.nesting :=
  .of_reader (fun limit => (TypeSig.reader_sequential limit limit).forward)
    (fun given limit => TypeSig.reader_meetsLimit given limit given limit) blob

theorem decodeInstantiation_exactThreshold (blob : Bytes) :
    ExactThreshold (decodeInstantiation · blob) TypeSig.nestingAll := by
  refine .of_reader (fun limit => ?_) (fun given limit => ?_) blob
  · exact (instantiationReader_sequential (TypeSig.reader_sequential limit limit)).forward
  · simp only [TypeSig.nestingAll_le_iff]
    exact times_meetsLimit (TypeSig.reader_meetsLimit given limit given limit) _ _

/-- Which of the two a signature that stands alone is does not depend on the limit. -/
theorem decodeStandalone_exactThreshold (blob : Bytes) :
    ExactThreshold (decodeStandalone · blob) standaloneNesting := by
  by_cases hfirst : blob.size ≠ 0 ∧ blob.byteAt 0 % 16 = 7
  · simp only [decodeStandalone, if_pos hfirst]
    exact (decodeLocals_exactThreshold blob).map StandaloneSig.locals fun _ => rfl
  · simp only [decodeStandalone, if_neg hfirst]
    exact (decodeMember_exactThreshold blob).map StandaloneSig.method fun _ => rfl

/-- Under every kind of signature the limit is an exact threshold on the nesting of types. -/
theorem decoders_exactThreshold (blob : Bytes) :
    ExactThreshold (decodeMember · blob) MemberSig.nesting ∧
      ExactThreshold (decodeLocals · blob) localsNesting ∧
      ExactThreshold (decodeType · blob) TypeSig.nesting ∧
      ExactThreshold (decodeInstantiation · blob) TypeSig.nestingAll ∧
      ExactThreshold (decodeStandalone · blob) standaloneNesting :=
  ⟨decodeMember_exactThreshold blob, decodeLocals_exactThreshold blob,
    decodeType_exactThreshold blob, decodeInstantiation_exactThreshold blob,
    decodeStandalone_exactThreshold blob⟩

/-- A pointer to a function without parameters takes up three levels, with its result. -/
theorem decoders_exactThreshold_functionPointer :
    ∃ t, decodeType 3 #[0x1B, 0x00, 0x00, 0x01] = .ok t ∧ t.nesting = 3 ∧
      decodeType 5 #[0x1B, 0x00, 0x00, 0x01] = .ok t ∧
      decodeType 2 #[0x1B, 0x00, 0x00, 0x01] = .error (.nestingLimit 2) := by
  let result : TypeSig := ⟨[], false, 0, 0, .primitive .void⟩
  let pointer : TypeSig :=
    ⟨[], false, 0, 0, .functionPointer ⟨⟨.default, ⟨0⟩⟩, 0, 0, result, [], []⟩⟩
  have hpointer : decodeType 3 #[0x1B, 0x00, 0x00, 0x01] = .ok pointer := by rfl
  have hnesting : pointer.nesting = 3 := by rfl
  obtain ⟨-, -, htype, -⟩ := decoders_exactThreshold #[0x1B, 0x00, 0x00, 0x01]
  exact ⟨pointer, hpointer, hnesting, htype.covered 3 pointer hpointer 5 (by omega),
    htype.exceeded 3 pointer hpointer 2 (by omega)⟩

end Signature

end CliMeta
