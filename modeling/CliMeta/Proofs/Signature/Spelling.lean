import CliMeta.Proofs.Signature.Prefixes

/-!
Every form of a signature. Beside the canonical form a signature has others: numbers can take more
bytes than they need, modifiers can stand between the other prefixes, pointers behind the tag of a
generic instance, and sentinels between the variable arguments. In each form a list stands behind
its length, and its members in their order. Whatever blob is decoded is one of these forms of what
it is decoded to.
-/

namespace CliMeta

open Reader

/-! ### Members of a list -/

/-- Bytes that are made up of a form of each member, in their order. -/
def SpelledEach {α : Type} (Spelled : α → List UInt8 → Prop) : List α → List UInt8 → Prop
  | [], written => written = []
  | a :: others, written =>
      ∃ first behind, Spelled a first ∧ SpelledEach Spelled others behind ∧
        written = first ++ behind

/-- Members behind their number. -/
def SpelledCounted {α : Type} (Spelled : α → List UInt8 → Prop) (all : List α)
    (written : List UInt8) : Prop :=
  ∃ (count : WrittenNumber) (behind : List UInt8), count.value = all.length ∧
    SpelledEach Spelled all behind ∧ written = count.bytes ++ behind

/-! ### Types and members -/

def SpelledNumber (value : Nat) (written : List UInt8) : Prop :=
  ∃ n : WrittenNumber, n.value = value ∧ written = n.bytes

def SpelledSigned (value : Int) (written : List UInt8) : Prop :=
  ∃ width, IsCompressedWidth width ∧ FitsSigned (payloadBits width) value ∧
    written = compressedIn width (rotate (payloadBits width) value)

def ArrayShape.Spelled (shape : ArrayShape) (written : List UInt8) : Prop :=
  ∃ rank sizes lowerBounds, SpelledNumber shape.rank rank ∧
    SpelledCounted SpelledNumber shape.sizes sizes ∧
    SpelledCounted SpelledSigned shape.lowerBounds lowerBounds ∧
    written = rank ++ (sizes ++ lowerBounds)

mutual

def TypeSig.Spelled : TypeSig → List UInt8 → Prop
  | ⟨modifiers, byRef, arrayRank, pointerDepth, base⟩, written =>
      ∃ (w : List WrittenPrefix) (front inside : Nat) (behind : List UInt8),
        WrittenPrefix.modifiers w = modifiers ∧
        WrittenPrefix.marks w = TypePrefixes.marks ⟨modifiers, byRef, arrayRank, front⟩ ∧
        pointerDepth = front + inside ∧ base.Spelled inside behind ∧
        written = WrittenPrefix.allBytes w ++ behind

/-- A form of a base in which some pointers stand behind its first tag. -/
def TypeBase.Spelled : TypeBase → Nat → List UInt8 → Prop
  | .primitive p, pointers, written => pointers = 0 ∧ written = [UInt8.ofNat p.tag]
  | .named kind type, pointers, written =>
      ∃ r : WrittenReference, r.type = type ∧ pointers = 0 ∧
        written = UInt8.ofNat kind.tag :: r.bytes
  | .genericInstance kind type arguments, pointers, written =>
      ∃ (r : WrittenReference) (count : WrittenNumber) (behind : List UInt8), r.type = type ∧
        count.value = arguments.length ∧ TypeSig.SpelledAll arguments behind ∧
        written = UInt8.ofNat ElementTag.genericInstance ::
          (List.replicate pointers (UInt8.ofNat ElementTag.ptr) ++
            (UInt8.ofNat kind.tag :: (r.bytes ++ (count.bytes ++ behind))))
  | .typeParameter number, pointers, written =>
      ∃ n : WrittenNumber, n.value = number ∧ pointers = 0 ∧
        written = UInt8.ofNat ElementTag.typeParameter :: n.bytes
  | .methodParameter number, pointers, written =>
      ∃ n : WrittenNumber, n.value = number ∧ pointers = 0 ∧
        written = UInt8.ofNat ElementTag.methodParameter :: n.bytes
  | .array element shape, pointers, written =>
      ∃ first second, element.Spelled first ∧ shape.Spelled second ∧ pointers = 0 ∧
        written = UInt8.ofNat ElementTag.array :: (first ++ second)
  | .functionPointer signature, pointers, written =>
      ∃ behind, signature.Spelled behind ∧ pointers = 0 ∧
        written = UInt8.ofNat ElementTag.functionPointer :: behind

/-- A field is its type alone. Of other members the parameters are counted, the variable arguments
among them, and they are as many as the count says. -/
def MemberSig.Spelled : MemberSig → List UInt8 → Prop
  | ⟨convention, genericParamCount, argumentCount, returnType, params, varargs⟩, written =>
      ∃ (first : UInt8) (generic : List UInt8) (result : List UInt8),
        CallingConvention.ofByte first.toNat = .ok convention ∧ returnType.Spelled result ∧
        if convention.kind = .field then
          genericParamCount = 0 ∧ argumentCount = 0 ∧ params = [] ∧ varargs = [] ∧
            written = first :: result
        else
          (if convention.isGeneric then SpelledNumber genericParamCount generic
            else genericParamCount = 0 ∧ generic = []) ∧
          ∃ (count : WrittenNumber) (front back : List UInt8),
            count.value = argumentCount ∧ argumentCount = params.length + varargs.length ∧
            TypeSig.SpelledAll params front ∧ TypeSig.SpelledVarargs false varargs back ∧
            written = first :: (generic ++ (count.bytes ++ (result ++ (front ++ back))))

def TypeSig.SpelledAll : List TypeSig → List UInt8 → Prop
  | [], written => written = []
  | t :: others, written =>
      ∃ first behind, t.Spelled first ∧ TypeSig.SpelledAll others behind ∧
        written = first ++ behind

/-- A sentinel stands in front of the first variable argument, unless there has been one, and may
stand in front of each other. -/
def TypeSig.SpelledVarargs : (marked : Bool) → List TypeSig → List UInt8 → Prop
  | _, [], written => written = []
  | marked, t :: others, written =>
      ∃ mark first behind, (mark = [UInt8.ofNat ElementTag.sentinel] ∨ marked = true ∧ mark = []) ∧
        t.Spelled first ∧ TypeSig.SpelledVarargs true others behind ∧
        written = mark ++ (first ++ behind)

end

theorem TypeSig.spelledAll_iff (all : List TypeSig) (written : List UInt8) :
    SpelledAll all written ↔ SpelledEach Spelled all written := by
  induction all generalizing written with
  | nil => exact Iff.rfl
  | cons t others ih => simp only [SpelledAll, SpelledEach, ih]

/-! ### Whole signatures -/

namespace Signature

/-- The modifiers of a variable stand on both sides of the mark of a pinned one. -/
def SpelledLocal (v : LocalVariable) (written : List UInt8) : Prop :=
  ∃ (w : List WrittenPrefix) (t : TypeSig) (behind : List UInt8), WrittenPrefix.marks w = [] ∧
    t.Spelled behind ∧ v.type = { t with modifiers := WrittenPrefix.modifiers w ++ t.modifiers } ∧
    written = WrittenPrefix.allBytes w ++
      ((if v.pinned then [UInt8.ofNat ElementTag.pinned] else []) ++ behind)

def SpelledLocals (entries : List LocalVariable) (written : List UInt8) : Prop :=
  ∃ behind, SpelledCounted SpelledLocal entries behind ∧ written = 0x07 :: behind

def SpelledInstantiation (arguments : List TypeSig) (written : List UInt8) : Prop :=
  ∃ behind, SpelledCounted TypeSig.Spelled arguments behind ∧ written = 0x0A :: behind

def SpelledStandalone : StandaloneSig → List UInt8 → Prop
  | .locals entries => SpelledLocals entries
  | .method signature => signature.Spelled

end Signature

/-! ### What is read -/

section

variable {α : Type} {r : Reader α} {R : α → List UInt8 → Prop} {start : Nat}

theorem spells_number :
    Spells Reader.compressed start fun value written =>
      ∃ n : WrittenNumber, n.value = value ∧ written = n.bytes :=
  Spells.compressed.mono fun value _ ⟨width, hwidth, hfits, hwritten⟩ =>
    ⟨⟨value, width, hwidth, hfits⟩, rfl, hwritten⟩

theorem spells_each (hr : ∀ start, Spells r start R) (count : Nat) :
    Spells (Reader.times r count) start fun all written =>
      all.length = count ∧ SpelledEach R all written := by
  induction count generalizing start with
  | zero => exact .pure ⟨rfl, rfl⟩
  | succ count ih =>
      refine .bind (hr start) fun a first ha => .bind_pure ih ?_
      rintro others behind ⟨hlength, hothers⟩
      exact ⟨by rw [List.length_cons, hlength], first, behind, ha, hothers, rfl⟩

theorem spells_counted (hr : ∀ start, Spells r start R) :
    Spells (do
      let count ← Reader.compressed
      Reader.times r count) start (SpelledCounted R) := by
  refine .bind spells_number fun count first ⟨n, hcount, hfirst⟩ => ?_
  refine (spells_each hr count).mono fun all behind ⟨hlength, hall⟩ => ?_
  exact ⟨n, behind, by rw [hcount, hlength], hall, by rw [hfirst]⟩

/-- Counted members in front of what is read next. -/
theorem spells_counted_bind {β : Type} {f : List α → Reader β} {S : β → List UInt8 → Prop}
    (hr : ∀ start, Spells r start R)
    (hf : ∀ all first start, SpelledCounted R all first →
      Spells (f all) start fun b behind => S b (first ++ behind)) :
    Spells (do
      let count ← Reader.compressed
      let all ← Reader.times r count
      f all) start S := by
  rw [← bind_assoc]
  exact .bind (spells_counted hr) fun all first hall => hf all first _ hall

/-- A reference in front of what is read next. -/
theorem spells_reference {f : RowReference → Reader α}
    (hf : ∀ ref : WrittenReference, ∀ start,
      Spells (f ref.type) start fun a behind => R a (ref.bytes ++ behind)) :
    Spells (do
      let raw ← Reader.compressed
      let type ← Reader.ofExcept (CodedCategory.typeDefOrRef.decode raw)
      f type) start R := by
  refine .bind spells_number fun raw first ⟨n, hraw, hfirst⟩ => ?_
  refine .bind (R := fun type written => written = [] ∧
    CodedCategory.typeDefOrRef.decode raw = .ok type) (.ofExcept fun type htype => ⟨rfl, htype⟩) ?_
  rintro type _ ⟨rfl, htype⟩
  subst hraw hfirst
  exact hf ⟨n, type, htype⟩ _

end

/-! ### Prefixes -/

theorem CustomModifier.reader_spells {tag start : Nat} :
    Spells (CustomModifier.reader tag) start fun m written =>
      ∃ r : WrittenReference, m = ⟨tag == ElementTag.requiredModifier, r.type⟩ ∧
        written = r.bytes :=
  spells_reference fun r _ => .pure ⟨r, rfl, List.append_nil _⟩

/-- A tag of a modifier is the one that a written modifier has. -/
theorem CustomModifier.tag_of_isTag {tag : Nat} (h : isTag tag = true) (type : RowReference) :
    (CustomModifier.mk (tag == ElementTag.requiredModifier) type).tag = tag := by
  simp only [isTag, Bool.or_eq_true, beq_iff_eq] at h
  rcases h with rfl | rfl <;> rfl

theorem WrittenPrefix.allBytes_modifier {tag : Nat} (h : CustomModifier.isTag tag = true)
    (r : WrittenReference) (w : List WrittenPrefix) :
    allBytes (.modifier (tag == ElementTag.requiredModifier) r :: w) =
      UInt8.ofNat tag :: (r.bytes ++ allBytes w) := by
  rw [allBytes, List.flatMap_cons, bytes, CustomModifier.tag_of_isTag h]
  rfl

theorem PrefixMark.exists_of_isTag {tag : Nat} (h : TypePrefixes.isTag tag = true) :
    ∃ m : PrefixMark, m.tag = tag := by
  simp only [TypePrefixes.isTag, Bool.or_eq_true, beq_iff_eq] at h
  rcases h with (rfl | rfl) | rfl
  · exact ⟨.byRef, rfl⟩
  · exact ⟨.szArray, rfl⟩
  · exact ⟨.ptr, rfl⟩

theorem TypePrefixes.reader_spells (p : TypePrefixes) (fuel start : Nat) :
    Spells (p.reader fuel) start fun found written =>
      ∃ w, p.addAll? w = some found.1 ∧ found.2 < 256 ∧
        written = WrittenPrefix.allBytes w ++ [UInt8.ofNat found.2] := by
  induction fuel generalizing p start with
  | zero => exact .throw _
  | succ fuel ih =>
      refine .bind .position fun offset none ⟨_, hnone⟩ => ?_
      subst hnone
      refine .bind .byte fun tag first ⟨htag, hfirst⟩ => ?_
      subst hfirst
      refine .ite (fun hmodifier => ?_) fun _ => .ite (fun hmark => ?_) fun _ => .pure ?_
      · refine .bind CustomModifier.reader_spells fun m second ⟨r, hm, hsecond⟩ => ?_
        subst hm hsecond
        refine (ih _ _).mono fun found behind ⟨w, hadd, hlt, hbehind⟩ => ?_
        refine ⟨.modifier _ r :: w, hadd, hlt, ?_⟩
        rw [hbehind, WrittenPrefix.allBytes_modifier hmodifier]
        simp
      · obtain ⟨m, rfl⟩ := PrefixMark.exists_of_isTag hmark
        cases hadd : p.add? m.tag with
        | none => exact .throw _
        | some p' =>
            refine (ih p' _).mono fun found behind ⟨w, hall, hlt, hbehind⟩ => ?_
            refine ⟨.mark m :: w, ?_, hlt, ?_⟩
            · rw [addAll?_cons, addNext?, hadd]
              exact hall
            · rw [hbehind]
              rfl
      · exact ⟨[], rfl, htag, rfl⟩

theorem NamedKind.tag_of_ofTag? {tag : Nat} {kind : NamedKind} (h : ofTag? tag = some kind) :
    kind.tag = tag := by
  unfold ofTag? at h
  grind [NamedKind.tag]

theorem Primitive.tag_of_ofTag? {tag : Nat} {p : Primitive} (h : ofTag? tag = some p) :
    p.tag = tag := by
  have hfound := List.find?_some h
  exact beq_iff_eq.1 hfound

/-- Modifiers in front of a variable are prefixes without a mark. -/
theorem CustomModifier.listReader_spells (fuel start : Nat) :
    Spells (CustomModifier.listReader fuel) start fun modifiers written =>
      ∃ w, WrittenPrefix.marks w = [] ∧ WrittenPrefix.modifiers w = modifiers ∧
        written = WrittenPrefix.allBytes w := by
  have hnil : ∃ w, WrittenPrefix.marks w = [] ∧ WrittenPrefix.modifiers w = [] ∧
      ([] : List UInt8) = WrittenPrefix.allBytes w := ⟨[], rfl, rfl, rfl⟩
  induction fuel generalizing start with
  | zero => exact .pure hnil
  | succ fuel ih =>
      refine .bind .atEnd fun ended none hnone => ?_
      subst hnone
      refine .ite (fun _ => .pure hnil) fun _ => .peek_bind fun tag => ?_
      refine .ite (fun hmodifier => ?_) fun _ => .pure fun _ => hnil
      refine .bind (.skip 1) fun _ first hfirst => ?_
      refine .bind reader_spells fun m second ⟨r, hm, hsecond⟩ => ?_
      subst hm hsecond
      refine .bind_pure (ih _) ?_
      rintro others behind ⟨w, hmarks, rfl, rfl⟩ hlead
      obtain ⟨lead, rfl⟩ := List.length_eq_one_iff.1 hfirst
      have htag : UInt8.ofNat tag = lead := by
        rw [← hlead lead rfl, UInt8.ofNat_toNat]
      refine ⟨.modifier _ r :: w, hmarks, rfl, ?_⟩
      rw [WrittenPrefix.allBytes_modifier hmodifier, htag]
      rfl

theorem NamedKind.reader_spells (pointers fuel start : Nat) :
    Spells (NamedKind.reader pointers fuel) start fun found written =>
      ∃ more, found.2 = pointers + more ∧
        written = List.replicate more (UInt8.ofNat ElementTag.ptr) ++
          [UInt8.ofNat found.1.tag] := by
  induction fuel generalizing pointers start with
  | zero => exact .throw _
  | succ fuel ih =>
      refine .bind .byte fun tag first ⟨_, hfirst⟩ => ?_
      subst hfirst
      refine .ite (fun hptr => ?_) fun _ => ?_
      · subst hptr
        refine (ih _ _).mono fun found behind ⟨more, hfound, hbehind⟩ => ?_
        exact ⟨more + 1, by omega, by rw [hbehind]; rfl⟩
      · cases hkind : ofTag? tag with
        | none => exact .throw _
        | some kind => exact .pure ⟨0, rfl, by rw [tag_of_ofTag? hkind]; rfl⟩

/-! ### Types and members -/

theorem ArrayShape.reader_spells (start : Nat) :
    Spells ArrayShape.reader start ArrayShape.Spelled := by
  refine .bind spells_number fun rank first hrank => ?_
  refine spells_counted_bind (fun _ => spells_number) fun sizes second _ hsizes => ?_
  refine spells_counted_bind (fun _ => .compressedSigned) fun lowerBounds third _ hbounds => ?_
  refine .pure ⟨first, second, third, hrank, hsizes, hbounds, ?_⟩
  rw [List.append_nil]

namespace MemberSig

/-- Parameters as they are read, behind a sentinel or not. -/
structure SpelledParams (count : Nat) (behind : Bool) (found : List TypeSig × List TypeSig)
    (written : List UInt8) : Prop where
  count : found.1.length + found.2.length = count
  params : behind = true → found.1 = []
  spelled : ∃ front back, TypeSig.SpelledAll found.1 front ∧
    TypeSig.SpelledVarargs behind found.2 back ∧ written = front ++ back

namespace SpelledParams

variable {count : Nat} {others : List TypeSig × List TypeSig} {t : TypeSig}
  {first written : List UInt8}

theorem param (ht : t.Spelled first) (h : SpelledParams count false others written) :
    SpelledParams (count + 1) false (t :: others.1, others.2) (first ++ written) where
  count := by
    rw [List.length_cons, Nat.add_right_comm, h.count]
  params hbehind := nomatch hbehind
  spelled := by
    obtain ⟨front, back, hfront, hback, hwritten⟩ := h.spelled
    exact ⟨first ++ front, back, ⟨first, front, ht, hfront, rfl⟩, hback, by simp [hwritten]⟩

theorem vararg {behind : Bool} {mark : List UInt8}
    (hmark : mark = [UInt8.ofNat ElementTag.sentinel] ∨ behind = true ∧ mark = [])
    (ht : t.Spelled first) (h : SpelledParams count true others written) :
    SpelledParams (count + 1) behind (others.1, t :: others.2) (mark ++ (first ++ written)) where
  count := by
    rw [List.length_cons, ← Nat.add_assoc, h.count]
  params _ := h.params rfl
  spelled := by
    obtain ⟨front, back, hfront, hback, hwritten⟩ := h.spelled
    -- behind the sentinel there are no other parameters than variable ones
    have hnone := h.params rfl
    rw [hnone] at hfront ⊢
    obtain rfl : front = [] := hfront
    exact ⟨[], _, rfl, ⟨mark, first, back, hmark, ht, hback, rfl⟩, by simp [hwritten]⟩

end SpelledParams

variable {type : Reader TypeSig}

theorem paramsReader_spells (h : ∀ start, Spells type start TypeSig.Spelled) (count : Nat)
    (behind : Bool) (start : Nat) :
    Spells (paramsReader type count behind) start (SpelledParams count behind) := by
  induction count generalizing behind start with
  | zero => exact .pure ⟨rfl, fun _ => rfl, [], [], rfl, rfl, rfl⟩
  | succ count ih =>
      -- a parameter of which it is known whether it is behind the sentinel
      have hparam (behind' : Bool) (start : Nat) :
          Spells (paramReader type count behind') start fun found written =>
            ∃ t others first last, t.Spelled first ∧ SpelledParams count behind' others last ∧
              found = (if behind' then (others.1, t :: others.2) else (t :: others.1, others.2)) ∧
              written = first ++ last :=
        .bind (h _) fun t first ht => .bind_pure (ih behind' _) fun others last hothers =>
          ⟨t, others, first, last, ht, hothers, rfl, rfl⟩
      rw [paramsReader_succ]
      refine .peek_bind fun lead => ?_
      by_cases hsentinel : lead = ElementTag.sentinel
      · simp only [hsentinel, beq_self_eq_true, if_true, Bool.or_true]
        refine .bind (.skip 1) fun _ mark hmark => (hparam true _).mono ?_
        rintro found written ⟨t, others, first, last, ht, hothers, rfl, rfl⟩ hlead
        obtain ⟨byte, rfl⟩ := List.length_eq_one_iff.1 hmark
        have hbyte : byte = UInt8.ofNat ElementTag.sentinel := by
          rw [← hlead byte rfl, UInt8.ofNat_toNat]
        exact hothers.vararg (.inl (by rw [hbyte])) ht
      · have hnot : (lead == ElementTag.sentinel) = false := beq_false_of_ne hsentinel
        simp only [hnot, Bool.or_false]
        refine (hparam behind start).mono ?_
        rintro found written ⟨t, others, first, last, ht, hothers, rfl, rfl⟩ -
        cases behind with
        | true =>
            have hvararg := hothers.vararg (.inr ⟨rfl, rfl⟩) ht
            exact hvararg
        | false => exact hothers.param ht

theorem reader_spells (h : ∀ start, Spells type start TypeSig.Spelled) (start : Nat) :
    Spells (reader type) start MemberSig.Spelled := by
  refine .bind .byte fun byte first ⟨hbyte, hfirst⟩ => ?_
  subst hfirst
  refine .bind (R := fun convention written => written = [] ∧
    CallingConvention.ofByte byte = .ok convention)
    (.ofExcept fun convention hconvention => ⟨rfl, hconvention⟩) ?_
  rintro convention _ ⟨rfl, hconvention⟩
  rw [← UInt8.toNat_ofNat_of_lt' hbyte] at hconvention
  -- whatever comes first, its count, its result and its parameters follow
  have hcounted (genericParamCount : Nat) (generic : List UInt8) (start : Nat)
      (hfield : convention.kind ≠ .field)
      (hgeneric : if convention.isGeneric then SpelledNumber genericParamCount generic
        else genericParamCount = 0 ∧ generic = []) :
      Spells (countedReader type convention genericParamCount) start fun m behind =>
        m.Spelled (UInt8.ofNat byte :: (generic ++ behind)) := by
    refine .bind spells_number fun count first ⟨n, hcount, hfirst⟩ => ?_
    refine .bind (h _) fun returnType result hresult => ?_
    refine .bind_pure (paramsReader_spells h count false _) fun all behind hall => ?_
    obtain ⟨front, back, hfront, hback, hbehind⟩ := hall.spelled
    refine ⟨_, generic, result, hconvention, hresult, ?_⟩
    rw [if_neg hfield]
    refine ⟨hgeneric, n, front, back, hcount, hall.count.symm, hfront, hback, ?_⟩
    rw [hfirst, hbehind]
  split
  · rename_i hkind
    refine .bind_pure (h _) fun returnType result hresult => ?_
    refine ⟨_, [], result, hconvention, hresult, ?_⟩
    rw [if_pos hkind]
    exact ⟨rfl, rfl, rfl, rfl, rfl⟩
  · exact .throw _
  · exact .throw _
  · rename_i hfield _ _
    refine .ite (fun hgeneric => ?_) fun hgeneric => ?_
    · refine .bind spells_number fun genericParamCount first hfirst => ?_
      refine (hcounted _ first _ hfield ?_).mono fun m behind hm => ?_
      · rw [if_pos hgeneric]
        exact hfirst
      · simpa using hm
    · refine (hcounted 0 [] _ hfield ?_).mono fun m behind hm => ?_
      · rw [if_neg hgeneric]
        exact ⟨rfl, rfl⟩
      · simpa using hm

end MemberSig

theorem TypeBase.reader_spells {inner pointed : Reader TypeSig}
    (hinner : ∀ start, Spells inner start TypeSig.Spelled)
    (hpointed : ∀ start, Spells pointed start TypeSig.Spelled) (tag start : Nat) :
    Spells (reader inner pointed tag) start fun found written =>
      found.1.Spelled found.2 (UInt8.ofNat tag :: written) := by
  unfold reader
  refine .ite (fun htag => ?_) fun _ => ?_
  · subst htag
    refine .bind .remaining fun fuel none hnone => ?_
    subst hnone
    refine .bind (NamedKind.reader_spells 0 _ _) fun kind first ⟨pointers, hpointers, hfirst⟩ => ?_
    refine spells_reference fun r _ => ?_
    refine spells_counted_bind hinner fun arguments second _ harguments => .pure ?_
    obtain ⟨count, behind, hcount, hall, hsecond⟩ := harguments
    obtain ⟨kind, found⟩ := kind
    rw [Nat.zero_add] at hpointers
    subst hpointers hfirst hsecond
    exact ⟨r, count, behind, rfl, hcount, (TypeSig.spelledAll_iff _ _).2 hall, by simp⟩
  split
  · rename_i p hp
    exact .pure ⟨rfl, by rw [Primitive.tag_of_ofTag? hp]⟩
  split
  · rename_i kind hkind
    refine spells_reference fun r _ => .pure ⟨r, rfl, rfl, ?_⟩
    rw [NamedKind.tag_of_ofTag? hkind, List.append_nil]
  refine .ite (fun htag => ?_) fun _ => .ite (fun htag => ?_) fun _ =>
    .ite (fun htag => ?_) fun _ => .ite (fun htag => ?_) fun _ => ?_
  · subst htag
    exact .bind_pure spells_number fun number written ⟨n, hnumber, hwritten⟩ =>
      ⟨n, hnumber, rfl, by rw [hwritten]⟩
  · subst htag
    exact .bind_pure spells_number fun number written ⟨n, hnumber, hwritten⟩ =>
      ⟨n, hnumber, rfl, by rw [hwritten]⟩
  · subst htag
    refine .bind (hinner _) fun element first helement => ?_
    exact .bind_pure (ArrayShape.reader_spells _) fun shape second hshape =>
      ⟨first, second, helement, hshape, rfl, rfl⟩
  · subst htag
    exact .bind_pure (MemberSig.reader_spells hpointed _) fun signature behind hsignature =>
      ⟨behind, hsignature, rfl, rfl⟩
  · exact .bind .position fun _ _ _ => .throw _

theorem TypeSig.readerWith_spells {inner pointed : Reader TypeSig}
    (hinner : ∀ start, Spells inner start Spelled)
    (hpointed : ∀ start, Spells pointed start Spelled) (start : Nat) : Spells (readerWith inner pointed) start Spelled := by
  refine .bind .remaining fun fuel none hnone => ?_
  subst hnone
  refine .bind (TypePrefixes.reader_spells _ _ _) fun prefixes first hprefixes => ?_
  obtain ⟨w, hadd, hlt, hfirst⟩ := hprefixes
  refine .bind_pure (TypeBase.reader_spells hinner hpointed prefixes.2 _)
    fun base behind hbase => ?_
  obtain ⟨hmodifiers, hmarks⟩ := TypePrefixes.addAll?_eq_some_iff.1 hadd
  refine ⟨w, prefixes.1.pointerDepth, base.2, _, hmodifiers.symm, hmarks.symm, rfl, hbase, ?_⟩
  rw [hfirst]
  simp

/-- Whatever bytes are read as a type are one of its forms. -/
theorem TypeSig.reader_spells (limit levels start : Nat) :
    Spells (reader limit levels) start Spelled := by
  induction levels using reader.induct generalizing start with
  | case1 => exact .throw _
  | case2 => exact readerWith_spells (fun _ => .throw _) (fun _ => .throw _) start
  | case3 levels ihinner ihpointed => exact readerWith_spells ihinner ihpointed start

/-! ### Local variables and instantiations -/

/-- A first byte that has to be a certain one, in front of what is read next. -/
theorem spells_marked {α : Type} {r : Reader α} {R S : α → List UInt8 → Prop} {start : Nat}
    (mark : UInt8) (defect : Nat → Defect) (hr : ∀ start, Spells r start R)
    (h : ∀ a behind, R a behind → S a (mark :: behind)) :
    Spells (do
      let first ← Reader.byte
      if first ≠ mark.toNat then Reader.malformed (defect first)
      r) start S := by
  refine .bind .byte fun first written ⟨_, hwritten⟩ => ?_
  subst hwritten
  refine .ite (fun _ => ?_) fun hmark => ?_
  · exact .bind (R := fun _ _ => False) (.throw _) fun _ _ hfalse => hfalse.elim
  · rw [Decidable.not_not.1 hmark, UInt8.ofNat_toNat]
    exact (hr _).mono h

namespace Signature

variable {type : Reader TypeSig}

theorem localReader_spells (h : ∀ start, Spells type start TypeSig.Spelled) (start : Nat) :
    Spells (localReader type) start SpelledLocal := by
  refine .bind .remaining fun fuel none hnone => ?_
  subst hnone
  refine .bind (CustomModifier.listReader_spells _ _) fun modifiers first hlist => ?_
  obtain ⟨w, hw, rfl, rfl⟩ := hlist
  refine .peek_bind fun lead => ?_
  by_cases hpinned : lead = ElementTag.pinned
  · simp only [hpinned, beq_self_eq_true, if_true]
    refine .bind (.skip 1) fun _ mark hmark => .bind_pure (h _) fun t behind ht hlead => ?_
    obtain ⟨byte, rfl⟩ := List.length_eq_one_iff.1 hmark
    have hbyte : byte = UInt8.ofNat ElementTag.pinned := by
      rw [← hlead byte rfl, UInt8.ofNat_toNat]
    exact ⟨w, t, behind, hw, ht, rfl, by rw [hbyte]; rfl⟩
  · have hnot : (lead == ElementTag.pinned) = false := beq_false_of_ne hpinned
    simp only [hnot]
    exact .bind_pure (h _) fun t behind ht _ => ⟨w, t, behind, hw, ht, rfl, rfl⟩

theorem localsReader_spells (h : ∀ start, Spells type start TypeSig.Spelled) (start : Nat) :
    Spells (localsReader type) start SpelledLocals :=
  spells_marked 0x07 _ (fun _ => spells_counted (localReader_spells h)) fun _ behind hall =>
    ⟨behind, hall, rfl⟩

theorem instantiationReader_spells (h : ∀ start, Spells type start TypeSig.Spelled) (start : Nat) :
    Spells (instantiationReader type) start SpelledInstantiation :=
  spells_marked 0x0A _ (fun _ => spells_counted h) fun _ behind hall => ⟨behind, hall, rfl⟩

end Signature

end CliMeta
