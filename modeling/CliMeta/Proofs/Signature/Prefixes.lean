import CliMeta.Proofs.Signature.Grammar
import CliMeta.Proofs.Signature.Nesting
import CliMeta.Proofs.Signature.Reading

/-!
The bytes that are read as a type, from the outside in: any sequence of prefixes, each modifier with
its reference in any form that can be decoded, and a base. Reading follows the prefixes one by one.
It ends with the type if their marks are a word of the grammar, and otherwise at the first mark with
which they leave it.
-/

namespace CliMeta

open Reader

/-! ### Written forms -/

/-- A number as it is written in one of the widths that hold it. -/
structure WrittenNumber where
  value : Nat
  width : Nat
  isWidth : IsCompressedWidth width
  fits : value < 1 <<< payloadBits width

/-- A reference to a type as it is written. -/
structure WrittenReference extends WrittenNumber where
  type : RowReference
  decoded : CodedCategory.typeDefOrRef.decode value = .ok type

/-- A prefix as it is written. -/
inductive WrittenPrefix where
  | modifier (required : Bool) (type : WrittenReference)
  | mark (m : PrefixMark)

/-- A base as it is written. In a generic instance pointers may stand in front of the named type,
and the arguments are primitive. -/
inductive WrittenBase where
  | primitive (p : Primitive)
  | named (kind : NamedKind) (type : WrittenReference)
  | typeParameter (number : WrittenNumber)
  | methodParameter (number : WrittenNumber)
  | genericInstance (pointers : Nat) (kind : NamedKind) (type : WrittenReference)
      (count : WrittenNumber) (arguments : List Primitive)
      (counted : count.value = arguments.length)

namespace WrittenNumber

def bytes (n : WrittenNumber) : List UInt8 :=
  compressedIn n.width n.value

theorem reads (n : WrittenNumber) : Reads Reader.compressed n.bytes n.value :=
  .compressedIn n.isWidth n.fits

end WrittenNumber

/-- A written reference in front of what is read next. -/
theorem WrittenReference.reads {α : Type} (r : WrittenReference) {f : RowReference → Reader α}
    {written : List UInt8} {a : α} (hf : Reads (f r.type) written a) :
    Reads (do
      let raw ← Reader.compressed
      let type ← Reader.ofExcept (CodedCategory.typeDefOrRef.decode raw)
      f type) (r.bytes ++ written) a :=
  r.toWrittenNumber.reads.bind ((Reads.ofExcept r.decoded).bind_nil hf)

namespace WrittenPrefix

variable {w : List WrittenPrefix}

/-- The modifier that a written one stands for. -/
def modifier? : WrittenPrefix → Option CustomModifier
  | .modifier required type => some ⟨required, type.type⟩
  | .mark _ => none

def mark? : WrittenPrefix → Option PrefixMark
  | .modifier _ _ => none
  | .mark m => some m

def modifiers (w : List WrittenPrefix) : List CustomModifier :=
  w.filterMap modifier?

/-- The marks of a sequence, with the modifiers left out. -/
def marks (w : List WrittenPrefix) : List PrefixMark :=
  w.filterMap mark?

@[simp] theorem modifiers_nil : modifiers [] = [] := rfl

@[simp] theorem marks_nil : marks [] = [] := rfl

theorem modifiers_cons (required : Bool) (type : WrittenReference) :
    modifiers (.modifier required type :: w) = [⟨required, type.type⟩] ++ modifiers w := rfl

theorem marks_cons (m : PrefixMark) : marks (.mark m :: w) = [m] ++ marks w := rfl

def bytes : WrittenPrefix → List UInt8
  | .modifier required type => UInt8.ofNat (CustomModifier.mk required type.type).tag :: type.bytes
  | .mark m => [UInt8.ofNat m.tag]

def allBytes (w : List WrittenPrefix) : List UInt8 :=
  w.flatMap bytes

/-- A sequence leaves the grammar with a mark behind a part of it that is still within. -/
structure LeavesGrammar (w before : List WrittenPrefix) (m : PrefixMark) : Prop where
  front : before ++ [.mark m] <+: w
  within : marks before ∈ PrefixMark.grammar.matches'
  beyond : marks before ++ [m] ∉ PrefixMark.grammar.matches'

end WrittenPrefix

/-- A type without prefixes. -/
def TypeSig.bare (base : TypeBase) : TypeSig :=
  ⟨[], false, 0, 0, base⟩

namespace WrittenBase

/-- The base that is read. -/
def value : WrittenBase → TypeBase
  | .primitive p => .primitive p
  | .named kind type => .named kind type.type
  | .typeParameter number => .typeParameter number.value
  | .methodParameter number => .methodParameter number.value
  | .genericInstance _ kind type _ arguments _ =>
      .genericInstance kind type.type (arguments.map fun p => .bare (.primitive p))

/-- The pointers that stand within the base. -/
def pointers : WrittenBase → Nat
  | .genericInstance pointers .. => pointers
  | _ => 0

/-- The bytes behind the first tag. -/
def payload : WrittenBase → List UInt8
  | .primitive _ => []
  | .named _ type => type.bytes
  | .typeParameter number | .methodParameter number => number.bytes
  | .genericInstance pointers kind type count arguments _ =>
      List.replicate pointers (UInt8.ofNat ElementTag.ptr) ++ [UInt8.ofNat kind.tag] ++
        (type.bytes ++ (count.bytes ++ arguments.map fun p => UInt8.ofNat p.tag))

def bytes (base : WrittenBase) : List UInt8 :=
  UInt8.ofNat base.value.leadTag :: base.payload

end WrittenBase

/-! ### Prefixes -/

namespace TypePrefixes

variable {p q : TypePrefixes} {w : List WrittenPrefix}

/-- Adds what is written next. -/
def addNext? (p : TypePrefixes) : WrittenPrefix → Option TypePrefixes
  | .modifier required type =>
      some { p with modifiers := p.modifiers ++ [⟨required, type.type⟩] }
  | .mark m => p.add? m.tag

def addAll? (p : TypePrefixes) (w : List WrittenPrefix) : Option TypePrefixes :=
  w.foldlM addNext? p

theorem addAll?_cons (p : TypePrefixes) (next : WrittenPrefix) (w : List WrittenPrefix) :
    p.addAll? (next :: w) = (p.addNext? next).bind (addAll? · w) :=
  List.foldlM_cons

/-- Adding prefixes appends modifiers to modifiers and marks to marks, as long as the marks are a
word of the grammar. -/
theorem addAll?_eq_some_iff :
    p.addAll? w = some q ↔
      q.modifiers = p.modifiers ++ WrittenPrefix.modifiers w ∧
        q.marks = p.marks ++ WrittenPrefix.marks w := by
  induction w generalizing p with
  | nil =>
      have hnil : p.addAll? [] = some q ↔ p = q := Option.some_inj
      simp only [hnil, WrittenPrefix.modifiers_nil, WrittenPrefix.marks_nil, List.append_nil]
      constructor
      · rintro rfl
        exact ⟨rfl, rfl⟩
      · rintro ⟨hmodifiers, hmarks⟩
        exact (eq_of_marks hmodifiers hmarks).symm
  | cons next w ih =>
      rw [addAll?_cons, Option.bind_eq_some_iff]
      cases next with
      | modifier required type =>
          rw [WrittenPrefix.modifiers_cons, ← List.append_assoc]
          constructor
          · rintro ⟨p', hadd, hall⟩
            cases hadd
            exact ih.1 hall
          · intro h
            exact ⟨_, rfl, ih.2 h⟩
      | mark m =>
          rw [WrittenPrefix.marks_cons, ← List.append_assoc]
          constructor
          · rintro ⟨p', hadd, hall⟩
            obtain ⟨hmodifiers, hmarks⟩ := add?_eq_some hadd
            rw [← hmodifiers, ← hmarks]
            exact ih.1 hall
          -- the word up to the mark begins the whole word, so the mark could be added
          · rintro ⟨hmodifiers, hmarks⟩
            have hword : p.marks ++ [m] ∈ PrefixMark.grammar.matches' :=
              mem_grammar_of_append (mem_grammar_iff.2 ⟨q, hmarks⟩)
            refine ⟨_, add?_of_mem hword, ih.2 ⟨hmodifiers, ?_⟩⟩
            rw [marks_counted hword]
            exact hmarks

/-- All the prefixes of a sequence can be added if their marks are a word of the grammar. -/
theorem addAll?_none (h : WrittenPrefix.marks w ∈ PrefixMark.grammar.matches') :
    none.addAll? w =
      some (counted (WrittenPrefix.modifiers w) (WrittenPrefix.marks w)) :=
  addAll?_eq_some_iff.2 ⟨rfl, marks_counted h _⟩

theorem mem_grammar_of_addAll? (h : none.addAll? w = some q) :
    WrittenPrefix.marks w ∈ PrefixMark.grammar.matches' :=
  mem_grammar_iff.2 ⟨q, (addAll?_eq_some_iff.1 h).2⟩

/-- If not all prefixes can be added, there is a first mark that cannot. -/
theorem exists_refused (h : p.addAll? w = Option.none) :
    ∃ before m behind p', w = before ++ .mark m :: behind ∧ p.addAll? before = some p' ∧
      p'.add? m.tag = Option.none := by
  induction w generalizing p with
  | nil => cases h
  | cons next w ih =>
      rw [addAll?_cons] at h
      cases hnext : p.addNext? next with
      | none =>
          cases next with
          | modifier required type => cases hnext
          | mark m => exact ⟨[], m, w, p, rfl, rfl, hnext⟩
      | some p' =>
          rw [hnext] at h
          obtain ⟨before, m, behind, last, rfl, hbefore, hrefused⟩ := ih h
          refine ⟨next :: before, m, behind, last, rfl, ?_, hrefused⟩
          rw [addAll?_cons, hnext]
          exact hbefore

/-! ### Reading prefixes -/

variable {data : Bytes} {position fuel : Nat} {rest : List UInt8}

/-- Reading moves on behind a prefix that can be added. -/
theorem reader_addNext {next : WrittenPrefix} (hnext : p.addNext? next = some q)
    (hstands : StandsAt data position next.bytes rest) (hfuel : data.size - position ≤ fuel) :
    ∃ less, data.size - (position + next.bytes.length) ≤ less ∧
      p.reader fuel data position = q.reader less data (position + next.bytes.length) := by
  cases next with
  | modifier required type =>
      cases hnext
      have hform : Reads (CustomModifier.reader (CustomModifier.mk required type.type).tag)
          (type.bytes ++ []) ⟨_ == ElementTag.requiredModifier, type.type⟩ := type.reads (.pure _)
      rw [CustomModifier.tag_eq_required, List.append_nil] at hform
      rw [WrittenPrefix.bytes, List.length_cons, Nat.add_comm type.bytes.length, ← Nat.add_assoc]
      exact reader_at_modifier hform hstands hfuel
  | mark m =>
      obtain ⟨less, hless, hread⟩ := reader_at_mark (p := p) m.tag_lt m.not_modifier m.isTag_tag
        hstands hfuel
      refine ⟨less, hless, ?_⟩
      rw [hread, show p.add? m.tag = some q from hnext]
      rfl

/-- Reading moves on behind prefixes that can all be added. -/
theorem reader_addAll (hall : p.addAll? w = some q)
    (hstands : StandsAt data position (WrittenPrefix.allBytes w) rest)
    (hfuel : data.size - position ≤ fuel) :
    ∃ less, data.size - (position + (WrittenPrefix.allBytes w).length) ≤ less ∧
      p.reader fuel data position =
        q.reader less data (position + (WrittenPrefix.allBytes w).length) := by
  induction w generalizing p position fuel with
  | nil =>
      cases hall
      exact ⟨fuel, hfuel, rfl⟩
  | cons next w ih =>
      rw [addAll?_cons] at hall
      obtain ⟨p', hnext, hothers⟩ := Option.bind_eq_some_iff.1 hall
      have hbytes : WrittenPrefix.allBytes (next :: w) =
          next.bytes ++ WrittenPrefix.allBytes w := List.flatMap_cons
      rw [hbytes] at hstands
      obtain ⟨less, hless, hread⟩ := reader_addNext hnext hstands.front hfuel
      rw [hread, hbytes, List.length_append, ← Nat.add_assoc]
      exact ih hothers hstands.behind hless

/-- Prefixes whose marks are a word of the grammar are read, with the first tag behind them. -/
theorem reader_reads_written (h : WrittenPrefix.marks w ∈ PrefixMark.grammar.matches') {tag : Nat}
    (htag : IsBaseTag tag) :
    ReadsFueled none.reader (WrittenPrefix.allBytes w ++ [UInt8.ofNat tag])
      (counted (WrittenPrefix.modifiers w) (WrittenPrefix.marks w), tag) := by
  intro data position rest fuel hstands hfuel
  obtain ⟨less, hless, hread⟩ := reader_addAll (addAll?_none h) hstands.front hfuel
  rw [hread, reads_tag htag data _ rest less hstands.behind hless, List.length_append,
    Nat.add_assoc]

/-- Other prefixes are refused at the first mark with which they leave the grammar. -/
theorem reader_refuses (h : WrittenPrefix.marks w ∉ PrefixMark.grammar.matches')
    (hstands : StandsAt data position (WrittenPrefix.allBytes w) rest)
    (hfuel : data.size - position ≤ fuel) :
    ∃ before m stop, WrittenPrefix.LeavesGrammar w before m ∧
      none.reader fuel data position =
        .error (.malformed (.typePrefixOrder m.tag
          (position + (WrittenPrefix.allBytes before).length))) stop := by
  have hnone : none.addAll? w = Option.none :=
    Option.eq_none_iff_forall_ne_some.2 fun q hall => h (mem_grammar_of_addAll? hall)
  obtain ⟨before, m, behind, p, rfl, hbefore, hrefused⟩ := exists_refused hnone
  have hleaves : WrittenPrefix.LeavesGrammar (before ++ .mark m :: behind) before m := by
    refine ⟨⟨behind, by simp⟩, mem_grammar_of_addAll? hbefore, fun hword => ?_⟩
    have hmarks : p.marks = WrittenPrefix.marks before := (addAll?_eq_some_iff.1 hbefore).2
    rw [← hmarks] at hword
    rw [add?_of_mem hword] at hrefused
    cases hrefused
  have hbytes : WrittenPrefix.allBytes (before ++ .mark m :: behind) =
      WrittenPrefix.allBytes before ++ (UInt8.ofNat m.tag :: WrittenPrefix.allBytes behind) :=
    List.flatMap_append
  rw [hbytes] at hstands
  obtain ⟨less, hless, hread⟩ := reader_addAll hbefore hstands.front hfuel
  obtain ⟨_, -, hmark⟩ := reader_at_mark (p := p) m.tag_lt m.not_modifier m.isTag_tag
    hstands.behind hless
  rw [hrefused] at hmark
  exact ⟨before, m, _, hleaves, hread.trans hmark⟩

end TypePrefixes

/-! ### Bases -/

/-- The pointers in front of the kind of a generic type are counted. -/
theorem NamedKind.reader_reads_pointers (k : NamedKind) (already pointers : Nat) :
    ReadsFueled (NamedKind.reader already)
      (List.replicate pointers (UInt8.ofNat ElementTag.ptr) ++ [UInt8.ofNat k.tag])
      (k, already + pointers) := by
  induction pointers generalizing already with
  | zero => exact k.reader_reads already
  | succ pointers ih =>
      intro data position rest fuel hstands hfuel
      rw [List.replicate_succ, List.cons_append] at hstands
      obtain ⟨less, rfl, hless⟩ := hstands.exists_fuel hfuel
      rw [NamedKind.reader, bind_of_ok (byte_inside hstands.inside),
        hstands.byteAt_ofNat (by decide), if_pos rfl, ih _ data _ rest less hstands.tail hless]
      simp
      omega

theorem TypeSig.reads_primitives {r : Reader TypeSig} (arguments : List Primitive)
    (hr : ∀ p : Primitive, Reads r [UInt8.ofNat p.tag] (.bare (.primitive p))) :
    Reads (Reader.times r arguments.length) (arguments.map fun p => UInt8.ofNat p.tag)
      (arguments.map fun p => .bare (.primitive p)) := by
  induction arguments with
  | nil => exact .pure _
  | cons p arguments ih => exact (hr p).bind (ih.bind_pure (.pure _))

/-- What follows the first tag of a base is read with readers of the types inside it, of which only
primitive ones are needed. -/
theorem WrittenBase.reads {inner pointed : Reader TypeSig} (base : WrittenBase)
    (hinner : ∀ p : Primitive, Reads inner [UInt8.ofNat p.tag] (.bare (.primitive p))) :
    Reads (TypeBase.reader inner pointed base.value.leadTag) base.payload
      (base.value, base.pointers) := by
  cases base with
  | primitive p => exact TypeBase.reads_primitive inner pointed p
  | named kind type =>
      have hread : Reads (TypeBase.reader inner pointed kind.tag) (type.bytes ++ [])
          (.named kind type.type, 0) := by
        cases kind <;> exact type.reads (.pure _)
      rw [List.append_nil] at hread
      exact hread
  | typeParameter number => exact number.reads.bind_pure (.pure _)
  | methodParameter number => exact number.reads.bind_pure (.pure _)
  | genericInstance pointers kind type count arguments counted =>
      have harguments := TypeSig.reads_primitives arguments hinner
      rw [← counted] at harguments
      have hread : Reads (TypeBase.reader inner pointed ElementTag.genericInstance)
          (WrittenBase.payload (.genericInstance pointers kind type count arguments counted))
          (.genericInstance kind type.type (arguments.map fun p => .bare (.primitive p)),
            0 + pointers) :=
        (kind.reader_reads_pointers 0 pointers).bind
          (type.reads (count.reads.bind (harguments.bind_pure (.pure _))))
      rw [Nat.zero_add] at hread
      exact hread

/-! ### Types -/

/-- The bytes of a type: its prefixes and its base. -/
def writtenType (w : List WrittenPrefix) (base : WrittenBase) : List UInt8 :=
  WrittenPrefix.allBytes w ++ base.bytes

namespace TypeSig

theorem reads_primitive (limit levels : Nat) (p : Primitive) :
    Reads (reader limit (levels + 1)) [UInt8.ofNat p.tag] (.bare (.primitive p)) := by
  have hprimitive : (bare (.primitive p)).encode = [UInt8.ofNat p.tag] := encode_eq _
  rw [← hprimitive]
  refine reader_reads limit (levels + 1) ?_ ?_
  · exact ⟨List.forall_mem_nil _, trivial⟩
  · have hflat : (bare (.primitive p)).base.nesting = 0 := rfl
    rw [nesting_eq, hflat]
    exact Nat.le_add_left 1 levels

variable {inner pointed : Reader TypeSig} {w : List WrittenPrefix}

theorem readerWith_reads_written (h : WrittenPrefix.marks w ∈ PrefixMark.grammar.matches')
    (base : WrittenBase)
    (hinner : ∀ p : Primitive, Reads inner [UInt8.ofNat p.tag] (.bare (.primitive p))) :
    Reads (readerWith inner pointed) (writtenType w base)
      { modifiers := WrittenPrefix.modifiers w
        byRef := PrefixMark.byRef ∈ WrittenPrefix.marks w
        arrayRank := (WrittenPrefix.marks w).count .szArray
        pointerDepth := (WrittenPrefix.marks w).count .ptr + base.pointers
        base := base.value } := by
  have hprefixes := TypePrefixes.reader_reads_written h base.value.isBaseTag_leadTag
  have hbase : Reads (TypeBase.reader inner pointed base.value.leadTag) base.payload
      (base.value, base.pointers) := base.reads hinner
  rw [writtenType, WrittenBase.bytes, List.append_cons]
  exact hprefixes.bind (hbase.bind_pure (.pure _))

theorem readerWith_refuses (h : WrittenPrefix.marks w ∉ PrefixMark.grammar.matches') {data : Bytes}
    {position : Nat} {rest : List UInt8}
    (hstands : StandsAt data position (WrittenPrefix.allBytes w) rest) :
    ∃ before m stop, WrittenPrefix.LeavesGrammar w before m ∧
      readerWith inner pointed data position =
        .error (.malformed (.typePrefixOrder m.tag
          (position + (WrittenPrefix.allBytes before).length))) stop := by
  obtain ⟨before, m, stop, hleaves, hread⟩ :=
    TypePrefixes.reader_refuses h hstands (Nat.le_refl _)
  refine ⟨before, m, stop, hleaves, ?_⟩
  rw [readerWith, remaining_bind]
  exact bind_of_error hread _

end TypeSig

/-- Whatever prefixes are written in front of a base, the type is decoded if and only if their
marks are a word of the grammar. It has the modifiers in their order and the numbers of the marks,
where the pointers within the base count too. Any other sequence is malformed, and the error names
the first mark with which it leaves the grammar. -/
theorem Signature.decodeType_written (w : List WrittenPrefix) (base : WrittenBase) {limit : Nat}
    (h : 2 ≤ limit) :
    (WrittenPrefix.marks w ∈ PrefixMark.grammar.matches' →
      decodeType limit (writtenType w base).toArray = .ok
        { modifiers := WrittenPrefix.modifiers w
          byRef := PrefixMark.byRef ∈ WrittenPrefix.marks w
          arrayRank := (WrittenPrefix.marks w).count .szArray
          pointerDepth := (WrittenPrefix.marks w).count .ptr + base.pointers
          base := base.value }) ∧
      (WrittenPrefix.marks w ∉ PrefixMark.grammar.matches' →
        ∃ before m, WrittenPrefix.LeavesGrammar w before m ∧
          decodeType limit (writtenType w base).toArray =
            .error (.malformed (.typePrefixOrder m.tag
              (WrittenPrefix.allBytes before).length))) := by
  obtain ⟨levels, rfl⟩ : ∃ levels, limit = levels + 2 := ⟨limit - 2, by omega⟩
  rw [decodeType, TypeSig.reader_succ]
  constructor
  · intro hword
    exact (TypeSig.readerWith_reads_written hword base
      (TypeSig.reads_primitive (levels + 2) levels)).complete
  · intro hword
    have hstands : StandsAt (writtenType w base).toArray 0 (WrittenPrefix.allBytes w) base.bytes :=
      ⟨Nat.zero_le _, rfl⟩
    obtain ⟨before, m, stop, hleaves, hread⟩ := TypeSig.readerWith_refuses hword hstands
    rw [Nat.zero_add] at hread
    exact ⟨before, m, hleaves, complete_of_malformed hread⟩

/-- A reference to the second row of `TypeRef`, in two bytes. -/
def secondTypeRef : WrittenReference where
  value := 0x09
  width := 2
  isWidth := .inr (.inl rfl)
  fits := by decide
  type := ⟨.typeDefOrRef, some ⟨.typeRef, 1⟩⟩
  decoded := rfl

/-- Pointers on both sides of the tag of a generic instance, and prefixes out of order. -/
theorem Signature.decodeType_written_pointers :
    2 ≤ 2 ∧
      decodeType 2 #[0x10, 0x1F, 0x80, 0x09, 0x1D, 0x0F, 0x15, 0x0F, 0x12, 0x80, 0x09, 0x01, 0x08] =
        .ok
          { modifiers := [⟨true, secondTypeRef.type⟩]
            byRef := true
            arrayRank := 1
            pointerDepth := 2
            base := .genericInstance .referenceType secondTypeRef.type
              [.bare (.primitive .i4)] } ∧
      ∃ before m, WrittenPrefix.LeavesGrammar [.mark .ptr, .mark .szArray] before m ∧
        decodeType 2 #[0x0F, 0x1D, 0x08] =
          .error (.malformed (.typePrefixOrder m.tag (WrittenPrefix.allBytes before).length)) := by
  refine ⟨Nat.le_refl 2, ?_, ?_⟩
  · exact (decodeType_written
      [.mark .byRef, .modifier true secondTypeRef, .mark .szArray, .mark .ptr]
      (.genericInstance 1 .referenceType secondTypeRef ⟨1, 1, .inl rfl, by decide⟩ [.i4] rfl)
      (Nat.le_refl 2)).1 (by decide)
  · exact (decodeType_written [.mark .ptr, .mark .szArray] (.primitive .i4) (Nat.le_refl 2)).2
      (by decide)

end CliMeta
