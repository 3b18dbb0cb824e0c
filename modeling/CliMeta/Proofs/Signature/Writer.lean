import CliMeta.Proofs.Reader.Compressed
import CliMeta.Proofs.Table.Coded
import CliMeta.Signature.Decoder

/-!
The canonical form of signatures. Every signature that is well formed has one form as bytes: numbers
take the least width, prefixes stand in the order modifiers, reference, arrays, pointers, the
pointers of a generic instance in front of it, and one sentinel in front of the first variable
argument.
-/

namespace CliMeta

/-! ### References and prefixes -/

/-- A reference to a type that fits a compressed number. -/
def RowReference.IsType (r : RowReference) : Prop :=
  r.category = .typeDefOrRef ∧ ∃ raw, r.raw? = some raw ∧ raw ≤ maxCompressed

instance (r : RowReference) : Decidable r.IsType :=
  match h : r.raw? with
  | some raw => decidable_of_iff (r.category = .typeDefOrRef ∧ raw ≤ maxCompressed)
      (by simp [RowReference.IsType, h])
  | none => isFalse (by simp [RowReference.IsType, h])

def RowReference.encode (r : RowReference) : List UInt8 :=
  compressedBytes (r.raw?.getD 0)

namespace CustomModifier

def tag (m : CustomModifier) : Nat :=
  if m.required then ElementTag.requiredModifier else ElementTag.optionalModifier

def encode (m : CustomModifier) : List UInt8 :=
  UInt8.ofNat m.tag :: m.type.encode

def encodeAll (modifiers : List CustomModifier) : List UInt8 :=
  modifiers.flatMap encode

end CustomModifier

def TypePrefixes.encode (p : TypePrefixes) : List UInt8 :=
  CustomModifier.encodeAll p.modifiers ++
    (if p.byRef then [UInt8.ofNat ElementTag.byRef] else []) ++
    List.replicate p.arrayRank (UInt8.ofNat ElementTag.szArray) ++
    List.replicate p.pointerDepth (UInt8.ofNat ElementTag.ptr)

/-! ### Array shapes -/

namespace ArrayShape

def encode (s : ArrayShape) : List UInt8 :=
  compressedBytes s.rank ++
    (compressedBytes s.sizes.length ++ s.sizes.flatMap compressedBytes) ++
    (compressedBytes s.lowerBounds.length ++ s.lowerBounds.flatMap compressedSignedBytes)

structure WellFormed (s : ArrayShape) : Prop where
  rank : s.rank ≤ maxCompressed
  sizes_length : s.sizes.length ≤ maxCompressed
  sizes : ∀ size ∈ s.sizes, size ≤ maxCompressed
  lowerBounds_length : s.lowerBounds.length ≤ maxCompressed
  lowerBounds : ∀ bound ∈ s.lowerBounds, Reader.FitsSigned 29 bound

instance (s : ArrayShape) : Decidable s.WellFormed :=
  decidable_of_iff (s.rank ≤ maxCompressed ∧ s.sizes.length ≤ maxCompressed ∧
      (∀ size ∈ s.sizes, size ≤ maxCompressed) ∧ s.lowerBounds.length ≤ maxCompressed ∧
      ∀ bound ∈ s.lowerBounds, Reader.FitsSigned 29 bound)
    ⟨fun ⟨h₁, h₂, h₃, h₄, h₅⟩ => ⟨h₁, h₂, h₃, h₄, h₅⟩, fun h =>
      ⟨h.rank, h.sizes_length, h.sizes, h.lowerBounds_length, h.lowerBounds⟩⟩

end ArrayShape

/-! ### Calling conventions -/

/-- The flags have no bits but those with a name, and the kind is that of a field, a method or a
property. -/
structure CallingConvention.WellFormed (c : CallingConvention) : Prop where
  flags : c.flags.truncate = c.flags
  not_locals : c.kind ≠ .localSig
  not_instantiation : c.kind ≠ .genericInst

instance (c : CallingConvention) : Decidable c.WellFormed :=
  decidable_of_iff (c.flags.truncate = c.flags ∧ c.kind ≠ .localSig ∧ c.kind ≠ .genericInst)
    ⟨fun ⟨h₁, h₂, h₃⟩ => ⟨h₁, h₂, h₃⟩, fun h => ⟨h.flags, h.not_locals, h.not_instantiation⟩⟩

/-! ### Types and members -/

/-- The tag that comes first: an instance of a generic type has one of its own. -/
def TypeBase.leadTag : TypeBase → Nat
  | .genericInstance .. => ElementTag.genericInstance
  | base => base.tag

mutual

def TypeSig.encode : TypeSig → List UInt8
  | ⟨modifiers, byRef, arrayRank, pointerDepth, base⟩ =>
      TypePrefixes.encode ⟨modifiers, byRef, arrayRank, pointerDepth⟩ ++
        (UInt8.ofNat base.leadTag :: base.payload)

/-- What belongs to a base behind its first tag. -/
def TypeBase.payload : TypeBase → List UInt8
  | .primitive _ => []
  | .named _ type => type.encode
  | .genericInstance kind type arguments =>
      UInt8.ofNat kind.tag ::
        (type.encode ++ (compressedBytes arguments.length ++ TypeSig.encodeAll arguments))
  | .typeParameter number | .methodParameter number => compressedBytes number
  | .array element shape => element.encode ++ shape.encode
  | .functionPointer signature => signature.encode

def MemberSig.encode : MemberSig → List UInt8
  | ⟨convention, genericParamCount, argumentCount, returnType, params, varargs⟩ =>
      UInt8.ofNat convention.toByte ::
        if convention.kind = .field then returnType.encode
        else
          (if convention.isGeneric then compressedBytes genericParamCount else []) ++
            (compressedBytes argumentCount ++
              (returnType.encode ++ (TypeSig.encodeAll params ++ TypeSig.encodeVarargs varargs)))

def TypeSig.encodeAll : List TypeSig → List UInt8
  | [] => []
  | t :: others => t.encode ++ TypeSig.encodeAll others

/-- Variable arguments have a sentinel in front of the first one. -/
def TypeSig.encodeVarargs : List TypeSig → List UInt8
  | [] => []
  | t :: others => UInt8.ofNat ElementTag.sentinel :: (t.encode ++ TypeSig.encodeAll others)

end

mutual

/-- How deep types are nested: a type counts one more than the types inside it, and a function
pointer is a level of its own. -/
def TypeSig.nesting : TypeSig → Nat
  | ⟨_, _, _, _, base⟩ => 1 + base.nesting

def TypeBase.nesting : TypeBase → Nat
  | .primitive _ | .named _ _ | .typeParameter _ | .methodParameter _ => 0
  | .genericInstance _ _ arguments => TypeSig.nestingAll arguments
  | .array element _ => element.nesting
  | .functionPointer signature => 1 + signature.nesting

def MemberSig.nesting : MemberSig → Nat
  | ⟨_, _, _, returnType, params, varargs⟩ =>
      max returnType.nesting (max (TypeSig.nestingAll params) (TypeSig.nestingAll varargs))

def TypeSig.nestingAll : List TypeSig → Nat
  | [] => 0
  | t :: others => max t.nesting (TypeSig.nestingAll others)

end

mutual

def TypeSig.WellFormed : TypeSig → Prop
  | ⟨modifiers, _, _, _, base⟩ => (∀ m ∈ modifiers, m.type.IsType) ∧ base.WellFormed

def TypeBase.WellFormed : TypeBase → Prop
  | .primitive _ => True
  | .named _ type => type.IsType
  | .genericInstance _ type arguments =>
      type.IsType ∧ arguments.length ≤ maxCompressed ∧ TypeSig.AllWellFormed arguments
  | .typeParameter number | .methodParameter number => number ≤ maxCompressed
  | .array element shape => element.WellFormed ∧ shape.WellFormed
  | .functionPointer signature => signature.WellFormed

/-- The parameters are as many as are declared. A field has nothing but its type; only where the
convention is generic, generic parameters are counted. -/
def MemberSig.WellFormed : MemberSig → Prop
  | ⟨convention, genericParamCount, argumentCount, returnType, params, varargs⟩ =>
      convention.WellFormed ∧ argumentCount = params.length + varargs.length ∧
        (convention.kind = .field → argumentCount = 0) ∧
        (convention.kind = .field ∨ convention.isGeneric = false → genericParamCount = 0) ∧
        genericParamCount ≤ maxCompressed ∧ argumentCount ≤ maxCompressed ∧
        returnType.WellFormed ∧ TypeSig.AllWellFormed params ∧ TypeSig.AllWellFormed varargs

def TypeSig.AllWellFormed : List TypeSig → Prop
  | [] => True
  | t :: others => t.WellFormed ∧ TypeSig.AllWellFormed others

end

mutual

def TypeSig.decideWellFormed : (t : TypeSig) → Decidable t.WellFormed
  | ⟨modifiers, _, _, _, base⟩ =>
      have := base.decideWellFormed
      inferInstanceAs (Decidable ((∀ m ∈ modifiers, m.type.IsType) ∧ base.WellFormed))

def TypeBase.decideWellFormed : (base : TypeBase) → Decidable base.WellFormed
  | .primitive _ => inferInstanceAs (Decidable True)
  | .named _ type => inferInstanceAs (Decidable type.IsType)
  | .genericInstance _ type arguments =>
      have := TypeSig.decideAllWellFormed arguments
      inferInstanceAs (Decidable (type.IsType ∧ arguments.length ≤ maxCompressed ∧
        TypeSig.AllWellFormed arguments))
  | .typeParameter number | .methodParameter number =>
      inferInstanceAs (Decidable (number ≤ maxCompressed))
  | .array element shape =>
      have := element.decideWellFormed
      inferInstanceAs (Decidable (element.WellFormed ∧ shape.WellFormed))
  | .functionPointer signature => signature.decideWellFormed

def MemberSig.decideWellFormed : (m : MemberSig) → Decidable m.WellFormed
  | ⟨convention, genericParamCount, argumentCount, returnType, params, varargs⟩ =>
      have := returnType.decideWellFormed
      have := TypeSig.decideAllWellFormed params
      have := TypeSig.decideAllWellFormed varargs
      inferInstanceAs (Decidable (convention.WellFormed ∧
        argumentCount = params.length + varargs.length ∧
        (convention.kind = .field → argumentCount = 0) ∧
        (convention.kind = .field ∨ convention.isGeneric = false → genericParamCount = 0) ∧
        genericParamCount ≤ maxCompressed ∧ argumentCount ≤ maxCompressed ∧
        returnType.WellFormed ∧ TypeSig.AllWellFormed params ∧ TypeSig.AllWellFormed varargs))

def TypeSig.decideAllWellFormed : (all : List TypeSig) → Decidable (TypeSig.AllWellFormed all)
  | [] => inferInstanceAs (Decidable True)
  | t :: others =>
      have := t.decideWellFormed
      have := TypeSig.decideAllWellFormed others
      inferInstanceAs (Decidable (t.WellFormed ∧ TypeSig.AllWellFormed others))

end

instance (m : MemberSig) : Decidable m.WellFormed :=
  m.decideWellFormed

/-! ### The parts of a form -/

theorem TypeSig.encodeAll_eq (all : List TypeSig) : encodeAll all = all.flatMap encode := by
  induction all with
  | nil => rfl
  | cons t others ih => rw [encodeAll, ih, List.flatMap_cons]

theorem TypeSig.allWellFormed_iff (all : List TypeSig) :
    AllWellFormed all ↔ ∀ t ∈ all, t.WellFormed := by
  induction all with
  | nil => simp [AllWellFormed]
  | cons t others ih => simp [AllWellFormed, ih]

theorem TypeSig.nestingAll_le_iff (all : List TypeSig) (n : Nat) :
    nestingAll all ≤ n ↔ ∀ t ∈ all, t.nesting ≤ n := by
  induction all with
  | nil => simp [nestingAll]
  | cons t others ih => rw [nestingAll, Nat.max_le, List.forall_mem_cons, ih]

theorem TypeSig.encode_eq (t : TypeSig) :
    t.encode = TypePrefixes.encode ⟨t.modifiers, t.byRef, t.arrayRank, t.pointerDepth⟩ ++
      (UInt8.ofNat t.base.leadTag :: t.base.payload) := by
  cases t
  rfl

theorem MemberSig.encode_eq (m : MemberSig) :
    m.encode = UInt8.ofNat m.convention.toByte ::
      if m.convention.kind = .field then m.returnType.encode
      else
        (if m.convention.isGeneric then compressedBytes m.genericParamCount else []) ++
          (compressedBytes m.argumentCount ++ (m.returnType.encode ++
            (TypeSig.encodeAll m.params ++ TypeSig.encodeVarargs m.varargs))) := by
  cases m
  rfl

theorem TypeSig.nesting_eq (t : TypeSig) : t.nesting = 1 + t.base.nesting := by
  cases t
  rfl

/-! ### Whole signatures -/

namespace Signature

/-- The modifiers of a variable stand in front of the mark of a pinned one. -/
def encodeLocal (v : LocalVariable) : List UInt8 :=
  CustomModifier.encodeAll v.type.modifiers ++
    (if v.pinned then [UInt8.ofNat ElementTag.pinned] else []) ++
    TypeSig.encode { v.type with modifiers := [] }

def encodeLocals (entries : List LocalVariable) : List UInt8 :=
  0x07 :: (compressedBytes entries.length ++ entries.flatMap encodeLocal)

def encodeInstantiation (arguments : List TypeSig) : List UInt8 :=
  0x0A :: (compressedBytes arguments.length ++ arguments.flatMap TypeSig.encode)

def encodeStandalone : StandaloneSig → List UInt8
  | .locals entries => encodeLocals entries
  | .method signature => signature.encode

/-! ### What a limit on the nesting admits -/

def TypeWithin (limit : Nat) (t : TypeSig) : Prop :=
  t.WellFormed ∧ t.nesting ≤ limit

def MemberWithin (limit : Nat) (m : MemberSig) : Prop :=
  m.WellFormed ∧ m.nesting ≤ limit

def LocalsWithin (limit : Nat) (entries : List LocalVariable) : Prop :=
  entries.length ≤ maxCompressed ∧ ∀ v ∈ entries, TypeWithin limit v.type

def InstantiationWithin (limit : Nat) (arguments : List TypeSig) : Prop :=
  arguments.length ≤ maxCompressed ∧ ∀ t ∈ arguments, TypeWithin limit t

def StandaloneWithin (limit : Nat) : StandaloneSig → Prop
  | .locals entries => LocalsWithin limit entries
  | .method signature => MemberWithin limit signature

end Signature

end CliMeta
