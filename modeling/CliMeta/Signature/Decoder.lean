import CliMeta.Reader
import CliMeta.Signature.Basic

/-!
Reading signatures. Types are nested, so the reader of a type is built from the readers of the types
inside it; how many levels remain is counted down, which bounds the recursion and is the limit on
the nesting of types at once.
-/

namespace CliMeta

namespace CustomModifier

def isTag (tag : Nat) : Bool :=
  tag == ElementTag.requiredModifier || tag == ElementTag.optionalModifier

/-- The reference of a modifier whose tag has been read. -/
def reader (tag : Nat) : Reader CustomModifier := do
  let raw ← Reader.compressed
  let type ← Reader.ofExcept (CodedCategory.typeDefOrRef.decode raw)
  return ⟨tag == ElementTag.requiredModifier, type⟩

def listReader : (fuel : Nat) → Reader (List CustomModifier)
  | 0 => pure []
  | fuel + 1 => do
      if ← Reader.atEnd then return []
      let tag ← Reader.peek
      if isTag tag then
        Reader.skip 1
        let first ← reader tag
        let others ← listReader fuel
        return first :: others
      else return []

end CustomModifier

/-- What may come before the base of a type. -/
structure TypePrefixes where
  modifiers : List CustomModifier
  byRef : Bool
  arrayRank : Nat
  pointerDepth : Nat
  deriving DecidableEq, Repr

namespace TypePrefixes

def none : TypePrefixes := ⟨[], false, 0, 0⟩

/-- Adds one prefix other than a modifier. A reference comes first and once, then arrays, then
pointers; the result is `none` if the tag does not come in this order. -/
def add? (p : TypePrefixes) (tag : Nat) : Option TypePrefixes :=
  if tag = ElementTag.ptr then some { p with pointerDepth := p.pointerDepth + 1 }
  else if tag = ElementTag.szArray then
    if p.pointerDepth = 0 then some { p with arrayRank := p.arrayRank + 1 } else .none
  else if p.byRef = false ∧ p.arrayRank = 0 ∧ p.pointerDepth = 0 then
    some { p with byRef := true }
  else .none

def isTag (tag : Nat) : Bool :=
  tag == ElementTag.byRef || tag == ElementTag.szArray || tag == ElementTag.ptr

/-- Reads prefixes after those already read, and the tag behind them. -/
def reader (p : TypePrefixes) : (fuel : Nat) → Reader (TypePrefixes × Nat)
  | 0 => throw .outOfBounds
  | fuel + 1 => do
      let offset ← Reader.position
      let tag ← Reader.byte
      if CustomModifier.isTag tag then
        let modifier ← CustomModifier.reader tag
        reader { p with modifiers := p.modifiers ++ [modifier] } fuel
      else if isTag tag then
        match p.add? tag with
        | some p => reader p fuel
        | .none => Reader.malformed (.typePrefixOrder tag offset)
      else return (p, tag)

end TypePrefixes

namespace NamedKind

/-- Reads the kind of a generic type, behind pointers that apply to the whole instance. -/
def reader (pointers : Nat) : (fuel : Nat) → Reader (NamedKind × Nat)
  | 0 => throw .outOfBounds
  | fuel + 1 => do
      let tag ← Reader.byte
      if tag = ElementTag.ptr then reader (pointers + 1) fuel
      else
        match ofTag? tag with
        | some kind => return (kind, pointers)
        | none => Reader.malformed (.genericBase tag)

end NamedKind

namespace ArrayShape

def reader : Reader ArrayShape := do
  let rank ← Reader.compressed
  let sizes ← Reader.times Reader.compressed (← Reader.compressed)
  let lowerBounds ← Reader.times Reader.compressedSigned (← Reader.compressed)
  return ⟨rank, sizes, lowerBounds⟩

end ArrayShape

namespace MemberSig

/-- Reads parameters; `behind` tells that a sentinel has been read, behind which they are variable
arguments. -/
def paramsReader (type : Reader TypeSig) :
    (count : Nat) → (behind : Bool) → Reader (List TypeSig × List TypeSig)
  | 0, _ => pure ([], [])
  | count + 1, behind => do
      let isSentinel := (← Reader.peek) == ElementTag.sentinel
      if isSentinel then Reader.skip 1
      let param ← type
      let (params, varargs) ← paramsReader type count (behind || isSentinel)
      return if behind || isSentinel then (params, param :: varargs)
        else (param :: params, varargs)

/-- Reads the signature of a field, method or property with a reader of its types. -/
def reader (type : Reader TypeSig) : Reader MemberSig := do
  let convention ← Reader.ofExcept (CallingConvention.ofByte (← Reader.byte))
  match convention.kind with
  | .field => return ⟨convention, 0, 0, ← type, [], []⟩
  | .localSig | .genericInst => Reader.malformed (.notMemberSignature convention.kind)
  | _ =>
      let genericParamCount ← if convention.isGeneric then Reader.compressed else pure 0
      let argumentCount ← Reader.compressed
      let returnType ← type
      let (params, varargs) ← paramsReader type argumentCount false
      return ⟨convention, genericParamCount, argumentCount, returnType, params, varargs⟩

end MemberSig

namespace TypeBase

/-- Reads what belongs to a base whose tag has been read, together with the pointers behind the
tag of a generic instance. `inner` reads a type one level down and `pointed` one inside a function
pointer. -/
def reader (inner pointed : Reader TypeSig) (tag : Nat) : Reader (TypeBase × Nat) := do
  if tag = ElementTag.genericInstance then
    let (kind, pointers) ← NamedKind.reader 0 (← Reader.remaining)
    let type ← Reader.ofExcept (CodedCategory.typeDefOrRef.decode (← Reader.compressed))
    let arguments ← Reader.times inner (← Reader.compressed)
    return (.genericInstance kind type arguments, pointers)
  else if let some p := Primitive.ofTag? tag then
    return (.primitive p, 0)
  else if let some kind := NamedKind.ofTag? tag then
    let type ← Reader.ofExcept (CodedCategory.typeDefOrRef.decode (← Reader.compressed))
    return (.named kind type, 0)
  else if tag = ElementTag.typeParameter then
    return (.typeParameter (← Reader.compressed), 0)
  else if tag = ElementTag.methodParameter then
    return (.methodParameter (← Reader.compressed), 0)
  else if tag = ElementTag.array then
    let element ← inner
    let shape ← ArrayShape.reader
    return (.array element shape, 0)
  else if tag = ElementTag.functionPointer then
    return (.functionPointer (← MemberSig.reader pointed), 0)
  else
    Reader.malformed (.elementType tag ((← Reader.position) - 1))

end TypeBase

namespace TypeSig

def readerWith (inner pointed : Reader TypeSig) : Reader TypeSig := do
  let (prefixes, tag) ← TypePrefixes.none.reader (← Reader.remaining)
  let (base, pointers) ← TypeBase.reader inner pointed tag
  return ⟨prefixes.modifiers, prefixes.byRef, prefixes.arrayRank,
    prefixes.pointerDepth + pointers, base⟩

/-- Reads a type for which `levels` levels of nesting remain of a limit. A function pointer takes
up a level of its own. -/
def reader (limit : Nat) : (levels : Nat) → Reader TypeSig
  | 0 => throw (.nestingLimit limit)
  | 1 => fun data position =>
      readerWith (throw (.nestingLimit limit)) (throw (.nestingLimit limit)) data position
  | levels + 2 => fun data position =>
      readerWith (reader limit (levels + 1)) (reader limit levels) data position

end TypeSig

/-- Reads a whole signature. A blob that ends inside it is told apart from other damage, and bytes
behind it are not allowed. -/
def Reader.complete {α : Type} (r : Reader α) (blob : Bytes) : Except Error α :=
  match r blob 0 with
  | .ok a position =>
      if position < blob.size then .error (.signatureTrailing position blob.size) else .ok a
  | .error .outOfBounds position => .error (.signatureTruncated position)
  | .error e _ => .error e

namespace Signature

def localReader (type : Reader TypeSig) : Reader LocalVariable := do
  let modifiers ← CustomModifier.listReader (← Reader.remaining)
  let pinned := (← Reader.peek) == ElementTag.pinned
  if pinned then Reader.skip 1
  let type ← type
  return ⟨pinned, { type with modifiers := modifiers ++ type.modifiers }⟩

def localsReader (type : Reader TypeSig) : Reader (List LocalVariable) := do
  let first ← Reader.byte
  if first ≠ 0x07 then Reader.malformed (.notLocals first)
  Reader.times (localReader type) (← Reader.compressed)

def instantiationReader (type : Reader TypeSig) : Reader (List TypeSig) := do
  let first ← Reader.byte
  if first ≠ 0x0A then Reader.malformed (.notInstantiation first)
  Reader.times type (← Reader.compressed)

/-- The signature of a field, method or property, with types nested at most `limit` deep. -/
def decodeMember (limit : Nat) : Bytes → Except Error MemberSig :=
  (MemberSig.reader (TypeSig.reader limit limit)).complete

def decodeLocals (limit : Nat) : Bytes → Except Error (List LocalVariable) :=
  (localsReader (TypeSig.reader limit limit)).complete

def decodeType (limit : Nat) : Bytes → Except Error TypeSig :=
  (TypeSig.reader limit limit).complete

def decodeInstantiation (limit : Nat) : Bytes → Except Error (List TypeSig) :=
  (instantiationReader (TypeSig.reader limit limit)).complete

/-- A signature that stands alone: local variables if the low half of its first byte says so. -/
def decodeStandalone (limit : Nat) (blob : Bytes) : Except Error StandaloneSig :=
  if blob.size ≠ 0 ∧ blob.byteAt 0 % 16 = 7 then (decodeLocals limit blob).map .locals
  else (decodeMember limit blob).map .method

end Signature

end CliMeta
