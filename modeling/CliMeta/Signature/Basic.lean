import CliMeta.Flags
import CliMeta.Table.Reference

/-!
Signatures: the types of fields, methods, properties and locals. A type is a base with prefixes
before it, of which one array dimension or one pointer level counts each time it is written; the
base decides what else the type holds.
-/

namespace CliMeta

/-- The element types that need nothing after their tag. -/
inductive Primitive where
  | void | boolean | char | i1 | u1 | i2 | u2 | i4 | u4 | i8 | u8 | r4 | r8 | string
  | typedByRef | i | u | object
  deriving DecidableEq, Repr, Inhabited

namespace Primitive

def all : List Primitive :=
  [.void, .boolean, .char, .i1, .u1, .i2, .u2, .i4, .u4, .i8, .u8, .r4, .r8, .string,
   .typedByRef, .i, .u, .object]

def tag : Primitive → Nat
  | .void => 0x01
  | .boolean => 0x02
  | .char => 0x03
  | .i1 => 0x04
  | .u1 => 0x05
  | .i2 => 0x06
  | .u2 => 0x07
  | .i4 => 0x08
  | .u4 => 0x09
  | .i8 => 0x0A
  | .u8 => 0x0B
  | .r4 => 0x0C
  | .r8 => 0x0D
  | .string => 0x0E
  | .typedByRef => 0x16
  | .i => 0x18
  | .u => 0x19
  | .object => 0x1C

def name : Primitive → String
  | .void => "Void"
  | .boolean => "Boolean"
  | .char => "Char"
  | .i1 => "I1"
  | .u1 => "U1"
  | .i2 => "I2"
  | .u2 => "U2"
  | .i4 => "I4"
  | .u4 => "U4"
  | .i8 => "I8"
  | .u8 => "U8"
  | .r4 => "R4"
  | .r8 => "R8"
  | .string => "String"
  | .typedByRef => "TypedByRef"
  | .i => "I"
  | .u => "U"
  | .object => "Object"

def ofTag? (tag : Nat) : Option Primitive :=
  all.find? fun p => p.tag == tag

end Primitive

/-! The tags of element types that are not primitive. -/

namespace ElementTag

def ptr : Nat := 0x0F
def byRef : Nat := 0x10
def valueType : Nat := 0x11
def referenceType : Nat := 0x12
def typeParameter : Nat := 0x13
def array : Nat := 0x14
def genericInstance : Nat := 0x15
def functionPointer : Nat := 0x1B
def szArray : Nat := 0x1D
def methodParameter : Nat := 0x1E
def requiredModifier : Nat := 0x1F
def optionalModifier : Nat := 0x20
def sentinel : Nat := 0x41
def pinned : Nat := 0x45

end ElementTag

/-- The kind of a signature together with its flags, as they share one byte. -/
structure CallingConvention where
  kind : SignatureKind
  flags : Flags .callingConventionFlags
  deriving DecidableEq, Repr

namespace CallingConvention

/-- The convention of a byte. Its highest bit has no meaning and is dropped. -/
def ofByte (byte : Nat) : Except Error CallingConvention :=
  match SignatureKind.ofNumber? (byte % 16) with
  | some kind => .ok ⟨kind, Flags.truncate ⟨byte⟩⟩
  | none => .error (.malformed (.conventionKind (byte % 16)))

def toByte (c : CallingConvention) : Nat :=
  c.kind.number ||| c.flags.bits

/-- Whether a count of generic parameters follows. -/
def isGeneric (c : CallingConvention) : Bool :=
  c.flags.has 0x10

/-- Whether there is an instance that the parameters do not list. -/
def hasThis (c : CallingConvention) : Bool :=
  c.flags.has 0x20 && !c.flags.has 0x40

end CallingConvention

structure CustomModifier where
  required : Bool
  type : RowReference
  deriving DecidableEq, Repr

structure ArrayShape where
  rank : Nat
  sizes : List Nat
  lowerBounds : List Int
  deriving DecidableEq, Repr

/-- Whether a named type is a class or a value type. -/
inductive NamedKind where
  | referenceType | valueType
  deriving DecidableEq, Repr

namespace NamedKind

def tag : NamedKind → Nat
  | .referenceType => ElementTag.referenceType
  | .valueType => ElementTag.valueType

def name : NamedKind → String
  | .referenceType => "Class"
  | .valueType => "ValueType"

def ofTag? (tag : Nat) : Option NamedKind :=
  if tag = ElementTag.referenceType then some .referenceType
  else if tag = ElementTag.valueType then some .valueType
  else none

end NamedKind

mutual

structure TypeSig where
  /-- The modifiers in the order in which they are written. -/
  modifiers : List CustomModifier
  byRef : Bool
  /-- How often the type is made an array of one dimension. -/
  arrayRank : Nat
  pointerDepth : Nat
  base : TypeBase

inductive TypeBase where
  | primitive (p : Primitive)
  | named (kind : NamedKind) (type : RowReference)
  | genericInstance (kind : NamedKind) (type : RowReference) (arguments : List TypeSig)
  | typeParameter (number : Nat)
  | methodParameter (number : Nat)
  | array (element : TypeSig) (shape : ArrayShape)
  | functionPointer (signature : MemberSig)

/-- The signature of a field, method or property. A field has only the type. -/
structure MemberSig where
  convention : CallingConvention
  genericParamCount : Nat
  /-- The number of parameters that is declared, those behind the sentinel counted. -/
  argumentCount : Nat
  returnType : TypeSig
  params : List TypeSig
  /-- The parameters behind the sentinel of a call with variable arguments. -/
  varargs : List TypeSig

end

structure LocalVariable where
  pinned : Bool
  type : TypeSig

/-- A signature that stands alone: of the locals of a method, or of a call. -/
inductive StandaloneSig where
  | locals (entries : List LocalVariable)
  | method (signature : MemberSig)

namespace TypeBase

/-- The tag that comes first, or second in an instance of a generic type. -/
def tag : TypeBase → Nat
  | .primitive p => p.tag
  | .named kind _ | .genericInstance kind _ _ => kind.tag
  | .typeParameter _ => ElementTag.typeParameter
  | .methodParameter _ => ElementTag.methodParameter
  | .array _ _ => ElementTag.array
  | .functionPointer _ => ElementTag.functionPointer

def name : TypeBase → String
  | .primitive p => p.name
  | .named kind _ | .genericInstance kind _ _ => kind.name
  | .typeParameter _ => "Var"
  | .methodParameter _ => "MVar"
  | .array _ _ => "Array"
  | .functionPointer _ => "FnPtr"

end TypeBase

namespace TypeSig

def isArray (t : TypeSig) : Bool :=
  0 < t.arrayRank || t.base.tag == ElementTag.array

def isPointer (t : TypeSig) : Bool :=
  0 < t.pointerDepth

def hasRequiredModifier (t : TypeSig) : Bool :=
  t.modifiers.any (·.required)

def isVoid (t : TypeSig) : Bool :=
  t.base.tag == Primitive.void.tag && t.arrayRank == 0 && t.pointerDepth == 0

end TypeSig

end CliMeta
