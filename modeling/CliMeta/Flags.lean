/-!
Bit flags of the metadata. A kind of flags lists its named constants; a flags value keeps every bit
that was read, also those without a name.
-/

namespace CliMeta

inductive FlagKind where
  | typeAttributes | fieldAttributes | methodAttributes | methodImplAttributes | paramAttributes
  | eventAttributes | propertyAttributes | methodSemanticsAttributes | assemblyFlags
  | genericParamAttributes | manifestResourceAttributes | pInvokeAttributes | fileAttributes
  | comImageFlags | methodBodyFlags | sectionFlags | exceptionHandlerFlags
  | callingConventionFlags
  deriving DecidableEq, Repr, Inhabited

namespace FlagKind

def all : List FlagKind :=
  [.typeAttributes, .fieldAttributes, .methodAttributes, .methodImplAttributes, .paramAttributes,
   .eventAttributes, .propertyAttributes, .methodSemanticsAttributes, .assemblyFlags,
   .genericParamAttributes, .manifestResourceAttributes, .pInvokeAttributes, .fileAttributes,
   .comImageFlags, .methodBodyFlags, .sectionFlags, .exceptionHandlerFlags,
   .callingConventionFlags]

def name : FlagKind → String
  | .typeAttributes => "TypeAttributes"
  | .fieldAttributes => "FieldAttributes"
  | .methodAttributes => "MethodAttributes"
  | .methodImplAttributes => "MethodImplAttributes"
  | .paramAttributes => "ParamAttributes"
  | .eventAttributes => "EventAttributes"
  | .propertyAttributes => "PropertyAttributes"
  | .methodSemanticsAttributes => "MethodSemanticsAttributes"
  | .assemblyFlags => "AssemblyFlags"
  | .genericParamAttributes => "GenericParamAttributes"
  | .manifestResourceAttributes => "ManifestResourceAttributes"
  | .pInvokeAttributes => "PInvokeAttributes"
  | .fileAttributes => "FileAttributes"
  | .comImageFlags => "ComImageFlags"
  | .methodBodyFlags => "MethodBodyFlags"
  | .sectionFlags => "SectionFlags"
  | .exceptionHandlerFlags => "ExceptionHandlerFlags"
  | .callingConventionFlags => "CallingConventionFlags"

/-- The named constants. Some are masks of fields, and some name one value of such a field. -/
def constants : FlagKind → List (String × Nat)
  | .typeAttributes =>
      [("VISIBILITY_MASK", 0x7), ("NOT_PUBLIC", 0x0), ("PUBLIC", 0x1), ("NESTED_PUBLIC", 0x2),
       ("NESTED_PRIVATE", 0x3), ("NESTED_FAMILY", 0x4), ("NESTED_ASSEMBLY", 0x5),
       ("NESTED_FAM_AND_ASSEM", 0x6), ("NESTED_FAM_OR_ASSEM", 0x7), ("LAYOUT_MASK", 0x18),
       ("SEQUENTIAL_LAYOUT", 0x8), ("EXPLICIT_LAYOUT", 0x10), ("INTERFACE", 0x20),
       ("ABSTRACT", 0x80), ("SEALED", 0x100), ("SPECIAL_NAME", 0x400), ("IMPORT", 0x1000),
       ("SERIALIZABLE", 0x2000), ("STRING_FORMAT_MASK", 0x30000), ("UNICODE_CLASS", 0x10000),
       ("AUTO_CLASS", 0x20000), ("BEFORE_FIELD_INIT", 0x100000), ("RT_SPECIAL_NAME", 0x800),
       ("HAS_SECURITY", 0x40000)]
  | .fieldAttributes =>
      [("FIELD_ACCESS_MASK", 0x7), ("COMPILER_CONTROLLED", 0x0), ("PRIVATE", 0x1),
       ("FAM_AND_ASSEM", 0x2), ("ASSEMBLY", 0x3), ("FAMILY", 0x4), ("FAM_OR_ASSEM", 0x5),
       ("PUBLIC", 0x6), ("STATIC", 0x10), ("INIT_ONLY", 0x20), ("LITERAL", 0x40),
       ("NOT_SERIALIZED", 0x80), ("SPECIAL_NAME", 0x200), ("PINVOKE_IMPL", 0x2000),
       ("RT_SPECIAL_NAME", 0x400), ("HAS_FIELD_MARSHAL", 0x1000), ("HAS_DEFAULT", 0x8000),
       ("HAS_FIELD_RVA", 0x100)]
  | .methodAttributes =>
      [("MEMBER_ACCESS_MASK", 0x7), ("PRIVATE", 0x1), ("FAM_AND_ASSEM", 0x2), ("ASSEMBLY", 0x3),
       ("FAMILY", 0x4), ("FAM_OR_ASSEM", 0x5), ("PUBLIC", 0x6), ("STATIC", 0x10), ("FINAL", 0x20),
       ("VIRTUAL", 0x40), ("HIDE_BY_SIG", 0x80), ("NEW_SLOT", 0x100), ("STRICT", 0x200),
       ("ABSTRACT", 0x400), ("SPECIAL_NAME", 0x800), ("PINVOKE_IMPL", 0x2000),
       ("UNMANAGED_EXPORT", 0x8), ("RT_SPECIAL_NAME", 0x1000), ("HAS_SECURITY", 0x4000),
       ("REQUIRE_SEC_OBJECT", 0x8000)]
  | .methodImplAttributes =>
      [("CODE_TYPE_MASK", 0x3), ("NATIVE", 0x1), ("OPTIL", 0x2), ("RUNTIME", 0x3),
       ("UNMANAGED", 0x4), ("NO_INLINING", 0x8), ("FORWARD_REF", 0x10), ("SYNCHRONIZED", 0x20),
       ("NO_OPTIMIZATION", 0x40), ("PRESERVE_SIG", 0x80), ("AGGRESSIVE_INLINING", 0x100),
       ("INTERNAL_CALL", 0x1000)]
  | .paramAttributes =>
      [("IN", 0x1), ("OUT", 0x2), ("OPTIONAL", 0x10), ("HAS_DEFAULT", 0x1000),
       ("HAS_FIELD_MARSHAL", 0x2000)]
  | .eventAttributes =>
      [("SPECIAL_NAME", 0x200), ("RT_SPECIAL_NAME", 0x400)]
  | .propertyAttributes =>
      [("SPECIAL_NAME", 0x200), ("RT_SPECIAL_NAME", 0x400), ("HAS_DEFAULT", 0x1000)]
  | .methodSemanticsAttributes =>
      [("SETTER", 0x1), ("GETTER", 0x2), ("OTHER", 0x4), ("ADD_ON", 0x8), ("REMOVE_ON", 0x10),
       ("FIRE", 0x20)]
  | .assemblyFlags =>
      [("PUBLIC_KEY", 0x1), ("RETARGETABLE", 0x100), ("DISABLE_JIT_COMPILE_OPTIMIZER", 0x4000),
       ("ENABLE_JIT_COMPILE_TRACKING", 0x8000)]
  | .genericParamAttributes =>
      [("VARIANCE_MASK", 0x3), ("COVARIANT", 0x1), ("CONTRAVARIANT", 0x2),
       ("SPECIAL_CONSTRAINT_MASK", 0x1C), ("REFERENCE_TYPE_CONSTRAINT", 0x4),
       ("NOT_NULLABLE_VALUE_TYPE_CONSTRAINT", 0x8), ("DEFAULT_CONSTRUCTOR_CONSTRAINT", 0x10)]
  | .manifestResourceAttributes =>
      [("VISIBILITY_MASK", 0x7), ("PUBLIC", 0x1), ("PRIVATE", 0x2)]
  | .pInvokeAttributes =>
      [("NO_MANGLE", 0x1), ("CHAR_SET_MASK", 0x6), ("CHAR_SET_ANSI", 0x2),
       ("CHAR_SET_UNICODE", 0x4), ("CHAR_SET_AUTO", 0x6), ("SUPPORTS_LAST_ERROR", 0x40),
       ("CALL_CONV_MASK", 0x700), ("CALL_CONV_PLATFORMAPI", 0x100), ("CALL_CONV_CDECL", 0x200),
       ("CALL_CONV_STDCALL", 0x300), ("CALL_CONV_THISCALL", 0x400), ("CALL_CONV_FASTCALL", 0x500)]
  | .fileAttributes =>
      [("CONTAINS_META_DATA", 0x0), ("CONTAINS_NO_META_DATA", 0x1)]
  | .comImageFlags =>
      [("IL_ONLY", 0x1), ("REQUIRED_32BIT", 0x2), ("IL_LIBRARY", 0x4),
       ("STRONG_NAME_SIGNED", 0x8), ("NATIVE_ENTRYPOINT", 0x10), ("TRACK_DEBUG_DATA", 0x10000),
       ("PREFER_32BIT", 0x20000)]
  | .methodBodyFlags =>
      [("TINY_FORMAT", 0x2), ("FAT_FORMAT", 0x3), ("MORE_SECTS", 0x8), ("INIT_LOCALS", 0x10)]
  | .sectionFlags =>
      [("EHTABLE", 0x1), ("OPT_ILTABLE", 0x2), ("FAT_FORMAT", 0x40), ("MORE_SECTS", 0x80)]
  | .exceptionHandlerFlags =>
      [("FILTER", 0x1), ("FINALLY", 0x2), ("FAULT", 0x4), ("DUPLICATED", 0x8)]
  | .callingConventionFlags =>
      [("GENERIC", 0x10), ("HAS_THIS", 0x20), ("EXPLICIT_THIS", 0x40)]

def mask (kind : FlagKind) : Nat :=
  (kind.constants.map Prod.snd).foldl (· ||| ·) 0

end FlagKind

structure Flags (kind : FlagKind) where
  bits : Nat
  deriving DecidableEq, Repr

namespace Flags

variable {kind : FlagKind}

def has (f : Flags kind) (mask : Nat) : Bool :=
  f.bits &&& mask == mask

/-- Keeps only the bits that belong to a constant. -/
def truncate (f : Flags kind) : Flags kind :=
  ⟨f.bits &&& kind.mask⟩

/-- Goes through constants with the bits that no constant so far has covered. A constant is taken
if it is set in full and covers a new bit. -/
def cover (f : Flags kind) : List (String × Nat) → (left : Nat) → List String × Nat
  | [], left => ([], left)
  | (name, mask) :: constants, left =>
      if f.has mask ∧ left &&& mask ≠ 0 then
        let (names, left) := f.cover constants (left ^^^ (left &&& mask))
        (name :: names, left)
      else f.cover constants left

def names (f : Flags kind) : List String :=
  (f.cover kind.constants f.bits).1

/-- The bits that these names leave uncovered. -/
def unknown (f : Flags kind) : Nat :=
  (f.cover kind.constants f.bits).2

def isInterface (f : Flags .typeAttributes) : Bool :=
  f.has 0x20

/-- Whether the visibility is one of those of nested types. -/
def isNested (f : Flags .typeAttributes) : Bool :=
  2 ≤ f.bits % 8

/-- Whether the method has an instance. -/
def isInstance (f : Flags .methodAttributes) : Bool :=
  !f.has 0x10

end Flags

end CliMeta
