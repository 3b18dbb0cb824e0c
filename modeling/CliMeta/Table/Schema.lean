import CliMeta.Heap.Kind
import CliMeta.Table.Category

/-!
The columns of every metadata table.
-/

namespace CliMeta

inductive ColumnKind where
  /-- A constant of two bytes. -/
  | word
  /-- A constant of four bytes. -/
  | long
  | heap (kind : HeapKind)
  /-- A row of one table, counted from 1, or the start of a list of its rows. -/
  | index (table : TableId)
  | coded (category : CodedCategory)
  deriving DecidableEq, Repr

namespace ColumnKind

def name : ColumnKind → String
  | .word => "FixedU16"
  | .long => "FixedU32"
  | .heap kind => s!"HeapIndex({kind.name})"
  | .index table => s!"SimpleTableIndex({table.name})"
  | .coded category => s!"CodedIndex({category.name})"

end ColumnKind

structure Column where
  name : String
  kind : ColumnKind
  deriving DecidableEq, Repr

namespace Column

def word (name : String) : Column := ⟨name, .word⟩

def long (name : String) : Column := ⟨name, .long⟩

def string (name : String) : Column := ⟨name, .heap .string⟩

def blob (name : String) : Column := ⟨name, .heap .blob⟩

def guid (name : String) : Column := ⟨name, .heap .guid⟩

def index (name : String) (table : TableId) : Column := ⟨name, .index table⟩

def coded (name : String) (category : CodedCategory) : Column := ⟨name, .coded category⟩

end Column

open Column in
def TableId.columns : TableId → List Column
  | .module => [word "Generation", string "Name", guid "Mvid", guid "EncId", guid "EncBaseId"]
  | .typeRef =>
      [coded "ResolutionScope" .resolutionScope, string "TypeName", string "TypeNamespace"]
  | .typeDef =>
      [long "Flags", string "TypeName", string "TypeNamespace", coded "Extends" .typeDefOrRef,
       index "FieldList" .field, index "MethodList" .methodDef]
  | .fieldPtr => [index "Field" .field]
  | .field => [word "Flags", string "Name", blob "Signature"]
  | .methodPtr => [index "Method" .methodDef]
  | .methodDef =>
      [long "RVA", word "ImplFlags", word "Flags", string "Name", blob "Signature",
       index "ParamList" .param]
  | .paramPtr => [index "Param" .param]
  | .param => [word "Flags", word "Sequence", string "Name"]
  | .interfaceImpl => [index "Class" .typeDef, coded "Interface" .typeDefOrRef]
  | .memberRef => [coded "Class" .memberRefParent, string "Name", blob "Signature"]
  | .constant => [word "Type", coded "Parent" .hasConstant, blob "Value"]
  | .customAttribute =>
      [coded "Parent" .hasCustomAttribute, coded "Type" .customAttributeType, blob "Value"]
  | .fieldMarshal => [coded "Parent" .hasFieldMarshal, blob "NativeType"]
  | .declSecurity => [word "Action", coded "Parent" .hasDeclSecurity, blob "PermissionSet"]
  | .classLayout => [word "PackingSize", long "ClassSize", index "Parent" .typeDef]
  | .fieldLayout => [long "Offset", index "Field" .field]
  | .standAloneSig => [blob "Signature"]
  | .eventMap => [index "Parent" .typeDef, index "EventList" .event]
  | .eventPtr => [index "Event" .event]
  | .event => [word "EventFlags", string "Name", coded "EventType" .typeDefOrRef]
  | .propertyMap => [index "Parent" .typeDef, index "PropertyList" .property]
  | .propertyPtr => [index "Property" .property]
  | .property => [word "Flags", string "Name", blob "Type"]
  | .methodSemantics =>
      [word "Semantics", index "Method" .methodDef, coded "Association" .hasSemantics]
  | .methodImpl =>
      [index "Class" .typeDef, coded "MethodBody" .methodDefOrRef,
       coded "MethodDeclaration" .methodDefOrRef]
  | .moduleRef => [string "Name"]
  | .typeSpec => [blob "Signature"]
  | .implMap =>
      [word "MappingFlags", coded "MemberForwarded" .memberForwarded, string "ImportName",
       index "ImportScope" .moduleRef]
  | .fieldRva => [long "RVA", index "Field" .field]
  | .encLog => [long "Token", long "FuncCode"]
  | .encMap => [long "Token"]
  | .assembly =>
      [long "HashAlgId", word "MajorVersion", word "MinorVersion", word "BuildNumber",
       word "RevisionNumber", long "Flags", blob "PublicKey", string "Name", string "Culture"]
  | .assemblyProcessor => [long "Processor"]
  | .assemblyOs => [long "OSPlatformID", long "OSMajorVersion", long "OSMinorVersion"]
  | .assemblyRef =>
      [word "MajorVersion", word "MinorVersion", word "BuildNumber", word "RevisionNumber",
       long "Flags", blob "PublicKeyOrToken", string "Name", string "Culture", blob "HashValue"]
  | .assemblyRefProcessor => [long "Processor", index "AssemblyRef" .assemblyRef]
  | .assemblyRefOs =>
      [long "OSPlatformId", long "OSMajorVersion", long "OSMinorVersion",
       index "AssemblyRef" .assemblyRef]
  | .file => [long "Flags", string "Name", blob "HashValue"]
  | .exportedType =>
      [long "Flags", long "TypeDefId", string "TypeName", string "TypeNamespace",
       coded "Implementation" .implementation]
  | .manifestResource =>
      [long "Offset", long "Flags", string "Name", coded "Implementation" .implementation]
  | .nestedClass => [index "NestedClass" .typeDef, index "EnclosingClass" .typeDef]
  | .genericParam => [word "Number", word "Flags", coded "Owner" .typeOrMethodDef, string "Name"]
  | .methodSpec => [coded "Method" .methodDefOrRef, blob "Instantiation"]
  | .genericParamConstraint => [index "Owner" .genericParam, coded "Constraint" .typeDefOrRef]

def TableId.columnIndex? (t : TableId) (name : String) : Option Nat :=
  t.columns.findIdx? (·.name == name)

theorem TableId.columns_ne_nil (t : TableId) : t.columns ≠ [] := by
  cases t <;> simp [TableId.columns]

end CliMeta
