/-!
The metadata tables. Each has a number, which tokens and the bit masks of the tables stream use.
-/

namespace CliMeta

/-- A metadata table, in the order of the table numbers. -/
inductive TableId where
  | module | typeRef | typeDef | fieldPtr | field | methodPtr | methodDef | paramPtr | param
  | interfaceImpl | memberRef | constant | customAttribute | fieldMarshal | declSecurity
  | classLayout | fieldLayout | standAloneSig | eventMap | eventPtr | event | propertyMap
  | propertyPtr | property | methodSemantics | methodImpl | moduleRef | typeSpec | implMap
  | fieldRva | encLog | encMap | assembly | assemblyProcessor | assemblyOs | assemblyRef
  | assemblyRefProcessor | assemblyRefOs | file | exportedType | manifestResource | nestedClass
  | genericParam | methodSpec | genericParamConstraint
  deriving DecidableEq, Repr, Inhabited

namespace TableId

def all : List TableId :=
  [.module, .typeRef, .typeDef, .fieldPtr, .field, .methodPtr, .methodDef, .paramPtr, .param,
   .interfaceImpl, .memberRef, .constant, .customAttribute, .fieldMarshal, .declSecurity,
   .classLayout, .fieldLayout, .standAloneSig, .eventMap, .eventPtr, .event, .propertyMap,
   .propertyPtr, .property, .methodSemantics, .methodImpl, .moduleRef, .typeSpec, .implMap,
   .fieldRva, .encLog, .encMap, .assembly, .assemblyProcessor, .assemblyOs, .assemblyRef,
   .assemblyRefProcessor, .assemblyRefOs, .file, .exportedType, .manifestResource, .nestedClass,
   .genericParam, .methodSpec, .genericParamConstraint]

def count : Nat := 45

def number (t : TableId) : Nat :=
  t.ctorIdx

def ofNumber? (number : Nat) : Option TableId :=
  all[number]?

def name : TableId → String
  | .module => "Module"
  | .typeRef => "TypeRef"
  | .typeDef => "TypeDef"
  | .fieldPtr => "FieldPtr"
  | .field => "Field"
  | .methodPtr => "MethodPtr"
  | .methodDef => "MethodDef"
  | .paramPtr => "ParamPtr"
  | .param => "Param"
  | .interfaceImpl => "InterfaceImpl"
  | .memberRef => "MemberRef"
  | .constant => "Constant"
  | .customAttribute => "CustomAttribute"
  | .fieldMarshal => "FieldMarshal"
  | .declSecurity => "DeclSecurity"
  | .classLayout => "ClassLayout"
  | .fieldLayout => "FieldLayout"
  | .standAloneSig => "StandAloneSig"
  | .eventMap => "EventMap"
  | .eventPtr => "EventPtr"
  | .event => "Event"
  | .propertyMap => "PropertyMap"
  | .propertyPtr => "PropertyPtr"
  | .property => "Property"
  | .methodSemantics => "MethodSemantics"
  | .methodImpl => "MethodImpl"
  | .moduleRef => "ModuleRef"
  | .typeSpec => "TypeSpec"
  | .implMap => "ImplMap"
  | .fieldRva => "FieldRVA"
  | .encLog => "EncLog"
  | .encMap => "EncMap"
  | .assembly => "Assembly"
  | .assemblyProcessor => "AssemblyProcessor"
  | .assemblyOs => "AssemblyOS"
  | .assemblyRef => "AssemblyRef"
  | .assemblyRefProcessor => "AssemblyRefProcessor"
  | .assemblyRefOs => "AssemblyRefOS"
  | .file => "File"
  | .exportedType => "ExportedType"
  | .manifestResource => "ManifestResource"
  | .nestedClass => "NestedClass"
  | .genericParam => "GenericParam"
  | .methodSpec => "MethodSpec"
  | .genericParamConstraint => "GenericParamConstraint"

/-- The table that, where it has rows, redirects the row lists that point into this one. -/
def pointerTable? : TableId → Option TableId
  | .field => some .fieldPtr
  | .methodDef => some .methodPtr
  | .param => some .paramPtr
  | .event => some .eventPtr
  | .property => some .propertyPtr
  | _ => none

@[simp] theorem all_length : all.length = count := rfl

theorem number_lt_count (t : TableId) : t.number < count := by
  cases t <;> decide

@[simp] theorem ofNumber?_number (t : TableId) : ofNumber? t.number = some t := by
  cases t <;> rfl

theorem mem_all (t : TableId) : t ∈ all :=
  List.mem_of_getElem? (ofNumber?_number t)

theorem number_injective {a b : TableId} (h : a.number = b.number) : a = b := by
  have ha := ofNumber?_number a
  rw [h, ofNumber?_number b] at ha
  exact (Option.some.inj ha).symm

end TableId

end CliMeta
