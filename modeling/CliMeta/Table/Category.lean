import CliMeta.Table.Id

/-!
Coded index categories. A category lists the tables that its references may point into; the place
of a table in the list is its tag, which fills the low bits of the encoded reference.
-/

namespace CliMeta

inductive CodedCategory where
  | typeDefOrRef | hasConstant | hasCustomAttribute | hasFieldMarshal | hasDeclSecurity
  | memberRefParent | hasSemantics | methodDefOrRef | memberForwarded | implementation
  | customAttributeType | resolutionScope | typeOrMethodDef
  deriving DecidableEq, Repr, Inhabited

namespace CodedCategory

def all : List CodedCategory :=
  [.typeDefOrRef, .hasConstant, .hasCustomAttribute, .hasFieldMarshal, .hasDeclSecurity,
    .memberRefParent, .hasSemantics, .methodDefOrRef, .memberForwarded, .implementation,
    .customAttributeType, .resolutionScope, .typeOrMethodDef]

def name : CodedCategory → String
  | .typeDefOrRef => "TypeDefOrRef"
  | .hasConstant => "HasConstant"
  | .hasCustomAttribute => "HasCustomAttribute"
  | .hasFieldMarshal => "HasFieldMarshal"
  | .hasDeclSecurity => "HasDeclSecurity"
  | .memberRefParent => "MemberRefParent"
  | .hasSemantics => "HasSemantics"
  | .methodDefOrRef => "MethodDefOrRef"
  | .memberForwarded => "MemberForwarded"
  | .implementation => "Implementation"
  | .customAttributeType => "CustomAttributeType"
  | .resolutionScope => "ResolutionScope"
  | .typeOrMethodDef => "TypeOrMethodDef"

/-- The member tables in tag order; `none` stands for a tag that is reserved. -/
def members : CodedCategory → List (Option TableId)
  | .typeDefOrRef => [some .typeDef, some .typeRef, some .typeSpec]
  | .hasConstant => [some .field, some .param, some .property]
  | .hasCustomAttribute =>
      [some .methodDef, some .field, some .typeRef, some .typeDef, some .param,
        some .interfaceImpl, some .memberRef, some .module, some .declSecurity, some .property,
        some .event, some .standAloneSig, some .moduleRef, some .typeSpec, some .assembly,
        some .assemblyRef, some .file, some .exportedType, some .manifestResource,
        some .genericParam, some .genericParamConstraint, some .methodSpec]
  | .hasFieldMarshal => [some .field, some .param]
  | .hasDeclSecurity => [some .typeDef, some .methodDef, some .assembly]
  | .memberRefParent =>
      [some .typeDef, some .typeRef, some .moduleRef, some .methodDef, some .typeSpec]
  | .hasSemantics => [some .event, some .property]
  | .methodDefOrRef => [some .methodDef, some .memberRef]
  | .memberForwarded => [some .field, some .methodDef]
  | .implementation => [some .file, some .assemblyRef, some .exportedType]
  | .customAttributeType => [none, none, some .methodDef, some .memberRef, none]
  | .resolutionScope => [some .module, some .moduleRef, some .assemblyRef, some .typeRef]
  | .typeOrMethodDef => [some .typeDef, some .methodDef]

def tables (c : CodedCategory) : List TableId :=
  c.members.filterMap id

/-- The number of bits that hold the tag: enough for every member, reserved tags counted. -/
def tagBits (c : CodedCategory) : Nat :=
  let members := c.members.length
  if members ≤ 2 then 1
  else if members ≤ 4 then 2
  else if members ≤ 8 then 3
  else if members ≤ 16 then 4
  else 5

theorem members_length_le (c : CodedCategory) : c.members.length ≤ 1 <<< c.tagBits := by
  cases c <;> decide

end CodedCategory

end CliMeta
