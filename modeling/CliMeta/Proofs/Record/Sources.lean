import CliMeta.Record.Basic
import Mathlib.Data.List.Forall2

/-!
What the fields of a record stand for. Records are read by the positions of columns and with an
accessor for each field. Here it is said for each field by the names of columns what it makes of
which ones: `TableId.sources` lists this apart from positions and accessors, and `FieldSource.Gives`
says what it comes to in a row. Every column of a table goes into one of its fields.
-/

namespace CliMeta

/-- What a field stands for, by the names of its columns. -/
inductive FieldSource where
  /-- A constant with all its bits. -/
  | constant (name : String)
  /-- The low byte of a constant of two bytes. -/
  | lowByte (name : String)
  | token (name : String)
  | flags (kind : FlagKind) (name : String)
  | version (major minor build revision : String)
  | text (name : String)
  | blob (name : String)
  | guid (name : String)
  | row (name : String)
  | reference (name : String)
  | rows (name : String)
  deriving DecidableEq

/-- The names of the columns that the field is made of. -/
def FieldSource.columns : FieldSource → List String
  | .version major minor build revision => [major, minor, build, revision]
  | .constant name | .lowByte name | .token name | .flags _ name | .text name | .blob name
  | .guid name | .row name | .reference name | .rows name => [name]

/-- What the fields of a table stand for, by the names of its columns. -/
def TableId.sources : TableId → List (String × FieldSource)
  | .module =>
      [("generation", .constant "Generation"), ("name", .text "Name"), ("mvid", .guid "Mvid"),
       ("encId", .guid "EncId"), ("encBaseId", .guid "EncBaseId")]
  | .typeRef =>
      [("resolutionScope", .reference "ResolutionScope"), ("name", .text "TypeName"),
       ("namespace", .text "TypeNamespace")]
  | .typeDef =>
      [("flags", .flags .typeAttributes "Flags"), ("name", .text "TypeName"),
       ("namespace", .text "TypeNamespace"), ("extends", .reference "Extends"),
       ("fields", .rows "FieldList"), ("methods", .rows "MethodList")]
  | .fieldPtr => [("target", .row "Field")]
  | .field =>
      [("flags", .flags .fieldAttributes "Flags"), ("name", .text "Name"),
       ("signature", .blob "Signature")]
  | .methodPtr => [("target", .row "Method")]
  | .methodDef =>
      [("rva", .constant "RVA"), ("implFlags", .flags .methodImplAttributes "ImplFlags"),
       ("flags", .flags .methodAttributes "Flags"), ("name", .text "Name"),
       ("signature", .blob "Signature"), ("params", .rows "ParamList")]
  | .paramPtr => [("target", .row "Param")]
  | .param =>
      [("flags", .flags .paramAttributes "Flags"), ("sequence", .constant "Sequence"),
       ("name", .text "Name")]
  | .interfaceImpl => [("class", .row "Class"), ("interface", .reference "Interface")]
  | .memberRef =>
      [("class", .reference "Class"), ("name", .text "Name"), ("signature", .blob "Signature")]
  | .constant =>
      [("elementType", .lowByte "Type"), ("parent", .reference "Parent"), ("value", .blob "Value")]
  | .customAttribute =>
      [("parent", .reference "Parent"), ("constructor", .reference "Type"),
       ("value", .blob "Value")]
  | .fieldMarshal => [("parent", .reference "Parent"), ("nativeType", .blob "NativeType")]
  | .declSecurity =>
      [("action", .constant "Action"), ("parent", .reference "Parent"),
       ("permissionSet", .blob "PermissionSet")]
  | .classLayout =>
      [("packingSize", .constant "PackingSize"), ("classSize", .constant "ClassSize"),
       ("parent", .row "Parent")]
  | .fieldLayout => [("offset", .constant "Offset"), ("field", .row "Field")]
  | .standAloneSig => [("signature", .blob "Signature")]
  | .eventMap => [("parent", .row "Parent"), ("events", .rows "EventList")]
  | .eventPtr => [("target", .row "Event")]
  | .event =>
      [("flags", .flags .eventAttributes "EventFlags"), ("name", .text "Name"),
       ("eventType", .reference "EventType")]
  | .propertyMap => [("parent", .row "Parent"), ("properties", .rows "PropertyList")]
  | .propertyPtr => [("target", .row "Property")]
  | .property =>
      [("flags", .flags .propertyAttributes "Flags"), ("name", .text "Name"),
       ("signature", .blob "Type")]
  | .methodSemantics =>
      [("semantics", .flags .methodSemanticsAttributes "Semantics"), ("method", .row "Method"),
       ("association", .reference "Association")]
  | .methodImpl =>
      [("class", .row "Class"), ("methodBody", .reference "MethodBody"),
       ("methodDeclaration", .reference "MethodDeclaration")]
  | .moduleRef => [("name", .text "Name")]
  | .typeSpec => [("signature", .blob "Signature")]
  | .implMap =>
      [("mappingFlags", .flags .pInvokeAttributes "MappingFlags"),
       ("memberForwarded", .reference "MemberForwarded"), ("importName", .text "ImportName"),
       ("importScope", .row "ImportScope")]
  | .fieldRva => [("rva", .constant "RVA"), ("field", .row "Field")]
  | .encLog => [("edited", .token "Token"), ("funcCode", .constant "FuncCode")]
  | .encMap => [("mapped", .token "Token")]
  | .assembly =>
      [("hashAlgId", .constant "HashAlgId"),
       ("version", .version "MajorVersion" "MinorVersion" "BuildNumber" "RevisionNumber"),
       ("flags", .flags .assemblyFlags "Flags"), ("publicKey", .blob "PublicKey"),
       ("name", .text "Name"), ("culture", .text "Culture")]
  | .assemblyProcessor => [("processor", .constant "Processor")]
  | .assemblyOs =>
      [("platformId", .constant "OSPlatformID"), ("majorVersion", .constant "OSMajorVersion"),
       ("minorVersion", .constant "OSMinorVersion")]
  | .assemblyRef =>
      [("version", .version "MajorVersion" "MinorVersion" "BuildNumber" "RevisionNumber"),
       ("flags", .flags .assemblyFlags "Flags"), ("publicKeyOrToken", .blob "PublicKeyOrToken"),
       ("name", .text "Name"), ("culture", .text "Culture"), ("hashValue", .blob "HashValue")]
  | .assemblyRefProcessor =>
      [("processor", .constant "Processor"), ("assemblyRef", .row "AssemblyRef")]
  | .assemblyRefOs =>
      [("platformId", .constant "OSPlatformId"), ("majorVersion", .constant "OSMajorVersion"),
       ("minorVersion", .constant "OSMinorVersion"), ("assemblyRef", .row "AssemblyRef")]
  | .file =>
      [("flags", .flags .fileAttributes "Flags"), ("name", .text "Name"),
       ("hashValue", .blob "HashValue")]
  | .exportedType =>
      [("flags", .flags .typeAttributes "Flags"), ("typeDefId", .constant "TypeDefId"),
       ("name", .text "TypeName"), ("namespace", .text "TypeNamespace"),
       ("implementation", .reference "Implementation")]
  | .manifestResource =>
      [("offset", .constant "Offset"), ("flags", .flags .manifestResourceAttributes "Flags"),
       ("name", .text "Name"), ("implementation", .reference "Implementation")]
  | .nestedClass =>
      [("nestedClass", .row "NestedClass"), ("enclosingClass", .row "EnclosingClass")]
  | .genericParam =>
      [("number", .constant "Number"), ("flags", .flags .genericParamAttributes "Flags"),
       ("owner", .reference "Owner"), ("name", .text "Name")]
  | .methodSpec => [("method", .reference "Method"), ("instantiation", .blob "Instantiation")]
  | .genericParamConstraint =>
      [("owner", .row "Owner"), ("constraint", .reference "Constraint")]

namespace ConstantWidth

def kind : ConstantWidth → ColumnKind
  | .word => .word
  | .long => .long

def cell : ConstantWidth → (value : Nat) → Cell
  | .word => .word
  | .long => .long

end ConstantWidth

/-- What a source comes to in a row. Constants are the numbers in the cells, indices into heaps are
looked up in the heap that the cell names, and rows, references and lists are what the accessors
make of the column of the name. -/
inductive FieldSource.Gives (h : Heaps) (r : Row) : FieldSource → Except Error FieldValue → Prop
  | constant {name : String} {width : ConstantWidth} {value : Nat}
      (hcell : r.cellNamed name = .ok (width.cell value)) :
      Gives h r (.constant name) (.ok ⟨.constant width, value⟩)
  | lowByte {name : String} {value : Nat} (hcell : r.cellNamed name = .ok (.word value)) :
      Gives h r (.lowByte name) (.ok ⟨.lowByte, value % 0x100⟩)
  | token {name : String} {value : Nat} (hcell : r.cellNamed name = .ok (.long value)) :
      Gives h r (.token name) (.ok ⟨.token, ⟨value⟩⟩)
  | flags {kind : FlagKind} {name : String} {width : ConstantWidth} {value : Nat}
      (hcell : r.cellNamed name = .ok (width.cell value)) :
      Gives h r (.flags kind name) (.ok ⟨.flags width kind, ⟨value⟩⟩)
  | version {first second third fourth : String} {major minor build revision : Nat}
      (hmajor : r.cellNamed first = .ok (.word major))
      (hminor : r.cellNamed second = .ok (.word minor))
      (hbuild : r.cellNamed third = .ok (.word build))
      (hrevision : r.cellNamed fourth = .ok (.word revision)) :
      Gives h r (.version first second third fourth)
        (.ok ⟨.version, ⟨major, minor, build, revision⟩⟩)
  | text {name : String} {offset : Nat} (hcell : r.cellNamed name = .ok (.heap .string offset)) :
      Gives h r (.text name) ((h.strings.get offset).map fun text => ⟨.text, text⟩)
  | blob {name : String} {offset : Nat} (hcell : r.cellNamed name = .ok (.heap .blob offset)) :
      Gives h r (.blob name) ((h.blobs.get offset).map fun blob => ⟨.blob, blob⟩)
  | guid {name : String} {offset : Nat} (hcell : r.cellNamed name = .ok (.heap .guid offset)) :
      Gives h r (.guid name) ((h.guids.get offset).map fun guid => ⟨.guid, guid⟩)
  | row {name : String} {target : TableId} {column : Nat}
      (hcolumn : r.tableId.columns[column]? = some ⟨name, .index target⟩) :
      Gives h r (.row name) ((r.tableIndex column).map fun row => ⟨.row, row⟩)
  | reference {name : String} {category : CodedCategory} {column : Nat}
      (hcolumn : r.tableId.columns[column]? = some ⟨name, .coded category⟩) :
      Gives h r (.reference name) ((r.coded column).map fun reference => ⟨.reference, reference⟩)
  | rows {name : String} {target : TableId} {column : Nat}
      (hcolumn : r.tableId.columns[column]? = some ⟨name, .index target⟩) :
      Gives h r (.rows name) ((r.range column).map fun rows => ⟨.rows, rows⟩)

/-! ### Which source a field reads -/

namespace ColumnKind

def isIndex : ColumnKind → Bool
  | .index _ => true
  | _ => false

def isCoded : ColumnKind → Bool
  | .coded _ => true
  | _ => false

end ColumnKind

def columnName? (columns : List Column) (asked : ColumnKind → Bool) (column : Nat) :
    Option String :=
  (columns[column]?).bind fun c => if asked c.kind then some c.name else none

/-- What a field stands for that begins at a column, found from its accessors, which have to suit
the kinds of its columns. -/
def FieldForm.source? (columns : List Column) (column : Nat) : FieldForm → Option FieldSource :=
  let name? (kind : ColumnKind) : (column : Nat) → Option String :=
    columnName? columns (· == kind)
  fun
  | .constant width => (name? width.kind column).map .constant
  | .lowByte => (name? .word column).map .lowByte
  | .token => (name? .long column).map .token
  | .flags width kind => (name? width.kind column).map (.flags kind)
  | .version => do
      let major ← name? .word column
      let minor ← name? .word (column + 1)
      let build ← name? .word (column + 2)
      let revision ← name? .word (column + 3)
      return .version major minor build revision
  | .text => (name? (.heap .string) column).map .text
  | .blob => (name? (.heap .blob) column).map .blob
  | .guid => (name? (.heap .guid) column).map .guid
  | .row => (columnName? columns ColumnKind.isIndex column).map .row
  | .reference => (columnName? columns ColumnKind.isCoded column).map .reference
  | .rows => (columnName? columns ColumnKind.isIndex column).map .rows

def RecordField.Reads (columns : List Column) (field : RecordField)
    (source : String × FieldSource) : Prop :=
  field.name = source.1 ∧ field.form.source? columns field.column = some source.2

instance (columns : List Column) (field : RecordField) (source : String × FieldSource) :
    Decidable (field.Reads columns source) :=
  inferInstanceAs (Decidable (_ ∧ _))

/-- The positions and the accessors of all fields are those that the names of the columns ask
for. -/
theorem TableId.fields_read_sources (t : TableId) :
    List.Forall₂ (RecordField.Reads t.columns) t.fields t.sources := by
  cases t <;> decide

theorem columnName?_eq_some {columns : List Column} {asked : ColumnKind → Bool} {column : Nat}
    {name : String} :
    columnName? columns asked column = some name ↔
      ∃ kind, columns[column]? = some ⟨name, kind⟩ ∧ asked kind = true := by
  rw [columnName?, Option.bind_eq_some_iff]
  constructor
  · rintro ⟨c, hcolumn, hname⟩
    split at hname
    next hasked =>
      cases hname
      exact ⟨c.kind, hcolumn, hasked⟩
    next => cases hname
  · rintro ⟨kind, hcolumn, hasked⟩
    exact ⟨_, hcolumn, if_pos hasked⟩

theorem column_of_name {columns : List Column} {kind : ColumnKind} {column : Nat} {name : String}
    (h : columnName? columns (· == kind) column = some name) :
    columns[column]? = some ⟨name, kind⟩ := by
  obtain ⟨found, hcolumn, hkind⟩ := columnName?_eq_some.1 h
  rwa [eq_of_beq hkind] at hcolumn

theorem index_of_name {columns : List Column} {column : Nat} {name : String}
    (h : columnName? columns ColumnKind.isIndex column = some name) :
    ∃ target, columns[column]? = some ⟨name, .index target⟩ := by
  obtain ⟨kind, hcolumn, hkind⟩ := columnName?_eq_some.1 h
  cases kind with
  | index target => exact ⟨target, hcolumn⟩
  | _ => cases hkind

theorem coded_of_name {columns : List Column} {column : Nat} {name : String}
    (h : columnName? columns ColumnKind.isCoded column = some name) :
    ∃ category, columns[column]? = some ⟨name, .coded category⟩ := by
  obtain ⟨kind, hcolumn, hkind⟩ := columnName?_eq_some.1 h
  cases kind with
  | coded category => exact ⟨category, hcolumn⟩
  | _ => cases hkind

end CliMeta
