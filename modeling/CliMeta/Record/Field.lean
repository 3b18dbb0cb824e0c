import CliMeta.Assembly.Version
import CliMeta.Flags
import CliMeta.Heap.Store
import CliMeta.Table.Range

/-!
The fields that the columns of a table stand for: at which column each begins, how it is read there,
and what its value is once heaps are looked up and row numbers are turned into rows.
-/

namespace CliMeta

inductive ConstantWidth where
  | word | long
  deriving DecidableEq, Repr

/-- The constant in a column, which has to be of the width that is asked for. -/
def Row.constant (r : Row) : ConstantWidth → (column : Nat) → Except Error Nat
  | .word => r.word
  | .long => r.long

inductive FieldForm where
  | constant (width : ConstantWidth)
  /-- The low byte of a constant of two bytes. -/
  | lowByte
  | token
  | flags (width : ConstantWidth) (kind : FlagKind)
  /-- Four constants in four columns. -/
  | version
  | text | blob | guid
  /-- A row of another table, counted from 0, or none. -/
  | row
  | reference
  /-- A run of rows of another table. -/
  | rows
  deriving DecidableEq, Repr

namespace FieldForm

abbrev Value : FieldForm → Type
  | .constant _ => Nat
  | .lowByte => Nat
  | .token => Token
  | .flags _ kind => Flags kind
  | .version => AssemblyVersion
  | .text => String
  | .blob => Bytes
  | .guid => Guid
  | .row => Option Nat
  | .reference => RowReference
  | .rows => RowRange

/-- Reads a field of which the first column is given. -/
def read (h : Heaps) (r : Row) (column : Nat) : (form : FieldForm) → Except Error form.Value
  | .constant width => r.constant width column
  | .lowByte => return (← r.word column) % 0x100
  | .token => return ⟨← r.long column⟩
  | .flags width _ => return ⟨← r.constant width column⟩
  | .version => do
      let major ← r.word column
      let minor ← r.word (column + 1)
      let build ← r.word (column + 2)
      let revision ← r.word (column + 3)
      return ⟨major, minor, build, revision⟩
  | .text => do h.strings.get (← r.heapOffset column)
  | .blob => do h.blobs.get (← r.heapOffset column)
  | .guid => do h.guids.get (← r.heapOffset column)
  | .row => r.tableIndex column
  | .reference => r.coded column
  | .rows => r.range column

end FieldForm

/-- A field with the column at which it begins. -/
structure RecordField where
  name : String
  column : Nat
  form : FieldForm
  deriving DecidableEq, Repr

namespace RecordField

def word (name : String) (column : Nat) : RecordField := ⟨name, column, .constant .word⟩

def long (name : String) (column : Nat) : RecordField := ⟨name, column, .constant .long⟩

def lowByte (name : String) (column : Nat) : RecordField := ⟨name, column, .lowByte⟩

def token (name : String) (column : Nat) : RecordField := ⟨name, column, .token⟩

def wordFlags (name : String) (column : Nat) (kind : FlagKind) : RecordField :=
  ⟨name, column, .flags .word kind⟩

def longFlags (name : String) (column : Nat) (kind : FlagKind) : RecordField :=
  ⟨name, column, .flags .long kind⟩

def version (name : String) (column : Nat) : RecordField := ⟨name, column, .version⟩

def text (name : String) (column : Nat) : RecordField := ⟨name, column, .text⟩

def blob (name : String) (column : Nat) : RecordField := ⟨name, column, .blob⟩

def guid (name : String) (column : Nat) : RecordField := ⟨name, column, .guid⟩

def row (name : String) (column : Nat) : RecordField := ⟨name, column, .row⟩

def reference (name : String) (column : Nat) : RecordField := ⟨name, column, .reference⟩

def rows (name : String) (column : Nat) : RecordField := ⟨name, column, .rows⟩

end RecordField

open RecordField in
/-- The fields of a table in the order in which they are read. -/
def TableId.fields : TableId → List RecordField
  | .module =>
      [word "generation" 0, text "name" 1, guid "mvid" 2, guid "encId" 3, guid "encBaseId" 4]
  | .typeRef => [reference "resolutionScope" 0, text "name" 1, text "namespace" 2]
  | .typeDef =>
      [longFlags "flags" 0 .typeAttributes, text "name" 1, text "namespace" 2,
       reference "extends" 3, rows "fields" 4, rows "methods" 5]
  | .fieldPtr | .methodPtr | .paramPtr | .eventPtr | .propertyPtr => [row "target" 0]
  | .field => [wordFlags "flags" 0 .fieldAttributes, text "name" 1, blob "signature" 2]
  | .methodDef =>
      [long "rva" 0, wordFlags "implFlags" 1 .methodImplAttributes,
       wordFlags "flags" 2 .methodAttributes, text "name" 3, blob "signature" 4, rows "params" 5]
  | .param => [wordFlags "flags" 0 .paramAttributes, word "sequence" 1, text "name" 2]
  | .interfaceImpl => [row "class" 0, reference "interface" 1]
  | .memberRef => [reference "class" 0, text "name" 1, blob "signature" 2]
  | .constant => [lowByte "elementType" 0, reference "parent" 1, blob "value" 2]
  | .customAttribute => [reference "parent" 0, reference "constructor" 1, blob "value" 2]
  | .fieldMarshal => [reference "parent" 0, blob "nativeType" 1]
  | .declSecurity => [word "action" 0, reference "parent" 1, blob "permissionSet" 2]
  | .classLayout => [word "packingSize" 0, long "classSize" 1, row "parent" 2]
  | .fieldLayout => [long "offset" 0, row "field" 1]
  | .standAloneSig => [blob "signature" 0]
  | .eventMap => [row "parent" 0, rows "events" 1]
  | .event => [wordFlags "flags" 0 .eventAttributes, text "name" 1, reference "eventType" 2]
  | .propertyMap => [row "parent" 0, rows "properties" 1]
  | .property => [wordFlags "flags" 0 .propertyAttributes, text "name" 1, blob "signature" 2]
  | .methodSemantics =>
      [wordFlags "semantics" 0 .methodSemanticsAttributes, row "method" 1,
       reference "association" 2]
  | .methodImpl => [row "class" 0, reference "methodBody" 1, reference "methodDeclaration" 2]
  | .moduleRef => [text "name" 0]
  | .typeSpec => [blob "signature" 0]
  | .implMap =>
      [wordFlags "mappingFlags" 0 .pInvokeAttributes, reference "memberForwarded" 1,
       text "importName" 2, row "importScope" 3]
  | .fieldRva => [long "rva" 0, row "field" 1]
  | .encLog => [token "edited" 0, long "funcCode" 1]
  | .encMap => [token "mapped" 0]
  | .assembly =>
      [long "hashAlgId" 0, version "version" 1, longFlags "flags" 5 .assemblyFlags,
       blob "publicKey" 6, text "name" 7, text "culture" 8]
  | .assemblyProcessor => [long "processor" 0]
  | .assemblyOs => [long "platformId" 0, long "majorVersion" 1, long "minorVersion" 2]
  | .assemblyRef =>
      [version "version" 0, longFlags "flags" 4 .assemblyFlags, blob "publicKeyOrToken" 5,
       text "name" 6, text "culture" 7, blob "hashValue" 8]
  | .assemblyRefProcessor => [long "processor" 0, row "assemblyRef" 1]
  | .assemblyRefOs =>
      [long "platformId" 0, long "majorVersion" 1, long "minorVersion" 2, row "assemblyRef" 3]
  | .file => [longFlags "flags" 0 .fileAttributes, text "name" 1, blob "hashValue" 2]
  | .exportedType =>
      [longFlags "flags" 0 .typeAttributes, long "typeDefId" 1, text "name" 2, text "namespace" 3,
       reference "implementation" 4]
  | .manifestResource =>
      [long "offset" 0, longFlags "flags" 1 .manifestResourceAttributes, text "name" 2,
       reference "implementation" 3]
  | .nestedClass => [row "nestedClass" 0, row "enclosingClass" 1]
  | .genericParam =>
      [word "number" 0, wordFlags "flags" 1 .genericParamAttributes, reference "owner" 2,
       text "name" 3]
  | .methodSpec => [reference "method" 0, blob "instantiation" 1]
  | .genericParamConstraint => [row "owner" 0, reference "constraint" 1]

end CliMeta
