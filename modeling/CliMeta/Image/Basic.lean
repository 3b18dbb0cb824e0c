import CliMeta.Image.Executable
import CliMeta.Image.Streams
import CliMeta.Record.View
import CliMeta.Table.Stream

/-!
Images with their metadata loaded: the root, the heaps and the tables. An image never changes, and
records are read from it when they are asked for.
-/

namespace CliMeta

structure Image where
  space : AddressSpace
  options : LoadOptions
  /-- The header of the runtime, if the image is an executable. -/
  clrHeader : Option ClrHeader
  root : Root
  heaps : Heaps
  tables : TablesStream
  uncompressed : Bool

namespace Image

/-- The first tables stream, in a form that is allowed. -/
def tablesStream (options : LoadOptions) (root : Root) : Except Error StreamHeader :=
  match root.roleStream? .tables with
  | none => .error (.malformed .noTablesStream)
  | some header =>
      if header.name = StreamRole.uncompressedName ∧ options.allowUncompressedTables = false then
        .error (.malformed .uncompressedTables)
      else .ok header

def load (space : AddressSpace) (clrHeader : Option ClrHeader) (rva size : Nat)
    (options : LoadOptions) : Except Error Image := do
  let metadata ← space.read rva size
  let root ← Root.parse metadata
  root.checkNames options
  let tablesHeader ← tablesStream options root
  let strings ← root.heapContents metadata .string
  let blobs ← root.heapContents metadata .blob
  let guids ← root.heapContents metadata .guid
  let userStrings ← root.heapContents metadata .userString
  let heaps ← Heaps.ofBytes strings blobs guids userStrings
  let tables ← TablesStream.parse (← tablesHeader.contents metadata)
  return {
    space, options, clrHeader, root, heaps, tables
    uncompressed := tablesHeader.name = StreamRole.uncompressedName }

def ofBuffer (data : Bytes) (rva size : Nat) (options : LoadOptions) : Except Error Image :=
  load (.ofBuffer data) none rva size options

def ofMetadata (data : Bytes) : Except Error Image :=
  ofBuffer data 0 data.size .default

/-- Loads the metadata of a portable executable, which the header of the runtime points to. -/
def ofExecutable (parser : ExecutableParser) (data : Bytes) (options : LoadOptions) :
    Except Error Image := do
  let executable ← Executable.parse parser data
  let clrHeader ← executable.space.readClrHeader executable.clrDirectory.rva
  load executable.space (some clrHeader) clrHeader.metadata.rva clrHeader.metadata.size options

def record (image : Image) (table : TableId) (index : Nat) : Except Error (Record table) := do
  let row ← image.tables.row table index
  Record.ofRow image.heaps table row

def records (image : Image) (table : TableId) : List (Except Error (Record table)) :=
  (List.range (image.tables.rowCount table)).map (image.record table)

end Image

end CliMeta
