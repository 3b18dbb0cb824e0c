import CliMeta.Heap.Kind
import CliMeta.Signature.Kind
import CliMeta.Table.Category
import CliMeta.Text.Utf8
import CliMeta.Token

/-!
What can go wrong while metadata is read. `Error` separates the causes a caller may want to tell
apart; a damaged structure carries the `Defect` that was found. The wording of both is in their
`message` functions and nowhere else.
-/

namespace CliMeta

/-- What a typed column accessor asks for. -/
inductive ColumnRole where
  | shortConstant | longConstant | heapIndex | tableIndex | codedIndex | rowList
  deriving DecidableEq, Repr

def ColumnRole.description : ColumnRole → String
  | .shortConstant => "a 2-byte constant"
  | .longConstant => "a 4-byte constant"
  | .heapIndex => "a heap index"
  | .tableIndex => "a table index"
  | .codedIndex => "a coded index"
  | .rowList => "a list column"

/-- A way in which a structure is damaged. -/
inductive Defect where
  /- encodings -/
  | compressedLead (byte : Nat)
  | illFormedText (offset : Nat) (fault : Utf8.Fault)
  /- executable headers -/
  | noOptionalHeader
  | noClrDirectory
  | sectionOverflow (address extent : Nat)
  | unmappedRva (rva : Nat)
  | clrHeaderSize (declared : Nat)
  | clrWithoutMetadata
  /- metadata root and streams -/
  | rootSignature (found : Nat)
  | noStreams
  | unterminatedStreamName
  | streamOutside (name : String) (offset size available : Nat)
  | unknownStream (name : String)
  | noTablesStream
  | uncompressedTables
  /- heaps -/
  | heapStart (heap : HeapKind)
  | guidHeapSize (size : Nat)
  /- tables -/
  | unsupportedTables (valid : Nat)
  | noColumn (table : TableId) (column : Nat)
  | noColumnNamed (table : TableId) (name : String)
  | columnRole (table : TableId) (column : Nat) (expected : ColumnRole)
  | rowOfOtherTable (actual expected : TableId)
  /- signatures -/
  | conventionKind (kind : Nat)
  | notMemberSignature (kind : SignatureKind)
  | notLocals (byte : Nat)
  | notInstantiation (byte : Nat)
  | typePrefixOrder (byte offset : Nat)
  | genericBase (byte : Nat)
  | elementType (byte offset : Nat)
  /- method bodies -/
  | fatHeaderSize (size : Nat)
  | bodyFormat (byte : Nat)
  | bodyFormatAt (rva byte : Nat)
  | sectionSize (size : Nat)
  | bodyTooLarge (rva : Nat)
  | invalidLocals (method locals : Token)
  | clauseOutsideCode (method : Token) (codeSize : Nat)
  /- instructions -/
  | branchOutside (offset : Nat) (target : Int)
  | tokenWithoutTable (token : Token)
  | notStringToken (token : Token)
  /- assembly names -/
  | emptyAssemblyName (display : String)
  | displayComponent (part : String)
  | versionFormat (text : String)
  | versionComponent (part : String)
  | oddHexDigits (text : String)
  | hexDigits (text : String)
  deriving DecidableEq, Repr

namespace Defect

def message : Defect → String
  | .compressedLead byte => s!"Invalid compressed uint lead byte - 0x{hexUpper 2 byte}"
  | .illFormedText offset fault => s!"Invalid UTF-8 at offset {offset} - {fault.message}"
  | .noOptionalHeader => "File does not have an OptionalHeader"
  | .noClrDirectory => "File does not have a CLR runtime header directory"
  | .sectionOverflow address extent =>
      s!"Section malformed, causing integer overflow - {address} + {extent}"
  | .unmappedRva rva => s!"RVA could not be converted to offset - 0x{hexUpper 1 rva}"
  | .clrHeaderSize declared => s!"Invalid CLR header size: expected 72, got {declared}"
  | .clrWithoutMetadata => "CLR header has no metadata"
  | .rootSignature found => s!"Metadata signature does not match - 0x{hexLower 8 found}"
  | .noStreams => "Metadata root declares no streams"
  | .unterminatedStreamName => "Stream header name is not terminated"
  | .streamOutside name offset size available =>
      s!"Stream {name} (0x{hexLower 1 offset} + 0x{hexLower 1 size})" ++
        s!" exceeds the metadata (0x{hexLower 1 available} bytes)"
  | .unknownStream name => s!"Unknown metadata stream - {name}"
  | .noTablesStream => "Image has no #~ or #- tables stream"
  | .uncompressedTables => "Uncompressed #- tables stream is not allowed"
  | .heapStart .blob => "Invalid memory for #Blob heap"
  | .heapStart heap => s!"{heap.streamName} heap does not start with a NUL byte"
  | .guidHeapSize size => s!"#GUID heap size {size} is not a multiple of 16"
  | .unsupportedTables valid =>
      s!"Tables stream declares unsupported tables - 0x{hexLower 16 valid}"
  | .noColumn table column => s!"{table.name} has no column {column}"
  | .noColumnNamed table name => s!"{table.name} has no column named {name}"
  | .columnRole table column expected =>
      s!"Column {column} of {table.name} is not {expected.description}"
  | .rowOfOtherTable actual expected =>
      s!"Row of {actual.name} cannot be read as {expected.name}"
  | .conventionKind kind => s!"Invalid calling convention kind - 0x{hexUpper 2 kind}"
  | .notMemberSignature kind =>
      s!"Expected a method, property or field signature, found {kind.name}"
  | .notLocals byte => s!"Expected a local variable signature, found 0x{hexUpper 2 byte}"
  | .notInstantiation byte => s!"Expected a method instantiation, found 0x{hexUpper 2 byte}"
  | .typePrefixOrder byte offset =>
      s!"Type prefix 0x{hexUpper 2 byte} out of order at offset {offset}"
  | .genericBase byte =>
      s!"GENERICINST - Next byte is not CLASS or VALUETYPE - 0x{hexUpper 2 byte}"
  | .elementType byte offset =>
      s!"Unsupported ELEMENT_TYPE - 0x{hexUpper 2 byte} at offset {offset}"
  | .fatHeaderSize size => s!"Fat method header declares {size} bytes"
  | .bodyFormat byte => s!"MethodHeader is neither FAT nor TINY - 0x{hexUpper 2 byte}"
  | .bodyFormatAt rva byte =>
      s!"MethodHeader at RVA 0x{hexUpper 8 rva} is neither FAT nor TINY - 0x{hexUpper 2 byte}"
  | .sectionSize size => s!"Method data section of {size} bytes is smaller than its header"
  | .bodyTooLarge rva => s!"Method body at RVA 0x{hexUpper 8 rva} is too large"
  | .invalidLocals method locals =>
      s!"Method {method.text} declares invalid locals {locals.text}"
  | .clauseOutsideCode method codeSize =>
      s!"Method {method.text} has an exception clause outside its {codeSize} bytes of code"
  | .branchOutside offset target =>
      s!"Branch at IL_{hexLower 4 offset} targets {target} which is outside the method"
  | .tokenWithoutTable token => s!"Token {token.text} addresses no metadata table"
  | .notStringToken token => s!"ldstr operand {token.text} is not a string token"
  | .emptyAssemblyName display => s!"Assembly name is empty - {display}"
  | .displayComponent part => s!"Invalid display name component: {part}"
  | .versionFormat text => s!"Invalid version format: {text}"
  | .versionComponent part => s!"Invalid version component: {part}"
  | .oddHexDigits text => s!"Odd number of hex digits - {text}"
  | .hexDigits text => s!"Invalid hex digits - {text}"

end Defect

inductive Error where
  /-- The image holds no `length` bytes at an address. -/
  | imageRead (rva length : Nat)
  | malformed (defect : Defect)
  /-- A read would have run past the end of its buffer. -/
  | outOfBounds
  /-- There is no input at all. -/
  | empty
  /-- The input is not a portable executable. -/
  | notExecutable
  /-- There is no entry, or none that is well formed, at this place of a heap. -/
  | heapRead (heap : HeapKind) (offset : Nat)
  | tableAbsent (table : TableId)
  | rowOutOfRange (table : TableId) (index count : Nat)
  | unknownCodedTag (category : CodedCategory) (tag : Nat)
  /-- A reference to a row, counted from 1, that its table does not have. -/
  | danglingReference (table : TableId) (row : Nat)
  | signatureTruncated (offset : Nat)
  | signatureTrailing (consumed length : Nat)
  | unsupportedOpcode (offset opcode : Nat)
  | bodyTruncated (offset : Nat)
  /-- Types are nested more deeply than the limit allows. -/
  | nestingLimit (limit : Nat)
  /-- A number leaves its word, at which the computation is given up. -/
  | overflow
  deriving DecidableEq, Repr

namespace Error

def message : Error → String
  | .imageRead rva length => s!"Could not read {length} bytes at RVA 0x{hexUpper 8 rva}"
  | .malformed defect => defect.message
  | .outOfBounds => "Out of Bound read would have occurred!"
  | .empty => "Provided input was empty"
  | .notExecutable => "Not a portable executable"
  | .heapRead heap offset =>
      s!"Failed to read the {heap.streamName} heap at offset 0x{hexUpper 1 offset}"
  | .tableAbsent table => s!"Table {table.name} is not present in this image"
  | .rowOutOfRange table index count =>
      s!"Row {index} is out of range for table {table.name} with {count} rows"
  | .unknownCodedTag category tag => s!"Tag {tag} is not valid for coded index {category.name}"
  | .danglingReference table row =>
      s!"Reference to row {row} of table {table.name} does not exist"
  | .signatureTruncated offset => s!"Signature truncated at offset {offset}"
  | .signatureTrailing consumed length =>
      s!"Signature has trailing bytes - consumed {consumed} of {length}"
  | .unsupportedOpcode offset opcode =>
      s!"Unsupported opcode 0x{hexUpper 4 opcode} at offset 0x{hexUpper 1 offset}"
  | .bodyTruncated offset => s!"Method body truncated at offset 0x{hexUpper 1 offset}"
  | .nestingLimit limit => s!"Reach the maximum recursion level allowed - {limit}"
  | .overflow => "Arithmetic overflow"

end Error

end CliMeta
