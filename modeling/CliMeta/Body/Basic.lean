import CliMeta.Body.Clause

/-!
Method bodies: a header, the code and, behind it, data sections with exception clauses. A tiny
header is one byte, which holds the size of the code; a fat header has room for more and says
whether sections follow. Sections begin at multiples of four.
-/

namespace CliMeta

inductive BodyFormat where
  | tiny | fat
  deriving DecidableEq, Repr

def BodyFormat.name : BodyFormat → String
  | .tiny => "Tiny"
  | .fat => "Fat"

structure MethodBody where
  format : BodyFormat
  flags : Flags .methodBodyFlags
  headerSize : Nat
  codeSize : Nat
  maxStack : Nat
  /-- The token of the signature of the local variables, null if there are none. -/
  locals : Token
  clauses : List ExceptionClause
  deriving DecidableEq, Repr

structure SectionHeader where
  flags : Flags .sectionFlags
  /-- The size of the section, its header counted. -/
  size : Nat
  deriving DecidableEq, Repr

/-! ### Data sections -/

namespace SectionHeader

/-- The bytes of a header. -/
def length : Nat := 4

/-- The flags as they are kept of a byte. -/
def flagsOf (byte : Nat) : Flags .sectionFlags :=
  (⟨byte⟩ : Flags .sectionFlags).truncate

def isFatFlag (flags : Flags .sectionFlags) : Bool :=
  flags.has 0x40

def holdsClauses (h : SectionHeader) : Bool :=
  h.flags.has 0x01

def hasMore (h : SectionHeader) : Bool :=
  h.flags.has 0x80

def form (h : SectionHeader) : ClauseForm :=
  if isFatFlag h.flags then .fat else .small

/-- Reads a header. The size takes up one byte of three, or all of them in a fat section. -/
def reader : Reader SectionHeader := do
  let flags := flagsOf (← Reader.byte)
  if isFatFlag flags then
    let low ← Reader.unsigned 2
    let high ← Reader.unsigned 1
    return ⟨flags, high * 0x10000 + low⟩
  else
    let size ← Reader.unsigned 1
    Reader.skip 2
    return ⟨flags, size⟩

/-- Reads what is behind the header. A section of another kind is skipped, as are bytes that are
too few for a clause. -/
def clausesReader (h : SectionHeader) : Reader (List ExceptionClause) := do
  let payload := h.size - length
  if h.holdsClauses then
    let clauses ← Reader.times h.form.reader (payload / h.form.size)
    Reader.skip (payload % h.form.size)
    return clauses
  else
    Reader.skip payload
    return []

end SectionHeader

/-! ### Bodies -/

namespace MethodBody

def empty : MethodBody := ⟨.tiny, ⟨2⟩, 0, 0, 0, ⟨0⟩, []⟩

/-- The stack that a tiny body may use. -/
def tinyMaxStack : Nat := 8

/-- The bytes of a fat header that have a meaning. -/
def fatHeaderSize : Nat := 12

/-- Reads data sections. `fuel` bounds their number; every section takes up four bytes or more. -/
def sectionsReader : (fuel : Nat) → Reader (List ExceptionClause)
  | 0 => throw .outOfBounds
  | fuel + 1 => do
      Reader.align 4
      let header ← SectionHeader.reader
      if header.size < SectionHeader.length then
        Reader.malformed (.sectionSize header.size)
      let clauses ← header.clausesReader
      if header.hasMore then return clauses ++ (← sectionsReader fuel)
      else return clauses

def tinyReader : Reader MethodBody := do
  let codeSize := (← Reader.byte) / 4
  Reader.skip codeSize
  return ⟨.tiny, ⟨2⟩, 1, codeSize, tinyMaxStack, ⟨0⟩, []⟩

/-- The flags as they are kept of the first two bytes of a fat header. -/
def fatFlags (word : Nat) : Flags .methodBodyFlags :=
  (⟨word⟩ : Flags .methodBodyFlags).truncate

/-- The size of a fat header as its first two bytes give it. -/
def declaredHeaderSize (word : Nat) : Nat :=
  word / 0x1000 * 4

def hasSections (flags : Flags .methodBodyFlags) : Bool :=
  flags.has 0x08

/-- Reads a body with a fat header. The code begins where the header ends by its own account. -/
def fatReader : Reader MethodBody := do
  let word ← Reader.unsigned 2
  let maxStack ← Reader.unsigned 2
  let codeSize ← Reader.unsigned 4
  let locals ← Reader.unsigned 4
  let headerSize := declaredHeaderSize word
  if headerSize < fatHeaderSize then
    Reader.malformed (.fatHeaderSize headerSize)
  Reader.seek headerSize
  Reader.skip codeSize
  let flags := fatFlags word
  let clauses ← if hasSections flags then sectionsReader ((← Reader.remaining) + 1) else pure []
  return ⟨.fat, flags, headerSize, codeSize, maxStack, ⟨locals⟩, clauses⟩

/-- Reads a body from bytes that may end inside it. The low two bits tell the format. -/
def openReader : Reader MethodBody := do
  let first ← Reader.peek
  match first % 4 with
  | 2 => tinyReader
  | 3 => fatReader
  | _ => Reader.malformed (.bodyFormat first)

def ofBytes (data : Bytes) : Except Error MethodBody :=
  (openReader.orTruncated .bodyTruncated).valueAt data 0

/-- The size of header and code. -/
def size (b : MethodBody) : Nat :=
  b.headerSize + b.codeSize

def initializesLocals (b : MethodBody) : Bool :=
  b.format == .fat && b.flags.has 0x10

def code (b : MethodBody) (data : Bytes) : Except Error Bytes :=
  match data.slice? b.headerSize b.size with
  | some code => .ok code
  | none => .error (.bodyTruncated data.size)

end MethodBody

end CliMeta
