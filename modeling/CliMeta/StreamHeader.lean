import CliMeta.Reader
import CliMeta.Text.Latin1

/-!
Stream headers, the entries of the directory in the metadata root. A header gives the place and size
of a stream and its name, which a zero byte ends and which is padded to four bytes.
-/

namespace CliMeta

structure StreamHeader where
  offset : Nat
  size : Nat
  name : String
  deriving DecidableEq, Repr

namespace StreamHeader

/-- The most bytes that a name may take up, its zero byte counted. -/
def nameLimit : Nat := 32

/-- The bytes that are skipped for the header: eight bytes, and then the name as UTF-8 with a zero
byte, rounded up to whole words. -/
def headerSize (h : StreamHeader) : Nat :=
  8 + (h.name.utf8ByteSize + 4) / 4 * 4

/-- The header at the front of the bytes. -/
def ofBytes (data : Bytes) : Except Error StreamHeader :=
  if data.size < 9 then .error .outOfBounds
  else
    match Bytes.untilNul (data.extract 8 (8 + nameLimit)) with
    | (name, true) => .ok ⟨data.littleEndian 0 4, data.littleEndian 4 4, latin1 name⟩
    | (_, false) => .error (.malformed .unterminatedStreamName)

/-- Reads a header. The stream has to lie inside the buffer that the header is read from. -/
def reader : Reader StreamHeader := do
  let data ← Reader.buffer
  let start ← Reader.position
  let header ← Reader.ofExcept (ofBytes (data.extract start (start + 8 + nameLimit)))
  Reader.skip header.headerSize
  if data.size < header.offset + header.size then
    Reader.malformed (.streamOutside header.name header.offset header.size data.size)
  return header

def contents (h : StreamHeader) (metadata : Bytes) : Except Error Bytes :=
  match metadata.slice? h.offset (h.offset + h.size) with
  | some data => .ok data
  | none => .error (.malformed (.streamOutside h.name h.offset h.size metadata.size))

end StreamHeader

end CliMeta
