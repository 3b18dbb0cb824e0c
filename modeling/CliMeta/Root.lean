import CliMeta.StreamHeader

/-!
The metadata root: a signature, the version text of the runtime and the directory of the streams.
-/

namespace CliMeta

structure Root where
  signature : Nat
  majorVersion : Nat
  minorVersion : Nat
  reserved : Nat
  /-- The bytes set aside for the version text. -/
  versionLength : Nat
  version : String
  flags : Nat
  streams : List StreamHeader
  deriving DecidableEq, Repr

namespace Root

/-- The signature of every root. -/
def magic : Nat := 0x424A5342

/-- Reads what follows the signature. The version text ends at its first zero byte. -/
def fieldsReader (signature : Nat) : Reader Root := do
  let majorVersion ← Reader.unsigned 2
  let minorVersion ← Reader.unsigned 2
  let reserved ← Reader.unsigned 4
  let versionLength ← Reader.unsigned 4
  let versionArea ← Reader.bytes versionLength
  Reader.align 4
  let flags ← Reader.unsigned 2
  let streamCount ← Reader.unsigned 2
  if streamCount = 0 then
    Reader.malformed .noStreams
  let streams ← Reader.times StreamHeader.reader streamCount
  return {
    signature, majorVersion, minorVersion, reserved, versionLength
    version := Utf8.decodeLossy versionArea.untilNul.1
    flags, streams }

def parse (data : Bytes) : Except Error Root :=
  if data.size < 20 then .error .outOfBounds
  else if data.littleEndian 0 4 ≠ magic then
    .error (.malformed (.rootSignature (data.littleEndian 0 4)))
  else (fieldsReader (data.littleEndian 0 4)).valueAt data 4

def stream? (r : Root) (name : String) : Option StreamHeader :=
  r.streams.find? fun header => header.name = name

end Root

end CliMeta
