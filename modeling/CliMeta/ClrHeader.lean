import CliMeta.Flags
import CliMeta.Reader

/-!
The header of the runtime in an executable, which tells where the metadata is.
-/

namespace CliMeta

/-- A place in an image: an address and a number of bytes. -/
structure ImageRegion where
  rva : Nat
  size : Nat
  deriving DecidableEq, Repr

namespace ImageRegion

def isEmpty (r : ImageRegion) : Bool :=
  r.rva == 0 || r.size == 0

def reader : Reader ImageRegion := do
  let rva ← Reader.unsigned 4
  let size ← Reader.unsigned 4
  return ⟨rva, size⟩

end ImageRegion

structure ClrHeader where
  /-- The size that the header states. -/
  declaredSize : Nat
  majorRuntimeVersion : Nat
  minorRuntimeVersion : Nat
  metadata : ImageRegion
  flags : Flags .comImageFlags
  entryPoint : Token
  resources : ImageRegion
  strongNameSignature : ImageRegion
  codeManagerTable : ImageRegion
  vtableFixups : ImageRegion
  exportAddressTableJumps : ImageRegion
  managedNativeHeader : ImageRegion
  deriving DecidableEq, Repr

namespace ClrHeader

/-- The size in bytes. -/
def size : Nat := 72

def reader : Reader ClrHeader := do
  let declaredSize ← Reader.unsigned 4
  if declaredSize ≠ size then
    Reader.malformed (.clrHeaderSize declaredSize)
  let majorRuntimeVersion ← Reader.unsigned 2
  let minorRuntimeVersion ← Reader.unsigned 2
  let metadata ← ImageRegion.reader
  if metadata.isEmpty then
    Reader.malformed .clrWithoutMetadata
  let flags ← Reader.unsigned 4
  let entryPoint ← Reader.unsigned 4
  let resources ← ImageRegion.reader
  let strongNameSignature ← ImageRegion.reader
  let codeManagerTable ← ImageRegion.reader
  let vtableFixups ← ImageRegion.reader
  let exportAddressTableJumps ← ImageRegion.reader
  let managedNativeHeader ← ImageRegion.reader
  return {
    declaredSize, majorRuntimeVersion, minorRuntimeVersion, metadata
    flags := ⟨flags⟩
    entryPoint := ⟨entryPoint⟩
    resources, strongNameSignature, codeManagerTable, vtableFixups
    exportAddressTableJumps, managedNativeHeader }

def parse (data : Bytes) : Except Error ClrHeader :=
  if data.size < size then .error .outOfBounds else reader.valueAt data 0

end ClrHeader

end CliMeta
