import CliMeta.Reader

/-!
Sections of a portable executable. A section maps a run of addresses to a run of positions in the
file.
-/

namespace CliMeta

structure Section where
  name : Bytes
  virtualSize : Nat
  virtualAddress : Nat
  rawSize : Nat
  rawPointer : Nat
  deriving DecidableEq, Repr

namespace Section

def reader : Reader Section := do
  let name ← Reader.bytes 8
  let virtualSize ← Reader.unsigned 4
  let virtualAddress ← Reader.unsigned 4
  let rawSize ← Reader.unsigned 4
  let rawPointer ← Reader.unsigned 4
  Reader.skip 16
  return ⟨name, virtualSize, virtualAddress, rawSize, rawPointer⟩

/-- The bytes of address space that the section claims. -/
def extent (s : Section) : Nat :=
  max s.virtualSize s.rawSize

def positionOf (s : Section) (rva : Nat) : Nat :=
  rva - s.virtualAddress + s.rawPointer

end Section

end CliMeta
