import CliMeta.Body.Basic
import CliMeta.Image.AddressSpace

/-!
Bodies in an image. How far a body extends is found from its headers alone, in steps of a few bytes
each, before the body is read as a whole. Lengths and addresses are 32-bit words.
-/

namespace CliMeta

namespace SectionHeader

def ofWord (bytes : Bytes) : SectionHeader :=
  let flags := flagsOf (bytes.byteAt 0)
  ⟨flags, if isFatFlag flags then bytes.littleEndian 1 3 else bytes.byteAt 1⟩

end SectionHeader

namespace MethodBody

/-- Reads at a distance from the start of a body. -/
def readBehind (a : AddressSpace) (rva offset length : Nat) : Except Error Bytes :=
  if rva + offset < 0x100000000 then a.read (rva + offset) length
  else .error (.imageRead rva offset)

def checkLength (rva length : Nat) : Except Error Nat :=
  if length < 0x100000000 then .ok length else .error (.malformed (.bodyTooLarge rva))

/-- The length of a body up to the end of its last section, where sections follow its first `length`
bytes. A section smaller than its own header ends the search. -/
def sectionsExtent (a : AddressSpace) (rva length : Nat) : Except Error Nat :=
  let start := (length + 3) / 4 * 4
  if 0x100000000 ≤ length + 3 then .error (.malformed (.bodyTooLarge rva))
  else
    match (readBehind a rva start SectionHeader.length).map SectionHeader.ofWord with
    | .error e => .error e
    | .ok header =>
        if header.size < SectionHeader.length then checkLength rva (start + SectionHeader.length)
        else if 0x100000000 ≤ start + header.size then .error (.malformed (.bodyTooLarge rva))
        else if header.hasMore then sectionsExtent a rva (start + header.size)
        else .ok (start + header.size)
termination_by 0x100000000 - length
decreasing_by
  simp only [SectionHeader.length] at *
  omega

def extent (a : AddressSpace) (rva : Nat) : Except Error Nat := do
  let first := (← readBehind a rva 0 1).byteAt 0
  match first % 4 with
  | 2 => return 1 + first / 4
  | 3 => do
      let header ← readBehind a rva 0 fatHeaderSize
      let word := header.littleEndian 0 2
      let length ← checkLength rva (declaredHeaderSize word + header.littleEndian 4 4)
      if hasSections (fatFlags word) then sectionsExtent a rva length else return length
  | _ => throw (.malformed (.bodyFormatAt rva first))

/-- The body at an address together with its bytes. Address zero stands for no code. -/
def read (a : AddressSpace) (rva : Nat) : Except Error (MethodBody × Bytes) :=
  if rva = 0 then .ok (empty, #[])
  else do
    let data ← a.read rva (← extent a rva)
    return (← ofBytes data, data)

end MethodBody

end CliMeta
