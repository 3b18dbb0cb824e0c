import CliMeta.Image.AddressSpace
import CliMeta.Image.Section

/-!
Portable executables, as far as they lead to the metadata: the directory entry of the runtime and
the sections, which map addresses to positions in the file. The headers are read by a parser that is
given.
-/

namespace CliMeta

structure OptionalHeader where
  imageBase : Nat
  clrDirectory : Option ImageRegion
  deriving DecidableEq, Repr

/-- The fields of interest of an executable's headers. -/
structure ExecutableHeaders where
  optional : Option OptionalHeader
  sections : List Section
  deriving DecidableEq, Repr

/-- A parser of the headers, which gives nothing for a file that it refuses. -/
abbrev ExecutableParser : Type := Bytes → Option ExecutableHeaders

structure Executable where
  data : Bytes
  imageBase : Nat
  clrDirectory : ImageRegion
  sections : List Section

namespace Executable

def parse (parser : ExecutableParser) (data : Bytes) : Except Error Executable :=
  if data.isEmpty then .error .empty
  else
    match parser data with
    | none => .error .notExecutable
    | some ⟨none, _⟩ => .error (.malformed .noOptionalHeader)
    | some ⟨some ⟨_, none⟩, _⟩ => .error (.malformed .noClrDirectory)
    | some ⟨some ⟨imageBase, some clrDirectory⟩, sections⟩ =>
        .ok ⟨data, imageBase, clrDirectory, sections⟩

/-- Looks an address up in sections. The first section that covers it counts; a section in front of
it whose end is no 32-bit address is reported. -/
def positionIn (rva : Nat) : List Section → Except Error Nat
  | [] => .error (.malformed (.unmappedRva rva))
  | s :: sections =>
      let stop := s.virtualAddress + s.extent
      if 0x100000000 ≤ stop then .error (.malformed (.sectionOverflow s.virtualAddress s.extent))
      else if s.virtualAddress ≤ rva ∧ rva < stop then
        .ok (s.positionOf rva)
      else positionIn rva sections

def position (e : Executable) (rva : Nat) : Except Error Nat :=
  positionIn rva e.sections

def space (e : Executable) : AddressSpace where
  read rva length :=
    match e.position rva with
    | .ok position =>
        match e.data.slice? position (position + length) with
        | some bytes => .ok bytes
        | none => .error (.imageRead rva length)
    | .error _ => .error (.imageRead rva length)
  readText rva :=
    match e.position rva with
    | .ok position =>
        match e.data.textAt? position with
        | some text => .ok text
        | none => .error (.imageRead rva 1)
    | .error _ => .error (.imageRead rva 1)
  size_of_read {rva length bytes} h := by
    split at h
    · split at h
      · rename_i taken found
        cases h
        exact Bytes.size_of_slice? found
      · cases h
    · cases h

end Executable

end CliMeta
