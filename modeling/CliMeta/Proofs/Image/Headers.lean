import CliMeta.Image.Executable
import CliMeta.Proofs.Reader.Contained

/-!
The headers of an executable as they are written. A parser is expected to give the section table
that stands in the file; what else it asks of a file is its own affair. The plain parser looks at
the signatures, at the optional header in both its forms and at the section table.
-/

namespace CliMeta

open Reader

namespace ExecutableHeaders

/-- Reads the section table, wherever the position is. The place of the file header is at `0x3C`,
and the table stands behind the optional header, whose size the file header tells. -/
def sectionsReader : Reader (List Section) := do
  Reader.seek 0x3C
  let start ← Reader.unsigned 4
  Reader.seek (start + 6)
  let count ← Reader.unsigned 2
  Reader.skip 12
  let optionalSize ← Reader.unsigned 2
  Reader.skip (2 + optionalSize)
  Reader.times Section.reader count

/-- Checks the signatures and reads the size of the optional header, which comes next. -/
def fileHeaderReader : Reader Nat := do
  if (← Reader.unsigned 2) ≠ 0x5A4D then throw .notExecutable
  Reader.seek 0x3C
  let start ← Reader.unsigned 4
  Reader.seek start
  if (← Reader.unsigned 4) ≠ 0x4550 then throw .notExecutable
  Reader.skip 16
  let optionalSize ← Reader.unsigned 2
  Reader.skip 2
  return optionalSize

end ExecutableHeaders

namespace OptionalHeader

/-- Where an optional header has its fields. -/
structure Layout where
  baseOffset : Nat
  baseWidth : Nat
  directories : Nat

def Layout.ofMagic? : Nat → Option Layout
  | 0x10B => some ⟨28, 4, 92⟩
  | 0x20B => some ⟨24, 8, 108⟩
  | _ => none

/-- The directory of the runtime is number 14, if there are as many. An empty one is none. -/
def reader : Reader OptionalHeader := do
  let start ← Reader.position
  let magic ← Reader.unsigned 2
  match Layout.ofMagic? magic with
  | none => throw .notExecutable
  | some layout =>
      Reader.seek (start + layout.baseOffset)
      let imageBase ← Reader.unsigned layout.baseWidth
      Reader.seek (start + layout.directories)
      let count ← Reader.unsigned 4
      if count ≤ 14 then return ⟨imageBase, none⟩
      Reader.skip (14 * 8)
      let directory ← ImageRegion.reader
      return ⟨imageBase, if directory = ⟨0, 0⟩ then none else some directory⟩

def readerOfSize (size : Nat) : Reader (Option OptionalHeader) :=
  if size = 0 then pure none else some <$> reader

end OptionalHeader

def ExecutableHeaders.reader : Reader ExecutableHeaders := do
  let optionalSize ← fileHeaderReader
  let optional ← OptionalHeader.readerOfSize optionalSize
  let sections ← sectionsReader
  return ⟨optional, sections⟩

namespace ExecutableParser

/-- What the parser accepts has the section table that is written in its headers. -/
def YieldsSectionTable (parser : ExecutableParser) : Prop :=
  ∀ data headers, parser data = some headers →
    ExecutableHeaders.sectionsReader.valueAt data 0 = .ok headers.sections

def plain : ExecutableParser := fun data =>
  match ExecutableHeaders.reader data 0 with
  | .ok headers _ => some headers
  | .error _ _ => none

theorem sectionsReader_from_start {data : Bytes} {sections : List Section} {position next : Nat}
    (h : ExecutableHeaders.sectionsReader data position = .ok sections next) :
    ExecutableHeaders.sectionsReader data 0 = .ok sections next := by
  obtain ⟨_, start, hseek, hbehind⟩ := bind_eq_ok.1 h
  obtain ⟨hinside, rfl⟩ := seek_eq_ok.1 hseek
  exact bind_eq_ok.2 ⟨(), _, seek_eq_ok.2 ⟨hinside, rfl⟩, hbehind⟩

theorem plain_yieldsSectionTable : plain.YieldsSectionTable := by
  intro data headers h
  rw [plain] at h
  split at h
  · rename_i found next hread
    cases h
    obtain ⟨_, _, -, hread⟩ := bind_eq_ok.1 hread
    obtain ⟨optional, _, -, hread⟩ := bind_eq_ok.1 hread
    obtain ⟨sections, stop, hsections, hend⟩ := bind_eq_ok.1 hread
    cases hend
    exact valueAt_eq_ok.2 ⟨next, sectionsReader_from_start hsections⟩
  · cases h

end ExecutableParser

end CliMeta
