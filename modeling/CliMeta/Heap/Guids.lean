import CliMeta.Word

/-!
The heap of GUIDs: entries of 16 bytes, which are numbered from 1.
-/

namespace CliMeta

structure Guid where
  bytes : Bytes
  size_eq : bytes.size = 16
  deriving DecidableEq

namespace Guid

def zero : Guid :=
  ⟨Array.replicate 16 0, by simp⟩

/-- The five groups of digits. The first three groups are stored lowest byte first. -/
def text (g : Guid) : String :=
  let rest := g.bytes.toList.drop 8
  "-".intercalate
    [hexLower 8 (g.bytes.littleEndian 0 4), hexLower 4 (g.bytes.littleEndian 4 2),
      hexLower 4 (g.bytes.littleEndian 6 2), hexOfBytes (rest.take 2), hexOfBytes (rest.drop 2)]

end Guid

structure GuidHeap where
  data : Bytes
  whole : data.size % 16 = 0

namespace GuidHeap

def ofBytes (data : Bytes) : Except Error GuidHeap :=
  if h : data.size % 16 = 0 then .ok ⟨data, h⟩
  else .error (.malformed (.guidHeapSize data.size))

def size (h : GuidHeap) : Nat :=
  h.data.size / 16

def isEmpty (h : GuidHeap) : Bool :=
  h.data.isEmpty

/-- The 16 bytes from a position on, if the heap holds them. -/
def guidAt? (h : GuidHeap) (position : Nat) : Option Guid :=
  if fits : position + 16 ≤ h.data.size then
    some ⟨h.data.extract position (position + 16), by simp; omega⟩
  else none

/-- The entry of a number, with the zero GUID as entry 0. The ends of an entry are 64-bit words
before they are compared with the size of the heap. -/
def get (h : GuidHeap) (index : Nat) : Except Error Guid :=
  if index = 0 then .ok .zero
  else do
    let start ← wordOf 64 ((index - 1) * 16)
    discard <| wordOf 64 (start + 16)
    match h.guidAt? start with
    | some guid => return guid
    | none => throw (.heapRead .guid index)

def entries (h : GuidHeap) : List (Nat × Guid) :=
  (List.range h.size).filterMap fun place =>
    (h.guidAt? (place * 16)).map fun guid => (place + 1, guid)

end GuidHeap

end CliMeta
