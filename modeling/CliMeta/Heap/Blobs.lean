import CliMeta.Heap.Entry

/-!
The heap of byte strings. An entry is its length as a compressed integer and then the bytes.
-/

namespace CliMeta

structure BlobHeap where
  data : Bytes
  startsWithNul : data.startsWithNul = true

namespace BlobHeap

def ofBytes (data : Bytes) : Except Error BlobHeap :=
  if h : data.startsWithNul = true then .ok ⟨data, h⟩
  else .error (.malformed (.heapStart .blob))

def size (h : BlobHeap) : Nat :=
  h.data.size

def entry (h : BlobHeap) (offset : Nat) : Except Error (Bytes × Nat) :=
  if offset = 0 then .ok (#[], 1)
  else
    match h.data.lengthPrefixed? offset with
    | some found => .ok found
    | none => .error (.heapRead .blob offset)

/-- The bytes at an offset. Offset zero is the empty string of bytes. -/
def get (h : BlobHeap) (offset : Nat) : Except Error Bytes :=
  (h.entry offset).map Prod.fst

def entries (h : BlobHeap) : List (Except Error (Nat × Bytes)) :=
  walkEntries h.entry (fun offset => h.size ≤ offset) h.size 1

end BlobHeap

end CliMeta
