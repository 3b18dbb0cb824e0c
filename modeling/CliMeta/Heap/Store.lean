import CliMeta.Heap.Blobs
import CliMeta.Heap.Guids
import CliMeta.Heap.Strings
import CliMeta.Heap.UserStrings

/-!
The four heaps of an image together.
-/

namespace CliMeta

structure Heaps where
  strings : StringHeap
  blobs : BlobHeap
  guids : GuidHeap
  userStrings : UserStringHeap

/-- Reads the heaps from the bytes of their streams; a heap without a stream has no bytes. The
first damaged heap in this order is reported. -/
def Heaps.ofBytes (strings blobs guids userStrings : Bytes) : Except Error Heaps := do
  return {
    strings := ← StringHeap.ofBytes strings
    blobs := ← BlobHeap.ofBytes blobs
    guids := ← GuidHeap.ofBytes guids
    userStrings := ← UserStringHeap.ofBytes userStrings }

end CliMeta
