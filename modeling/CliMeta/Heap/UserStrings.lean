import CliMeta.Heap.Entry
import CliMeta.Text.Utf16

/-!
The heap of string literals. An entry is its length as a compressed integer, the UTF-16 units and
one flag byte; the empty literal may be stored without the flag byte.
-/

namespace CliMeta

structure UserStringHeap where
  data : Bytes
  startsWithNul : data.startsWithNul = true

namespace UserStringHeap

def ofBytes (data : Bytes) : Except Error UserStringHeap :=
  if h : data.startsWithNul = true then .ok ⟨data, h⟩
  else .error (.malformed (.heapStart .userString))

def size (h : UserStringHeap) : Nat :=
  h.data.size

/-- The UTF-16 units of a payload, whose last byte is the flag. -/
def units (payload : Bytes) : List Nat :=
  (List.range (payload.size / 2)).map fun place => payload.littleEndian (2 * place) 2

/-- Whether a payload of this length is empty or whole units and the flag byte. -/
def isEntryLength (length : Nat) : Bool :=
  length == 0 || length % 2 == 1

def entry (h : UserStringHeap) (offset : Nat) : Except Error (List Nat × Nat) :=
  if offset = 0 then .ok ([], 1)
  else
    match h.data.lengthPrefixed? offset with
    | some (payload, consumed) =>
        if isEntryLength payload.size then .ok (units payload, consumed)
        else .error (.heapRead .userString offset)
    | none => .error (.heapRead .userString offset)

/-- The units at an offset. Offset zero is the empty literal. -/
def get (h : UserStringHeap) (offset : Nat) : Except Error (List Nat) :=
  (h.entry offset).map Prod.fst

def text (h : UserStringHeap) (offset : Nat) : Except Error String :=
  (h.get offset).map Utf16.decodeLossy

/-- Whether all that is left from an offset on is padding. -/
def isPadding (h : UserStringHeap) (offset : Nat) : Bool :=
  h.data.all (· == 0) offset h.size

/-- Every literal behind the first, with its offset, up to the padding at the end. -/
def entries (h : UserStringHeap) : List (Except Error (Nat × List Nat)) :=
  walkEntries h.entry h.isPadding h.size 1

end UserStringHeap

end CliMeta
