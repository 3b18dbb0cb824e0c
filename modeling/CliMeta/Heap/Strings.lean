import CliMeta.Heap.Entry

/-!
The heap of names. An entry is a UTF-8 text that a zero byte ends; a lookup may also begin inside an
entry and then gives its rest.
-/

namespace CliMeta

structure StringHeap where
  data : Bytes
  startsWithNul : data.startsWithNul = true

namespace StringHeap

def ofBytes (data : Bytes) : Except Error StringHeap :=
  if h : data.startsWithNul = true then .ok ⟨data, h⟩
  else .error (.malformed (.heapStart .string))

def size (h : StringHeap) : Nat :=
  h.data.size

def text? (h : StringHeap) (offset : Nat) : Option String :=
  (h.data.nulFrom? offset).bind fun stop => Utf8.decode? (h.data.extract offset stop)

/-- The text at an offset. Offset zero is the empty text, also in a heap without bytes. -/
def get (h : StringHeap) (offset : Nat) : Except Error String :=
  if offset = 0 then .ok ""
  else
    match h.text? offset with
    | some text => .ok text
    | none => .error (.heapRead .string offset)

def entries (h : StringHeap) : List (Except Error (Nat × String)) :=
  walkEntries (fun offset => (h.get offset).map fun text => (text, text.utf8ByteSize + 1))
    (fun offset => h.size ≤ offset) h.size 1

end StringHeap

end CliMeta
