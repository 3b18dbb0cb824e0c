import CliMeta.Image.Options
import CliMeta.Root

/-!
Which stream of the directory serves for what. Of several streams with the same purpose the first
one counts, so the order of streams with different purposes does not matter.
-/

namespace CliMeta

inductive StreamRole where
  | tables
  | heap (kind : HeapKind)
  deriving DecidableEq, Repr

namespace StreamRole

/-- The name of a tables stream in the uncompressed form. -/
def uncompressedName : String := "#-"

def ofName? (name : String) : Option StreamRole :=
  if name = "#~" ∨ name = uncompressedName then some .tables
  else (HeapKind.all.find? fun kind => kind.streamName = name).map .heap

@[simp] theorem ofName?_streamName (kind : HeapKind) :
    ofName? kind.streamName = some (.heap kind) := by
  cases kind <;> decide

end StreamRole

namespace Root

def roleStream? (r : Root) (role : StreamRole) : Option StreamHeader :=
  r.streams.find? fun header => StreamRole.ofName? header.name = some role

/-- Fails if names are taken strictly and a stream has no role. -/
def checkNames (r : Root) (options : LoadOptions) : Except Error Unit :=
  match r.streams.find? fun header => (StreamRole.ofName? header.name).isNone with
  | some header =>
      if options.strictStreamNames then .error (.malformed (.unknownStream header.name))
      else .ok ()
  | none => .ok ()

/-- The bytes of a heap; a heap without a stream is empty. -/
def heapContents (r : Root) (metadata : Bytes) (kind : HeapKind) : Except Error Bytes :=
  match r.roleStream? (.heap kind) with
  | some header => header.contents metadata
  | none => .ok #[]

end Root

end CliMeta
