/-!
The four metadata heaps.
-/

namespace CliMeta

inductive HeapKind where
  | string | blob | guid | userString
  deriving DecidableEq, Repr, Inhabited

namespace HeapKind

/-- The name of the stream that holds the heap. -/
def streamName : HeapKind → String
  | .string => "#Strings"
  | .blob => "#Blob"
  | .guid => "#GUID"
  | .userString => "#US"

def name : HeapKind → String
  | .string => "String"
  | .blob => "Blob"
  | .guid => "Guid"
  | .userString => "UserString"

def all : List HeapKind :=
  [.string, .blob, .guid, .userString]

end HeapKind

end CliMeta
