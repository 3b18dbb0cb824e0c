import CliMeta.Entries
import CliMeta.Reader

/-!
What the heaps share: a first zero byte, behind which the entries stand one after the other, and
payloads behind their length.
-/

namespace CliMeta

/-- Whether a heap may begin like this: a zero byte comes first, unless there are no bytes. -/
def Bytes.startsWithNul (b : Bytes) : Bool :=
  match b[0]? with
  | some byte => byte == 0
  | none => true

/-- A payload behind its compressed length, at a position of a buffer, and the number of bytes that
the two take up. -/
def Bytes.lengthPrefixed? (b : Bytes) (position : Nat) : Option (Bytes × Nat) :=
  match (Reader.compressed >>= Reader.bytes) b position with
  | .ok payload next => some (payload, next - position)
  | .error _ _ => none

end CliMeta
