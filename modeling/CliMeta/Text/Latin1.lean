import CliMeta.Bytes

/-!
Latin-1 text: every byte is the character of its number.
-/

namespace CliMeta

def latin1 (bytes : Bytes) : String :=
  String.ofList (bytes.toList.map fun byte => Char.ofNat byte.toNat)

end CliMeta
