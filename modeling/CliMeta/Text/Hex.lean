/-!
Hexadecimal text of numbers and of bytes.
-/

namespace CliMeta

def hexLower (width value : Nat) : String :=
  let digits := Nat.toDigits 16 value
  String.ofList (List.replicate (width - digits.length) '0' ++ digits)

def hexUpper (width value : Nat) : String :=
  (hexLower width value).map Char.toUpper

/-- Two lower-case digits for each byte. -/
def hexOfBytes (bytes : List UInt8) : String :=
  String.join (bytes.map fun byte => hexLower 2 byte.toNat)

end CliMeta
