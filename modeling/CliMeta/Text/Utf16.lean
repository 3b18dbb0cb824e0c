/-!
UTF-16 units, as string literals store them.
-/

namespace CliMeta.Utf16

/-- The characters of the units; a surrogate without its partner becomes U+FFFD. -/
def decodeUnits : List Nat → List Char
  | [] => []
  | [unit] => [if 0xD800 ≤ unit ∧ unit < 0xE000 then '\uFFFD' else Char.ofNat unit]
  | high :: low :: rest =>
      if 0xD800 ≤ high ∧ high < 0xDC00 then
        if 0xDC00 ≤ low ∧ low < 0xE000 then
          Char.ofNat (0x10000 + (high - 0xD800) * 0x400 + (low - 0xDC00)) :: decodeUnits rest
        else '\uFFFD' :: decodeUnits (low :: rest)
      else if 0xDC00 ≤ high ∧ high < 0xE000 then '\uFFFD' :: decodeUnits (low :: rest)
      else Char.ofNat high :: decodeUnits (low :: rest)

def decodeLossy (units : List Nat) : String :=
  String.ofList (decodeUnits units)

end CliMeta.Utf16
