import CliMeta.ClrHeader
import CliMeta.Text.Latin1

/-!
Access to the bytes of an image by address, whatever the image is stored in.
-/

namespace CliMeta

structure AddressSpace where
  read : (rva length : Nat) → Except Error Bytes
  /-- The Latin-1 text at an address up to a zero byte or the end of the data. -/
  readText : (rva : Nat) → Except Error String
  size_of_read : ∀ {rva length : Nat} {bytes : Bytes},
    read rva length = .ok bytes → bytes.size = length

def Bytes.textAt? (b : Bytes) (position : Nat) : Option String :=
  if position < b.size then some (latin1 (Bytes.untilNul (b.extract position b.size)).1) else none

namespace AddressSpace

def ofBuffer (data : Bytes) : AddressSpace where
  read rva length :=
    match data.slice? rva (rva + length) with
    | some bytes => .ok bytes
    | none => .error (.imageRead rva length)
  readText rva :=
    match data.textAt? rva with
    | some text => .ok text
    | none => .error (.imageRead rva 1)
  size_of_read {rva length bytes} h := by
    split at h
    · rename_i taken found
      cases h
      exact Bytes.size_of_slice? found
    · cases h

def readClrHeader (a : AddressSpace) (rva : Nat) : Except Error ClrHeader := do
  ClrHeader.parse (← a.read rva ClrHeader.size)

end AddressSpace

end CliMeta
