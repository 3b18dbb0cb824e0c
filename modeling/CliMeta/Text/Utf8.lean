import CliMeta.Bytes

/-!
UTF-8 read from bytes that may be ill formed. A strict reading names the first fault; a lossy one
puts U+FFFD for every maximal subpart of an ill-formed sequence, the replacement that the Unicode
standard recommends.
-/

namespace CliMeta.Utf8

/-- The first fault of a text that is not UTF-8. -/
inductive Fault where
  /-- The `length` bytes from `index` begin no character, whatever follows. -/
  | invalid (length index : Nat)
  /-- The bytes from `index` to the end begin a character and stop inside it. -/
  | incomplete (index : Nat)
  deriving DecidableEq, Repr

def Fault.message : Fault → String
  | .invalid length index =>
      s!"invalid utf-8 sequence of {length} bytes from index {index}"
  | .incomplete index => s!"incomplete utf-8 byte sequence from index {index}"

inductive Head where
  | char (c : Char) (length : Nat)
  | invalid (length : Nat)
  | incomplete
  deriving DecidableEq, Repr

/-- The ranges in which the bytes after a lead byte have to lie, or `none` for a byte that leads
no sequence. The narrow second ranges leave out overlong forms, surrogates and numbers above
10FFFF. -/
def continuations (lead : Nat) : Option (List (Nat × Nat)) :=
  let any := (0x80, 0xBF)
  if lead < 0x80 then some []
  else if lead < 0xC2 then none
  else if lead < 0xE0 then some [any]
  else if lead = 0xE0 then some [(0xA0, 0xBF), any]
  else if lead = 0xED then some [(0x80, 0x9F), any]
  else if lead < 0xF0 then some [any, any]
  else if lead = 0xF0 then some [(0x90, 0xBF), any, any]
  else if lead < 0xF4 then some [any, any, any]
  else if lead = 0xF4 then some [(0x80, 0x8F), any, any]
  else none

/-- The payload bits of a lead byte with `extra` bytes after it. -/
def leadPayload (lead : Nat) : (extra : Nat) → Nat
  | 0 => lead
  | 1 => lead % 0x20
  | 2 => lead % 0x10
  | _ => lead % 0x08

/-- Follows the bytes after a lead byte through their ranges. `seen` counts the bytes so far and
`value` holds their payload. -/
def follow (seen value : Nat) : List (Nat × Nat) → List UInt8 → Head
  | [], _ => .char (Char.ofNat value) seen
  | _ :: _, [] => .incomplete
  | (low, high) :: ranges, byte :: rest =>
      if low ≤ byte.toNat ∧ byte.toNat ≤ high then
        follow (seen + 1) (value * 0x40 + byte.toNat % 0x40) ranges rest
      else .invalid seen

/-- What stands at the front of the bytes, or `none` at their end. -/
def head? : List UInt8 → Option Head
  | [] => none
  | lead :: rest =>
      match continuations lead.toNat with
      | none => some (.invalid 1)
      | some ranges => some (follow 1 (leadPayload lead.toNat ranges.length) ranges rest)

/-- The first fault in the bytes, if there is one; `index` is the place of their first byte and
`fuel` bounds the number of characters. -/
def firstFault (index : Nat) : (fuel : Nat) → List UInt8 → Option Fault
  | 0, _ => none
  | fuel + 1, bytes =>
      match head? bytes with
      | none => none
      | some (.char _ length) => firstFault (index + length) fuel (bytes.drop length)
      | some (.invalid length) => some (.invalid length index)
      | some .incomplete => some (.incomplete index)

/-- The characters of the bytes, each maximal ill-formed subpart replaced; `fuel` bounds their
number. -/
def replaceFaults : (fuel : Nat) → List UInt8 → List Char
  | 0, _ => []
  | fuel + 1, bytes =>
      match head? bytes with
      | none => []
      | some (.char c length) => c :: replaceFaults fuel (bytes.drop length)
      | some (.invalid length) => '\uFFFD' :: replaceFaults fuel (bytes.drop length)
      | some .incomplete => ['\uFFFD']

def decode? (bytes : Bytes) : Option String :=
  String.fromUTF8? ⟨bytes⟩

/-- The text of the bytes, or the first fault. A text that no fault is found in is read anyway,
so the last case never arises for ill-formed bytes. -/
def decode (bytes : Bytes) : Except Fault String :=
  match decode? bytes with
  | some text => .ok text
  | none => .error ((firstFault 0 bytes.size bytes.toList).getD (.incomplete bytes.size))

def decodeLossy (bytes : Bytes) : String :=
  match decode? bytes with
  | some text => text
  | none => String.ofList (replaceFaults bytes.size bytes.toList)

end CliMeta.Utf8
