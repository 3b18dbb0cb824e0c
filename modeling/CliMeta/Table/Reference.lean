import CliMeta.Error

/-!
Coded references. An encoded reference is one 32-bit word: the tag of a member table in the low
bits and a row, counted from 1, above them. Row zero is the null reference, whatever the tag.
-/

namespace CliMeta

/-- A row of one table, counted from 0. -/
structure RowId where
  table : TableId
  index : Nat
  deriving DecidableEq, Repr

/-- A reference of a category: to a row of one of its tables, or to nothing. -/
structure RowReference where
  category : CodedCategory
  target : Option RowId
  deriving DecidableEq, Repr

namespace RowReference

def null (category : CodedCategory) : RowReference :=
  ⟨category, none⟩

def isNull (r : RowReference) : Bool :=
  r.target.isNone

def token (r : RowReference) : Option Token :=
  r.target.map fun row => Token.ofParts row.table.number (row.index + 1)

end RowReference

namespace CodedCategory

def member? (c : CodedCategory) (tag : Nat) : Option TableId :=
  (c.members[tag]?).join

def tag? (c : CodedCategory) (table : TableId) : Option Nat :=
  c.members.findIdx? (· == some table)

/-- Decodes a reference. Only a row other than zero needs a member table for its tag. -/
def decode (c : CodedCategory) (raw : Nat) : Except Error RowReference :=
  let tag := raw % (1 <<< c.tagBits)
  let row := raw >>> c.tagBits
  if row = 0 then .ok (.null c)
  else
    match c.member? tag with
    | some table => .ok ⟨c, some ⟨table, row - 1⟩⟩
    | none => .error (.unknownCodedTag c tag)

/-- Encodes a row, counted from 1, of a member table. The result is a 32-bit word, so high bits of
the row are lost. -/
def encode? (c : CodedCategory) (table : TableId) (row : Nat) : Option Nat :=
  (c.tag? table).map fun tag => (row <<< c.tagBits) % 0x100000000 + tag

theorem decode_null (c : CodedCategory) {raw : Nat} (h : raw >>> c.tagBits = 0) :
    c.decode raw = .ok (.null c) := by
  simp [decode, h]

end CodedCategory

end CliMeta
