import CliMeta.Text.Hex

/-!
Metadata tokens: a table number in the high byte and a 1-based row in the 24 bits below it.
-/

namespace CliMeta

structure Token where
  value : Nat
  deriving DecidableEq, Repr

namespace Token

/-- The token of a row of a table. Only 24 bits of the row are kept. -/
def ofParts (table row : Nat) : Token :=
  ⟨table * 0x1000000 + row % 0x1000000⟩

/-- The high byte, which numbers a table or marks a string literal. -/
def tableNumber (t : Token) : Nat :=
  t.value / 0x1000000

def row (t : Token) : Nat :=
  t.value % 0x1000000

def isNull (t : Token) : Bool :=
  t.value == 0

/-- The number in place of a table that marks the token of a string literal. -/
def userStringTable : Nat := 0x70

def text (t : Token) : String :=
  "0x" ++ hexLower 8 t.value

/-- The token with its two parts spelled out. -/
def description (t : Token) : String :=
  s!"Token({t.text}, table: 0x{hexLower 2 t.tableNumber}, row: {t.row})"

@[simp] theorem row_ofParts (table row : Nat) : (ofParts table row).row = row % 0x1000000 := by
  simp only [ofParts, Token.row]
  omega

@[simp] theorem tableNumber_ofParts (table row : Nat) :
    (ofParts table row).tableNumber = table := by
  simp only [ofParts, tableNumber]
  omega

end Token

end CliMeta
