import CliMeta.Error
import CliMeta.Text.Blank

/-!
Assembly versions: four numbers below 65536, of which a text may leave out the last ones.
-/

namespace CliMeta

/-- A number below 65536 in decimal digits, with at most one plus sign in front. -/
def shortDecimal? (text : List Char) : Option Nat :=
  let digits := match text with
    | '+' :: rest => rest
    | _ => text
  if digits ≠ [] ∧ digits.all Char.isDigit then
    let value := digits.foldl (fun value digit => value * 10 + (digit.toNat - '0'.toNat)) 0
    if value < 0x10000 then some value else none
  else none

structure AssemblyVersion where
  major : Nat
  minor : Nat
  build : Nat
  revision : Nat
  deriving DecidableEq, Repr

namespace AssemblyVersion

def zero : AssemblyVersion := ⟨0, 0, 0, 0⟩

def parseComponent (part : List Char) : Except Error Nat :=
  match shortDecimal? (trimBlanks part) with
  | some value => .ok value
  | none => .error (.malformed (.versionComponent (String.ofList part)))

/-- Reads one to four numbers between dots; blanks around a number are ignored. -/
def parse (text : List Char) : Except Error AssemblyVersion := do
  let parts := splitParts '.' text
  if 4 < parts.length then throw (.malformed (.versionFormat (String.ofList text)))
  let numbers ← parts.mapM parseComponent
  let number (place : Nat) := (numbers[place]?).getD 0
  return ⟨number 0, number 1, number 2, number 3⟩

def text (v : AssemblyVersion) : String :=
  s!"{v.major}.{v.minor}.{v.build}.{v.revision}"

/-- The order by the four numbers, the major one first. -/
def compare (a b : AssemblyVersion) : Ordering :=
  (Ord.compare a.major b.major).then <| (Ord.compare a.minor b.minor).then <|
    (Ord.compare a.build b.build).then (Ord.compare a.revision b.revision)

end AssemblyVersion

end CliMeta
