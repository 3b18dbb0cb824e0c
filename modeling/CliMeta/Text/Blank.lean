/-!
White space as the Unicode property White_Space has it, and the trimming of texts by it.
-/

namespace CliMeta

def isBlank (c : Char) : Bool :=
  let n := c.toNat
  (0x09 ≤ n && n ≤ 0x0D) || n == 0x20 || n == 0x85 || n == 0xA0 || n == 0x1680 ||
    (0x2000 ≤ n && n ≤ 0x200A) || n == 0x2028 || n == 0x2029 || n == 0x202F || n == 0x205F ||
    n == 0x3000

def trimBlanks (text : List Char) : List Char :=
  ((text.dropWhile isBlank).reverse.dropWhile isBlank).reverse

/-- The parts of a text between the occurrences of a separator; there is always a first part. -/
def splitParts (separator : Char) : List Char → List (List Char)
  | [] => [[]]
  | c :: rest =>
      if c = separator then [] :: splitParts separator rest
      else
        match splitParts separator rest with
        | [] => [[c]]
        | part :: parts => (c :: part) :: parts

theorem splitParts_ne_nil (separator : Char) (text : List Char) :
    splitParts separator text ≠ [] := by
  cases text with
  | nil => simp [splitParts]
  | cons c rest =>
      simp only [splitParts]
      split
      · simp
      · split <;> simp

/-- The two sides of the first occurrence of a separator, if it occurs. -/
def splitFirst (separator : Char) : List Char → Option (List Char × List Char)
  | [] => none
  | c :: rest =>
      if c = separator then some ([], rest)
      else (splitFirst separator rest).map fun (before, after) => (c :: before, after)

end CliMeta
