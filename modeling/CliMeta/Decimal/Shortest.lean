/-!
Decimal text of binary floating-point numbers. Among the decimals that read back as the number, the
one with the fewest digits is taken, and of those the nearest; it is written without an exponent.
All arithmetic is on natural numbers.
-/

namespace CliMeta

/-- The layout of a binary floating-point number: a sign bit, the exponent, the fraction. -/
structure FloatFormat where
  fractionBits : Nat
  exponentBits : Nat
  deriving DecidableEq, Repr

namespace FloatFormat

def single : FloatFormat := ⟨23, 8⟩

def double : FloatFormat := ⟨52, 11⟩

end FloatFormat

/-- The reals that round to a number, scaled by `unit`: from `low` to `high` around `value`, the
two ends included if `closed`. -/
structure RoundingInterval where
  low : Nat
  value : Nat
  high : Nat
  unit : Nat
  closed : Bool
  deriving DecidableEq, Repr

namespace RoundingInterval

def contains (r : RoundingInterval) (scaled : Nat) : Bool :=
  if r.closed then r.low ≤ scaled && scaled ≤ r.high else r.low < scaled && scaled < r.high

def rescale (r : RoundingInterval) (k : Int) : RoundingInterval :=
  match k with
  | .ofNat k => { r with unit := r.unit * Nat.pow 10 k }
  | .negSucc k =>
      let factor := Nat.pow 10 (k + 1)
      { r with low := r.low * factor, value := r.value * factor, high := r.high * factor }

/-- The multiple of the unit inside the interval that is nearest to the value, a tie going up. -/
def nearestMultiple? (r : RoundingInterval) : Option Nat :=
  let below := r.value / r.unit
  let above := below + 1
  match r.contains (below * r.unit), r.contains (above * r.unit) with
  | true, true =>
      if r.value - below * r.unit < above * r.unit - r.value then some below else some above
  | true, false => some below
  | false, true => some above
  | false, false => none

/-- The decimal exponent of the value: the greatest `e` with `10 ^ e` at most the value. -/
def decimalExponent (r : RoundingInterval) : Int :=
  if r.unit ≤ r.value then
    ((Nat.toDigits 10 (r.value / r.unit)).length : Int) - 1
  else
    -- the fuel suffices: ten to the bits of the unit is more than the unit
    let rec search : (fuel : Nat) → (shift scaled : Nat) → Int
      | 0, shift, _ => -(shift : Int)
      | fuel + 1, shift, scaled =>
          if r.unit ≤ scaled then -(shift : Int) else search fuel (shift + 1) (scaled * 10)
    search (r.unit.log2 + 2) 0 r.value

/-- The shortest decimal in the interval as digits and a power of ten. Coarse grids come first. -/
def shortest (r : RoundingInterval) : Nat × Int :=
  let top := r.decimalExponent
  let rec search : (fuel : Nat) → Int → Nat × Int
    | 0, k => ((r.rescale k).value / (r.rescale k).unit, k)
    | fuel + 1, k =>
        match (r.rescale k).nearestMultiple? with
        | some digits => if digits % 10 = 0 then (digits / 10, k + 1) else (digits, k)
        | none => search fuel (k - 1)
  search 20 top

end RoundingInterval

/-- A decimal without an exponent: `digits` times ten to the power of `k`. -/
def positionalText (digits : Nat) (k : Int) : String :=
  let text := Nat.toDigits 10 digits
  match k with
  | .ofNat k => String.ofList (text ++ List.replicate k '0')
  | .negSucc k =>
      let places := k + 1
      let padded := List.replicate (places + 1 - text.length) '0' ++ text
      let whole := padded.take (padded.length - places)
      String.ofList (whole ++ '.' :: padded.drop (padded.length - places))

namespace FloatFormat

/-- The interval around the finite non-zero number with the given biased exponent and fraction. -/
def interval (f : FloatFormat) (exponent fraction : Nat) : RoundingInterval :=
  let significand := if exponent = 0 then fraction else (1 <<< f.fractionBits) + fraction
  -- below a power of two the numbers are twice as dense
  let dense := fraction = 0 ∧ 1 < exponent
  let low := 4 * significand - (if dense then 1 else 2)
  let high := 4 * significand + 2
  let closed := significand % 2 == 0
  let bias := (1 <<< (f.exponentBits - 1)) - 1
  let scale : Int := (max exponent 1 : Nat) - (bias + f.fractionBits + 2 : Nat)
  match scale with
  | .ofNat s => ⟨low <<< s, (4 * significand) <<< s, high <<< s, 1, closed⟩
  | .negSucc s => ⟨low, 4 * significand, high, 1 <<< (s + 1), closed⟩

/-- The text of a number given by its bits. Zero keeps its sign, a NaN has none. -/
def text (f : FloatFormat) (bits : Nat) : String :=
  let fraction := bits % (1 <<< f.fractionBits)
  let exponent := (bits >>> f.fractionBits) % (1 <<< f.exponentBits)
  let negative := (bits >>> (f.fractionBits + f.exponentBits)) % 2 = 1
  let magnitude :=
    if exponent = (1 <<< f.exponentBits) - 1 then "inf"
    else if exponent = 0 ∧ fraction = 0 then "0"
    else
      let (digits, k) := (f.interval exponent fraction).shortest
      positionalText digits k
  if exponent = (1 <<< f.exponentBits) - 1 ∧ fraction ≠ 0 then "NaN"
  else if negative then "-" ++ magnitude
  else magnitude

end FloatFormat

end CliMeta
