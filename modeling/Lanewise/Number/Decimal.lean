/-
The shortest decimal text of a binary number: the fewest digits that read back as the number, and of
those the nearest to it. `Precision.shortest` finds the digits by exact arithmetic on the interval of
magnitudes that round to the code, and `Decimal.positional` writes them out without an exponent.
-/
import Lanewise.Number.Rounding

namespace Lanewise

/-! ## Digits -/

/-- A decimal magnitude `digits · 10 ^ exponent`. -/
structure Decimal where
  digits : Nat
  exponent : Int
  deriving DecidableEq, Repr

def tenPow (k : Nat) : Nat :=
  Nat.pow 10 k

/-- The magnitudes that round to one code, and the magnitude of the code itself, over a common
denominator. The ends belong to the interval iff `closed`. -/
structure RoundingInterval where
  low : Nat
  value : Nat
  high : Nat
  denominator : Nat
  closed : Bool
  deriving Repr

/-- The interval of a finite code above zero: it ends midway to the code below and midway to the code
above, and owns its ends iff the code is even, as ties go to even. -/
def Precision.interval (p : Precision) (code : Nat) : RoundingInterval :=
  let below := p.magnitude (code - 1)
  let here := p.magnitude code
  let above := p.magnitude (code + 1)
  let unit := below.exponent
  let count (x : Scaled) := x.mantissa <<< (x.exponent - unit).toNat
  -- everything is doubled, so that the midpoints are whole
  let scale := (unit - 1).toNat
  { low := (count below + count here) <<< scale
    value := (2 * count here) <<< scale
    high := (count here + count above) <<< scale
    denominator := 1 <<< (1 - unit).toNat
    closed := code % 2 == 0 }

namespace RoundingInterval

def holds (i : RoundingInterval) (d : Decimal) : Bool :=
  let point := d.digits * tenPow d.exponent.toNat * i.denominator
  let scale := tenPow (-d.exponent).toNat
  if i.closed then i.low * scale ≤ point && point ≤ i.high * scale
  else i.low * scale < point && point < i.high * scale

/-- The power of ten just above the value: `10 ^ (k - 1) ≤ value < 10 ^ k`. -/
def decade (i : RoundingInterval) : Int :=
  if i.denominator ≤ i.value then ((i.value / i.denominator).repr.length : Int)
  else 1 - (((i.denominator - 1) / i.value).repr.length : Int)

/-- The point of the grid of `count` digits that stands for the value: of its two neighbours on the
grid those that lie in the interval, and of two the nearer one, a tie to the larger. -/
def onGrid? (i : RoundingInterval) (count : Nat) : Option Decimal :=
  let exponent := i.decade - count
  let n := i.value * tenPow (-exponent).toNat
  let d := i.denominator * tenPow exponent.toNat
  let floor : Decimal := ⟨n / d, exponent⟩
  let ceiling : Decimal := ⟨n / d + 1, exponent⟩
  match i.holds floor, i.holds ceiling with
  | true, true => some (if 2 * (n % d) < d then floor else ceiling)
  | true, false => some floor
  | false, true => some ceiling
  | false, false => none

end RoundingInterval

/-- Grids are tried from one digit on. Seventeen digits single out every double, so the search ends
there at the latest. -/
def Precision.shortest (p : Precision) (code : Nat) : Decimal :=
  let i := p.interval code
  ((List.range 17).findSome? fun n => i.onGrid? (n + 1)).getD ⟨0, 0⟩

/-- 0.1 as a double, and as the single nearest to it widened to a double. -/
example : Precision.double.shortest 0x3FB999999999999A = ⟨1, -1⟩ ∧
    Precision.double.shortest 0x3FB99999A0000000 = ⟨10000000149011612, -17⟩ := by decide +kernel

/-! ## Layout -/

/-- The digits at their place, with no exponent, and no point when the value is whole. -/
def Decimal.positional (d : Decimal) : String :=
  let digits := d.digits.repr.toList
  if 0 ≤ d.exponent then String.ofList (digits ++ List.replicate d.exponent.toNat '0')
  else
    let places := d.exponent.natAbs
    let padded := List.replicate (places + 1 - digits.length) '0' ++ digits
    let whole := padded.take (padded.length - places)
    let fraction := ((padded.drop (padded.length - places)).reverse.dropWhile (· == '0')).reverse
    String.ofList (if fraction.isEmpty then whole else whole ++ '.' :: fraction)

example : (Decimal.mk 25 (-1)).positional = "2.5" ∧ (Decimal.mk 5 (-3)).positional = "0.005" ∧
    (Decimal.mk 12 2).positional = "1200" ∧ (Decimal.mk 10 (-1)).positional = "1" := by
  decide +kernel

/-- The text of a number: a sign also for a negative zero, words for the infinities and NaN. -/
def Binary.display {p : Precision} : Binary p → String
  | .nan => "NaN"
  | .number negative magnitude =>
    (if negative then "-" else "") ++
      if magnitude.val = p.infinity then "inf"
      else if magnitude.val = 0 then "0"
      else (p.shortest magnitude).positional

end Lanewise
