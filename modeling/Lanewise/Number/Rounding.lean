/-
Rounding to a precision: to the nearest representable number, a tie to the even one, a magnitude past
the largest finite one to infinity. `Binary.convert` is the one conversion between precisions; it
widens exactly and narrows by one rounding.
-/
import Lanewise.Number.Binary

namespace Lanewise

/-- `n / d` rounded to the nearest integer, a half to the even neighbour. -/
def roundHalfEven (n d : Nat) : Nat :=
  if 2 * (n % d) < d then n / d
  else if d < 2 * (n % d) then n / d + 1
  else n / d + n / d % 2

theorem roundHalfEven_mul_left {d : Nat} (hd : 0 < d) (n : Nat) : roundHalfEven (n * d) d = n := by
  simp [roundHalfEven, Nat.mul_div_cancel _ hd, hd]

example : roundHalfEven 5 2 = 2 ∧ roundHalfEven 7 2 = 4 ∧ roundHalfEven 11 4 = 3 := by decide

namespace Scaled

def bitLength (x : Scaled) : Nat :=
  if x.mantissa = 0 then 0 else x.mantissa.log2 + 1

/-- The magnitude counted in units of `2 ^ unit`, rounded to a whole number of them. -/
def inUnits (x : Scaled) (unit : Int) : Nat :=
  if unit ≤ x.exponent then x.mantissa <<< (x.exponent - unit).toNat
  else roundHalfEven x.mantissa (1 <<< (unit - x.exponent).toNat)

end Scaled

namespace Precision

/-- The exponent of the last place that a magnitude keeps: the significand holds its leading digits,
and no place is below the smallest positive number. -/
def lastPlace (p : Precision) (x : Scaled) : Int :=
  max (x.exponent + x.bitLength - p.significand) p.minExponent

/-- The code of the nearest magnitude. A significand that rounding carries to the next power of two
carries into the exponent field, which is the code of that power. -/
def round (p : Precision) (x : Scaled) : Fin (p.infinity + 1) :=
  if x.mantissa = 0 then p.saturate 0
  else
    let place := p.lastPlace x
    p.saturate ((place - p.minExponent).toNat <<< (p.significand - 1) + x.inUnits place)

/-- 65504 is the largest half, and 65520 is the tie above it, which goes to infinity. -/
example : (half.round ⟨65519, 0⟩).val = 0x7BFF ∧ (half.round ⟨65520, 0⟩).val = half.infinity := by
  decide

/-- Half of the smallest half is a tie with zero. -/
example : (half.round ⟨1, -25⟩).val = 0 ∧ (half.round ⟨3, -26⟩).val = 1 := by decide

end Precision

namespace Binary

variable {p : Precision}

/-- The same number in another precision, rounded once if that one is narrower. -/
def convert (q : Precision) : Binary p → Binary q
  | .nan => .nan
  | .number negative magnitude =>
    if magnitude.val = p.infinity then infinite negative
    else .number negative (q.round (p.magnitude magnitude))

end Binary

end Lanewise
