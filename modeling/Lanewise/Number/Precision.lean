/-
The three binary interchange formats a literal may be written in, and the numbers that fix each.
-/
namespace Lanewise

inductive Precision where
  | half
  | single
  | double
  deriving DecidableEq, Repr

namespace Precision

def catalog : List Precision := [.half, .single, .double]

def bits : Precision → Nat
  | .half => 16
  | .single => 32
  | .double => 64

/-- The length of a normal significand in bits, the leading one included. -/
def significand : Precision → Nat
  | .half => 11
  | .single => 24
  | .double => 53

/-- The exponent of the smallest positive number: every finite number is a multiple of two to this
power. -/
def minExponent : Precision → Int
  | .half => -24
  | .single => -149
  | .double => -1074

/-- The code of infinity: an exponent field of ones above a fraction field of zeros. Codes below it
are finite magnitudes in ascending order, codes above it are NaNs. -/
def infinity (p : Precision) : Nat :=
  (1 <<< (p.bits - p.significand) - 1) <<< (p.significand - 1)

example : half.infinity = 0x7C00 ∧ single.infinity = 0x7F800000 ∧
    double.infinity = 0x7FF0000000000000 := by decide

theorem infinity_lt (p : Precision) : p.infinity < 1 <<< (p.bits - 1) := by
  cases p <;> decide

end Precision

end Lanewise
