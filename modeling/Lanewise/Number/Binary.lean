/-
Binary floating point numbers of a precision, with all NaNs taken for one value. A number other than
NaN is a sign and the code of its magnitude, so that codes are ordered as the magnitudes are, and
`Scaled` gives the exact value of a finite code as an integer times a power of two.
-/
import Lanewise.Number.Precision

namespace Lanewise

/-- A magnitude `mantissa · 2 ^ exponent`, exact. -/
structure Scaled where
  mantissa : Nat
  exponent : Int
  deriving DecidableEq, Repr

/-- A binary floating point number. The magnitude is the code of exponent and fraction fields read
as one number, from zero up to infinity. -/
inductive Binary (p : Precision) where
  | nan
  | number (negative : Bool) (magnitude : Fin (p.infinity + 1))
  deriving DecidableEq, Repr

/-- The magnitude of a finite code. A zero exponent field is the subnormal range and holds no leading
one; each step of the exponent field above one doubles the unit of the fraction. -/
def Precision.magnitude (p : Precision) (code : Nat) : Scaled :=
  let unit := 1 <<< (p.significand - 1)
  let field := code / unit
  let fraction := code % unit
  if field = 0 then ⟨fraction, p.minExponent⟩
  else ⟨fraction + unit, p.minExponent + (field - 1 : Nat)⟩

/-- One is `2 ^ 52 · 2 ^ -52` as a double, and the smallest double is `1 · 2 ^ -1074`. -/
example : Precision.double.magnitude 0x3FF0000000000000 = ⟨2 ^ 52, -52⟩ ∧
    Precision.double.magnitude 1 = ⟨1, -1074⟩ := by decide

/-- The code of a magnitude, from zero up to infinity, whatever is past infinity included. -/
def Precision.saturate (p : Precision) (code : Nat) : Fin (p.infinity + 1) :=
  if h : code < p.infinity then ⟨code, Nat.lt_succ_of_lt h⟩ else ⟨p.infinity, Nat.lt_succ_self _⟩

theorem Precision.val_saturate (p : Precision) {code : Nat} (h : code ≤ p.infinity) :
    (p.saturate code).val = code := by
  unfold saturate; split
  · rfl
  · exact Nat.le_antisymm (Nat.le_of_not_lt ‹_›) h

@[simp] theorem Precision.saturate_val (p : Precision) (code : Fin (p.infinity + 1)) :
    p.saturate code.val = code :=
  Fin.ext (p.val_saturate (Nat.le_of_lt_succ code.isLt))

namespace Binary

variable {p : Precision}

def zero : Binary p := .number false (p.saturate 0)

def infinite (negative : Bool) : Binary p := .number negative (p.saturate p.infinity)

/-! ## Bit patterns -/

/-- The number a bit pattern stands for: the top bit is the sign, the other bits are the magnitude
code, and a code above infinity is NaN whatever the sign. -/
def ofBits (p : Precision) (pattern : Nat) : Binary p :=
  let code := pattern % (1 <<< (p.bits - 1))
  if code ≤ p.infinity then .number (pattern.testBit (p.bits - 1)) (p.saturate code) else .nan

/-- The bit pattern of a number, `none` for NaN, which has many. -/
def toBits? : Binary p → Option Nat
  | .nan => none
  | .number negative magnitude => some ((if negative then 1 <<< (p.bits - 1) else 0) + magnitude)

theorem ofBits_of_toBits? {x : Binary p} {pattern : Nat} (h : x.toBits? = some pattern) :
    ofBits p pattern = x := by
  cases x with
  | nan => simp [toBits?] at h
  | number negative magnitude =>
    have hlt : magnitude.val < 2 ^ (p.bits - 1) := by
      have hm := magnitude.isLt
      have hi := p.infinity_lt
      rw [Nat.one_shiftLeft] at hi
      omega
    simp only [toBits?, Option.some.injEq] at h
    subst h
    cases negative <;> simp [ofBits, Nat.one_shiftLeft, Nat.mod_eq_of_lt hlt, Nat.testBit_lt_two_pow hlt,
      Nat.testBit_two_pow_add_eq, Nat.le_of_lt_succ magnitude.isLt]

example : (ofBits .double 0x8000000000000000) = .number true 0 ∧
    ofBits .double 0xFFF8000000000000 = .nan ∧ ofBits .single 0xFF800000 = infinite true := by
  decide

end Binary

end Lanewise
