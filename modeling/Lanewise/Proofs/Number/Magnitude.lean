/-
The numbers that codes of magnitudes stand for. A code counts up the fractions of its exponent field in units that
double from each field to the next, so codes are ordered as the numbers are (`value_strictMono`); and what is a
finite number of a precision is one of every wider precision (`Within.exists_value_eq`).
-/
import Lanewise.Number.Rounding
import Mathlib.Algebra.Order.Field.Power
import Mathlib.Algebra.Order.Field.Rat
import Mathlib.Tactic

namespace Lanewise

/-- The number itself, an integer times a power of two. -/
def Scaled.value (x : Scaled) : ℚ :=
  x.mantissa * 2 ^ x.exponent

namespace Precision

variable {p q : Precision}

/-! ## Codes -/

/-- How many codes have the same exponent field. -/
def fieldSize (p : Precision) : Nat :=
  2 ^ (p.significand - 1)

/-- The exponent field of infinity, above those of finite numbers. -/
def topField (p : Precision) : Nat :=
  2 ^ (p.bits - p.significand) - 1

theorem fieldSize_pos (p : Precision) : 0 < p.fieldSize :=
  Nat.two_pow_pos _

theorem two_le_topField (p : Precision) : 2 ≤ p.topField := by
  cases p <;> decide

theorem fieldSize_even (p : Precision) : 2 ∣ p.fieldSize := by
  cases p <;> decide

theorem two_mul_fieldSize (p : Precision) : 2 * p.fieldSize = 2 ^ p.significand := by
  cases p <;> decide

theorem infinity_eq (p : Precision) : p.infinity = p.topField * p.fieldSize := by
  rw [infinity, Nat.shiftLeft_eq, Nat.one_shiftLeft]
  rfl

theorem magnitude_of_lt {n : Nat} (h : n < p.fieldSize) : p.magnitude n = ⟨n, p.minExponent⟩ := by
  rw [magnitude, Nat.one_shiftLeft]
  change (if n / p.fieldSize = 0 then _ else _) = _
  rw [if_pos (Nat.div_eq_of_lt h)]
  exact congrArg (Scaled.mk · p.minExponent) (Nat.mod_eq_of_lt h)

theorem magnitude_of_field {k n : Nat} (h : n < p.fieldSize) :
    p.magnitude ((k + 1) * p.fieldSize + n) = ⟨n + p.fieldSize, p.minExponent + k⟩ := by
  have hdiv : ((k + 1) * p.fieldSize + n) / p.fieldSize = k + 1 := by
    rw [Nat.add_comm, Nat.add_mul_div_right _ _ p.fieldSize_pos, Nat.div_eq_of_lt h, Nat.zero_add]
  have hmod : ((k + 1) * p.fieldSize + n) % p.fieldSize = n := by
    rw [Nat.mul_add_mod', Nat.mod_eq_of_lt h]
  rw [magnitude, Nat.one_shiftLeft]
  change (if ((k + 1) * p.fieldSize + n) / p.fieldSize = 0 then _ else
    Scaled.mk (((k + 1) * p.fieldSize + n) % p.fieldSize + p.fieldSize)
      (p.minExponent + (((k + 1) * p.fieldSize + n) / p.fieldSize - 1 : Nat))) = _
  rw [hdiv, hmod, if_neg (Nat.succ_ne_zero k), Nat.add_sub_cancel]

/-! ## The numbers of codes -/

/-- The number that a code stands for. The code of infinity stands here for the power of two that follows the largest
finite number. -/
def value (p : Precision) (code : Nat) : ℚ :=
  (p.magnitude code).value

/-- The code `n` above that of field `k` counts `n` units of the next field. It may count up to the first code of
the field after that one, whose unit is twice as large. -/
theorem value_add {k n : Nat} (hk : k = 0 ∨ p.fieldSize ≤ n) (hn : n ≤ 2 * p.fieldSize) :
    p.value (k * p.fieldSize + n) = n * 2 ^ (p.minExponent + k) := by
  rcases Nat.lt_or_ge n p.fieldSize with hlow | hlow
  · have hk : k = 0 := by omega
    rw [hk, Nat.zero_mul, Nat.zero_add, value, magnitude_of_lt hlow, Scaled.value, Nat.cast_zero, Int.add_zero]
  obtain ⟨m, rfl⟩ := Nat.exists_eq_add_of_le' hlow
  rcases Nat.lt_or_ge m p.fieldSize with hm | hm
  · have hcode : k * p.fieldSize + (m + p.fieldSize) = (k + 1) * p.fieldSize + m := by ring
    rw [hcode, value, magnitude_of_field hm, Scaled.value]
  · have hm : m = p.fieldSize := by omega
    have hcode : k * p.fieldSize + (m + p.fieldSize) = (k + 1 + 1) * p.fieldSize + 0 := by rw [hm]; ring
    rw [hcode, value, magnitude_of_field p.fieldSize_pos, Scaled.value, hm]
    push_cast
    rw [← Int.add_assoc, zpow_add_one₀ two_ne_zero]
    ring

theorem exists_eq_add (p : Precision) (code : Nat) :
    ∃ k n, code = k * p.fieldSize + n ∧ (k = 0 ∨ p.fieldSize ≤ n) ∧ n < 2 * p.fieldSize := by
  have hmod : code % p.fieldSize < p.fieldSize := Nat.mod_lt code p.fieldSize_pos
  have hcode : code = code / p.fieldSize * p.fieldSize + code % p.fieldSize := (Nat.div_add_mod' ..).symm
  cases hd : code / p.fieldSize with
  | zero =>
    rw [hd] at hcode
    exact ⟨0, code % p.fieldSize, hcode, .inl rfl, by omega⟩
  | succ k =>
    rw [hd] at hcode
    refine ⟨k, code % p.fieldSize + p.fieldSize, ?_, .inr (by omega), by omega⟩
    calc code = (k + 1) * p.fieldSize + code % p.fieldSize := hcode
      _ = k * p.fieldSize + (code % p.fieldSize + p.fieldSize) := by ring

theorem value_strictMono (p : Precision) : StrictMono p.value := by
  refine strictMono_nat_of_lt_succ fun code => ?_
  obtain ⟨k, n, rfl, hk, hn⟩ := p.exists_eq_add code
  rw [Nat.add_assoc, value_add hk hn.le, value_add (hk.imp_right Nat.le_succ_of_le) hn]
  have hunit : (0 : ℚ) < 2 ^ (p.minExponent + k) := by positivity
  gcongr
  exact Nat.lt_succ_self n

@[simp] theorem value_zero (p : Precision) : p.value 0 = 0 := by
  have h := value_add (p := p) (k := 0) (n := 0) (.inl rfl) (Nat.zero_le _)
  simpa using h

/-! ## Wider precisions -/

/-- The second precision has longer significands, and exponents that reach further both ways. -/
structure Within (p q : Precision) : Prop where
  fieldSize_le : p.fieldSize ≤ q.fieldSize
  topField : ∃ below : Nat, p.minExponent = q.minExponent + below ∧ below + p.topField ≤ q.topField

theorem Within.refl (p : Precision) : p.Within p := ⟨le_rfl, 0, by simp⟩

theorem half_within_single : half.Within single := ⟨by decide, 125, by decide⟩

theorem single_within_double : single.Within double := ⟨by decide, 925, by decide⟩

theorem half_within_double : half.Within double := ⟨by decide, 1050, by decide⟩

/-- So many units of a field below infinity are a number of the precision. -/
theorem exists_value_eq {k n : Nat} (hn : n < 2 * p.fieldSize) (hk : k + 2 ≤ p.topField) :
    ∃ code < p.infinity, p.value code = n * 2 ^ (p.minExponent + k) := by
  have hbelow : ∀ {k n : Nat}, n < 2 * p.fieldSize → k + 2 ≤ p.topField → k * p.fieldSize + n < p.infinity := by
    intro k n hn hk
    calc k * p.fieldSize + n < (k + 2) * p.fieldSize := by rw [Nat.add_mul]; omega
      _ ≤ p.infinity := by rw [infinity_eq]; exact Nat.mul_le_mul_right _ hk
  induction k generalizing n with
  | zero => exact ⟨_, hbelow hn hk, value_add (.inl rfl) hn.le⟩
  | succ k ih =>
    rcases Nat.lt_or_ge n p.fieldSize with hlow | hlow
    · -- too few units for a leading one are twice as many of the field below
      obtain ⟨code, hlt, hvalue⟩ := ih (n := 2 * n) (by omega) (by omega)
      refine ⟨code, hlt, hvalue.trans ?_⟩
      push_cast
      rw [← Int.add_assoc, zpow_add_one₀ two_ne_zero]
      ring
    · exact ⟨_, hbelow hn hk, value_add (.inr hlow) hn.le⟩

theorem Within.exists_value_eq (h : p.Within q) {code : Nat} (hc : code < p.infinity) :
    ∃ code' < q.infinity, q.value code' = p.value code := by
  obtain ⟨below, hexponent, htop⟩ := h.topField
  obtain ⟨k, n, rfl, hk, hn⟩ := p.exists_eq_add code
  have hfield : k + 2 ≤ p.topField := by
    rcases hk with rfl | hk
    · exact p.two_le_topField
    · have hlt : (k + 1) * p.fieldSize < p.topField * p.fieldSize := by
        rw [← infinity_eq, Nat.add_mul]
        omega
      exact Nat.lt_of_mul_lt_mul_right hlt
  obtain ⟨code, hlt, hvalue⟩ := Precision.exists_value_eq (p := q) (k := below + k) (n := n)
    (hn.trans_le (Nat.mul_le_mul_left 2 h.fieldSize_le)) (by omega)
  refine ⟨code, hlt, ?_⟩
  rw [hvalue, value_add hk hn.le, hexponent, Nat.cast_add, Int.add_assoc]

end Precision

end Lanewise
