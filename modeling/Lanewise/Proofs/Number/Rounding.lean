/-
Rounding, told by the numbers. The code that a magnitude is rounded to is the one whose number is nearest to it, or
the even one of two that are as near (`nearest_round`), and there is only one such code (`Nearest.unique`). So it
does not matter how a number is written that is rounded, and a number of the precision is rounded to itself.
-/
import Lanewise.Proofs.Number.Magnitude

namespace Lanewise

/-- A quotient is rounded down, up, or from the middle to the even side. -/
theorem roundHalfEven_cases (n d : Nat) :
    2 * (n % d) < d ∧ roundHalfEven n d = n / d ∨ d < 2 * (n % d) ∧ roundHalfEven n d = n / d + 1 ∨
      2 * (n % d) = d ∧ (roundHalfEven n d = n / d ∨ roundHalfEven n d = n / d + 1) ∧ Even (roundHalfEven n d) := by
  unfold roundHalfEven
  rw [Nat.even_iff]
  split
  · omega
  · split <;> omega

namespace Precision

variable {p : Precision} {x : ℚ} {code c low : Nat}

/-! ## Nearest codes -/

/-- How far the number of a code is from `x`. -/
def distance (p : Precision) (x : ℚ) (code : Nat) : ℚ :=
  |p.value code - x|

/-- The number of the first code is nearer to `x`, or it is as near and the code is even. -/
def Prefers (p : Precision) (x : ℚ) (code c : Nat) : Prop :=
  p.distance x code < p.distance x c ∨ p.distance x code = p.distance x c ∧ Even code

/-- The code is preferred to any other up to infinity, which takes part as the power of two that follows the largest
finite number. -/
structure Nearest (p : Precision) (x : ℚ) (code : Nat) : Prop where
  le : code ≤ p.infinity
  prefers : ∀ c ≤ p.infinity, c ≠ code → p.Prefers x code c

theorem Prefers.distance_le (h : p.Prefers x code c) : p.distance x code ≤ p.distance x c := by
  rcases h with hlt | ⟨heq, -⟩
  · exact hlt.le
  · exact heq.le

/-- Two codes are preferred to each other only in a tie of even codes. -/
theorem Prefers.tie (h : p.Prefers x code c) (h' : p.Prefers x c code) :
    p.distance x code = p.distance x c ∧ Even code ∧ Even c := by
  have hsame : p.distance x code = p.distance x c := le_antisymm h.distance_le h'.distance_le
  exact ⟨hsame, (h.resolve_left hsame.not_lt).2, (h'.resolve_left hsame.not_gt).2⟩

theorem distance_lt_below (h : p.value low ≤ x) (hc : c < low) : p.distance x low < p.distance x c := by
  have hlt : p.value c < p.value low := p.value_strictMono hc
  rw [distance, distance, abs_of_nonpos (by linarith), abs_of_neg (by linarith)]
  linarith

theorem distance_lt_above (h : x ≤ p.value low) (hc : low < c) : p.distance x low < p.distance x c := by
  have hlt : p.value low < p.value c := p.value_strictMono hc
  rw [distance, distance, abs_of_nonneg (by linarith), abs_of_pos (by linarith)]
  linarith

theorem nearest_value (h : code ≤ p.infinity) : p.Nearest (p.value code) code := by
  refine ⟨h, fun c _ hne => .inl ?_⟩
  rcases Nat.lt_or_gt_of_ne hne with hlt | hgt
  · exact distance_lt_below le_rfl hlt
  · exact distance_lt_above le_rfl hgt

theorem nearest_infinity (h : p.value p.infinity ≤ x) : p.Nearest x p.infinity :=
  ⟨le_rfl, fun _ hc hne => .inl (distance_lt_below h (Nat.lt_of_le_of_ne hc hne))⟩

/-- Of two codes that are nearest both are even, and one between them would be nearer. -/
theorem Nearest.not_lt (h : p.Nearest x code) (h' : p.Nearest x c) : ¬ code < c := by
  intro hlt
  obtain ⟨hsame, heven, heven'⟩ := (h.prefers c h'.le hlt.ne').tie (h'.prefers code h.le hlt.ne)
  have hbetween : code + 1 < c := by
    rw [Nat.even_iff] at heven heven'
    omega
  have hlow : p.value code < p.value (code + 1) := p.value_strictMono (Nat.lt_succ_self code)
  have hhigh : p.value (code + 1) < p.value c := p.value_strictMono hbetween
  have hfar := (h.prefers (code + 1) (hbetween.le.trans h'.le) (Nat.succ_ne_self code)).distance_le
  -- the distances are the same, so `x` is in the middle
  rw [distance, distance] at hsame hfar
  rcases abs_eq_abs.1 hsame with hs | hs
  · linarith
  · rw [abs_of_neg (by linarith), le_abs] at hfar
    rcases hfar with hf | hf <;> linarith

theorem Nearest.unique (h : p.Nearest x code) (h' : p.Nearest x c) : code = c :=
  Nat.le_antisymm (Nat.le_of_not_lt (h'.not_lt h)) (Nat.le_of_not_lt (h.not_lt h'))

/-- Between the numbers of two codes that follow each other, the code that is preferred to both is nearest. -/
theorem nearest_of_between (hlow : p.value low ≤ x) (hhigh : x ≤ p.value (low + 1)) (hle : code ≤ p.infinity)
    (h : ∀ c, c = low ∨ c = low + 1 → c ≠ code → p.Prefers x code c) : p.Nearest x code := by
  have hnearer : ∀ c, c = low ∨ c = low + 1 → p.distance x code ≤ p.distance x c := by
    intro c hc
    by_cases hne : c = code
    · rw [hne]
    · exact (h c hc hne).distance_le
  refine ⟨hle, fun c _ hne => ?_⟩
  rcases Nat.lt_or_ge c low with hc | hc
  · exact .inl ((hnearer low (.inl rfl)).trans_lt (distance_lt_below hlow hc))
  rcases Nat.lt_or_ge (low + 1) c with hc' | hc'
  · exact .inl ((hnearer (low + 1) (.inr rfl)).trans_lt (distance_lt_above hhigh hc'))
  · exact h c (by omega) hne

/-! ## Rounding to codes -/

/-- Where `d` parts lie between two codes that follow each other, what is `r` of them above the first is nearest to
the one that is fewer parts away. -/
theorem nearest_of_parts {r d : Nat} {part : ℚ} (hpart : 0 < part) (hr : r < d) (hlow : x = p.value low + r * part)
    (hhigh : p.value (low + 1) = p.value low + d * part) (hle : code ≤ p.infinity)
    (h : 2 * r < d ∧ code = low ∨ d < 2 * r ∧ code = low + 1 ∨
      2 * r = d ∧ (code = low ∨ code = low + 1) ∧ Even code) : p.Nearest x code := by
  have hd : (r : ℚ) < d := Nat.cast_lt.2 hr
  have hbelow : 0 ≤ r * part := by positivity
  have habove : 0 < (d - r) * part := mul_pos (by linarith) hpart
  have hx : x = p.value (low + 1) - (d - r) * part := by rw [hhigh, hlow]; ring
  have hdlow : p.distance x low = r * part := by
    rw [distance, abs_of_nonpos (by linarith)]
    linarith
  have hdhigh : p.distance x (low + 1) = (d - r) * part := by
    rw [distance, abs_of_pos (by linarith)]
    linarith
  have hxlow : p.value low ≤ x := by linarith
  refine nearest_of_between hxlow (by linarith) hle fun c hc hne => ?_
  rcases h with ⟨hlt, rfl⟩ | ⟨hlt, rfl⟩ | ⟨heq, hcode, heven⟩
  · obtain rfl : c = code + 1 := hc.resolve_left hne
    have hlt : (2 * r : ℚ) < d := by exact_mod_cast hlt
    rw [Prefers, hdlow, hdhigh]
    exact .inl (mul_lt_mul_of_pos_right (by linarith) hpart)
  · obtain rfl : c = low := hc.resolve_right hne
    have hlt : (d : ℚ) < 2 * r := by exact_mod_cast hlt
    rw [Prefers, hdlow, hdhigh]
    exact .inl (mul_lt_mul_of_pos_right (by linarith) hpart)
  · have hsame : p.distance x low = p.distance x (low + 1) := by
      have heq : (2 * r : ℚ) = d := by exact_mod_cast heq
      rw [hdlow, hdhigh, ← heq]
      ring
    refine .inr ⟨?_, heven⟩
    rcases hcode with rfl | rfl <;> rcases hc with rfl | rfl
    · rfl
    · exact hsame
    · exact hsame.symm
    · rfl

theorem saturate_of_le (h : p.infinity ≤ code) : (p.saturate code).val = p.infinity := by
  rw [saturate, dif_neg (Nat.not_lt.2 h)]

/-- A quotient of units, rounded half to even and counted from the field, is the nearest code. -/
theorem nearest_roundHalfEven {k n d : Nat} (hd : 0 < d) (hk : k = 0 ∨ p.fieldSize ≤ n / d)
    (hn : n / d < 2 * p.fieldSize) :
    p.Nearest (n / d * 2 ^ (p.minExponent + k)) (p.saturate (k * p.fieldSize + roundHalfEven n d)).val := by
  have hunit : (0 : ℚ) < 2 ^ (p.minExponent + k) := by positivity
  have hd' : (0 : ℚ) < d := Nat.cast_pos.2 hd
  have hsplit : (n : ℚ) = (n / d : Nat) * d + (n % d : Nat) := by exact_mod_cast (Nat.div_add_mod' n d).symm
  have hvalue : p.value (k * p.fieldSize + n / d) = (n / d : Nat) * 2 ^ (p.minExponent + k) := value_add hk hn.le
  have hlow : (n / d : ℚ) * 2 ^ (p.minExponent + k) =
      p.value (k * p.fieldSize + n / d) + (n % d : Nat) * (2 ^ (p.minExponent + k) / d) := by
    rw [hvalue, hsplit]
    field_simp
  have hhigh : p.value (k * p.fieldSize + n / d + 1) =
      p.value (k * p.fieldSize + n / d) + d * (2 ^ (p.minExponent + k) / d) := by
    rw [hvalue, Nat.add_assoc, value_add (hk.imp_right Nat.le_succ_of_le) hn]
    push_cast
    field_simp
  rcases Nat.lt_or_ge p.infinity (k * p.fieldSize + roundHalfEven n d) with hgt | hle
  · -- what is rounded past infinity is not below it
    rw [saturate_of_le hgt.le]
    refine nearest_infinity ?_
    have hinfinity : p.infinity ≤ k * p.fieldSize + n / d := by
      have hcases := roundHalfEven_cases n d
      omega
    calc p.value p.infinity ≤ p.value (k * p.fieldSize + n / d) := p.value_strictMono.monotone hinfinity
      _ ≤ n / d * 2 ^ (p.minExponent + k) := by rw [hlow]; exact le_add_of_nonneg_right (by positivity)
  · rw [val_saturate p hle]
    refine nearest_of_parts (div_pos hunit hd') (Nat.mod_lt n hd) hlow hhigh hle ?_
    have hfield : Even (k * p.fieldSize) := (even_iff_two_dvd.2 p.fieldSize_even).mul_left k
    rcases roundHalfEven_cases n d with ⟨hlt, he⟩ | ⟨hlt, he⟩ | ⟨heq, he, heven⟩
    · exact .inl ⟨hlt, by rw [he]⟩
    · exact .inr (.inl ⟨hlt, by rw [he, Nat.add_assoc]⟩)
    · exact .inr (.inr ⟨heq, by omega, hfield.add heven⟩)

end Precision

/-! ## Magnitudes -/

namespace Scaled

variable {x : Scaled}

theorem mantissa_bounds (h : x.mantissa ≠ 0) :
    2 ^ x.bitLength ≤ 2 * x.mantissa ∧ x.mantissa < 2 ^ x.bitLength := by
  rw [bitLength, if_neg h]
  have hle : 2 ^ x.mantissa.log2 ≤ x.mantissa := Nat.log2_self_le h
  exact ⟨by rw [Nat.pow_succ]; omega, Nat.lt_log2_self⟩

/-- In units of any power of two, a magnitude is a quotient that is rounded half to even. -/
theorem exists_inUnits (x : Scaled) (e : Int) :
    ∃ n d, 0 < d ∧ x.inUnits e = roundHalfEven n d ∧ x.value = n / d * 2 ^ e := by
  unfold inUnits
  split
  · rename_i h
    refine ⟨x.mantissa <<< (x.exponent - e).toNat, 1, one_pos, ?_, ?_⟩
    · have hkeep := roundHalfEven_mul_left one_pos (x.mantissa <<< (x.exponent - e).toNat)
      rw [Nat.mul_one] at hkeep
      exact hkeep.symm
    · rw [Nat.shiftLeft_eq, value]
      push_cast
      rw [div_one, mul_assoc, ← zpow_natCast, ← zpow_add₀ two_ne_zero]
      congr
      omega
  · rename_i h
    refine ⟨x.mantissa, 1 <<< (e - x.exponent).toNat, ?_, rfl, ?_⟩
    · rw [Nat.one_shiftLeft]
      exact Nat.two_pow_pos _
    · rw [Nat.one_shiftLeft, value]
      push_cast
      rw [← zpow_natCast, div_mul, ← zpow_sub₀ two_ne_zero, div_eq_mul_inv, ← zpow_neg]
      congr
      omega

end Scaled

namespace Precision

variable {p : Precision} {x : Scaled}

/-- The significand holds all digits down to the last place. -/
theorem value_lt_lastPlace (h : x.mantissa ≠ 0) : x.value < (2 * p.fieldSize : Nat) * 2 ^ p.lastPlace x := by
  have hplace : x.exponent + x.bitLength ≤ p.significand + p.lastPlace x := by
    have := le_max_left (x.exponent + x.bitLength - p.significand) p.minExponent
    unfold lastPlace
    omega
  have hdigits : (x.mantissa : ℚ) < 2 ^ x.bitLength := by exact_mod_cast (Scaled.mantissa_bounds h).2
  calc x.value < 2 ^ x.bitLength * 2 ^ x.exponent := by
        rw [Scaled.value]
        gcongr
    _ = 2 ^ (x.exponent + x.bitLength) := by rw [zpow_add₀ two_ne_zero, zpow_natCast, mul_comm]
    _ ≤ 2 ^ (p.significand + p.lastPlace x) := zpow_le_zpow_right₀ one_le_two hplace
    _ = (2 * p.fieldSize : Nat) * 2 ^ p.lastPlace x := by
      rw [two_mul_fieldSize, zpow_add₀ two_ne_zero, zpow_natCast, Nat.cast_pow, Nat.cast_ofNat]

/-- Above the least exponent the leading digit has the first place of the significand. -/
theorem le_value_lastPlace (h : x.mantissa ≠ 0) (hp : p.lastPlace x ≠ p.minExponent) :
    p.fieldSize * 2 ^ p.lastPlace x ≤ x.value := by
  have hplace : p.lastPlace x = x.exponent + x.bitLength - p.significand := by
    unfold lastPlace at hp ⊢
    omega
  have hdigits : (2 ^ x.bitLength : ℚ) ≤ 2 * x.mantissa := by exact_mod_cast (Scaled.mantissa_bounds h).1
  have hdouble : 2 * (p.fieldSize * 2 ^ p.lastPlace x : ℚ) ≤ 2 * x.value :=
    calc 2 * (p.fieldSize * 2 ^ p.lastPlace x : ℚ) = 2 ^ (p.significand + p.lastPlace x) := by
          rw [← mul_assoc, zpow_add₀ two_ne_zero, zpow_natCast]
          congr
          exact_mod_cast p.two_mul_fieldSize
      _ = 2 ^ x.bitLength * 2 ^ x.exponent := by
        rw [hplace, add_sub_cancel, zpow_add₀ two_ne_zero, zpow_natCast, mul_comm]
      _ ≤ 2 * x.mantissa * 2 ^ x.exponent := by gcongr
      _ = 2 * x.value := by rw [Scaled.value, mul_assoc]
  linarith

/-- A magnitude is rounded to the code that is nearest to it. -/
theorem nearest_round (p : Precision) (x : Scaled) : p.Nearest x.value (p.round x) := by
  by_cases hm : x.mantissa = 0
  · have hzero : x.value = p.value 0 := by rw [Scaled.value, hm, Nat.cast_zero, zero_mul, value_zero]
    rw [round, if_pos hm, val_saturate p (Nat.zero_le _), hzero]
    exact nearest_value (Nat.zero_le _)
  obtain ⟨k, hk⟩ : ∃ k : Nat, p.lastPlace x = p.minExponent + k :=
    ⟨(p.lastPlace x - p.minExponent).toNat, by unfold lastPlace; omega⟩
  obtain ⟨n, d, hd, hround, hvalue⟩ := x.exists_inUnits (p.lastPlace x)
  have hd' : (0 : ℚ) < d := Nat.cast_pos.2 hd
  have hunit : (0 : ℚ) < 2 ^ p.lastPlace x := by positivity
  have hcode : (p.round x).val = (p.saturate (k * p.fieldSize + roundHalfEven n d)).val := by
    rw [round, if_neg hm]
    show (p.saturate ((p.lastPlace x - p.minExponent).toNat <<< _ + x.inUnits (p.lastPlace x))).val = _
    rw [hround, hk, add_sub_cancel_left, Int.toNat_natCast, Nat.shiftLeft_eq]
    rfl
  have hhigh : n / d < 2 * p.fieldSize := by
    have hlt := value_lt_lastPlace (p := p) hm
    rw [hvalue, mul_lt_mul_iff_of_pos_right hunit, div_lt_iff₀ hd'] at hlt
    exact (Nat.div_lt_iff_lt_mul hd).2 (by exact_mod_cast hlt)
  have hlow : k = 0 ∨ p.fieldSize ≤ n / d := by
    refine or_iff_not_imp_left.2 fun hne => ?_
    have hle := le_value_lastPlace (p := p) hm (by omega)
    rw [hvalue, mul_le_mul_iff_of_pos_right hunit, le_div_iff₀ hd'] at hle
    exact (Nat.le_div_iff_mul_le hd).2 (by exact_mod_cast hle)
  rw [hcode, hvalue, hk]
  exact nearest_roundHalfEven hd hlow hhigh

end Precision

end Lanewise
