/-
Conversions, told by what numbers stand for. A conversion makes of a number the one of the other precision that is
nearest to it (`convert_rounds`), and nothing is lost on the way to a wider precision (`meaning_convert`).
-/
import Lanewise.Proofs.Number.Rounding

namespace Lanewise

/-- What a floating point number stands for: no number, an infinity, or a signed magnitude. Zero has both signs. -/
inductive Meaning where
  | nan
  | infinite (negative : Bool)
  | finite (negative : Bool) (magnitude : ℚ)

namespace Binary

variable {p q : Precision}

def meaning : Binary p → Meaning
  | .nan => .nan
  | .number negative magnitude =>
    if magnitude.val = p.infinity then .infinite negative else .finite negative (p.value magnitude)

/-- Rounding what is meant to a precision: NaN and the infinities stay what they are, and a magnitude keeps its sign
and goes to the nearest code, which is that of infinity if the magnitude is too large. -/
inductive Rounds (q : Precision) : Meaning → Binary q → Prop
  | nan : Rounds q .nan .nan
  | infinite (negative : Bool) : Rounds q (.infinite negative) (infinite negative)
  | finite (negative : Bool) {magnitude : ℚ} {code : Fin (q.infinity + 1)} : q.Nearest magnitude code →
      Rounds q (.finite negative magnitude) (.number negative code)

theorem Rounds.unique {m : Meaning} {y z : Binary q} (hy : Rounds q m y) (hz : Rounds q m z) : y = z := by
  cases hy with
  | nan => cases hz; rfl
  | infinite negative => cases hz; rfl
  | finite negative h =>
    cases hz with
    | finite _ h' => rw [Fin.ext (h.unique h')]

theorem eq_infinity {code : Fin (p.infinity + 1)} (h : code.val = p.infinity) : code = p.saturate p.infinity :=
  Fin.ext (h.trans (p.val_saturate le_rfl).symm)

theorem rounds_meaning (x : Binary p) : Rounds p x.meaning x := by
  cases x with
  | nan => exact .nan
  | number negative magnitude =>
    rw [meaning]
    split
    · rename_i h
      rw [eq_infinity h]
      exact .infinite negative
    · exact .finite negative (Precision.nearest_value (Nat.le_of_lt_succ magnitude.isLt))

theorem convert_rounds (x : Binary p) (q : Precision) : Rounds q x.meaning (x.convert q) := by
  cases x with
  | nan => exact .nan
  | number negative magnitude =>
    rw [meaning, convert]
    split
    · exact .infinite negative
    · exact .finite negative (q.nearest_round (p.magnitude magnitude))

/-- What stands for the same as a number of the precision is converted to that number. -/
theorem convert_eq_of_meaning {x : Binary p} {y : Binary q} (h : x.meaning = y.meaning) : x.convert q = y :=
  (convert_rounds x q).unique (h ▸ rounds_meaning y)

/-- Whatever a number stands for, a wider precision has a number that stands for it. -/
theorem exists_meaning_eq (h : p.Within q) (x : Binary p) : ∃ y : Binary q, y.meaning = x.meaning := by
  cases x with
  | nan => exact ⟨.nan, rfl⟩
  | number negative magnitude =>
    by_cases hi : magnitude.val = p.infinity
    · refine ⟨infinite negative, ?_⟩
      rw [meaning, if_pos hi, infinite, meaning, if_pos (q.val_saturate le_rfl)]
    · obtain ⟨code, hlt, hvalue⟩ := h.exists_value_eq (Nat.lt_of_le_of_ne (Nat.le_of_lt_succ magnitude.isLt) hi)
      refine ⟨.number negative ⟨code, Nat.lt_succ_of_lt hlt⟩, ?_⟩
      rw [meaning, meaning, if_neg hi, if_neg hlt.ne, hvalue]

theorem meaning_convert (h : p.Within q) (x : Binary p) : (x.convert q).meaning = x.meaning := by
  obtain ⟨y, hy⟩ := exists_meaning_eq h x
  rw [convert_eq_of_meaning hy.symm, hy]

theorem convert_convert_of_within (h : p.Within q) (x : Binary p) : (x.convert q).convert p = x :=
  convert_eq_of_meaning (meaning_convert h x)

end Binary

end Lanewise
