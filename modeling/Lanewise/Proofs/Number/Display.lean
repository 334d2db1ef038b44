/-
The texts of numbers are words, and the text of an integer is that of no other.
-/
import Lanewise.Number.Decimal
import Lanewise.Proofs.Types.Word
import Mathlib

namespace Lanewise

open Text

/-! ## Integers -/

theorem solid_repr (n : Nat) : Solid n.repr.toList := by
  rw [Nat.toList_repr]
  exact solid_toDigits n

theorem solid_toString_int (x : Int) : Solid (toString x).toList := by
  cases x with
  | ofNat n => exact solid_repr n
  | negSucc n =>
    show Solid ("-" ++ (n + 1).repr).toList
    rw [String.toList_append]
    exact solid_append.2 ⟨by decide, solid_repr _⟩

theorem toString_toInt_inj {x y : Int64} (h : toString x.toInt = toString y.toInt) : x = y :=
  Int64.toInt_inj.1 (Int.repr_inj.1 h)

/-! ## Decimals -/

theorem solid_replicate_zero (n : Nat) : Solid (List.replicate n '0') := by
  intro c hc
  rw [List.eq_of_mem_replicate hc]
  decide

theorem Decimal.solid_positional (d : Decimal) : Solid d.positional.toList := by
  have hd := solid_repr d.digits
  unfold positional
  split
  · rw [String.toList_ofList]
    exact solid_append.2 ⟨hd, solid_replicate_zero _⟩
  · have hpad := solid_append.2 ⟨solid_replicate_zero (d.exponent.natAbs + 1 - d.digits.repr.toList.length), hd⟩
    dsimp only
    -- the digits before and after the point are some of the padded ones
    generalize List.replicate (d.exponent.natAbs + 1 - d.digits.repr.toList.length) '0' ++ d.digits.repr.toList = cs
      at hpad ⊢
    have hwhole : Solid (cs.take (cs.length - d.exponent.natAbs)) :=
      fun c hc => hpad c (List.mem_of_mem_take hc)
    have hfraction : Solid ((cs.drop (cs.length - d.exponent.natAbs)).reverse.dropWhile (· == '0')).reverse :=
      fun c hc => hpad c (List.mem_of_mem_drop
        (List.mem_reverse.1 ((List.dropWhile_sublist _).subset (List.mem_reverse.1 hc))))
    rw [String.toList_ofList]
    split
    · exact hwhole
    · exact solid_append.2 ⟨hwhole, solid_cons.2 ⟨by decide, hfraction⟩⟩

theorem Binary.solid_display {p : Precision} (x : Binary p) : Solid x.display.toList := by
  cases x with
  | nan => exact (by decide : Solid "NaN".toList)
  | number negative magnitude =>
    rw [display, String.toList_append]
    refine solid_append.2 ⟨by cases negative <;> decide, ?_⟩
    split
    · decide
    split
    · decide
    · exact Decimal.solid_positional _

end Lanewise
