/-
Integer literals of a width as integers: the literal that a width keeps of a word is the one number that fits the
width and is congruent to the word, and narrowed to 32 bits, with a sign or without, it keeps its low bits.
-/
import Lanewise.Number.Word
import Mathlib.Tactic

namespace Lanewise

theorem bmod_two_pow_bounds {bits : Nat} (h : 1 ≤ bits) (x : Int) :
    -(2 : Int) ^ (bits - 1) ≤ x.bmod (2 ^ bits) ∧ x.bmod (2 ^ bits) < (2 : Int) ^ (bits - 1) := by
  obtain ⟨k, rfl⟩ := Nat.exists_eq_add_of_le' h
  have hpos : 0 < 2 ^ (k + 1) := Nat.two_pow_pos _
  have hlo := Int.le_bmod (x := x) hpos
  have hhi := Int.bmod_lt (x := x) hpos
  have hpow : (2 : Int) ^ (k + 1) = 2 * 2 ^ k := by ring
  push_cast at hlo hhi
  rw [Nat.add_sub_cancel]
  omega

/-- A literal of a width from 1 to 64 is the residue nearest to zero modulo the width's power of two. -/
theorem toInt_signExtend {bits : Nat} (h : 1 ≤ bits) (h64 : bits ≤ 64) (x : Int64) :
    (signExtend bits x).toInt = x.toInt.bmod (2 ^ bits) := by
  obtain ⟨hlo, hhi⟩ := bmod_two_pow_bounds h x.toInt
  have hle : (2 : Int) ^ (bits - 1) ≤ 2 ^ 63 := pow_le_pow_right₀ (by norm_num) (by omega)
  rw [signExtend, Nat.one_shiftLeft, Int64.toInt_ofInt]
  exact Int.bmod_eq_of_le (by simp [Int64.size]; omega) (by simp [Int64.size]; omega)

theorem narrow_eq_neg_one_iff (x : Int64) : narrow x = -1 ↔ ∀ i < 32, x.toBitVec.getLsbD i = true := by
  rw [narrow, ← Int32.toBitVec_inj, Int64.toBitVec_toInt32, BitVec.eq_of_getLsbD_eq_iff]
  refine forall₂_congr fun i hi => ?_
  have hones : (-1 : Int32).toBitVec = BitVec.allOnes 32 := by decide
  rw [BitVec.getLsbD_signExtend, hones, BitVec.getLsbD_allOnes]
  simp [hi, Nat.lt_trans hi (by decide : 32 < 64)]

/-- A literal of a width has the low bits of the word, and repeats the highest of them. -/
theorem toBitVec_signExtend {bits : Nat} (h64 : bits ≤ 64) (x : Int64) :
    (signExtend bits x).toBitVec = (x.toBitVec.setWidth bits).signExtend 64 := by
  have hdvd : 2 ^ bits ∣ 2 ^ 64 := Nat.pow_dvd_pow 2 h64
  rw [signExtend, Nat.one_shiftLeft, Int64.toBitVec_ofInt, BitVec.signExtend, BitVec.toInt_setWidth,
    ← Int64.toInt_toBitVec, BitVec.toInt_eq_toNat_bmod, Int.bmod_bmod_of_dvd hdvd]

theorem getLsbD_signExtend {bits i : Nat} (h : 1 ≤ bits) (h64 : bits ≤ 64) (hi : i < 64) (x : Int64) :
    (signExtend bits x).toBitVec.getLsbD i = x.toBitVec.getLsbD (min i (bits - 1)) := by
  rw [toBitVec_signExtend h64, BitVec.getLsbD_signExtend, BitVec.getLsbD_setWidth, BitVec.msb_setWidth]
  have hpos : 0 < bits := h
  by_cases hb : i < bits
  · rw [if_pos hb, Nat.min_eq_left (by omega)]
    simp [hi, hb]
  · rw [if_neg hb, Nat.min_eq_right (by omega)]
    simp [hi, hpos]

/-- Narrowed to 32 bits, the literal that a width keeps of a word is -1 just when the low bits of the word are all
set, as many of them as the width has and no more than 32. -/
theorem narrow_signExtend_eq_neg_one_iff {bits : Nat} (h : 1 ≤ bits) (h64 : bits ≤ 64) (x : Int64) :
    narrow (signExtend bits x) = -1 ↔ ∀ i < min bits 32, x.toBitVec.getLsbD i = true := by
  rw [narrow_eq_neg_one_iff]
  constructor
  · intro hones i hi
    have hone := hones i (by omega)
    rwa [getLsbD_signExtend h h64 (by omega), Nat.min_eq_left (by omega)] at hone
  · intro hones i hi
    rw [getLsbD_signExtend h h64 (by omega)]
    exact hones _ (by omega)

theorem signExtend_bounds {bits : Nat} (h : 1 ≤ bits) (h64 : bits ≤ 64) (x : Int64) :
    -(2 : Int) ^ (bits - 1) ≤ (signExtend bits x).toInt ∧
      (signExtend bits x).toInt < (2 : Int) ^ (bits - 1) := by
  rw [toInt_signExtend h h64]
  exact bmod_two_pow_bounds h x.toInt

theorem toNat_toBitVec_smod {n : Nat} (h : n < 64) : ((Int64.ofNat n).toBitVec.smod 64).toNat = n := by
  have hall : ∀ n < 64, ((Int64.ofNat n).toBitVec.smod 64).toNat = n := by decide
  exact hall n h

/-- The literal that a width keeps of a word is the word shifted up, until the highest bit kept is the highest of the
word, and back down with its sign. -/
theorem signExtend_eq_shifts {bits : Nat} (h : 1 ≤ bits) (h64 : bits ≤ 64) (x : Int64) :
    signExtend bits x = (x <<< Int64.ofNat (64 - bits)) >>> Int64.ofNat (64 - bits) := by
  have hs : 64 - bits < 64 := by omega
  rw [← Int64.toBitVec_inj, Int64.toBitVec_shiftRight, Int64.toBitVec_shiftLeft]
  apply BitVec.eq_of_getLsbD_eq
  intro i hi
  rw [getLsbD_signExtend h h64 hi, BitVec.sshiftRight', BitVec.getLsbD_sshiftRight, BitVec.shiftLeft_eq',
    toNat_toBitVec_smod hs, BitVec.msb_shiftLeft, BitVec.getLsbD_shiftLeft, BitVec.getMsbD_eq_getLsbD]
  by_cases hb : i < bits
  · have hi' : 64 - bits + i < 64 := by omega
    rw [Nat.min_eq_left (by omega), if_pos hi', Nat.add_sub_cancel_left]
    simp [hi, hi']
  · have hlast : 64 - 1 - (64 - bits) = bits - 1 := by omega
    rw [Nat.min_eq_right (by omega), if_neg (by omega), hlast]
    simp [hi, hs]

/-! ## Numbers of a width -/

theorem bmod_eq_bmod_iff {n : Nat} {x y : Int} : x.bmod n = y.bmod n ↔ x ≡ y [ZMOD n] := by
  constructor
  · intro h
    rw [Int.ModEq, ← Int.bmod_emod, h, Int.bmod_emod]
  · intro h
    rw [← Int.emod_bmod x, ← Int.emod_bmod y, h]

/-- The number `s` of `bits` signed bits stands for `x`. -/
structure StandsFor (bits : Nat) (s x : Int) : Prop where
  congruent : s ≡ x [ZMOD 2 ^ bits]
  lower : -(2 : Int) ^ (bits - 1) ≤ s
  upper : s < (2 : Int) ^ (bits - 1)

/-- One number stands for another: its residue nearest to zero. -/
theorem standsFor_iff {bits : Nat} (h : 1 ≤ bits) {s x : Int} : StandsFor bits s x ↔ s = x.bmod (2 ^ bits) := by
  constructor
  · rintro ⟨hc, hlo, hhi⟩
    obtain ⟨k, rfl⟩ := Nat.exists_eq_add_of_le' h
    have hpow : ((2 ^ (k + 1) : Nat) : Int) = 2 * 2 ^ k := by push_cast; ring
    rw [Nat.add_sub_cancel] at hlo hhi
    have hs : s.bmod (2 ^ (k + 1)) = s := Int.bmod_eq_of_le (by omega) (by omega)
    rw [← hs, bmod_eq_bmod_iff]
    exact_mod_cast hc
  · rintro rfl
    obtain ⟨hlo, hhi⟩ := bmod_two_pow_bounds h x
    refine ⟨?_, hlo, hhi⟩
    have hc : x.bmod (2 ^ bits) ≡ x [ZMOD ((2 ^ bits : Nat) : Int)] := Int.bmod_emod
    exact_mod_cast hc

theorem standsFor_signExtend {bits : Nat} (h : 1 ≤ bits) (h64 : bits ≤ 64) (x : Int64) :
    StandsFor bits (signExtend bits x).toInt x.toInt :=
  (standsFor_iff h).2 (toInt_signExtend h h64 x)

theorem signExtend_eq_signExtend_iff {bits : Nat} (h : 1 ≤ bits) (h64 : bits ≤ 64) (x y : Int64) :
    signExtend bits x = signExtend bits y ↔ x.toInt ≡ y.toInt [ZMOD 2 ^ bits] := by
  rw [← Int64.toInt_inj, toInt_signExtend h h64, toInt_signExtend h h64, bmod_eq_bmod_iff]
  push_cast
  rfl

theorem signExtend_eq_self {bits : Nat} (h : 1 ≤ bits) (h64 : bits ≤ 64) {s : Int64} {x : Int}
    (hs : StandsFor bits s.toInt x) : signExtend bits s = s := by
  have hself : StandsFor bits s.toInt s.toInt := ⟨rfl, hs.lower, hs.upper⟩
  rw [← Int64.toInt_inj, toInt_signExtend h h64]
  exact ((standsFor_iff h).1 hself).symm

/-! ## Narrowed literals -/

/-- Both numbers of 32 bits have the low bits of the word. -/
theorem toBitVec_narrow (x : Int64) : (narrow x).toBitVec = (narrowUnsigned x).toBitVec := by
  rw [narrow, narrowUnsigned, Int64.toBitVec_toInt32, UInt64.toBitVec_toUInt32, Int64.toBitVec_toUInt64]
  exact BitVec.signExtend_eq_setWidth_of_le _ (by decide)

theorem toInt_narrow (x : Int64) : (narrow x).toInt = x.toInt.bmod (2 ^ 32) :=
  Int64.toInt_toInt32 x

theorem toNat_narrowUnsigned (x : Int64) : ((narrowUnsigned x).toNat : Int) = x.toInt % 2 ^ 32 := by
  have hx : (x.toUInt64.toNat : Int) % 2 ^ 64 = x.toInt % 2 ^ 64 := by
    rw [← Int64.toInt_toBitVec, BitVec.toInt_eq_toNat_bmod]
    exact Int.bmod_emod.symm
  rw [narrowUnsigned, UInt64.toNat_toUInt32]
  push_cast
  omega

end Lanewise
