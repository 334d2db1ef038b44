/-
Integer literals of a width: the low bits of a word, read as a signed number.
-/
namespace Lanewise

/-- The number congruent to `x` modulo `2 ^ bits` that a signed integer of `bits` bits can hold. -/
def signExtend (bits : Nat) (x : Int64) : Int64 :=
  Int64.ofInt (x.toInt.bmod (1 <<< bits))

example : signExtend 1 1 = -1 ∧ signExtend 8 0x1FF = -1 ∧ signExtend 8 0x7F = 127 ∧
    signExtend 64 (-5) = -5 := by decide

/-- The signed 32-bit number congruent to `x`. -/
def narrow (x : Int64) : Int32 :=
  x.toInt32

/-- The unsigned 32-bit number congruent to `x`. -/
def narrowUnsigned (x : Int64) : UInt32 :=
  x.toUInt64.toUInt32

example : narrow 0x100000002 = 2 ∧ narrow 0x80000000 = Int32.minValue ∧
    narrowUnsigned (-1) = 0xFFFFFFFF := by decide

end Lanewise
