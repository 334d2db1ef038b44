/-
Constants that serve as masks: is every bit of every lane set?
-/
import Lanewise.Analysis.Inspect
import Lanewise.Analysis.Literal

namespace Lanewise

namespace View

variable {V T : Type}

/-- Whether the literal is all ones, as far as its low 32 bits go. -/
def bitsSet (view : View V T) (v : V) : Query Bool := do
  return (← view.constantInt v) == -1

/-- Whether `n` lanes from `lane` on have all bits set. -/
def lanesSet (view : View V T) (v : V) : Nat → Nat → Query Bool
  | _, 0 => return true
  | lane, n + 1 => do
    match ← view.aggregateElement v lane with
    | none => return false
    | some element =>
      if ← view.bitsSet element then view.lanesSet v (lane + 1) n
      else return false

/-- Whether a value is a constant of set bits only. A constant that is no scalar must be a vector made of its lanes. -/
def hasAllSet (view : View V T) (v : V) : Query Bool := do
  if ← view.isConstant v then
    let shape ← view.valueShape v
    if shape.isScalar then view.bitsSet v
    else if (← view.kind v) = .constantAggregate ∧ shape.isVector then
      view.lanesSet v 0 shape.componentCount.toNat
    else Query.fail .notAMask
  else return false

end View

end Lanewise
