/-
The first questions about a value or a type.
-/
import Lanewise.View.Basic

namespace Lanewise

namespace View

variable {V T : Type}

/-- Only an undefined value itself counts, not an aggregate of them. -/
def isUndef (view : View V T) (v : V) : Except Fault Bool := do
  return (← view.kind v) == .undef

def isConstant (view : View V T) (v : V) : Except Fault Bool := do
  return (← view.kind v).isConstant

def isScalar (view : View V T) (t : T) : Except Fault Bool := do
  return (← view.shape t).isScalar

/-- Vectors, arrays and structs have as many components as elements, all else has one. -/
def componentCount (view : View V T) (t : T) : Except Fault UInt32 := do
  return (← view.shape t).componentCount

def valueComponentCount (view : View V T) (v : V) : Except Fault UInt32 := do
  view.componentCount (← view.type v)

end View

end Lanewise
