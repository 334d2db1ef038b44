/-
Which operations can be split into one operation per lane, because each lane of the result depends on
the same lane of the operands alone.
-/
import Lanewise.Analysis.Inspect
import Lanewise.Query.Basic

namespace Lanewise

namespace Intrinsic

def perComponentDefault : Bool := true

/-- Whether each lane of the result is computed from the same lane of the arguments, by category. -/
def isPerComponent (i : Intrinsic) : Bool :=
  match i.category with
  | .pipeline | .packing | .textureSample | .textureQuery | .geometry | .derivative | .vectorReduction =>
    false
  | _ => perComponentDefault

end Intrinsic

namespace Opcode

/-- The classification of the opcodes that nothing else is said of. -/
def perComponentDefault : Bool := true

/-- Whether an opcode is done lane by lane, terminators and casts aside. Excluded are the opcodes that move lanes or
parts of aggregates, that work on memory or on a variable argument list, that join control flow, and that call. -/
def isPerComponent : Opcode → Bool
  | .insertElement | .extractElement | .shuffleVector => false
  | .extractValue | .insertValue => false
  | .alloca | .load | .store | .getElementPtr => false
  | .phi | .call | .vaArg => false
  | _ => perComponentDefault

end Opcode

namespace View

variable {V T : Type}

/-- Whether a cast keeps the number of lanes. A cast of nothing does not. -/
def castKeepsLanes (view : View V T) (v : V) (opcode : Opcode) : Query Bool := do
  match ← view.operand v 0 with
  | none => return false
  | some source =>
    let before ← view.valueComponentCount source
    let after ← view.valueComponentCount v
    if before = after then return true
    else do
      Query.tell (.laneCountChanged opcode)
      return false

/-- The call of an intrinsic is judged by the intrinsic, anything else by its opcode. -/
def isPerComponentInstruction (view : View V T) (v : V) : Query Bool := do
  match ← view.intrinsic v with
  | some intrinsic => do
    Query.tell (.classified intrinsic intrinsic.isPerComponent)
    return intrinsic.isPerComponent
  | none =>
    match ← view.opcode v with
    | none => return false
    | some opcode =>
      if opcode.isTerminator then return false
      else if opcode.isCast then view.castKeepsLanes v opcode
      else return opcode.isPerComponent

def isPerComponentOperation (view : View V T) (v : V) : Query Bool := do
  if (← view.kind v) = .instruction then view.isPerComponentInstruction v
  else return false

end View

end Lanewise
