/-
A view of an IR: the reads that an analysis may make of its values and types, whatever the IR is. The
reads after `intrinsic` follow from those before it unless the IR has its own; `View.minimal` takes
the IR's own away.
-/
import Lanewise.Graph.Value
import Lanewise.View.Scan

namespace Lanewise

/-- What can be read of an IR whose values are named by `V` and whose types are named by `T`. A read
faults on a value or type that the IR does not have; every value of known kind is listed, so that a
descent that revisits no value is no longer than the list. -/
structure View (V T : Type) where
  values : List V
  kind : V → Except Fault Kind
  type : V → Except Fault T
  shape : T → Except Fault (Shape T)
  operandCount : V → Except Fault Nat
  /-- The operand at a position, `none` past the end. -/
  operand : V → Nat → Except Fault (Option V)
  intLiteral : V → Except Fault (Option Int64)
  floatLiteral : V → Except Fault (Option FloatLiteral)
  /-- The opcode of an instruction or an unfolded expression, `call` for the call of an intrinsic. -/
  opcode : V → Except Fault (Option Opcode)
  intrinsic : V → Except Fault (Option Intrinsic)
  /-- The operands in order, each read only when it is come to. -/
  operands : V → Except Fault (Scan V) := fun v => do
    return .ofPositions (operand v) 0 (← operandCount v)
  /-- The element at a position of an aggregate constant, whose operands are its elements. -/
  aggregateElement : V → Nat → Except Fault (Option V) := fun v i => do
    if (← kind v) = .constantAggregate then operand v i else return none
  name : V → Except Fault String := fun _ => return ""
  mem_values : ∀ v k, kind v = .ok k → v ∈ values

namespace View

variable {V T : Type}

/-- The same IR read through what every IR must offer. -/
def minimal (view : View V T) : View V T where
  values := view.values
  kind := view.kind
  type := view.type
  shape := view.shape
  operandCount := view.operandCount
  operand := view.operand
  intLiteral := view.intLiteral
  floatLiteral := view.floatLiteral
  opcode := view.opcode
  intrinsic := view.intrinsic
  mem_values := view.mem_values

def valueShape (view : View V T) (v : V) : Except Fault (Shape T) := do
  view.shape (← view.type v)

structure Description (V T : Type) where
  kind : Kind
  type : T
  operandCount : Nat
  operands : List V
  intLiteral : Option Int64
  floatLiteral : Option FloatLiteral
  opcode : Option Opcode
  intrinsic : Option Intrinsic
  name : String

/-- Reads all there is of one value; the first read that faults decides. -/
def describe (view : View V T) (v : V) : Except Fault (Description V T) := do
  return {
    kind := ← view.kind v
    type := ← view.type v
    operandCount := ← view.operandCount v
    operands := ← (← view.operands v).toList
    intLiteral := ← view.intLiteral v
    floatLiteral := ← view.floatLiteral v
    opcode := ← view.opcode v
    intrinsic := ← view.intrinsic v
    name := ← view.name v }

end View

end Lanewise
