/-
The answers of all analyses of one value, asked in a fixed order. A fault takes the place of the answer it
prevents and does not stop the questions after it.
-/
import Lanewise.Analysis.Definedness
import Lanewise.Analysis.Mask
import Lanewise.Analysis.PerComponent

namespace Lanewise

structure Profile where
  isUndef : Except Fault Bool
  isConstant : Except Fault Bool
  components : Except Fault UInt32
  int : Except Fault Int32
  single : Except Fault (Binary .single)
  double : Except Fault (Binary .double)
  allDefined : Except Fault Bool
  allUndefined : Except Fault Bool
  allUndefinedDeep : Except Fault Bool
  hasAllSet : Except Fault Bool
  perComponentInstruction : Except Fault Bool
  perComponentOperation : Except Fault Bool

/-- The answers that leave no events are read at once. -/
def View.profile {V T : Type} (view : View V T) (v : V) : Query Profile := do
  let int ← (view.constantInt v).attempt
  let single ← (view.constantFloat v).attempt
  let double ← (view.constantDouble v).attempt
  let hasAllSet ← (view.hasAllSet v).attempt
  let perComponentInstruction ← (view.isPerComponentInstruction v).attempt
  let perComponentOperation ← (view.isPerComponentOperation v).attempt
  return {
    isUndef := view.isUndef v
    isConstant := view.isConstant v
    components := view.valueComponentCount v
    int, single, double
    allDefined := view.allDefined v
    allUndefined := view.allUndefined v
    allUndefinedDeep := view.allUndefinedDeep v
    hasAllSet, perComponentInstruction, perComponentOperation }

end Lanewise
