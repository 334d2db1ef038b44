/-
The questions of the analyses as data, so that what holds of all analyses can be said once.
-/
import Lanewise.Analysis.Definedness
import Lanewise.Analysis.Indices
import Lanewise.Analysis.Mask
import Lanewise.Analysis.PerComponent

namespace Lanewise

inductive Inquiry (V T : Type) where
  | isUndef (v : V)
  | isConstant (v : V)
  | isScalar (t : T)
  | componentCount (t : T)
  | valueComponentCount (v : V)
  | constantInt (v : V)
  | constantFloat (v : V)
  | constantDouble (v : V)
  | allDefined (v : V)
  | allUndefined (v : V)
  | allUndefinedDeep (v : V)
  | fullyUndefined (check : UndefinedCheck) (v : V)
  | hasAllSet (v : V)
  | isPerComponentInstruction (v : V)
  | isPerComponentOperation (v : V)
  | collectIndices (chain : List V)

/-- What an inquiry is answered with; which form it takes depends on the inquiry alone. -/
inductive Answer where
  | truth (b : Bool)
  | count (n : UInt32)
  | int (x : Int32)
  | single (x : Binary .single)
  | double (x : Binary .double)
  | indices (result : Except NonConstantIndex (List UInt32))

namespace Inquiry

variable {V T : Type}

def ask (view : View V T) : Inquiry V T → Query Answer
  | .isUndef v => do return .truth (← view.isUndef v)
  | .isConstant v => do return .truth (← view.isConstant v)
  | .isScalar t => do return .truth (← view.isScalar t)
  | .componentCount t => do return .count (← view.componentCount t)
  | .valueComponentCount v => do return .count (← view.valueComponentCount v)
  | .constantInt v => do return .int (← view.constantInt v)
  | .constantFloat v => do return .single (← view.constantFloat v)
  | .constantDouble v => do return .double (← view.constantDouble v)
  | .allDefined v => do return .truth (← view.allDefined v)
  | .allUndefined v => do return .truth (← view.allUndefined v)
  | .allUndefinedDeep v => do return .truth (← view.allUndefinedDeep v)
  | .fullyUndefined check v => do return .truth (← view.fullyUndefined check v)
  | .hasAllSet v => do return .truth (← view.hasAllSet v)
  | .isPerComponentInstruction v => do return .truth (← view.isPerComponentInstruction v)
  | .isPerComponentOperation v => do return .truth (← view.isPerComponentOperation v)
  | .collectIndices chain => do return .indices (← view.collectIndices chain)

end Inquiry

end Lanewise
