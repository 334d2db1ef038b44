/-
What makes a question about an IR unanswerable. A fault is a broken promise of the caller or of the
IR, never an answer: a question that meets one stops there.
-/
namespace Lanewise

inductive Fault where
  | danglingValue
  | danglingType
  /-- A constant that is neither a scalar nor a vector of lanes was read as a mask. -/
  | notAMask
  | outputTooShort
  /-- Aggregate operands were followed around a cycle. -/
  | endlessDescent
  deriving DecidableEq, Repr

end Lanewise
