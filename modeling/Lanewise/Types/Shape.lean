/-
The shape of a type: what an analysis may see of it. Only vectors, arrays and structs have parts, and
of a struct the shape tells only how many.
-/
import Lanewise.Number.Precision

namespace Lanewise

inductive Shape (T : Type) where
  | void
  | int (bits : Nat)
  | float (precision : Precision)
  | pointer
  | vector (element : T) (lanes : UInt32)
  | array (element : T) (length : UInt32)
  | struct (fields : UInt32)
  deriving DecidableEq, Repr

namespace Shape

variable {T : Type}

def isAggregate : Shape T → Bool
  | .vector .. | .array .. | .struct .. => true
  | _ => false

def isVector : Shape T → Bool
  | .vector .. => true
  | _ => false

/-- Anything that is not an aggregate is a scalar, void included. -/
def isScalar (s : Shape T) : Bool :=
  !s.isAggregate

/-- Lanes of a vector, elements of an array, fields of a struct, and one for a scalar. -/
def componentCount : Shape T → UInt32
  | .vector _ lanes => lanes
  | .array _ length => length
  | .struct fields => fields
  | _ => 1

theorem componentCount_of_isScalar {s : Shape T} (h : s.isScalar = true) : s.componentCount = 1 := by
  cases s <;> simp_all [isScalar, isAggregate, componentCount]

def map {U : Type} (f : T → U) : Shape T → Shape U
  | .void => .void
  | .int bits => .int bits
  | .float precision => .float precision
  | .pointer => .pointer
  | .vector element lanes => .vector (f element) lanes
  | .array element length => .array (f element) length
  | .struct fields => .struct fields

@[simp] theorem isAggregate_map {U : Type} (f : T → U) (s : Shape T) :
    (s.map f).isAggregate = s.isAggregate := by
  cases s <;> rfl

@[simp] theorem componentCount_map {U : Type} (f : T → U) (s : Shape T) :
    (s.map f).componentCount = s.componentCount := by
  cases s <;> rfl

end Shape

end Lanewise
