/-
Why a step of building a graph is refused, and the words for it.
-/
import Lanewise.Graph.Value

namespace Lanewise

/-- What a type was asked to be when it is not. -/
inductive Expectation where
  | vectorElement
  | arrayElement
  | structField
  | integer
  | floatingPoint
  | aggregate
  | vector
  | incomingValue
  deriving DecidableEq, Repr

def Expectation.phrase : Expectation → String
  | .vectorElement => "integer, float or pointer vector element"
  | .arrayElement => "sized array element"
  | .structField => "sized struct field"
  | .integer => "integer type"
  | .floatingPoint => "floating point type"
  | .aggregate => "vector, array or struct type"
  | .vector => "vector type"
  | .incomingValue => "incoming value of the phi's type"

/-- Types that are only reported are kept as their spelling. -/
inductive BuildError where
  | unsupportedWidth (bits : Nat)
  | noSuchType (t : TypeId)
  | noSuchValue (v : ValueId) (size : Nat)
  | unexpectedType (expected : Expectation) (found : String)
  | noLanes
  | elementCount (type : String) (expected given : Nat)
  | elementNotConstant (position : Nat)
  | elementType (position : Nat) (found expected : String)
  | notPhi (v : ValueId)
  deriving DecidableEq, Repr

inductive BuildErrorCategory where
  | unsupportedWidth
  | typeMismatch
  | aggregateMismatch
  | invalidValue
  | invalidType
  deriving DecidableEq, Repr

namespace BuildError

def category : BuildError → BuildErrorCategory
  | .unsupportedWidth _ => .unsupportedWidth
  | .noSuchType _ => .invalidType
  | .noSuchValue .. | .notPhi _ => .invalidValue
  | .unexpectedType .. => .typeMismatch
  | .noLanes | .elementCount .. | .elementNotConstant _ | .elementType .. => .aggregateMismatch

/-- What went wrong, without the category. -/
def reason : BuildError → String
  | .unsupportedWidth bits => toString bits ++ "-bit integer type"
  | .noSuchType t => "#" ++ toString t.index
  | .noSuchValue v size =>
    "no value #" ++ toString v.index ++ " in graph of " ++ toString size ++ " values"
  | .unexpectedType expected found => "expected " ++ expected.phrase ++ ", found " ++ found
  | .noLanes => "vector types need at least one lane"
  | .elementCount type expected given =>
    type ++ " expects " ++ toString expected ++ " elements, got " ++ toString given
  | .elementNotConstant position => "element " ++ toString position ++ " is not a constant"
  | .elementType position found expected =>
    "element " ++ toString position ++ " has type " ++ found ++ ", expected " ++ expected
  | .notPhi v => "value #" ++ toString v.index ++ " is not a phi"

/-- The category in words, then the reason. -/
def message (e : BuildError) : String :=
  match e.category with
  | .unsupportedWidth => "Unsupported " ++ e.reason
  | .typeMismatch => "Type mismatch: " ++ e.reason
  | .aggregateMismatch => "Aggregate mismatch: " ++ e.reason
  | .invalidValue => "Invalid value: " ++ e.reason
  | .invalidType => "Invalid type reference " ++ e.reason

end BuildError

end Lanewise
