/-
Types as full trees, without sharing, and how a type is spelled.
-/
import Lanewise.Number.Precision

namespace Lanewise

inductive TypeTree where
  | void
  | int (bits : Nat)
  | float (precision : Precision)
  | pointer
  | vector (element : TypeTree) (lanes : UInt32)
  | array (element : TypeTree) (length : UInt32)
  | struct (fields : List TypeTree)
  deriving Repr

def Precision.typeName : Precision → String
  | .half => "half"
  | .single => "float"
  | .double => "double"

namespace TypeTree

mutual

/-- The spelling of a type: `i32`, `<4 x float>`, `[2 x ptr]`, or the fields of a struct between braces
that are set off by a space even when there is no field. -/
def spelling : TypeTree → String
  | .void => "void"
  | .int bits => "i" ++ toString bits
  | .float precision => precision.typeName
  | .pointer => "ptr"
  | .vector element lanes => "<" ++ toString lanes.toNat ++ " x " ++ element.spelling ++ ">"
  | .array element length => "[" ++ toString length.toNat ++ " x " ++ element.spelling ++ "]"
  | .struct fields => "\x7b " ++ ", ".intercalate (spellings fields) ++ " \x7d"

def spellings : List TypeTree → List String
  | [] => []
  | field :: fields => field.spelling :: spellings fields

end

theorem spellings_eq_map (fields : List TypeTree) : spellings fields = fields.map spelling := by
  induction fields with
  | nil => rfl
  | cons field fields ih => simp [spellings, ih]

example : (struct [.int 32, .vector (.float .single) 4, .struct []]).spelling =
    "\x7b i32, <4 x float>, \x7b  \x7d \x7d" := by decide +kernel

end TypeTree

end Lanewise
