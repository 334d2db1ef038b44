/-
The values of a graph: what a node holds, and which kind of value that makes it. The operands of a
node belong to its content, so that a literal, an undefined value and an argument have none.
-/
import Lanewise.Number.FloatLiteral
import Lanewise.Operation.Opcode
import Lanewise.Operation.Intrinsic
import Lanewise.Types.Table

namespace Lanewise

/-- A value, by its position in order of creation. -/
structure ValueId where
  index : Nat
  deriving DecidableEq, Repr

inductive Kind where
  | constantInt
  | constantFloat
  | constantAggregate
  | constantExpr
  | undef
  | argument
  | instruction
  deriving DecidableEq, Repr

namespace Kind

def catalog : List Kind :=
  [.constantInt, .constantFloat, .constantAggregate, .constantExpr, .undef, .argument, .instruction]

/-- Everything but arguments and instructions is a constant, an undefined value too. -/
def isConstant : Kind → Bool
  | .argument | .instruction => false
  | _ => true

end Kind

/-- What a node holds besides its name and type. -/
inductive Content where
  | int (value : Int64)
  | float (literal : FloatLiteral)
  | aggregate (elements : Array ValueId)
  /-- A constant expression that was never folded to a literal. -/
  | expr (opcode : Opcode) (operands : Array ValueId)
  | undef
  | argument
  | op (opcode : Opcode) (operands : Array ValueId)
  | call (intrinsic : Intrinsic) (arguments : Array ValueId)
  deriving DecidableEq

/-- What a node holds besides its kind and its operands. -/
inductive Payload where
  | none
  | int (value : Int64)
  | float (literal : FloatLiteral)
  | op (opcode : Opcode)
  | intrinsic (callee : Intrinsic)
  deriving DecidableEq

namespace Content

def kind : Content → Kind
  | .int _ => .constantInt
  | .float _ => .constantFloat
  | .aggregate _ => .constantAggregate
  | .expr .. => .constantExpr
  | .undef => .undef
  | .argument => .argument
  | .op .. | .call .. => .instruction

def payload : Content → Payload
  | .int value => .int value
  | .float literal => .float literal
  | .aggregate _ | .undef | .argument => .none
  | .expr opcode _ | .op opcode _ => .op opcode
  | .call callee _ => .intrinsic callee

def operands : Content → Array ValueId
  | .aggregate vs | .expr _ vs | .op _ vs | .call _ vs => vs
  | _ => #[]

/-- The opcode of an instruction or an unfolded expression. The call of an intrinsic is a call. -/
def opcode? : Content → Option Opcode
  | .expr opcode _ | .op opcode _ => some opcode
  | .call .. => some .call
  | _ => none

def intrinsic? : Content → Option Intrinsic
  | .call intrinsic _ => some intrinsic
  | _ => none

def intLiteral? : Content → Option Int64
  | .int value => some value
  | _ => none

def floatLiteral? : Content → Option FloatLiteral
  | .float literal => some literal
  | _ => none

/-- The same content on other operands, where it has any. -/
def withOperands (vs : Array ValueId) : Content → Content
  | .aggregate _ => .aggregate vs
  | .expr opcode _ => .expr opcode vs
  | .op opcode _ => .op opcode vs
  | .call intrinsic _ => .call intrinsic vs
  | content => content

@[simp] theorem kind_withOperands (vs : Array ValueId) (c : Content) : (c.withOperands vs).kind = c.kind := by
  cases c <;> rfl

@[simp] theorem opcode?_withOperands (vs : Array ValueId) (c : Content) :
    (c.withOperands vs).opcode? = c.opcode? := by
  cases c <;> rfl

end Content

/-- A value of a graph. The empty name stands for no name. -/
structure Node where
  name : String := ""
  type : TypeId
  content : Content
  deriving DecidableEq

end Lanewise
