/-
The textual dump of a graph, one line per value, such as `%sum = fadd <4 x float> %color, %2`.
-/
import Lanewise.Graph.Basic
import Lanewise.Graph.Malformed
import Lanewise.Text.Blank

namespace Lanewise

/-- The label of a node at `v`: its name, or its position if it has none. -/
def Node.label (node : Node) (v : ValueId) : String :=
  "%" ++ if node.name = "" then toString v.index else node.name

/-- The right-hand side of a line, given the spelling of the type and the operand labels. A kind with a payload of
another kind has none. -/
def Payload.describe? (type operands : String) : Kind → Payload → Option String
  | .constantInt, .int value => some ("constant " ++ type ++ " " ++ toString value.toInt)
  | .constantFloat, .float literal => some ("constant " ++ type ++ " " ++ literal.toDouble.display)
  | .constantAggregate, _ => some ("constant " ++ type ++ " " ++ operands)
  | .constantExpr, .op opcode => some ("constexpr " ++ opcode.name ++ " " ++ type ++ " " ++ operands)
  | .undef, _ => some ("undef " ++ type)
  | .argument, _ => some ("argument " ++ type)
  | .instruction, .intrinsic callee => some ("call " ++ callee.name ++ " " ++ type ++ " " ++ operands)
  | .instruction, .op opcode => some (opcode.name ++ " " ++ type ++ " " ++ operands)
  | _, _ => .none

namespace Graph

def label (g : Graph) (v : ValueId) : Except Fault String := do
  return (← g.node v).label v

/-- The line of a value. Blanks at its end are dropped, those of an operand's name too. -/
def line (g : Graph) (v : ValueId) : Except Fault String := do
  let node ← g.node v
  let operands ← node.content.operands.toList.mapM g.label
  let kind := node.content.kind
  let payload := node.content.payload
  let body := (payload.describe? (g.typeName node.type) (", ".intercalate operands) kind).getD (payload.malformed kind)
  return node.label v ++ " = " ++ Text.trimEnd body ++ "\n"

def dump (g : Graph) : Except Fault String := do
  return String.join (← g.values.mapM g.line)

end Graph

end Lanewise
