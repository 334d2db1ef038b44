/-
The view of a graph. It has reads of its own for operand lists and names.
-/
import Lanewise.Graph.Basic
import Lanewise.View.Basic

namespace Lanewise

namespace Graph

theorem mem_values_of_node {g : Graph} {v : ValueId} {n : Node} (h : g.node v = .ok n) : v ∈ g.values := by
  rw [node_eq_ok_iff, node?, Array.getElem?_eq_some_iff] at h
  exact mem_values_iff.mpr h.1

def view (g : Graph) : View ValueId TypeId where
  values := g.values
  kind v := do return (← g.node v).content.kind
  type v := do return (← g.node v).type
  shape t := do return (← g.form t).shape
  operandCount v := do return (← g.node v).content.operands.size
  operand v i := do return (← g.node v).content.operands[i]?
  intLiteral v := do return (← g.node v).content.intLiteral?
  floatLiteral v := do return (← g.node v).content.floatLiteral?
  opcode v := do return (← g.node v).content.opcode?
  intrinsic v := do return (← g.node v).content.intrinsic?
  operands v := do return .ofList (← g.node v).content.operands.toList
  name v := do return (← g.node v).name
  mem_values v k h := by
    cases hn : g.node v with
    | error e => simp [hn, bind, Except.bind] at h
    | ok n => exact mem_values_of_node hn

end Graph

end Lanewise
