/-
The four ways in which building changes a graph: a form is interned, a node is appended, a value is
named, and a value is given other operands; and what each leaves to be read at every position.
-/
import Lanewise.Graph.Basic

namespace Lanewise.Graph

/-- The graph that has a type of the form. -/
def withForm (g : Graph) (form : TypeForm) : Graph :=
  { g with types := (g.types.intern form).2 }

def withNode (g : Graph) (node : Node) : Graph :=
  { g with nodes := g.nodes.push node }

def withName (g : Graph) (v : ValueId) (name : String) : Graph :=
  { g with
    nodes := g.nodes.modify v.index fun node => { node with name }
    names := (name, v) :: g.names }

/-- The graph in which `v` has other operands. -/
def withIncoming (g : Graph) (v : ValueId) (incoming : List ValueId) : Graph :=
  { g with nodes := g.nodes.modify v.index fun node =>
      { node with content := node.content.withOperands incoming.toArray } }

variable {g : Graph} {v w : ValueId}

/-! ## Types and size -/

@[simp] theorem types_withNode (node : Node) : (g.withNode node).types = g.types := rfl

@[simp] theorem types_withName (name : String) : (g.withName v name).types = g.types := rfl

@[simp] theorem types_withIncoming (incoming : List ValueId) :
    (g.withIncoming v incoming).types = g.types := rfl

@[simp] theorem size_withForm (form : TypeForm) : (g.withForm form).size = g.size := rfl

@[simp] theorem size_withNode (node : Node) : (g.withNode node).size = g.size + 1 :=
  Array.size_push node

@[simp] theorem size_withName (name : String) : (g.withName v name).size = g.size :=
  Array.size_modify

@[simp] theorem size_withIncoming (incoming : List ValueId) : (g.withIncoming v incoming).size = g.size :=
  Array.size_modify

/-! ## Nodes -/

theorem node?_eq_some_lt {node : Node} (h : g.node? v = some node) : v.index < g.size :=
  (Array.getElem?_eq_some_iff.1 h).1

theorem exists_node? (h : v.index < g.size) : ∃ node, g.node? v = some node :=
  ⟨g.nodes[v.index], Array.getElem?_eq_getElem h⟩

@[simp] theorem node?_withForm (form : TypeForm) : (g.withForm form).node? v = g.node? v := rfl

theorem node?_withNode (node : Node) :
    (g.withNode node).node? v = if v.index = g.size then some node else g.node? v :=
  Array.getElem?_push

@[simp] theorem node?_withNode_self (node : Node) : (g.withNode node).node? ⟨g.size⟩ = some node := by
  rw [node?_withNode, if_pos rfl]

theorem node?_withNode_of_some {node n : Node} (h : g.node? v = some n) :
    (g.withNode node).node? v = some n := by
  rw [node?_withNode, if_neg (Nat.ne_of_lt (node?_eq_some_lt h)), h]

theorem node?_withName (name : String) : (g.withName v name).node? w =
    if v = w then (g.node? w).map fun node => { node with name } else g.node? w := by
  obtain ⟨i⟩ := v
  obtain ⟨j⟩ := w
  simp only [ValueId.mk.injEq]
  exact Array.getElem?_modify

theorem node?_withIncoming (incoming : List ValueId) : (g.withIncoming v incoming).node? w =
    if v = w then (g.node? w).map fun node =>
      { node with content := node.content.withOperands incoming.toArray } else g.node? w := by
  obtain ⟨i⟩ := v
  obtain ⟨j⟩ := w
  simp only [ValueId.mk.injEq]
  exact Array.getElem?_modify

end Lanewise.Graph
