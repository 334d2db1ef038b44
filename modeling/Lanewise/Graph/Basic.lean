/-
The graph of values: its types, its nodes in order of creation, and the names given so far.
-/
import Lanewise.Fault
import Lanewise.Graph.Value

namespace Lanewise

/-- A data-flow graph; `names` keeps every name ever given with its value, newest first. -/
structure Graph where
  types : TypeTable := {}
  nodes : Array Node := #[]
  names : List (String × ValueId) := []
  deriving DecidableEq

namespace Graph

def empty : Graph := {}

def size (g : Graph) : Nat :=
  g.nodes.size

def values (g : Graph) : List ValueId :=
  (List.range g.size).map ValueId.mk

def node? (g : Graph) (v : ValueId) : Option Node :=
  g.nodes[v.index]?

/-- The value a name was last given to. -/
def lookup (g : Graph) (name : String) : Option ValueId :=
  g.names.lookup name

def typeName (g : Graph) (t : TypeId) : String :=
  g.types.name t

def summary (g : Graph) : String :=
  "Graph \x7b types: " ++ toString g.types.size ++ ", nodes: " ++ toString g.size ++ " \x7d"

/-! ## Reading by position -/

/-- The node of a value, which the caller promises the graph has. -/
def node (g : Graph) (v : ValueId) : Except Fault Node :=
  match g.node? v with
  | some node => .ok node
  | none => .error .danglingValue

def form (g : Graph) (t : TypeId) : Except Fault TypeForm :=
  match g.types.form? t with
  | some form => .ok form
  | none => .error .danglingType

theorem node_eq_ok_iff {g : Graph} {v : ValueId} {n : Node} : g.node v = .ok n ↔ g.node? v = some n := by
  unfold node; split <;> simp_all

theorem form_eq_ok_iff {g : Graph} {t : TypeId} {f : TypeForm} :
    g.form t = .ok f ↔ g.types.form? t = some f := by
  unfold form; split <;> simp_all

theorem mem_values_iff {g : Graph} {v : ValueId} : v ∈ g.values ↔ v.index < g.size := by
  constructor
  · intro h
    obtain ⟨i, hi, rfl⟩ := List.mem_map.mp h
    exact List.mem_range.mp hi
  · exact fun h => List.mem_map.mpr ⟨v.index, List.mem_range.mpr h, rfl⟩

end Graph

end Lanewise
