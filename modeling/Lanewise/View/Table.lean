/-
An IR given as a table of rows that nothing checks: every read gives what the row says, whatever the
kind of its value.
-/
import Lanewise.View.Basic

namespace Lanewise

namespace Table

/-- What a table says of one value. -/
structure Row where
  kind : Kind
  type : TypeId
  operands : Array ValueId := #[]
  /-- The operand count to give, if it is not the number of operands. -/
  count : Option Nat := none
  int : Option Int64 := none
  float : Option FloatLiteral := none
  opcode : Option Opcode := none
  intrinsic : Option Intrinsic := none

end Table

/-- Types and values by position. -/
structure Table where
  shapes : Array (Shape TypeId)
  rows : Array Table.Row

namespace Table

def row (table : Table) (v : ValueId) : Except Fault Row :=
  match table.rows[v.index]? with
  | some row => .ok row
  | none => .error .danglingValue

def shape (table : Table) (t : TypeId) : Except Fault (Shape TypeId) :=
  match table.shapes[t.index]? with
  | some shape => .ok shape
  | none => .error .danglingType

def values (table : Table) : List ValueId :=
  (List.range table.rows.size).map ValueId.mk

theorem mem_values_of_row {table : Table} {v : ValueId} {r : Row} (h : table.row v = .ok r) :
    v ∈ table.values := by
  unfold row at h
  split at h
  · rename_i hr
    obtain ⟨hlt, -⟩ := Array.getElem?_eq_some_iff.mp hr
    exact List.mem_map.mpr ⟨v.index, List.mem_range.mpr hlt, rfl⟩
  · cases h

/-- The table as an IR to be read. It has no names, and no reads of its own. -/
def view (table : Table) : View ValueId TypeId where
  values := table.values
  kind v := do return (← table.row v).kind
  type v := do return (← table.row v).type
  shape := table.shape
  operandCount v := do
    let row ← table.row v
    return row.count.getD row.operands.size
  operand v i := do return (← table.row v).operands[i]?
  intLiteral v := do return (← table.row v).int
  floatLiteral v := do return (← table.row v).float
  opcode v := do return (← table.row v).opcode
  intrinsic v := do return (← table.row v).intrinsic
  mem_values v k h := by
    cases hr : table.row v with
    | error e => simp [hr, bind, Except.bind] at h
    | ok r => exact mem_values_of_row hr

end Table

end Lanewise
