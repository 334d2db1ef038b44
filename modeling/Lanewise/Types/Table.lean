/-
Interned types. A table keeps one form per type, in the order the types were made, and an index from
forms back to types, so that equal types are one type and type equality is equality of positions.
`TypeTable.tree?` unfolds a type to the tree it stands for.
-/
import Lanewise.Types.Shape
import Lanewise.Types.Tree

namespace Lanewise

/-- A type of a table, by its position in order of creation. -/
structure TypeId where
  index : Nat
  deriving DecidableEq, Repr

/-- How a type is put together from types of the same table. -/
inductive TypeForm where
  | void
  | int (bits : Nat)
  | float (precision : Precision)
  | pointer
  | vector (element : TypeId) (lanes : UInt32)
  | array (element : TypeId) (length : UInt32)
  | struct (fields : List TypeId)
  deriving DecidableEq, Repr

namespace TypeForm

def isVectorElement : TypeForm → Bool
  | .int _ | .float _ | .pointer => true
  | _ => false

/-- The shape of a struct counts its fields in 32 bits. -/
def shape : TypeForm → Shape TypeId
  | .void => .void
  | .int bits => .int bits
  | .float precision => .float precision
  | .pointer => .pointer
  | .vector element lanes => .vector element lanes
  | .array element length => .array element length
  | .struct fields => .struct (UInt32.ofNat fields.length)

/-- The type of element `i` of an aggregate. -/
def element? : TypeForm → Nat → Option TypeId
  | .vector element lanes, i => if i < lanes.toNat then some element else none
  | .array element length, i => if i < length.toNat then some element else none
  | .struct fields, i => fields[i]?
  | _, _ => none

def elementCount? : TypeForm → Option Nat
  | .vector _ lanes => some lanes.toNat
  | .array _ length => some length.toNat
  | .struct fields => some fields.length
  | _ => none

/-- The types a form is put together from. -/
def components : TypeForm → List TypeId
  | .vector element _ | .array element _ => [element]
  | .struct fields => fields
  | _ => []

end TypeForm

/-- The types made so far, and the index that finds the type of a form, newest first. -/
structure TypeTable where
  forms : Array TypeForm := #[]
  index : List (TypeForm × TypeId) := []
  deriving DecidableEq, Repr

namespace TypeTable

def size (table : TypeTable) : Nat :=
  table.forms.size

def form? (table : TypeTable) (t : TypeId) : Option TypeForm :=
  table.forms[t.index]?

/-- The type of a form: the one already there, or a new one at the end of the table. -/
def intern (table : TypeTable) (form : TypeForm) : TypeId × TypeTable :=
  match table.index.lookup form with
  | some t => (t, table)
  | none =>
    let t := ⟨table.size⟩
    (t, { forms := table.forms.push form, index := (form, t) :: table.index })

/-- The tree a type stands for. A component must be older than the type it is part of, as it is in
every table made by interning; a type with any other component stands for no tree. -/
def tree? (table : TypeTable) (t : TypeId) : Option TypeTree :=
  match table.form? t with
  | none => none
  | some .void => some .void
  | some (.int bits) => some (.int bits)
  | some (.float precision) => some (.float precision)
  | some .pointer => some .pointer
  | some (.vector element lanes) =>
    if element.index < t.index then (table.tree? element).map (.vector · lanes) else none
  | some (.array element length) =>
    if element.index < t.index then (table.tree? element).map (.array · length) else none
  | some (.struct fields) =>
    (fields.mapM fun field => if field.index < t.index then table.tree? field else none).map .struct
termination_by t.index

/-- The spelling of a type, and a placeholder with the position for one that stands for no tree. -/
def name (table : TypeTable) (t : TypeId) : String :=
  match table.tree? t with
  | some tree => tree.spelling
  | none => "<bad type #" ++ toString t.index ++ ">"

end TypeTable

end Lanewise
