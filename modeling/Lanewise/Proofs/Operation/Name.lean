/-
The names of operations as words of a line: an opcode and an intrinsic are told by their names, a name has no
blank, the name of an opcode is none of the words that begin the line of a constant or an argument, and the name
of an intrinsic does not begin the spelling of a type.
-/
import Lanewise.Operation.Intrinsic
import Lanewise.Operation.Opcode
import Lanewise.Proofs.Types.Word

namespace Lanewise

open Text

namespace Opcode

theorem name_injective : Function.Injective name := by
  intro a b h
  have ha := ofName_name a
  rw [h, ofName_name] at ha
  exact (Except.ok.inj ha).symm

theorem name_solid (op : Opcode) : Solid op.name.toList := by
  cases op <;> exact solid_of_eq_ofList rfl (by decide)

/-- The words that begin the line of a constant or an argument. -/
def reserved : List String :=
  ["constant", "constexpr", "undef", "argument"]

theorem name_notMem_reserved (op : Opcode) : op.name ∉ reserved := by
  have h : ∀ op ∈ catalog, op.name ∉ reserved := by decide +kernel
  exact h op (mem_catalog op)

end Opcode

namespace Intrinsic

theorem mem_catalog (i : Intrinsic) : i ∈ catalog := by
  cases i <;> decide +kernel

theorem ofName_name (i : Intrinsic) : ofName i.name = .ok i := by
  have h : ∀ j ∈ catalog, catalog.find? (·.name == j.name) = some j := by decide +kernel
  rw [ofName, h i (mem_catalog i)]

theorem name_injective : Function.Injective name := by
  intro a b h
  have ha := ofName_name a
  rw [h, ofName_name] at ha
  exact (Except.ok.inj ha).symm

theorem name_solid (i : Intrinsic) : Solid i.name.toList := by
  cases i <;> exact solid_of_eq_ofList rfl (by decide)

theorem opensType_name (i : Intrinsic) : TypeTree.opensType i.name.toList = false := by
  have h : ∀ {s : String} {cs : List Char}, s = String.ofList cs → TypeTree.opensType cs = false →
      TypeTree.opensType s.toList = false := fun hs ho => by rwa [hs, String.toList_ofList]
  cases i <;> exact h rfl rfl

end Intrinsic

end Lanewise
