/-
The name of a type identifies it, in the table or not: in a table made by interning two positions have one
name only if they are one position.
-/
import Lanewise.Proofs.Types.Interning
import Lanewise.Proofs.Types.Spelling

namespace Lanewise.TypeTable

variable {table : TypeTable} {t a b : TypeId}

theorem name_of_tree? {tree : TypeTree} (h : table.tree? t = some tree) : table.name t = tree.spelling := by
  rw [name, h]

theorem toList_name_of_none (h : table.tree? t = none) : (table.name t).toList =
    '<' :: 'b' :: 'a' :: 'd' :: ' ' :: 't' :: 'y' :: 'p' :: 'e' :: ' ' :: '#' ::
      (Nat.toDigits 10 t.index ++ ['>']) := by
  rw [name, h]
  simp

/-- A placeholder goes on with a letter where a vector goes on with its number of lanes. -/
theorem name_ne_spelling (h : table.tree? t = none) (tree : TypeTree) : table.name t ≠ tree.spelling := by
  intro he
  have hc := toList_name_of_none h
  rw [he] at hc
  cases tree with
  | vector element lanes =>
    -- the number of lanes has a digit at least
    have hd := congrArg (List.takeWhile Char.isDigit)
      (List.tail_eq_of_cons_eq ((TypeTree.toList_vector element lanes).symm.trans hc))
    rw [takeWhile_toDigits _ (noDigit_cons rfl)] at hd
    exact Nat.toDigits_ne_nil (hd.trans rfl)
  | float precision => cases precision <;> simp [Precision.typeName] at hc
  | _ => simp at hc

theorem name_inj (hw : table.WF) : table.name a = table.name b ↔ a = b := by
  refine ⟨fun h => ?_, fun h => h ▸ rfl⟩
  cases ha : table.tree? a with
  | some s =>
    cases hb : table.tree? b with
    | some t =>
      rw [name_of_tree? ha, name_of_tree? hb] at h
      obtain rfl := TypeTree.spelling_injective h
      exact tree?_inj hw ha hb
    | none => exact absurd (h.symm.trans (name_of_tree? ha)) (name_ne_spelling hb s)
  | none =>
    cases hb : table.tree? b with
    | some t => exact absurd (h.trans (name_of_tree? hb)) (name_ne_spelling ha t)
    | none =>
      have hc := congrArg String.toList h
      rw [toList_name_of_none ha, toList_name_of_none hb] at hc
      obtain ⟨i⟩ := a
      obtain ⟨j⟩ := b
      exact congrArg TypeId.mk (toDigits_inj (by simpa using hc))

end Lanewise.TypeTable
