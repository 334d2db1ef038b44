/-
The suffix that inlining leaves on the names of values.
-/
namespace Lanewise.Text

/-- A name without one `.i` at its end. -/
def stripInlineSuffix (name : String) : String :=
  match name.toList.reverse with
  | 'i' :: '.' :: rest => String.ofList rest.reverse
  | _ => name

/-- Exactly one suffix is taken off. -/
theorem stripInlineSuffix_append (name : String) : stripInlineSuffix (name ++ ".i") = name := by
  simp [stripInlineSuffix]

theorem stripInlineSuffix_of_not_suffix {name : String} (h : ∀ s : String, name ≠ s ++ ".i") :
    stripInlineSuffix name = name := by
  unfold stripInlineSuffix
  split
  · rename_i rest hr
    refine absurd ?_ (h (String.ofList rest.reverse))
    rw [← String.toList_inj, ← List.reverse_inj, hr]
    simp
  · rfl

end Lanewise.Text
