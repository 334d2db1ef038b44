/-
Blank characters and the trimming of text by them. Blank means the `White_Space` property of
Unicode, which is wider than the six characters of `Char.isWhitespace` (`isBlank_of_isWhitespace`).
-/
namespace Lanewise.Text

/-- The `White_Space` property as inclusive ranges of code points, in ascending order. -/
def blankRanges : List (Nat × Nat) :=
  [(0x09, 0x0D), (0x20, 0x20), (0x85, 0x85), (0xA0, 0xA0), (0x1680, 0x1680), (0x2000, 0x200A),
    (0x2028, 0x2029), (0x202F, 0x202F), (0x205F, 0x205F), (0x3000, 0x3000)]

def isBlank (c : Char) : Bool :=
  blankRanges.any fun range => range.1 ≤ c.toNat && c.toNat ≤ range.2

theorem isBlank_of_isWhitespace {c : Char} (h : c.isWhitespace = true) : isBlank c = true := by
  simp only [Char.isWhitespace, Bool.or_eq_true, decide_eq_true_eq] at h
  rcases h with ((rfl | rfl) | rfl) | rfl <;> decide

/-- The no-break space is blank although core does not count it. -/
example : isBlank '\u00a0' = true ∧ Char.isWhitespace '\u00a0' = false := by decide

/-- The byte-order mark and the zero-width space are not blank. -/
example : isBlank '\ufeff' = false ∧ isBlank '\u200b' = false := by decide

/-! ## Trimming -/

/-- `trimEnd s` is `s` without the blanks at its end. -/
def trimEnd (s : String) : String :=
  String.ofList (s.toList.reverse.dropWhile isBlank).reverse

def trim (s : String) : String :=
  trimEnd (String.ofList (s.toList.dropWhile isBlank))

@[simp] theorem toList_trimEnd (s : String) :
    (trimEnd s).toList = (s.toList.reverse.dropWhile isBlank).reverse := by
  simp [trimEnd]

@[simp] theorem toList_trim (s : String) :
    (trim s).toList = ((s.toList.dropWhile isBlank).reverse.dropWhile isBlank).reverse := by
  simp [trim]

/-- What `trimEnd` takes off are blanks, and no blank is left at the end. -/
theorem toList_eq_trimEnd_append (s : String) :
    ∃ blanks, s.toList = (trimEnd s).toList ++ blanks ∧ ∀ c ∈ blanks, isBlank c = true := by
  refine ⟨(s.toList.reverse.takeWhile isBlank).reverse, ?_, fun c hc => ?_⟩
  · rw [toList_trimEnd, ← List.reverse_append, List.takeWhile_append_dropWhile, List.reverse_reverse]
  · exact (List.all_eq_true.mp (List.all_takeWhile (p := isBlank) (l := s.toList.reverse))) c
      (List.mem_reverse.mp hc)

end Lanewise.Text
