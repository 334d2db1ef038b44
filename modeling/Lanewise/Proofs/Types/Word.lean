/-
How the spelling of a type stands in a line: it is on one line, it ends with no blank, and its first word is none
that the name of an operation could be.
-/
import Lanewise.Proofs.Text.Parts
import Lanewise.Proofs.Types.Spelling

namespace Lanewise

open Text

theorem isDigit_of_mem_decimal {n : Nat} {c : Char} (h : c ∈ Nat.toDigits 10 n) : c.isDigit = true :=
  Nat.isDigit_of_mem_toDigits (by decide) (by decide) h

theorem solid_toDigits (n : Nat) : Solid (Nat.toDigits 10 n) := fun _ hc =>
  isBlank_eq_false_of_isDigit (isDigit_of_mem_decimal hc)

namespace TypeTree

/-! ## First words -/

/-- The spelling of a type up to its first blank. -/
def firstWord : TypeTree → List Char
  | .void => ['v', 'o', 'i', 'd']
  | .int bits => 'i' :: Nat.toDigits 10 bits
  | .float precision => precision.typeName.toList
  | .pointer => ['p', 't', 'r']
  | .vector _ lanes => '<' :: Nat.toDigits 10 lanes.toNat
  | .array _ length => '[' :: Nat.toDigits 10 length.toNat
  | .struct _ => ['\x7b']

theorem exists_firstWord (t : TypeTree) : ∃ rest, t.spelling.toList = t.firstWord ++ setOff rest := by
  cases t with
  | vector element lanes => exact ⟨'x' :: ' ' :: (element.spelling.toList ++ ['>']), by simp [firstWord, setOff]⟩
  | array element length => exact ⟨'x' :: ' ' :: (element.spelling.toList ++ [']']), by simp [firstWord, setOff]⟩
  | struct fields =>
    cases hf : fieldChars fields with
    | nil => exact ⟨[' ', '\x7d'], by simp [firstWord, setOff, hf]⟩
    | cons c cs => exact ⟨c :: cs ++ [' ', '\x7d'], by simp [firstWord, setOff, hf]⟩
  | _ => exact ⟨[], by simp [firstWord, setOff]⟩

theorem firstWord_solid (t : TypeTree) : Solid t.firstWord := by
  cases t with
  | void | pointer => decide
  | struct fields => exact (by decide : Solid ['\x7b'])
  | int bits => exact solid_cons.2 ⟨by decide, solid_toDigits bits⟩
  | float precision => cases precision <;> decide
  | vector _ lanes => exact solid_cons.2 ⟨by decide, solid_toDigits _⟩
  | array _ length => exact solid_cons.2 ⟨by decide, solid_toDigits _⟩

/-- The word can begin the spelling of a type. -/
def opensType : List Char → Bool
  | 'i' :: c :: _ => c.isDigit
  | '<' :: _ | '[' :: _ | '\x7b' :: _ => true
  | word => ["void", "half", "float", "double", "ptr"].any fun name => name.toList == word

theorem opensType_firstWord (t : TypeTree) : opensType t.firstWord = true := by
  cases t with
  | int bits =>
    obtain ⟨c, cs, hc⟩ := List.exists_cons_of_ne_nil (Nat.toDigits_ne_nil (b := 10) (n := bits))
    rw [firstWord, hc]
    exact isDigit_of_mem_decimal (hc ▸ List.mem_cons_self ..)
  | float precision => cases precision <;> decide
  | void | pointer => decide
  | _ => rfl

theorem spelling_append_ne {word rest rest' : List Char} (hs : Solid word) (ho : opensType word = false)
    (t : TypeTree) : t.spelling.toList ++ setOff rest ≠ word ++ ' ' :: rest' := by
  intro h
  have hne : t.firstWord ≠ word := by
    intro he
    rw [← he, opensType_firstWord] at ho
    cases ho
  have hw : ' ' ∉ word := hs.notMem (by decide)
  have hf : ' ' ∉ t.firstWord := t.firstWord_solid.notMem (by decide)
  obtain ⟨more, hm⟩ := t.exists_firstWord
  rw [hm, List.append_assoc] at h
  cases more with
  | nil => exact hne (word_append_inj hf hw h).1
  | cons c cs => exact hne (cut_inj hf hw h).1

/-! ## Ends -/

theorem spelling_endsSolid (t : TypeTree) : EndsSolid t.spelling.toList := by
  cases t with
  | void => rw [toList_void]; exact ⟨['v', 'o', 'i'], 'd', rfl, by decide⟩
  | pointer => rw [toList_pointer]; exact ⟨['p', 't'], 'r', rfl, by decide⟩
  | int bits =>
    rw [toList_int]
    exact ((solid_toDigits bits).endsSolid Nat.toDigits_ne_nil).append_left ['i']
  | float precision =>
    rw [toList_float]
    exact (firstWord_solid (.float precision)).endsSolid (by cases precision <;> decide)
  | vector element lanes =>
    exact ⟨'<' :: (Nat.toDigits 10 lanes.toNat ++ ' ' :: 'x' :: ' ' :: element.spelling.toList), '>', by simp,
      by decide⟩
  | array element length =>
    exact ⟨'[' :: (Nat.toDigits 10 length.toNat ++ ' ' :: 'x' :: ' ' :: element.spelling.toList), ']', by simp,
      by decide⟩
  | struct fields => exact ⟨'\x7b' :: ' ' :: (fieldChars fields ++ [' ']), '\x7d', by simp, by decide⟩

mutual

theorem newline_notMem_spelling : ∀ t : TypeTree, '\n' ∉ t.spelling.toList
  | .void => by simp
  | .int bits => by
    have h : '\n' ∉ Nat.toDigits 10 bits := (solid_toDigits bits).notMem (by decide)
    simp [h]
  | .float precision => by cases precision <;> simp [Precision.typeName]
  | .pointer => by simp
  | .vector element lanes => by
    have h : '\n' ∉ Nat.toDigits 10 lanes.toNat := (solid_toDigits _).notMem (by decide)
    simp [h, newline_notMem_spelling element]
  | .array element length => by
    have h : '\n' ∉ Nat.toDigits 10 length.toNat := (solid_toDigits _).notMem (by decide)
    simp [h, newline_notMem_spelling element]
  | .struct fields => by
    have h : '\n' ∉ commaList ((spellings fields).map String.toList) :=
      newline_notMem_commaList (newline_notMem_spellings fields)
    rw [spelling, String.toList_append, String.toList_append, toList_intercalate_comma]
    simp [h]

theorem newline_notMem_spellings : ∀ fields : List TypeTree, ∀ s ∈ (spellings fields).map String.toList, '\n' ∉ s
  | [] => fun _ h => nomatch h
  | field :: fields => List.forall_mem_cons.2 ⟨newline_notMem_spelling field, newline_notMem_spellings fields⟩

end

end TypeTree

end Lanewise
