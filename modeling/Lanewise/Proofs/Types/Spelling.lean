/-
The spelling of a type determines the type. A spelling is read from the left: its first character tells the
form, a number ends where the digits end, and the fields of a struct end where no comma follows; so two
spellings that begin one text are of one tree, whatever follows them.
-/
import Lanewise.Types.Tree
import Mathlib.Tactic

namespace Lanewise

/-! ## Numbers -/

/-- Text that does not go on with a digit. -/
def NoDigit (r : List Char) : Prop :=
  ∀ c ∈ r.head?, c.isDigit = false

theorem noDigit_nil : NoDigit [] := by
  simp [NoDigit]

theorem noDigit_cons {c : Char} {r : List Char} (h : c.isDigit = false) : NoDigit (c :: r) := by
  simp [NoDigit, h]

theorem takeWhile_toDigits (n : Nat) {r : List Char} (hr : NoDigit r) :
    (Nat.toDigits 10 n ++ r).takeWhile Char.isDigit = Nat.toDigits 10 n := by
  have hd : ∀ c ∈ Nat.toDigits 10 n, c.isDigit = true := fun c hc =>
    Nat.isDigit_of_mem_toDigits (by decide) (by decide) hc
  rw [List.takeWhile_append_of_pos hd]
  cases r with
  | nil => simp
  | cons c r => simp [hr c rfl]

theorem toDigits_inj {m n : Nat} (h : Nat.toDigits 10 m = Nat.toDigits 10 n) : m = n := by
  calc m = Nat.ofDigitChars 10 (Nat.toDigits 10 m) 0 := Nat.ofDigitChars_ten_toDigits.symm
    _ = Nat.ofDigitChars 10 (Nat.toDigits 10 n) 0 := by rw [h]
    _ = n := Nat.ofDigitChars_ten_toDigits

/-- Numbers are told apart by their digits, whatever follows that is no digit. -/
theorem toDigits_append_inj {m n : Nat} {r r' : List Char} (hr : NoDigit r) (hr' : NoDigit r')
    (h : Nat.toDigits 10 m ++ r = Nat.toDigits 10 n ++ r') : m = n ∧ r = r' := by
  have hd : Nat.toDigits 10 m = Nat.toDigits 10 n := by
    rw [← takeWhile_toDigits m hr, h, takeWhile_toDigits n hr']
  exact ⟨toDigits_inj hd, List.append_cancel_left (hd ▸ h)⟩

theorem count_append_inj {m n : Nat} {r r' : List Char}
    (h : Nat.toDigits 10 m ++ ' ' :: 'x' :: ' ' :: r = Nat.toDigits 10 n ++ ' ' :: 'x' :: ' ' :: r') :
    m = n ∧ r = r' := by
  obtain ⟨hmn, h⟩ := toDigits_append_inj (noDigit_cons rfl) (noDigit_cons rfl) h
  exact ⟨hmn, by simpa using h⟩

namespace TypeTree

/-! ## Spellings as lists of characters -/

def moreFields : List TypeTree → List Char
  | [] => []
  | field :: fields => ',' :: ' ' :: (field.spelling.toList ++ moreFields fields)

def fieldChars : List TypeTree → List Char
  | [] => []
  | field :: fields => field.spelling.toList ++ moreFields fields

theorem toList_intercalate_spellings (fields : List TypeTree) :
    (", ".intercalate (spellings fields)).toList = fieldChars fields := by
  cases fields with
  | nil => simp [spellings, fieldChars]
  | cons field fields =>
    -- a comma stands before every field but the first, so the first field is held apart
    induction fields generalizing field with
    | nil => simp [spellings, fieldChars, moreFields]
    | cons next fields ih =>
      have hn := ih next
      rw [spellings, fieldChars] at hn
      rw [spellings, spellings, String.intercalate_cons_cons, String.toList_append, String.toList_append, hn]
      simp [fieldChars, moreFields]

@[simp] theorem toList_void : void.spelling.toList = ['v', 'o', 'i', 'd'] := by simp [spelling]

@[simp] theorem toList_int (bits : Nat) : (int bits).spelling.toList = 'i' :: Nat.toDigits 10 bits := by
  simp [spelling]

@[simp] theorem toList_float (precision : Precision) :
    (float precision).spelling.toList = precision.typeName.toList := by
  simp [spelling]

@[simp] theorem toList_pointer : pointer.spelling.toList = ['p', 't', 'r'] := by simp [spelling]

@[simp] theorem toList_vector (element : TypeTree) (lanes : UInt32) :
    (vector element lanes).spelling.toList =
      '<' :: (Nat.toDigits 10 lanes.toNat ++ ' ' :: 'x' :: ' ' :: (element.spelling.toList ++ ['>'])) := by
  simp [spelling]

@[simp] theorem toList_array (element : TypeTree) (length : UInt32) :
    (array element length).spelling.toList =
      '[' :: (Nat.toDigits 10 length.toNat ++ ' ' :: 'x' :: ' ' :: (element.spelling.toList ++ [']'])) := by
  simp [spelling]

@[simp] theorem toList_struct (fields : List TypeTree) :
    (struct fields).spelling.toList = '\x7b' :: ' ' :: (fieldChars fields ++ [' ', '\x7d']) := by
  simp [spelling, ← toList_intercalate_spellings]

/-! ## Reading a spelling from the left -/

theorem spelling_head_ne (tree : TypeTree) (r r' : List Char) : tree.spelling.toList ++ r ≠ ' ' :: r' := by
  cases tree with
  | float precision => cases precision <;> simp [Precision.typeName]
  | _ => simp

theorem noDigit_moreFields (fields : List TypeTree) (r : List Char) :
    NoDigit (moreFields fields ++ ' ' :: r) := by
  cases fields <;> exact noDigit_cons rfl

mutual

/-- Spellings that begin one text, each up to where no digit follows, are of one tree. -/
theorem spelling_append_inj : ∀ (s t : TypeTree) {r r' : List Char}, NoDigit r → NoDigit r' →
    s.spelling.toList ++ r = t.spelling.toList ++ r' → s = t ∧ r = r'
  | .void, t, r, r', _, _, h => by
    cases t with
    | void => simpa using h
    | float precision => cases precision <;> simp [Precision.typeName] at h
    | _ => simp at h
  | .int bits, t, r, r', hr, hr', h => by
    cases t with
    | int bits' =>
      obtain ⟨rfl, rfl⟩ := toDigits_append_inj hr hr' (by simpa using h)
      exact ⟨rfl, rfl⟩
    | float precision => cases precision <;> simp [Precision.typeName] at h
    | _ => simp at h
  | .float precision, t, r, r', _, _, h => by
    cases t with
    | float precision' => cases precision <;> cases precision' <;> simp_all [Precision.typeName]
    | _ => cases precision <;> simp [Precision.typeName] at h
  | .pointer, t, r, r', _, _, h => by
    cases t with
    | pointer => simpa using h
    | float precision => cases precision <;> simp [Precision.typeName] at h
    | _ => simp at h
  | .vector element lanes, t, r, r', _, _, h => by
    cases t with
    | vector element' lanes' =>
      -- no digit follows the element, for it is closed by a bracket
      obtain ⟨hl, he⟩ := count_append_inj (by simpa using h)
      obtain ⟨rfl, hr⟩ := spelling_append_inj element element' (noDigit_cons rfl) (noDigit_cons rfl) he
      exact ⟨by rw [UInt32.toNat_inj.1 hl], List.tail_eq_of_cons_eq hr⟩
    | float precision => cases precision <;> simp [Precision.typeName] at h
    | _ => simp at h
  | .array element length, t, r, r', _, _, h => by
    cases t with
    | array element' length' =>
      obtain ⟨hl, he⟩ := count_append_inj (by simpa using h)
      obtain ⟨rfl, hr⟩ := spelling_append_inj element element' (noDigit_cons rfl) (noDigit_cons rfl) he
      exact ⟨by rw [UInt32.toNat_inj.1 hl], List.tail_eq_of_cons_eq hr⟩
    | float precision => cases precision <;> simp [Precision.typeName] at h
    | _ => simp at h
  | .struct fields, t, r, r', _, _, h => by
    cases t with
    | struct fields' =>
      -- what follows the last field begins with the blank before the brace
      obtain ⟨rfl, hr⟩ := fieldChars_append_inj fields fields' (by simpa using h)
      exact ⟨rfl, List.tail_eq_of_cons_eq hr⟩
    | float precision => cases precision <;> simp [Precision.typeName] at h
    | _ => simp at h

theorem fieldChars_append_inj : ∀ (fs gs : List TypeTree) {r r' : List Char},
    fieldChars fs ++ ' ' :: r = fieldChars gs ++ ' ' :: r' → fs = gs ∧ r = r'
  | [], [], r, r', h => ⟨rfl, List.tail_eq_of_cons_eq h⟩
  | [], g :: gs, r, r', h => by
    rw [fieldChars, fieldChars, List.append_assoc] at h
    exact absurd h.symm (spelling_head_ne g _ r)
  | f :: fs, [], r, r', h => by
    rw [fieldChars, fieldChars, List.append_assoc] at h
    exact absurd h (spelling_head_ne f _ r')
  | f :: fs, g :: gs, r, r', h => by
    rw [fieldChars, fieldChars, List.append_assoc, List.append_assoc] at h
    obtain ⟨rfl, hm⟩ := spelling_append_inj f g (noDigit_moreFields fs r) (noDigit_moreFields gs r') h
    obtain ⟨rfl, hr⟩ := moreFields_append_inj fs gs hm
    exact ⟨rfl, hr⟩

theorem moreFields_append_inj : ∀ (fs gs : List TypeTree) {r r' : List Char},
    moreFields fs ++ ' ' :: r = moreFields gs ++ ' ' :: r' → fs = gs ∧ r = r'
  | [], [], r, r', h => ⟨rfl, List.tail_eq_of_cons_eq h⟩
  | [], g :: gs, r, r', h => by simp [moreFields] at h
  | f :: fs, [], r, r', h => by simp [moreFields] at h
  | f :: fs, g :: gs, r, r', h => by
    have h : f.spelling.toList ++ (moreFields fs ++ ' ' :: r) =
        g.spelling.toList ++ (moreFields gs ++ ' ' :: r') := by simpa [moreFields] using h
    obtain ⟨rfl, hm⟩ := spelling_append_inj f g (noDigit_moreFields fs r) (noDigit_moreFields gs r') h
    obtain ⟨rfl, hr⟩ := moreFields_append_inj fs gs hm
    exact ⟨rfl, hr⟩

end

theorem spelling_injective : Function.Injective spelling := by
  intro s t h
  exact (spelling_append_inj s t noDigit_nil noDigit_nil (by rw [h])).1

end TypeTree

end Lanewise
