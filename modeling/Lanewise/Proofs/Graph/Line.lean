/-
What a line says on its right-hand side, and how it is read again: the words end where the type begins, the type
ends where its spelling does, and the rest is what follows; so a right-hand side is written in one way only
(`Stem.chars_append_inj`).
-/
import Lanewise.Graph.Dump
import Lanewise.Proofs.Number.Display
import Lanewise.Proofs.Operation.Name

namespace Lanewise

open Text

/-! ## Stems -/

/-- What the words before the type tell. -/
inductive Stem where
  | constant
  | expr (opcode : Opcode)
  | undef
  | argument
  | op (opcode : Opcode)
  | call (callee : Intrinsic)
  deriving DecidableEq

namespace Stem

def keyword : Stem → String
  | .constant => "constant"
  | .expr _ => "constexpr"
  | .undef => "undef"
  | .argument => "argument"
  | .op opcode => opcode.name
  | .call _ => "call"

/-- The second word with the blank after it, if there is one. -/
def second : Stem → List Char
  | .expr opcode => opcode.name.toList ++ [' ']
  | .call callee => callee.name.toList ++ [' ']
  | _ => []

/-- The words, each with the blank after it. -/
def chars (stem : Stem) : List Char :=
  stem.keyword.toList ++ ' ' :: stem.second

theorem keyword_solid (stem : Stem) : Solid stem.keyword.toList := by
  cases stem with
  | op opcode => exact opcode.name_solid
  | _ => exact solid_of_eq_ofList rfl (by decide)

theorem newline_notMem_chars (stem : Stem) : '\n' ∉ stem.chars := by
  have hk : '\n' ∉ stem.keyword.toList := stem.keyword_solid.notMem (by decide)
  have hs : '\n' ∉ stem.second := by
    cases stem with
    | expr opcode =>
      have hn : '\n' ∉ opcode.name.toList := opcode.name_solid.notMem (by decide)
      simp [second, hn]
    | call callee =>
      have hn : '\n' ∉ callee.name.toList := callee.name_solid.notMem (by decide)
      simp [second, hn]
    | _ => exact List.not_mem_nil
  simp [chars, hk, hs]

/-- The name of an opcode is the first word of its own stem, and `call` also begins the calls of intrinsics. -/
theorem eq_of_name_eq_keyword {stem : Stem} {opcode : Opcode} (h : opcode.name = stem.keyword) :
    stem = .op opcode ∨ opcode = .call ∧ ∃ callee, stem = .call callee := by
  cases stem with
  | op opcode' => exact .inl (congrArg op (Opcode.name_injective h).symm)
  | call callee => exact .inr ⟨Opcode.name_injective h, callee, rfl⟩
  | _ =>
    refine absurd ?_ opcode.name_notMem_reserved
    rw [h]
    simp [keyword, Opcode.reserved]

theorem cases_of_keyword_eq {a b : Stem} (h : a.keyword = b.keyword) :
    a = b ∨ (∃ o o', a = .expr o ∧ b = .expr o') ∨ (∃ i j, a = .call i ∧ b = .call j) ∨
      (a = .op .call ∧ ∃ i, b = .call i) ∨ b = .op .call ∧ ∃ i, a = .call i := by
  by_cases ha : ∃ o, a = .op o
  · obtain ⟨o, rfl⟩ := ha
    rcases eq_of_name_eq_keyword h with rfl | ⟨rfl, hb⟩
    · exact .inl rfl
    · exact .inr (.inr (.inr (.inl ⟨rfl, hb⟩)))
  by_cases hb : ∃ o, b = .op o
  · obtain ⟨o, rfl⟩ := hb
    rcases eq_of_name_eq_keyword h.symm with rfl | ⟨rfl, ha⟩
    · exact .inl rfl
    · exact .inr (.inr (.inr (.inr ⟨rfl, ha⟩)))
  -- neither begins with the name of an opcode, so the words are those of the stems
  cases a with
  | op o => exact absurd ⟨o, rfl⟩ ha
  | expr o =>
    cases b with
    | expr o' => exact .inr (.inl ⟨o, o', rfl, rfl⟩)
    | op o' => exact absurd ⟨o', rfl⟩ hb
    | _ => simp [keyword] at h
  | call i =>
    cases b with
    | call j => exact .inr (.inr (.inl ⟨i, j, rfl, rfl⟩))
    | op o' => exact absurd ⟨o', rfl⟩ hb
    | _ => simp [keyword] at h
  | constant | undef | argument =>
    cases b with
    | op o' => exact absurd ⟨o', rfl⟩ hb
    | _ => simp_all [keyword]

theorem noDigit_setOff (cs : List Char) : NoDigit (setOff cs) := by
  cases cs with
  | nil => exact noDigit_nil
  | cons c cs => exact noDigit_cons rfl

theorem spelling_setOff_inj {s t : TypeTree} {rs rs' : List Char}
    (h : s.spelling.toList ++ setOff rs = t.spelling.toList ++ setOff rs') : s = t ∧ rs = rs' := by
  obtain ⟨hst, hr⟩ := TypeTree.spelling_append_inj s t (noDigit_setOff rs) (noDigit_setOff rs') h
  exact ⟨hst, setOff_inj hr⟩

/-- The words before a type are told from the type, and the type from what follows it. -/
theorem chars_append_inj {a b : Stem} {s t : TypeTree} {rs rs' : List Char}
    (h : a.chars ++ (s.spelling.toList ++ setOff rs) = b.chars ++ (t.spelling.toList ++ setOff rs')) :
    a = b ∧ s = t ∧ rs = rs' := by
  have hblank : ∀ stem : Stem, ' ' ∉ stem.keyword.toList := fun stem => stem.keyword_solid.notMem (by decide)
  simp only [chars, List.append_assoc, List.cons_append] at h
  obtain ⟨hk, h⟩ := cut_inj (hblank a) (hblank b) h
  rcases cases_of_keyword_eq (String.toList_inj.1 hk) with
    rfl | ⟨o, o', rfl, rfl⟩ | ⟨i, j, rfl, rfl⟩ | ⟨rfl, i, rfl⟩ | ⟨rfl, i, rfl⟩
  · exact ⟨rfl, spelling_setOff_inj (List.append_cancel_left h)⟩
  · have hn : ∀ o : Opcode, ' ' ∉ o.name.toList := fun o => o.name_solid.notMem (by decide)
    simp only [second, List.append_assoc, List.singleton_append] at h
    obtain ⟨ho, h⟩ := cut_inj (hn o) (hn o') h
    exact ⟨by rw [Opcode.name_injective (String.toList_inj.1 ho)], spelling_setOff_inj h⟩
  · have hn : ∀ i : Intrinsic, ' ' ∉ i.name.toList := fun i => i.name_solid.notMem (by decide)
    simp only [second, List.append_assoc, List.singleton_append] at h
    obtain ⟨hi, h⟩ := cut_inj (hn i) (hn j) h
    exact ⟨by rw [Intrinsic.name_injective (String.toList_inj.1 hi)], spelling_setOff_inj h⟩
  -- a call without an intrinsic goes on with its type
  · simp only [second, List.append_assoc, List.singleton_append, List.nil_append] at h
    exact absurd h (TypeTree.spelling_append_ne i.name_solid i.opensType_name s)
  · simp only [second, List.append_assoc, List.singleton_append, List.nil_append] at h
    exact absurd h.symm (TypeTree.spelling_append_ne i.name_solid i.opensType_name t)

end Stem

/-! ## Right-hand sides -/

namespace Content

def stem : Content → Stem
  | .int _ | .float _ | .aggregate _ => .constant
  | .expr opcode _ => .expr opcode
  | .undef => .undef
  | .argument => .argument
  | .op opcode _ => .op opcode
  | .call callee _ => .call callee

/-- What is said after the type, given the list of operand labels. -/
def rest (operands : String) : Content → List Char
  | .int value => (toString value.toInt).toList
  | .float literal => literal.toDouble.display.toList
  | .aggregate _ | .expr .. | .op .. | .call .. => operands.toList
  | .undef | .argument => []

def bodyChars (type operands : String) (c : Content) : List Char :=
  c.stem.chars ++ (type.toList ++ setOff (c.rest operands))

theorem toList_describe? {type operands body : String} {c : Content}
    (h : c.payload.describe? type operands c.kind = some body) : ∃ blanks,
    body.toList = c.bodyChars type operands ++ blanks ∧ ∀ b ∈ blanks, isBlank b = true := by
  obtain ⟨blanks, hb, hbl⟩ := cons_blank_eq_setOff (c.rest operands)
  cases c with
  | undef | argument =>
    cases h
    refine ⟨[], ?_, List.forall_mem_nil _⟩
    rw [bodyChars, rest, setOff, List.append_nil, List.append_nil]
    simp [stem, Stem.chars, Stem.keyword, Stem.second]
  | _ =>
    cases h
    refine ⟨blanks, ?_, hbl⟩
    rw [bodyChars, List.append_assoc, List.append_assoc, ← hb]
    simp [stem, Stem.chars, Stem.keyword, Stem.second, rest]

/-! ### Ends of right-hand sides -/

variable {c : Content} {operands : String}

theorem rest_ends {labels : List String} (hl : ∀ l ∈ labels, IsItem l.toList) (c : Content) :
    (c.rest (", ".intercalate labels) = [] ∨ EndsSolid (c.rest (", ".intercalate labels))) ∧
      '\n' ∉ c.rest (", ".intercalate labels) := by
  have hitems : ∀ x ∈ labels.map String.toList, IsItem x := List.forall_mem_map.2 hl
  have hword : ∀ {cs : List Char}, Solid cs → (cs = [] ∨ EndsSolid cs) ∧ '\n' ∉ cs := fun {cs} h =>
    ⟨(eq_or_ne cs []).imp_right h.endsSolid, h.notMem (by decide)⟩
  cases c with
  | int value => exact hword (solid_toString_int _)
  | float literal => exact hword (Binary.solid_display _)
  | undef | argument => exact ⟨.inl rfl, List.not_mem_nil⟩
  | aggregate | expr | op | call =>
    rw [rest, toList_intercalate_comma]
    refine ⟨?_, newline_notMem_commaList fun x hx => (hitems x hx).solid.notMem (by decide)⟩
    rcases eq_or_ne (labels.map String.toList) [] with he | hne
    · exact .inl (by rw [he]; rfl)
    · exact .inr (commaList_endsSolid hitems hne)

theorem bodyChars_endsSolid (t : TypeTree) (h : c.rest operands = [] ∨ EndsSolid (c.rest operands)) :
    EndsSolid (c.bodyChars t.spelling operands) := by
  refine EndsSolid.append_left ?_ _
  cases hr : c.rest operands with
  | nil =>
    rw [setOff, List.append_nil]
    exact t.spelling_endsSolid
  | cons r rs =>
    have he : EndsSolid (r :: rs) := (hr ▸ h).resolve_left (List.cons_ne_nil r rs)
    exact (he.append_left [' ']).append_left _

theorem newline_notMem_bodyChars (t : TypeTree) (h : '\n' ∉ c.rest operands) :
    '\n' ∉ c.bodyChars t.spelling operands := by
  have hs : '\n' ∉ setOff (c.rest operands) := notMem_setOff (by decide) h
  simp [bodyChars, c.stem.newline_notMem_chars, t.newline_notMem_spelling, hs]

end Content

end Lanewise
