/-
Text put together from parts, and what tells the parts apart again. A word has no blank, so a text that begins
with a word and a blank has no other word there; items without commas are told apart by the commas between them,
and lines by their ends.
-/
import Lanewise.Text.Blank
import Mathlib.Data.List.Basic

namespace Lanewise.Text

variable {cs ds rs rs' : List Char}

/-! ## Words -/

/-- There is no blank in the text. -/
def Solid (cs : List Char) : Prop :=
  ∀ c ∈ cs, isBlank c = false

-- the members are gone through one by one, not all characters there are
instance : Decidable (Solid cs) :=
  List.decidableBAll (fun c => isBlank c = false) cs

theorem solid_cons {c : Char} : Solid (c :: cs) ↔ isBlank c = false ∧ Solid cs :=
  List.forall_mem_cons

theorem solid_append : Solid (cs ++ ds) ↔ Solid cs ∧ Solid ds :=
  List.forall_mem_append

theorem Solid.notMem {c : Char} (h : Solid cs) (hc : isBlank c = true) : c ∉ cs :=
  fun hm => absurd hc (by rw [h c hm]; decide)

theorem solid_of_eq_ofList {s : String} (h : s = String.ofList cs) (hs : Solid cs) : Solid s.toList := by
  rw [h, String.toList_ofList]
  exact hs

theorem isBlank_eq_false_of_isDigit {c : Char} (h : c.isDigit = true) : isBlank c = false := by
  have hc : 48 ≤ c.toNat ∧ c.toNat ≤ 57 := Char.isDigit_iff_toNat.1 h
  simp [isBlank, blankRanges]
  omega

/-- Texts that are cut at the first place of one mark have the same parts. -/
theorem cut_inj {mark : Char} (hc : mark ∉ cs) (hd : mark ∉ ds) (h : cs ++ mark :: rs = ds ++ mark :: rs') :
    cs = ds ∧ rs = rs' := by
  induction cs generalizing ds with
  | nil =>
    cases ds with
    | nil => exact ⟨rfl, List.tail_eq_of_cons_eq h⟩
    | cons d ds => exact absurd (List.head_eq_of_cons_eq h ▸ List.mem_cons_self ..) hd
  | cons c cs ih =>
    cases ds with
    | nil => exact absurd (List.head_eq_of_cons_eq h ▸ List.mem_cons_self ..) hc
    | cons d ds =>
      obtain ⟨he, hr⟩ := ih (fun hm => hc (List.mem_cons_of_mem _ hm)) (fun hm => hd (List.mem_cons_of_mem _ hm))
        (List.tail_eq_of_cons_eq h)
      exact ⟨by rw [List.head_eq_of_cons_eq h, he], hr⟩

/-- The text set off by a blank from what stands before it, if there is any. -/
def setOff : List Char → List Char
  | [] => []
  | c :: cs => ' ' :: c :: cs

theorem setOff_inj (h : setOff cs = setOff ds) : cs = ds := by
  cases cs <;> cases ds <;> simp_all [setOff]

theorem notMem_setOff {c : Char} (hc : c ≠ ' ') (h : c ∉ cs) : c ∉ setOff cs := by
  cases cs with
  | nil => exact List.not_mem_nil
  | cons d ds => exact List.not_mem_cons_of_ne_of_not_mem hc h

theorem cons_blank_eq_setOff (cs : List Char) : ∃ blanks, ' ' :: cs = setOff cs ++ blanks ∧
    ∀ b ∈ blanks, isBlank b = true := by
  cases cs with
  | nil => exact ⟨[' '], rfl, List.forall_mem_singleton.2 (by decide)⟩
  | cons c cs => exact ⟨[], (List.append_nil _).symm, List.forall_mem_nil _⟩

/-- A word is cut off where a blank follows it, and is all there is where none does. -/
theorem word_append_inj (hc : ' ' ∉ cs) (hd : ' ' ∉ ds) (h : cs ++ setOff rs = ds ++ ' ' :: rs') :
    cs = ds ∧ rs = rs' := by
  cases rs with
  | nil =>
    rw [setOff, List.append_nil] at h
    exact absurd (h ▸ List.mem_append_right _ (List.mem_cons_self ..)) hc
  | cons r rs => exact cut_inj hc hd h

/-! ## Ends of text -/

/-- The last character is there and is no blank. -/
def EndsSolid (cs : List Char) : Prop :=
  ∃ before c, cs = before ++ [c] ∧ isBlank c = false

theorem Solid.endsSolid (h : Solid cs) (hne : cs ≠ []) : EndsSolid cs :=
  ⟨cs.dropLast, cs.getLast hne, (List.dropLast_append_getLast hne).symm, h _ (List.getLast_mem hne)⟩

theorem EndsSolid.append_left (h : EndsSolid cs) (ds : List Char) : EndsSolid (ds ++ cs) := by
  obtain ⟨before, c, rfl, hc⟩ := h
  exact ⟨ds ++ before, c, (List.append_assoc ..).symm, hc⟩

/-- Trimming takes off the blanks that follow the last character that is none. -/
theorem toList_trimEnd_of_endsSolid {s : String} {blanks : List Char} (hs : s.toList = cs ++ blanks)
    (hb : ∀ c ∈ blanks, isBlank c = true) (hc : EndsSolid cs) : (trimEnd s).toList = cs := by
  obtain ⟨before, c, rfl, hc⟩ := hc
  have hblanks : ∀ c ∈ blanks.reverse, isBlank c = true := fun c h => hb c (List.mem_reverse.1 h)
  rw [toList_trimEnd, hs, List.reverse_append, List.dropWhile_append_of_pos hblanks, List.reverse_append,
    List.reverse_singleton, List.singleton_append, List.dropWhile_cons_of_neg (by rw [hc]; decide),
    List.reverse_cons, List.reverse_reverse]

/-! ## Items -/

/-- The items, with a comma and a blank between any two. -/
def commaList (items : List (List Char)) : List Char :=
  [',', ' '].intercalate items

theorem toList_intercalate_comma (items : List String) :
    (", ".intercalate items).toList = commaList (items.map String.toList) :=
  String.toList_intercalate

theorem commaList_cons_cons (x y : List Char) (items : List (List Char)) :
    commaList (x :: y :: items) = x ++ ',' :: ' ' :: commaList (y :: items) := by
  rw [commaList, List.intercalate_cons_cons, List.append_assoc]
  rfl

theorem commaList_singleton (x : List Char) : commaList [x] = x :=
  List.intercalate_singleton

theorem commaList_ne_nil {x : List Char} (hx : x ≠ []) (items : List (List Char)) : commaList (x :: items) ≠ [] := by
  cases items with
  | nil => rwa [commaList_singleton]
  | cons y items => simp [commaList_cons_cons]

/-- The text is a word without a comma. -/
structure IsItem (cs : List Char) : Prop where
  ne_nil : cs ≠ []
  solid : Solid cs
  noComma : ',' ∉ cs

/-- A list of items is a list of those alone. -/
theorem commaList_inj {xs ys : List (List Char)} (hx : ∀ x ∈ xs, IsItem x) (hy : ∀ y ∈ ys, IsItem y)
    (h : commaList xs = commaList ys) : xs = ys := by
  induction xs generalizing ys with
  | nil =>
    cases ys with
    | nil => rfl
    | cons y ys => exact absurd h.symm (commaList_ne_nil (hy y (List.mem_cons_self ..)).ne_nil ys)
  | cons x xs ih =>
    rw [List.forall_mem_cons] at hx
    obtain ⟨hx, hxs⟩ := hx
    cases ys with
    | nil => exact absurd h (commaList_ne_nil hx.ne_nil xs)
    | cons y ys =>
      rw [List.forall_mem_cons] at hy
      obtain ⟨hy, hys⟩ := hy
      -- a comma follows the first item just when there is another one
      cases xs with
      | nil =>
        cases ys with
        | nil =>
          rw [commaList_singleton, commaList_singleton] at h
          rw [h]
        | cons y' ys =>
          rw [commaList_singleton, commaList_cons_cons] at h
          exact absurd (h ▸ List.mem_append_right _ (List.mem_cons_self ..)) hx.noComma
      | cons x' xs =>
        cases ys with
        | nil =>
          rw [commaList_singleton, commaList_cons_cons] at h
          exact absurd (h ▸ List.mem_append_right _ (List.mem_cons_self ..)) hy.noComma
        | cons y' ys =>
          rw [commaList_cons_cons, commaList_cons_cons] at h
          obtain ⟨rfl, hr⟩ := cut_inj hx.noComma hy.noComma h
          rw [ih hxs hys (List.tail_eq_of_cons_eq hr)]

theorem intercalate_comma_inj {xs ys : List String} (hx : ∀ x ∈ xs, IsItem x.toList) (hy : ∀ y ∈ ys, IsItem y.toList)
    (h : ", ".intercalate xs = ", ".intercalate ys) : xs = ys := by
  replace h := congrArg String.toList h
  rw [toList_intercalate_comma, toList_intercalate_comma] at h
  exact List.map_injective_iff.2 (fun _ _ => String.toList_inj.1)
    (commaList_inj (List.forall_mem_map.2 hx) (List.forall_mem_map.2 hy) h)

theorem commaList_endsSolid {xs : List (List Char)} (hx : ∀ x ∈ xs, IsItem x) (hne : xs ≠ []) :
    EndsSolid (commaList xs) := by
  induction xs with
  | nil => exact absurd rfl hne
  | cons x xs ih =>
    rw [List.forall_mem_cons] at hx
    obtain ⟨hx, hxs⟩ := hx
    cases xs with
    | nil => rw [commaList_singleton]; exact hx.solid.endsSolid hx.ne_nil
    | cons y xs =>
      rw [commaList_cons_cons]
      exact ((ih hxs (List.cons_ne_nil _ _)).append_left [',', ' ']).append_left x

theorem newline_notMem_commaList {xs : List (List Char)} (hx : ∀ x ∈ xs, '\n' ∉ x) : '\n' ∉ commaList xs := by
  induction xs with
  | nil => simp [commaList]
  | cons x xs ih =>
    rw [List.forall_mem_cons] at hx
    cases xs with
    | nil => rw [commaList_singleton]; exact hx.1
    | cons y xs => simp [commaList_cons_cons, hx.1, ih hx.2]

/-! ## Lines -/

/-- The text is one line with its end. -/
def IsLine (s : String) : Prop :=
  ∃ cs, '\n' ∉ cs ∧ s.toList = cs ++ ['\n']

/-- Lines that are written one after another are told apart by their ends. -/
theorem join_inj {ls ls' : List String} (hl : ∀ l ∈ ls, IsLine l) (hl' : ∀ l ∈ ls', IsLine l)
    (h : String.join ls = String.join ls') : ls = ls' := by
  replace h : ls.flatMap String.toList = ls'.flatMap String.toList := by
    rw [← String.toList_join, ← String.toList_join, h]
  induction ls generalizing ls' with
  | nil =>
    cases ls' with
    | nil => rfl
    | cons l' ls' =>
      obtain ⟨cs, -, hcs⟩ := hl' l' (List.mem_cons_self ..)
      simp [hcs] at h
  | cons l ls ih =>
    rw [List.forall_mem_cons] at hl
    obtain ⟨⟨cs, hn, hcs⟩, hrest⟩ := hl
    cases ls' with
    | nil => simp [hcs] at h
    | cons l' ls' =>
      rw [List.forall_mem_cons] at hl'
      obtain ⟨⟨cs', hn', hcs'⟩, hrest'⟩ := hl'
      rw [List.flatMap_cons, List.flatMap_cons, hcs, hcs', List.append_assoc, List.append_assoc] at h
      obtain ⟨rfl, hr⟩ := cut_inj hn hn' h
      obtain rfl : l = l' := String.toList_inj.1 (hcs.trans hcs'.symm)
      rw [ih hrest hrest' hr]

end Lanewise.Text
