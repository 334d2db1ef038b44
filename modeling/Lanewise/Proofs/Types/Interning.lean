/-
Interning is canonical. In a table made by interning every form stands once, the index is its inverse, and
the parts of a type are older than the type; so each type of the table stands for a tree, no two types
stand for the same tree, and interning changes the tree of no type that is there.
-/
import Lanewise.Types.Table
import Mathlib.Tactic

namespace Lanewise

/-! ## Components, one by one -/

section
variable {α β : Type} {f g : α → Option β}

theorem mapM_congr {xs : List α} (h : ∀ x ∈ xs, f x = g x) : xs.mapM f = xs.mapM g := by
  induction xs with
  | nil => rfl
  | cons x xs ih =>
    rw [List.forall_mem_cons] at h
    rw [List.mapM_cons, List.mapM_cons, h.1, ih h.2]

theorem mapM_isSome {xs : List α} (h : ∀ x ∈ xs, (f x).isSome) : (xs.mapM f).isSome := by
  induction xs with
  | nil => rfl
  | cons x xs ih =>
    rw [List.forall_mem_cons] at h
    obtain ⟨y, hy⟩ := Option.isSome_iff_exists.1 h.1
    obtain ⟨ys, hys⟩ := Option.isSome_iff_exists.1 (ih h.2)
    simp [List.mapM_cons, hy, hys]

theorem mapM_cons_eq_some {x : α} {xs : List α} {zs : List β} :
    (x :: xs).mapM f = some zs ↔ ∃ y ys, f x = some y ∧ xs.mapM f = some ys ∧ zs = y :: ys := by
  simp only [List.mapM_cons, Option.bind_eq_bind, Option.bind_eq_some_iff, Option.pure_def, Option.some.injEq]
  constructor
  · rintro ⟨y, hy, ys, hys, rfl⟩; exact ⟨y, ys, hy, hys, rfl⟩
  · rintro ⟨y, ys, hy, hys, rfl⟩; exact ⟨y, hy, ys, hys, rfl⟩

theorem mapM_inj {xs ys : List α} {zs : List β} (h : ∀ x ∈ xs, ∀ y z, f x = some z → f y = some z → x = y)
    (hx : xs.mapM f = some zs) (hy : ys.mapM f = some zs) : xs = ys := by
  induction xs generalizing ys zs with
  | nil =>
    cases hx
    cases ys with
    | nil => rfl
    | cons y ys => obtain ⟨_, _, -, -, ⟨⟩⟩ := mapM_cons_eq_some.1 hy
  | cons x xs ih =>
    rw [List.forall_mem_cons] at h
    obtain ⟨z, zs, hz, hzs, rfl⟩ := mapM_cons_eq_some.1 hx
    cases ys with
    | nil => cases hy
    | cons y ys =>
      obtain ⟨_, _, hz', hzs', ⟨⟩⟩ := mapM_cons_eq_some.1 hy
      rw [h.1 y z hz hz', ih h.2 hzs hzs']

end

/-! ## The forms a table takes -/

/-- Integers of 1 to 64 bits; vectors of at least one lane over integers, floats or pointers; arrays and
structs of anything but void; and void, floats and pointers as they are. Parts are types of the table. -/
def TypeForm.Admissible (table : TypeTable) : TypeForm → Prop
  | .int bits => 1 ≤ bits ∧ bits ≤ 64
  | .vector element lanes =>
    (∃ form, table.form? element = some form ∧ form.isVectorElement = true) ∧ lanes ≠ 0
  | .array element _ => ∃ form, table.form? element = some form ∧ form ≠ .void
  | .struct fields => ∀ field ∈ fields, ∃ form, table.form? field = some form ∧ form ≠ .void
  | _ => True

namespace TypeTable

variable {table : TypeTable} {t : TypeId} {form f : TypeForm}

/-- The invariant of tables made by interning. -/
structure WF (table : TypeTable) : Prop where
  lookup : ∀ form t, table.index.lookup form = some t ↔ table.form? t = some form
  older : ∀ t form, table.form? t = some form → ∀ c ∈ form.components, c.index < t.index
  admissible : ∀ t form, table.form? t = some form → form.Admissible table

theorem form?_eq_some_lt (h : table.form? t = some form) : t.index < table.size :=
  (Array.getElem?_eq_some_iff.1 h).1

theorem exists_form? (h : t.index < table.size) : ∃ form, table.form? t = some form :=
  ⟨table.forms[t.index], Array.getElem?_eq_getElem h⟩

theorem WF.form?_inj (hw : table.WF) {a b : TypeId} (ha : table.form? a = some form)
    (hb : table.form? b = some form) : a = b :=
  Option.some.inj (((hw.lookup form a).2 ha).symm.trans ((hw.lookup form b).2 hb))

theorem WF.nodup (hw : table.WF) : table.forms.toList.Nodup := by
  rw [List.nodup_iff_injective_get]
  intro i j hij
  have hi : table.form? ⟨i⟩ = some (table.forms.toList.get i) := by simp [form?]
  have hj : table.form? ⟨j⟩ = some (table.forms.toList.get j) := by simp [form?]
  have := hw.form?_inj hi (hij ▸ hj)
  exact Fin.ext (TypeId.mk.inj this)

theorem component_lt (ha : form.Admissible table) {c : TypeId} (hc : c ∈ form.components) :
    c.index < table.size := by
  cases form with
  | vector element lanes =>
    obtain ⟨⟨f, hf, -⟩, -⟩ := ha
    cases List.mem_singleton.1 hc
    exact form?_eq_some_lt hf
  | array element length =>
    obtain ⟨f, hf, -⟩ := ha
    cases List.mem_singleton.1 hc
    exact form?_eq_some_lt hf
  | struct fields =>
    obtain ⟨f, hf, -⟩ := ha c hc
    exact form?_eq_some_lt hf
  | _ => cases hc

/-! ## Interning -/

def push (table : TypeTable) (form : TypeForm) : TypeTable :=
  { forms := table.forms.push form, index := (form, ⟨table.size⟩) :: table.index }

/-- A form that has a type gets that type; any other form gets a new one. -/
theorem intern_cases (table : TypeTable) (form : TypeForm) :
    (∃ t, table.index.lookup form = some t ∧ table.intern form = (t, table)) ∨
    (table.index.lookup form = none ∧ table.intern form = (⟨table.size⟩, table.push form)) := by
  unfold intern
  cases h : table.index.lookup form with
  | some t => exact .inl ⟨t, rfl, rfl⟩
  | none => exact .inr ⟨rfl, rfl⟩

theorem form?_push (form : TypeForm) :
    (table.push form).form? t = if t.index = table.size then some form else table.form? t :=
  Array.getElem?_push

theorem form?_push_of_some (form : TypeForm) (h : table.form? t = some f) :
    (table.push form).form? t = some f := by
  have hlt : t.index < table.size := form?_eq_some_lt h
  rw [form?_push, if_neg (Nat.ne_of_lt hlt), h]

theorem form?_intern (form : TypeForm) (h : table.form? t = some f) :
    (table.intern form).2.form? t = some f := by
  rcases intern_cases table form with ⟨_, -, hi⟩ | ⟨-, hi⟩
  · rw [hi]; exact h
  · rw [hi]; exact form?_push_of_some form h

theorem admissible_push (form : TypeForm) (ha : f.Admissible table) : f.Admissible (table.push form) := by
  cases f with
  | vector element lanes =>
    obtain ⟨⟨e, he, hv⟩, hl⟩ := ha
    exact ⟨⟨e, form?_push_of_some form he, hv⟩, hl⟩
  | array element length =>
    obtain ⟨e, he, hv⟩ := ha
    exact ⟨e, form?_push_of_some form he, hv⟩
  | struct fields =>
    intro field hm
    obtain ⟨e, he, hv⟩ := ha field hm
    exact ⟨e, form?_push_of_some form he, hv⟩
  | _ => exact ha

theorem empty_wf : WF {} := by
  refine ⟨fun form t => ?_, fun t form h => ?_, fun t form h => ?_⟩
  · simp [form?]
  · simp [form?] at h
  · simp [form?] at h

/-- The index stays the inverse of the table when a form is pushed that has no type. -/
theorem lookup_push (hw : table.WF) (hl : table.index.lookup form = none) :
    (table.push form).index.lookup f = some t ↔ (table.push form).form? t = some f := by
  have hnew : table.form? t ≠ some form := fun ht => by
    rw [(hw.lookup form t).2 ht] at hl; cases hl
  have hfree : table.form? ⟨table.size⟩ ≠ some f := fun ht => Nat.lt_irrefl _ (form?_eq_some_lt ht)
  obtain ⟨i⟩ := t
  rw [form?_push]
  show (List.lookup f ((form, ⟨table.size⟩) :: table.index) = some ⟨i⟩) ↔ _
  rw [List.lookup_cons]
  -- the new form stands at no older position, and the new position holds no other form
  by_cases hf : f = form
  · by_cases ht : i = table.size
    · simp [hf, ht]
    · have hne : (⟨table.size⟩ : TypeId) ≠ ⟨i⟩ := fun h => ht (TypeId.mk.inj h).symm
      rw [hf, beq_self_eq_true, if_neg ht]
      exact ⟨fun h => absurd (Option.some.inj h) hne, fun h => absurd h hnew⟩
  · rw [beq_false_of_ne hf]
    by_cases ht : i = table.size
    · subst ht
      rw [if_pos rfl]
      exact ⟨fun h => absurd ((hw.lookup f _).1 h) hfree, fun h => absurd (Option.some.inj h).symm hf⟩
    · rw [if_neg ht]
      exact hw.lookup f ⟨i⟩

theorem push_wf (hw : table.WF) (ha : form.Admissible table) (hl : table.index.lookup form = none) :
    (table.push form).WF := by
  refine ⟨fun f t => lookup_push hw hl, fun t f h c hc => ?_, fun t f h => ?_⟩
  · rw [form?_push] at h
    split at h
    · rename_i ht
      cases h
      exact ht ▸ component_lt ha hc
    · exact hw.older t f h c hc
  · rw [form?_push] at h
    split at h
    · cases h; exact admissible_push _ ha
    · exact admissible_push _ (hw.admissible t f h)

theorem intern_wf (hw : table.WF) (ha : form.Admissible table) : (table.intern form).2.WF := by
  rcases intern_cases table form with ⟨t, -, hi⟩ | ⟨hl, hi⟩
  · rw [hi]; exact hw
  · rw [hi]; exact push_wf hw ha hl

theorem form?_intern_self (hw : table.WF) (form : TypeForm) :
    (table.intern form).2.form? (table.intern form).1 = some form := by
  rcases intern_cases table form with ⟨t, hl, hi⟩ | ⟨-, hi⟩ <;> rw [hi]
  · exact (hw.lookup form t).1 hl
  · rw [form?_push, if_pos rfl]

theorem intern_of_form? (hw : table.WF) (h : table.form? t = some form) : table.intern form = (t, table) := by
  unfold intern
  rw [(hw.lookup form t).2 h]

/-! ## Trees -/

/-- The tree of a form, whose parts stand for trees of the table. -/
def formTree? (table : TypeTable) : TypeForm → Option TypeTree
  | .void => some .void
  | .int bits => some (.int bits)
  | .float precision => some (.float precision)
  | .pointer => some .pointer
  | .vector element lanes => (table.tree? element).map (.vector · lanes)
  | .array element length => (table.tree? element).map (.array · length)
  | .struct fields => (fields.mapM table.tree?).map .struct

/-- A type stands for the tree of its form: the parts of a type are always older. -/
theorem tree?_eq (hw : table.WF) (t : TypeId) : table.tree? t = (table.form? t).bind table.formTree? := by
  rw [tree?]
  cases hf : table.form? t with
  | none => rfl
  | some form =>
    have hold := hw.older t form hf
    cases form with
    | vector element lanes => exact if_pos (hold element (List.mem_singleton.2 rfl))
    | array element length => exact if_pos (hold element (List.mem_singleton.2 rfl))
    | struct fields =>
      exact congrArg (Option.map TypeTree.struct) (mapM_congr fun field hm => if_pos (hold field hm))
    | _ => rfl

theorem tree?_isSome (hw : table.WF) (ht : t.index < table.size) : (table.tree? t).isSome := by
  obtain ⟨i⟩ := t
  induction i using Nat.strong_induction_on with
  | _ i ih =>
    obtain ⟨form, hf⟩ := exists_form? ht
    have hpart : ∀ c ∈ form.components, (table.tree? c).isSome := fun c hc =>
      ih c.index (hw.older _ form hf c hc) (component_lt (hw.admissible _ form hf) hc)
    rw [tree?_eq hw, hf]
    cases form with
    | vector element lanes => simpa [formTree?] using hpart element (List.mem_singleton.2 rfl)
    | array element length => simpa [formTree?] using hpart element (List.mem_singleton.2 rfl)
    | struct fields => exact Option.isSome_map.trans (mapM_isSome hpart)
    | _ => rfl

/-- Forms with the same tree are one form, once their parts are told apart by their trees. -/
theorem formTree?_inj {a b : TypeForm} {tree : TypeTree}
    (h : ∀ c ∈ a.components, ∀ d s, table.tree? c = some s → table.tree? d = some s → c = d)
    (ha : table.formTree? a = some tree) (hb : table.formTree? b = some tree) : a = b := by
  cases a with
  | vector element lanes =>
    obtain ⟨s, hs, rfl⟩ := Option.map_eq_some_iff.1 ha
    cases b with
    | vector element' lanes' =>
      obtain ⟨s', hs', ⟨⟩⟩ := Option.map_eq_some_iff.1 hb
      rw [h element (List.mem_singleton.2 rfl) element' _ hs hs']
    | _ => simp [formTree?] at hb
  | array element length =>
    obtain ⟨s, hs, rfl⟩ := Option.map_eq_some_iff.1 ha
    cases b with
    | array element' length' =>
      obtain ⟨s', hs', ⟨⟩⟩ := Option.map_eq_some_iff.1 hb
      rw [h element (List.mem_singleton.2 rfl) element' _ hs hs']
    | _ => simp [formTree?] at hb
  | struct fields =>
    obtain ⟨s, hs, rfl⟩ := Option.map_eq_some_iff.1 ha
    cases b with
    | struct fields' =>
      obtain ⟨s', hs', ⟨⟩⟩ := Option.map_eq_some_iff.1 hb
      exact congrArg TypeForm.struct (mapM_inj h hs hs')
    | _ => simp [formTree?] at hb
  | _ => cases ha; cases b <;> simp_all [formTree?]

theorem tree?_inj (hw : table.WF) {a b : TypeId} {tree : TypeTree} (ha : table.tree? a = some tree)
    (hb : table.tree? b = some tree) : a = b := by
  -- one tree gives one form, as the parts of `a` are older than `a`; and a form stands once
  obtain ⟨i⟩ := a
  induction i using Nat.strong_induction_on generalizing b tree with
  | _ i ih =>
    rw [tree?_eq hw] at ha hb
    obtain ⟨f, hf, hfa⟩ := Option.bind_eq_some_iff.1 ha
    obtain ⟨f', hf', hfb⟩ := Option.bind_eq_some_iff.1 hb
    have hpart : ∀ c ∈ f.components, ∀ d s, table.tree? c = some s → table.tree? d = some s → c = d :=
      fun c hc d s hs hd => ih c.index (hw.older _ f hf c hc) hd hs
    obtain rfl := formTree?_inj hpart hfa hfb
    exact hw.form?_inj hf hf'

/-- A table that keeps the types of another one keeps their trees. -/
theorem tree?_of_keeps {other : TypeTable} (hw : table.WF) (ho : other.WF)
    (hk : ∀ t form, table.form? t = some form → other.form? t = some form) (ht : t.index < table.size) :
    other.tree? t = table.tree? t := by
  obtain ⟨i⟩ := t
  induction i using Nat.strong_induction_on with
  | _ i ih =>
    obtain ⟨form, hf⟩ := exists_form? ht
    have hpart : ∀ c ∈ form.components, other.tree? c = table.tree? c := fun c hc =>
      ih c.index (hw.older _ form hf c hc) (component_lt (hw.admissible _ form hf) hc)
    rw [tree?_eq hw, tree?_eq ho, hf, hk _ _ hf]
    show other.formTree? form = table.formTree? form
    cases form with
    | vector element lanes => rw [formTree?, formTree?, hpart element (List.mem_singleton.2 rfl)]
    | array element length => rw [formTree?, formTree?, hpart element (List.mem_singleton.2 rfl)]
    | struct fields => exact congrArg (Option.map TypeTree.struct) (mapM_congr hpart)
    | _ => rfl

end TypeTable

end Lanewise
