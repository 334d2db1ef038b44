/-
The types of a graph made by building. A type is asked for by its form and answered by its position; positions
are equal just when the trees they stand for are, and just when their names are.
-/
import Lanewise.Proofs.Graph.WellFormed
import Lanewise.Proofs.Types.Name

namespace Lanewise.Graph

variable {g g' : Graph} {c : Command} {t : TypeId} {form : TypeForm}

/-- Interning is canonical: types, forms and trees are one to one, and no building changes what a type stands for.
-/
structure CanonicalTypes (g : Graph) : Prop where
  nodup : g.types.forms.toList.Nodup
  inverse : ∀ form t, g.types.index.lookup form = some t ↔ g.types.form? t = some form
  older : ∀ t form, g.types.form? t = some form → ∀ part ∈ form.components, part.index < t.index
  admissible : ∀ t form, g.types.form? t = some form → form.Admissible g.types
  unfolds : ∀ t, g.types.tree? t = (g.types.form? t).bind g.types.formTree?
  distinct : ∀ a b, g.HasType a → g.HasType b →
    ∃ s t, g.types.tree? a = some s ∧ g.types.tree? b = some t ∧ (a = b ↔ s = t)
  answered : ∀ (c : Command) form t g', c.form? = some form → c.perform g = (.ok (.type t), g') →
    g'.types.form? t = some form
  again : ∀ (c : Command) form t, c.form? = some form → g.types.form? t = some form →
    c.perform g = (.ok (.type t), g)
  lasting : ∀ (commands : List Command) t, g.HasType t →
    (commands.foldl after g).types.form? t = g.types.form? t ∧
    (commands.foldl after g).types.tree? t = g.types.tree? t

theorem HasType.lt (h : g.HasType t) : t.index < g.types.size := by
  obtain ⟨form, hf⟩ := h
  exact TypeTable.form?_eq_some_lt hf

theorem WF.exists_trees (hw : g.WF) {a b : TypeId} (ha : g.HasType a) (hb : g.HasType b) :
    ∃ s t, g.types.tree? a = some s ∧ g.types.tree? b = some t ∧ (a = b ↔ s = t) := by
  obtain ⟨s, hs⟩ := Option.isSome_iff_exists.1 (TypeTable.tree?_isSome hw.types ha.lt)
  obtain ⟨t, ht⟩ := Option.isSome_iff_exists.1 (TypeTable.tree?_isSome hw.types hb.lt)
  refine ⟨s, t, hs, ht, fun h => ?_, fun h => ?_⟩
  · subst h
    exact Option.some.inj (hs.symm.trans ht)
  · subst h
    exact TypeTable.tree?_inj hw.types hs ht

theorem WF.form?_of_perform (hw : g.WF) (hc : c.form? = some form) (h : c.perform g = (.ok (.type t), g')) :
    g'.types.form? t = some form := by
  cases perform_eq_ok_iff.1 h with
  | type hc' ha =>
    cases hc.symm.trans hc'
    exact TypeTable.form?_intern_self hw.types form

/-- A command that asks for a form the graph has is answered with its type and changes nothing. -/
theorem WF.perform_form (hw : g.WF) (hc : c.form? = some form) (hf : g.types.form? t = some form) :
    c.perform g = (.ok (.type t), g) := by
  have ha := Accepts.type hc (hw.types.admissible t form hf)
  rw [Graph.withForm, TypeTable.intern_of_form? hw.types hf] at ha
  exact perform_eq_ok_iff.2 ha

theorem Reachable.types_foldl_after (h : g.Reachable) (commands : List Command) (ht : g.HasType t) :
    (commands.foldl Graph.after g).types.form? t = g.types.form? t ∧
      (commands.foldl Graph.after g).types.tree? t = g.types.tree? t := by
  have he := foldl_after_extends g commands
  have hw := (h.foldl_after commands).wf
  obtain ⟨form, hf⟩ := ht
  exact ⟨(he.form t form hf).trans hf.symm,
    TypeTable.tree?_of_keeps h.wf.types hw.types he.form (TypeTable.form?_eq_some_lt hf)⟩

/-- The types of every graph made by building are canonical. -/
theorem types_canonical (h : g.Reachable) : g.CanonicalTypes where
  nodup := h.wf.types.nodup
  inverse := h.wf.types.lookup
  older := h.wf.types.older
  admissible := h.wf.types.admissible
  unfolds := TypeTable.tree?_eq h.wf.types
  distinct := fun _ _ => h.wf.exists_trees
  answered := fun _ _ _ _ => h.wf.form?_of_perform
  again := fun _ _ _ => h.wf.perform_form
  lasting := fun commands _ => h.types_foldl_after commands

/-- Asking the sample for its struct again answers the struct it has. -/
theorem types_canonical_sample : sample.Reachable ∧ sample.types.form? ⟨3⟩ = some (.struct [⟨0⟩, ⟨2⟩]) ∧
    (Command.structType [⟨0⟩, ⟨2⟩]).perform sample = (.ok (.type ⟨3⟩), sample) := by
  have hf : sample.types.form? ⟨3⟩ = some (.struct [⟨0⟩, ⟨2⟩]) := by decide +kernel
  exact ⟨sample_reachable, hf, (types_canonical sample_reachable).again _ _ _ rfl hf⟩

/-- The name of a type identifies it among all types, those that the graph has and those that it has not. -/
theorem typeName_eq_iff (h : g.Reachable) (a b : TypeId) : g.typeName a = g.typeName b ↔ a = b :=
  TypeTable.name_inj h.wf.types

/-- The sample has a type at 3 and none at 4. -/
theorem typeName_eq_iff_sample : sample.Reachable ∧ sample.typeName ⟨3⟩ = "\x7b i8, <2 x float> \x7d" ∧
    sample.typeName ⟨4⟩ = "<bad type #4>" ∧
    (sample.typeName ⟨3⟩ = sample.typeName ⟨4⟩ ↔ (⟨3⟩ : TypeId) = ⟨4⟩) :=
  ⟨sample_reachable, by decide +kernel, by decide +kernel, typeName_eq_iff sample_reachable _ _⟩

end Lanewise.Graph
