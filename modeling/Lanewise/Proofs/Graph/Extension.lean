/-
Building only extends a graph: every type keeps its form, and every value keeps its type and its content but
for the incoming values of a phi.
-/
import Lanewise.Proofs.Graph.Acceptance

namespace Lanewise

/-! ## Contents -/

namespace Content

@[simp] theorem withOperands_withOperands (vs ws : Array ValueId) (c : Content) :
    (c.withOperands vs).withOperands ws = c.withOperands ws := by
  cases c <;> rfl

/-- A content as it may stand later: the same, or a phi with other operands. -/
def Revises (c c' : Content) : Prop :=
  c' = c ∨ c.opcode? = some .phi ∧ ∃ vs, c' = c.withOperands vs

variable {c c' c'' : Content}

theorem Revises.trans (h : c.Revises c') (h' : c'.Revises c'') : c.Revises c'' := by
  rcases h with rfl | ⟨hp, vs, rfl⟩
  · exact h'
  rcases h' with rfl | ⟨-, ws, rfl⟩
  · exact .inr ⟨hp, vs, rfl⟩
  · exact .inr ⟨hp, ws, withOperands_withOperands vs ws c⟩

theorem Revises.kind_eq (h : c.Revises c') : c'.kind = c.kind := by
  rcases h with rfl | ⟨-, vs, rfl⟩
  · rfl
  · exact kind_withOperands vs c

end Content

/-! ## Graphs -/

namespace Graph

variable {g g' g'' : Graph} {c : Command} {r : Reply} {v : ValueId} {t : TypeId}

/-- What every graph built from `g` keeps of it. -/
structure Extends (g g' : Graph) : Prop where
  form : ∀ t form, g.types.form? t = some form → g'.types.form? t = some form
  node : ∀ v node, g.node? v = some node →
    ∃ node', g'.node? v = some node' ∧ node'.type = node.type ∧ node.content.Revises node'.content

namespace Extends

theorem refl (g : Graph) : g.Extends g :=
  ⟨fun _ _ h => h, fun _ node h => ⟨node, h, rfl, .inl rfl⟩⟩

theorem trans (h : g.Extends g') (h' : g'.Extends g'') : g.Extends g'' := by
  refine ⟨fun t form hf => h'.form t form (h.form t form hf), fun v node hn => ?_⟩
  obtain ⟨n', hn', ht', hc'⟩ := h.node v node hn
  obtain ⟨n'', hn'', ht'', hc''⟩ := h'.node v n' hn'
  exact ⟨n'', hn'', ht''.trans ht', hc'.trans hc''⟩

theorem hasType (h : g.Extends g') (ht : g.HasType t) : g'.HasType t := by
  obtain ⟨form, hf⟩ := ht
  exact ⟨form, h.form t form hf⟩

theorem hasValue (h : g.Extends g') (hv : g.HasValue v) : g'.HasValue v := by
  obtain ⟨node, hn⟩ := hv
  obtain ⟨node', hn', -⟩ := h.node v node hn
  exact ⟨node', hn'⟩

theorem fills (h : g.Extends g') {form : TypeForm} {elements : List ValueId} (hf : g.Fills form elements) :
    g'.Fills form elements := by
  refine ⟨hf.1, fun i v hi => ?_⟩
  obtain ⟨node, hn, hk, he⟩ := hf.2 i v hi
  obtain ⟨node', hn', ht, hc⟩ := h.node v node hn
  exact ⟨node', hn', by rw [hc.kind_eq, hk], by rw [ht, he]⟩

end Extends

theorem withForm_extends (g : Graph) (form : TypeForm) : g.Extends (g.withForm form) :=
  ⟨fun _ _ hf => TypeTable.form?_intern form hf, fun _ node hn => ⟨node, hn, rfl, .inl rfl⟩⟩

theorem withNode_extends (g : Graph) (node : Node) : g.Extends (g.withNode node) :=
  ⟨fun _ _ hf => hf, fun _ n hn => ⟨n, node?_withNode_of_some hn, rfl, .inl rfl⟩⟩

theorem withName_extends (g : Graph) (v : ValueId) (name : String) : g.Extends (g.withName v name) := by
  refine ⟨fun _ _ hf => hf, fun w node hn => ?_⟩
  rw [node?_withName, hn]
  split
  · exact ⟨_, rfl, rfl, .inl rfl⟩
  · exact ⟨_, rfl, rfl, .inl rfl⟩

theorem withIncoming_extends {node : Node} (hn : g.node? v = some node)
    (hp : node.content.opcode? = some .phi) (incoming : List ValueId) : g.Extends (g.withIncoming v incoming) := by
  refine ⟨fun _ _ hf => hf, fun w n hw => ?_⟩
  rw [node?_withIncoming, hw]
  split
  · rename_i he
    subst he
    -- the value that is changed is the phi
    cases hn.symm.trans hw
    exact ⟨_, rfl, rfl, .inr ⟨hp, _, rfl⟩⟩
  · exact ⟨_, rfl, rfl, .inl rfl⟩

theorem Accepts.extends (h : g.Accepts c r g') : g.Extends g' := by
  cases h with
  | type hc ha => exact withForm_extends g _
  | value hm => exact withNode_extends g _
  | argument ht => exact (withNode_extends g _).trans (withName_extends _ _ _)
  | setPhiIncoming hn hp hi => exact withIncoming_extends hn hp _
  | setName hv => exact withName_extends g _ _

theorem after_extends (g : Graph) (c : Command) : g.Extends (g.after c) := by
  rcases after_cases g c with h | ⟨r, h⟩
  · rw [h]; exact .refl g
  · exact h.extends

theorem foldl_after_extends (g : Graph) (cs : List Command) : g.Extends (cs.foldl after g) := by
  induction cs generalizing g with
  | nil => exact .refl g
  | cons c cs ih => exact (after_extends g c).trans (ih (g.after c))

theorem extends_of_eq_append {commands earlier later : List Command} (he : commands = earlier ++ later) :
    (earlier.foldl after g).Extends (commands.foldl after g) := by
  rw [he, List.foldl_append]
  exact foldl_after_extends _ _

end Graph

end Lanewise
